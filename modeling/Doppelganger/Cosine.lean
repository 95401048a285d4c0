import Doppelganger.Embedding
import Doppelganger.Scoring
import Mathlib.Analysis.InnerProductSpace.PiL2
import Mathlib.Geometry.Euclidean.Angle.Unoriented.Basic

/-!
# Cosine scores without rounding errors

`cosine_similarity`, and what `verify` makes of the score, with an arbitrary ordered field in place
of float32 and an arbitrary function for its square root. Over the reals a list of `n` numbers is
read as a vector of dimension `n` (`vec`), and the score is the cosine of the angle between two
vectors (`cosineSimilarity_eq_cos`): the zero vector is at a right angle to every other one, which
is what the guard in the source returns. `cosine_laws` follows from the laws of angles.

`reals` is numpy with real numbers in place of float32; `cosineSimilarity_reals` says that the scores
of the server are then these.
-/

open InnerProductGeometry

namespace Exact

/-! ## The source -/

section

variable {K : Type*} [Field K] [LinearOrder K] (sqrt : K → K)

/-- `np.dot` of two flat lists; `none` where it raises. -/
def dot (a b : List K) : Option K :=
  if a.length = b.length then some (List.zipWith (· * ·) a b).sum else none

/-- `np.linalg.norm`. -/
def norm (a : List K) : K := sqrt (a.map fun x => x * x).sum

/-- `x / y`; `none` where it is infinite or not a number. -/
def quotient (x y : K) : Option K := if y = 0 then none else some (x / y)

/-- `EmbeddingClient.cosine_similarity`; `none` where it raises, or returns infinity or NaN. -/
def cosineSimilarity (a b : List K) : Option K :=
  if norm sqrt a = 0 ∨ norm sqrt b = 0 then some 0
  else (dot a b).bind fun x => quotient x (norm sqrt a * norm sqrt b)

/-- `score >= current_app.config["SIMILARITY_THRESHOLD"]`. -/
def passed (threshold score : K) : Bool := threshold ≤ score

/-- `round(score * 100)`. -/
def pct [FloorRing K] (score : K) : ℤ := roundEven (score * 100)

end

example : cosineSimilarity (fun x : ℚ => if x = 25 then 5 else 0) [3, 4] [4, 3] = some (24 / 25) := by
  decide +kernel

/-- A rational score is reported by the routes as it is here. -/
theorem pct_cast (score : ℚ) : pct (score : ℝ) = Doppelganger.pct score := by
  have hround : RoundsTo (score * 100) (Doppelganger.pct score) :=
    roundEven_roundsTo (score * 100)
  have hcast : ∀ x y : ℚ, (x : ℝ) = y → x = y := fun x y => by exact_mod_cast id
  refine (roundEven_roundsTo _).unique ⟨?_, ?_, fun h => ?_, fun h => ?_⟩
  · have hbelow := (Rat.cast_le (K := ℝ)).mpr hround.below
    push_cast at hbelow
    exact hbelow
  · have habove := (Rat.cast_le (K := ℝ)).mpr hround.above
    push_cast at habove
    exact habove
  · exact hround.tie_below (hcast _ _ (by push_cast; exact h))
  · exact hround.tie_above (hcast _ _ (by push_cast; exact h))

/-! ## Lists as vectors -/

/-- All numbers are zero. -/
def IsZero (a : List ℝ) : Prop := ∀ x ∈ a, x = 0

/-- Every number is multiplied by `r`. -/
def scale (r : ℝ) (a : List ℝ) : List ℝ := a.map (r * ·)

/-- The vector of dimension `n` that a list spells. -/
noncomputable def vec (n : ℕ) (a : List ℝ) : EuclideanSpace ℝ (Fin n) :=
  WithLp.toLp _ fun i => a.getD i 0

variable {n : ℕ} {a b : List ℝ} {r s : ℝ}

@[simp] theorem length_scale (r : ℝ) (a : List ℝ) : (scale r a).length = a.length := by
  simp [scale]

theorem vec_apply (a : List ℝ) (i : Fin n) : vec n a i = a.getD i 0 := rfl

@[simp] theorem vec_scale (r : ℝ) (a : List ℝ) : vec n (scale r a) = r • vec n a := by
  ext i
  simp [vec_apply, scale, List.getD_eq_getElem?_getD, List.getElem?_map]
  cases a[(i : ℕ)]? <;> simp

/-- The vector tells the list. -/
theorem vec_inj (ha : a.length = n) (hb : b.length = n) : vec n a = vec n b ↔ a = b := by
  constructor
  · intro h
    refine List.ext_getElem (ha.trans hb.symm) ?_
    intro i hi hi'
    have hcoord := congrFun (congrArg WithLp.ofLp h) ⟨i, ha ▸ hi⟩
    simpa [vec, hi, hi'] using hcoord
  · rintro rfl
    rfl

theorem vec_eq_zero_iff (ha : a.length = n) : vec n a = 0 ↔ IsZero a := by
  constructor
  · intro h x hx
    rcases List.getElem_of_mem hx with ⟨i, hi, rfl⟩
    have hcoord := congrFun (congrArg WithLp.ofLp h) ⟨i, ha ▸ hi⟩
    simpa [vec, hi] using hcoord
  · intro h
    ext i
    have hi : (i : ℕ) < a.length := ha ▸ i.isLt
    simpa [vec_apply, hi] using h _ (List.getElem_mem hi)

/-- The inner product, summed over the lists. -/
theorem inner_vec (ha : a.length = n) (hb : b.length = n) :
    inner ℝ (vec n a) (vec n b) = (List.zipWith (· * ·) a b).sum := by
  have hsum : inner ℝ (vec n a) (vec n b) = ∑ i : Fin n, a.getD i 0 * b.getD i 0 := by
    simp [PiLp.inner_apply, vec_apply, mul_comm]
  rw [hsum]
  clear hsum
  induction a generalizing b n with
  | nil =>
    subst ha
    simp
  | cons x a ih =>
    cases b with
    | nil =>
      rw [← ha] at hb
      cases hb
    | cons y b =>
      subst ha
      have hlength : b.length = a.length := by simpa using hb
      simp [Fin.sum_univ_succ, ← ih rfl hlength]

theorem norm_vec (ha : a.length = n) : ‖vec n a‖ = norm Real.sqrt a := by
  rw [norm_eq_sqrt_real_inner, inner_vec ha ha, norm, List.zipWith_self]

/-- The score is the cosine of the angle. -/
theorem cosineSimilarity_eq_cos (ha : a.length = n) (hb : b.length = n) :
    cosineSimilarity Real.sqrt a b = some (Real.cos (angle (vec n a) (vec n b))) := by
  unfold cosineSimilarity
  rw [← norm_vec ha, ← norm_vec hb]
  split_ifs with hzero
  · -- the guard: a right angle
    rcases hzero with hzero | hzero
    · rw [norm_eq_zero.mp hzero, angle_zero_left, Real.cos_pi_div_two]
    · rw [norm_eq_zero.mp hzero, angle_zero_right, Real.cos_pi_div_two]
  · have hnorms : ‖vec n a‖ * ‖vec n b‖ ≠ 0 := by
      push Not at hzero
      exact mul_ne_zero hzero.1 hzero.2
    simp [dot, ha, hb, quotient, hnorms, cos_angle, inner_vec ha hb]

/-! ## Laws -/

theorem cos_angle_eq_one_iff (ha : a.length = n) (hb : b.length = n) :
    Real.cos (angle (vec n a) (vec n b)) = 1 ↔
      ¬ IsZero a ∧ ¬ IsZero b ∧ ∃ r, 0 < r ∧ (a = scale r b ∨ b = scale r a) := by
  have hscale : ∀ r, vec n b = r • vec n a ↔ b = scale r a := by
    intro r
    rw [← vec_scale, vec_inj hb ((length_scale r a).trans ha)]
  rw [cos_eq_one_iff_angle_eq_zero, angle_eq_zero_iff, Ne, vec_eq_zero_iff ha]
  constructor
  · rintro ⟨hzero, r, hr, hmultiple⟩
    refine ⟨hzero, ?_, r, hr, Or.inr ((hscale r).mp hmultiple)⟩
    rw [← vec_eq_zero_iff hb, hmultiple, smul_eq_zero, vec_eq_zero_iff ha]
    exact not_or.mpr ⟨hr.ne', hzero⟩
  · rintro ⟨hzero, _, r, hr, hmultiple | hmultiple⟩
    · -- the other way round: divide
      refine ⟨hzero, r⁻¹, inv_pos.mpr hr, ?_⟩
      rw [hmultiple, vec_scale, smul_smul, inv_mul_cancel₀ hr.ne', one_smul]
    · exact ⟨hzero, r, hr, (hscale r).mpr hmultiple⟩

theorem pct_bounds (hlo : -1 ≤ s) (hhi : s ≤ 1) : -100 ≤ pct s ∧ pct s ≤ 100 := by
  have hround : RoundsTo (s * 100) (pct s) := roundEven_roundsTo (s * 100)
  constructor
  · refine hround.le_of_intCast_le ?_
    push_cast
    linarith
  · refine hround.le_of_le_intCast ?_
    push_cast
    linarith

/-- For vectors of one length the score is defined, between -1 and 1, symmetric, unchanged by positive
factors, 0 for a zero vector and 1 exactly for positive multiples of each other; the percentage is
between -100 and 100, and the same nonzero embedding passes every threshold up to 1. -/
theorem cosine_laws (h : a.length = b.length) :
    ∃ s, cosineSimilarity Real.sqrt a b = some s ∧ (-1 ≤ s ∧ s ≤ 1) ∧
      cosineSimilarity Real.sqrt b a = some s ∧
      (∀ r, 0 < r → cosineSimilarity Real.sqrt (scale r a) b = some s ∧
        cosineSimilarity Real.sqrt a (scale r b) = some s) ∧
      (IsZero a ∨ IsZero b → s = 0) ∧
      (s = 1 ↔ ¬ IsZero a ∧ ¬ IsZero b ∧ ∃ r, 0 < r ∧ (a = scale r b ∨ b = scale r a)) ∧
      (-100 ≤ pct s ∧ pct s ≤ 100) ∧
      (a = b → ¬ IsZero a → ∀ threshold ≤ 1, passed threshold s = true) := by
  have hlo := Real.neg_one_le_cos (angle (vec b.length a) (vec b.length b))
  have hhi := Real.cos_le_one (angle (vec b.length a) (vec b.length b))
  refine ⟨_, cosineSimilarity_eq_cos h rfl, ⟨hlo, hhi⟩, ?_, ?_, ?_, cos_angle_eq_one_iff h rfl,
    pct_bounds hlo hhi, ?_⟩
  · rw [cosineSimilarity_eq_cos rfl h, angle_comm]
  · intro r hr
    constructor
    · rw [cosineSimilarity_eq_cos ((length_scale r a).trans h) rfl, vec_scale,
        angle_smul_left_of_pos _ _ hr]
    · rw [cosineSimilarity_eq_cos h (length_scale r b), vec_scale, angle_smul_right_of_pos _ _ hr]
  · rintro (hzero | hzero)
    · rw [(vec_eq_zero_iff h).mpr hzero, angle_zero_left, Real.cos_pi_div_two]
    · rw [(vec_eq_zero_iff rfl).mpr hzero, angle_zero_right, Real.cos_pi_div_two]
  · rintro rfl hzero threshold hthreshold
    rw [angle_self ((vec_eq_zero_iff rfl).not.mpr hzero), Real.cos_zero]
    exact decide_eq_true hthreshold

/-- They give the score of two lists that are multiples of each other. -/
theorem cosine_laws_sample : cosineSimilarity Real.sqrt [3, 4] [6, 8] = some 1 := by
  rcases cosine_laws (a := [3, 4]) (b := [6, 8]) rfl with ⟨s, hs, _, _, _, _, hone, _⟩
  rw [hs, hone.mpr ⟨by simp [IsZero], by simp [IsZero], 2, two_pos, Or.inr (by norm_num [scale])⟩]

end Exact

namespace Doppelganger

open Text Redis

/-! ## The scores of the server -/

/-- The rational number that a real number is, if it is one. -/
noncomputable def ratValue (x : ℝ) : Option ℚ :=
  open Classical in if h : ∃ q : ℚ, (q : ℝ) = x then some h.choose else none

theorem ratValue_eq_some {x : ℝ} {q : ℚ} : ratValue x = some q ↔ x = q := by
  unfold ratValue
  split_ifs with h
  · constructor
    · intro hq
      rw [← Option.some.inj hq, h.choose_spec]
    · intro hx
      have hcast : ((h.choose : ℚ) : ℝ) = q := h.choose_spec.trans hx
      rw [Rat.cast_inj.mp hcast]
  · constructor
    · intro hq
      cases hq
    · rintro rfl
      exact absurd ⟨q, rfl⟩ h

/-- numpy with real numbers in place of float32; `read` tells the number that a JSON value is. A score
that is no rational number is left out. -/
noncomputable def Numpy.reals (read : Json → Option ℝ) : Numpy where
  Float32 := ℝ
  float32 := read
  value := ratValue
  norm := Exact.norm Real.sqrt
  dot xs ys := (List.zipWith (· * ·) xs ys).sum
  mul x y := x * y
  div x y := x / y

/-- A JSON list that spells a vector. -/
def Spells (read : Json → Option ℝ) (xs : List Json) (fs : List ℝ) : Prop :=
  List.Forall₂ (fun x f => (Numpy.reals read).nested x = some ⟨[], [f]⟩) xs fs

variable {read : Json → Option ℝ} {xs ys : List Json} {fs gs : List ℝ}

/-- The server's score is the exact one. -/
theorem cosineSimilarity_reals (hx : Spells read xs fs) (hy : Spells read ys gs) (q : ℚ) :
    EmbeddingClient.cosineSimilarity (Numpy.reals read) (.arr xs) (.arr ys) = some q ↔
      Exact.cosineSimilarity Real.sqrt fs gs = some (q : ℝ) := by
  have hzero : ∀ zs : List ℝ, (Numpy.reals read).value ((Numpy.reals read).norm zs) = some 0 ↔
      Exact.norm Real.sqrt zs = 0 := by
    intro zs
    exact ratValue_eq_some.trans (by rw [Rat.cast_zero]; rfl)
  rw [cosineSimilarity_eq (Numpy.reads_of_scalars hx) (Numpy.reads_of_scalars hy)]
  unfold Exact.cosineSimilarity
  simp only [hzero]
  split_ifs with hguard
  · simp only [Option.some.injEq]
    exact ⟨fun h => by rw [← h, Rat.cast_zero], fun h => by exact_mod_cast h⟩
  rw [not_or] at hguard
  have hlength : xs.length = ys.length ↔ fs.length = gs.length := by
    rw [hx.length_eq, hy.length_eq]
    exact Iff.rfl
  by_cases hl : fs.length = gs.length
  · have hshape : Numpy.dotShape [xs.length] [ys.length] = some [] := by
      simp [Numpy.dotShape, Numpy.contract, hlength.mpr hl]
    have hquotient : Exact.quotient (List.zipWith (· * ·) fs gs).sum
        (Exact.norm Real.sqrt fs * Exact.norm Real.sqrt gs) =
          some ((List.zipWith (· * ·) fs gs).sum /
            (Exact.norm Real.sqrt fs * Exact.norm Real.sqrt gs)) :=
      if_neg (mul_ne_zero hguard.1 hguard.2)
    rw [hshape, Option.bind_some, if_pos List.prod_nil, Exact.dot, if_pos hl, Option.bind_some,
      hquotient, Option.some.injEq]
    exact ratValue_eq_some
  · have hshape : Numpy.dotShape [xs.length] [ys.length] = none := by
      simp [Numpy.dotShape, Numpy.contract, hlength.not.mpr hl]
    simp [hshape, Exact.dot, hl]

section Routes

variable {env : Env} {session : Session} {text : Str}
  (henv : env.cosineSimilarity = EmbeddingClient.cosineSimilarity (Numpy.reals read))
  (htext : session .answerEmbedding = some text) (hloads : Json.loads text = some (.arr xs))

include henv htext hloads

theorem scoreOf_reals (hx : Spells read xs fs) (hy : Spells read ys gs) (q : ℚ) :
    scoreOf env session (.arr ys) = .ok q ↔
      Exact.cosineSimilarity Real.sqrt fs gs = some (q : ℝ) := by
  rw [← cosineSimilarity_reals hx hy, ← henv]
  simp only [scoreOf, field, htext, hloads, bind, Except.bind]
  cases env.cosineSimilarity (.arr xs) (.arr ys) <;> simp

/-- What the routes report is between -100 and 100. -/
theorem pct_of_scoreOf (hx : Spells read xs fs) (hy : Spells read ys gs)
    (hl : fs.length = gs.length) {q : ℚ} (h : scoreOf env session (.arr ys) = .ok q) :
    -100 ≤ pct q ∧ pct q ≤ 100 := by
  have hcos := (scoreOf_reals henv htext hloads hx hy q).mp h
  rw [Exact.cosineSimilarity_eq_cos hl rfl] at hcos
  rw [← Exact.pct_cast, ← Option.some.inj hcos]
  exact Exact.pct_bounds (Real.neg_one_le_cos _) (Real.cos_le_one _)

/-- An answer with the embedding in the snapshot passes with 100 percent. -/
theorem scoreOf_same (hx : Spells read xs fs) (hzero : ¬ Exact.IsZero fs)
    (hthreshold : env.similarityThreshold ≤ 1) :
    scoreOf env session (.arr xs) = .ok 1 ∧ passed env 1 = true ∧ pct 1 = 100 := by
  refine ⟨?_, decide_eq_true hthreshold, by decide +kernel⟩
  have hnonzero : Exact.vec fs.length fs ≠ 0 := (Exact.vec_eq_zero_iff rfl).not.mpr hzero
  rw [scoreOf_reals henv htext hloads hx hx, Exact.cosineSimilarity_eq_cos rfl rfl,
    angle_self hnonzero, Real.cos_zero, Rat.cast_one]

end Routes

end Doppelganger
