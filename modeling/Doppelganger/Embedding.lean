import Doppelganger.History
import Doppelganger.Numpy

/-!
# The embedding client

`EmbeddingClient.embed` turns what `_http.post` does, once or twice, into a value or `None`;
`EmbeddingClient.cosine_similarity` scores two such values with numpy, minutes later and in
another request. `embed` returns whatever truthy value the service sends as `vector`, so not every
pair can be scored: `Numpy.Comparable` says of the two values which can
(`cosineSimilarity_isSome_iff`), and `embeddings_decide` that the others end the verify request in
an unhandled exception.
-/

open Text Redis

namespace Doppelganger

namespace EmbeddingClient

/-! ## embed -/

/-- What one call of `_http.post` does: it raises, or returns a response. -/
inductive Reply where
  /-- `requests.ConnectionError`. -/
  | connectionError
  /-- `requests.Timeout` that is no `ConnectionError`. -/
  | timeout
  /-- Any other exception. -/
  | raised
  /-- `json` is `none` where `resp.json()` raises. -/
  | response (status : ℕ) (json : Option Json)

/-- What `embed` returns of the body of a 200. A body without `get` raises, which ends in `None`. -/
def vectorOf (data : Json) : Option Json :=
  match data.get? (lit "success"), data.get? (lit "vector") with
  | some success, some vector => if success.truthy && vector.truthy then some vector else none
  | _, _ => none

/-- One turn of the loop; `none` where it goes on with the next attempt. -/
def turn (attempt : ℕ) : Reply → Option (Option Json)
  | .connectionError => if attempt = 1 then none else some none
  | .timeout => some none
  | .raised => some none
  | .response status json =>
    if (status = 502 ∨ status = 504) ∧ attempt = 1 then none
    else if status ≠ 200 then some none
    else some (json.bind vectorOf)

def loop (reply : ℕ → Reply) : List ℕ → Option Json
  | [] => none
  | attempt :: rest =>
    match turn attempt (reply attempt) with
    | none => loop reply rest
    | some result => result

/-- `embed`, when attempt `n` ends in `reply n`; `slot` tells whether a slot came free in time. -/
def embed (slot : Bool) (reply : ℕ → Reply) : Option Json :=
  if slot then loop reply [1, 2] else none

theorem vectorOf_truthy {data v : Json} (h : vectorOf data = some v) : v.truthy = true := by
  unfold vectorOf at h
  split at h
  · split_ifs at h with ht
    obtain rfl := Option.some.inj h
    exact (Bool.and_eq_true_iff.mp ht).2
  · cases h

theorem turn_truthy {attempt : ℕ} {reply : Reply} {v : Json}
    (h : turn attempt reply = some (some v)) : v.truthy = true := by
  cases reply with
  | connectionError =>
    simp only [turn] at h
    split_ifs at h
    cases h
  | response status json =>
    simp only [turn] at h
    split_ifs at h
    · cases h
    · rcases Option.bind_eq_some_iff.mp (Option.some.inj h) with ⟨data, _, hdata⟩
      exact vectorOf_truthy hdata
  | _ => cases h

/-- What `embed` returns is truthy, and that is all it is. -/
theorem embed_truthy {slot : Bool} {reply : ℕ → Reply} {v : Json}
    (h : embed slot reply = some v) : v.truthy = true := by
  have hloop : ∀ attempts, loop reply attempts = some v → v.truthy = true := by
    intro attempts hv
    induction attempts with
    | nil => cases hv
    | cons attempt rest ih =>
      unfold loop at hv
      cases ht : turn attempt (reply attempt) with
      | none =>
        rw [ht] at hv
        exact ih hv
      | some result =>
        rw [ht] at hv
        exact turn_truthy (ht.trans (congrArg some hv))
  unfold embed at h
  split_ifs at h
  exact hloop _ h

/-- The service answers 200 with `vector`. -/
def sends (vector : Json) : ℕ → Reply := fun _ =>
  .response 200 (some (.obj [(lit "success", .bool true), (lit "vector", vector)]))

theorem embed_sends {vector : Json} (h : vector.truthy = true) :
    embed true (sends vector) = some vector := by
  have hname : lit "vector" ≠ lit "success" := by decide
  have htrue : (Json.bool true).truthy = true := rfl
  simp [embed, loop, turn, sends, vectorOf, Json.get?, Json.lookup, h, htrue, hname]

end EmbeddingClient

/-- Every embedding call of a run returns what `embed` makes of some replies of the service. -/
def served : Lts.Guard State Label := fun l _ =>
  ∀ r result, l = .embed r result → ∃ slot reply, result = EmbeddingClient.embed slot reply

/-- `EmbeddingClient.cosine_similarity`; `none` where it raises, or returns infinity or NaN. -/
def EmbeddingClient.cosineSimilarity (np : Numpy) (vecA vecB : Json) : Option ℚ := do
  let a ← np.array vecA
  let b ← np.array vecB
  let normA := np.norm a.data
  let normB := np.norm b.data
  if np.value normA = some 0 ∨ np.value normB = some 0 then return 0
  let shape ← Numpy.dotShape a.shape b.shape
  if shape.prod = 1 then np.value (np.div (np.dot a.data b.data) (np.mul normA normB)) else none

section

variable {np : Numpy} {v w : Json} {m n : List ℕ} {xs ys : List np.Float32}

theorem cosineSimilarity_eq (hv : np.Reads v m xs) (hw : np.Reads w n ys) :
    EmbeddingClient.cosineSimilarity np v w =
      if np.value (np.norm xs) = some 0 ∨ np.value (np.norm ys) = some 0 then some 0
      else (Numpy.dotShape m n).bind fun shape =>
        if shape.prod = 1 then
          np.value (np.div (np.dot xs ys) (np.mul (np.norm xs) (np.norm ys)))
        else none := by
  have ha : np.array v = some ⟨m, xs⟩ := Numpy.array_eq_some.mpr hv
  have hb : np.array w = some ⟨n, ys⟩ := Numpy.array_eq_some.mpr hw
  simp only [EmbeddingClient.cosineSimilarity, ha, hb, Option.bind_eq_bind, Option.bind_some]
  rfl

theorem reads_of_isSome (h : (EmbeddingClient.cosineSimilarity np v w).isSome = true) :
    ∃ m xs n ys, np.Reads v m xs ∧ np.Reads w n ys := by
  unfold EmbeddingClient.cosineSimilarity at h
  cases ha : np.array v with
  | none => simp [ha] at h
  | some a =>
    cases hb : np.array w with
    | none => simp [ha, hb] at h
    | some b => exact ⟨_, _, _, _, Numpy.array_eq_some.mp ha, Numpy.array_eq_some.mp hb⟩

/-- Two values are scored exactly if they are comparable, as far as their numbers are of an ordinary
size. -/
theorem cosineSimilarity_isSome_iff (hnp : np.Documented) (hv : np.Sized v) (hw : np.Sized w) :
    (EmbeddingClient.cosineSimilarity np v w).isSome = true ↔ np.Comparable v w := by
  constructor
  · intro h
    rcases reads_of_isSome h with ⟨m, xs, n, ys, hrv, hrw⟩
    refine ⟨m, xs, n, ys, hrv, hrw, ?_⟩
    rw [cosineSimilarity_eq hrv hrw] at h
    split_ifs at h with hzero
    · rcases hzero with hzero | hzero
      · exact Or.inl (hv.zero_of_norm hnp hrv hzero)
      · exact Or.inr (Or.inl (hw.zero_of_norm hnp hrw hzero))
    · rcases Option.isSome_iff_exists.mp h with ⟨q, hq⟩
      rcases Option.bind_eq_some_iff.mp hq with ⟨shape, hshape, hvalue⟩
      split_ifs at hvalue with hprod
      have hcombine := Numpy.dotShape_prod.mp ⟨shape, hshape, hprod⟩
      have hlength : xs.length = ys.length := by
        rw [hrv.length_eq, hrw.length_eq, hcombine.prod_eq]
      have hfinite := Numpy.finite_of_quotient hnp hlength (Option.isSome_iff_exists.mpr ⟨q, hvalue⟩)
      exact Or.inr (Or.inr ⟨hcombine, hfinite⟩)
  · rintro ⟨m, xs, n, ys, hrv, hrw, hcases⟩
    rw [cosineSimilarity_eq hrv hrw]
    split_ifs with hguard
    · rfl
    rw [not_or] at hguard
    rcases hcases with hzero | hzero | ⟨hcombine, hfx, hfy⟩
    · exact absurd (hnp.norm_zero xs hzero) hguard.1
    · exact absurd (hnp.norm_zero ys hzero) hguard.2
    · rcases Numpy.dotShape_prod.mpr hcombine with ⟨shape, hshape, hprod⟩
      have hlength : xs.length = ys.length := by
        rw [hrv.length_eq, hrw.length_eq, hcombine.prod_eq]
      rcases hfx.values with ⟨ps, hps⟩
      rcases hfy.values with ⟨qs, hqs⟩
      rcases hv m xs ps hrv hps with hzero | hp
      · exact absurd (hnp.norm_zero xs hzero) hguard.1
      rcases hw n ys qs hrw hqs with hzero | hq
      · exact absurd (hnp.norm_zero ys hzero) hguard.2
      rw [hshape, Option.bind_some, if_pos hprod]
      exact Numpy.quotient_isSome hnp hps hqs hlength hp hq

end

end Doppelganger
