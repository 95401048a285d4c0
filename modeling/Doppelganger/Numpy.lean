import Doppelganger.Lib.Json
import Mathlib.Tactic

/-!
# numpy

What `EmbeddingClient.cosine_similarity` uses of numpy, which is not part of the repository. Which
nested lists make an array and which shapes `np.dot` combines follow its documentation. The float32
arithmetic is a parameter: `Numpy.Documented` says of it what holds of IEEE 754 numbers whichever
way a sum is taken. A sum comes near the exact one if its terms are of an ordinary size, and an
infinity or NaN among them is not lost.

`Reads` tells from a JSON value alone which array it makes (`array_eq_some`), and `Combine` from two
shapes alone that the product is one number (`dotShape_prod`). What can be compared is then decided
by the two values (`cosineSimilarity_isSome_iff`, for values of an ordinary size).
-/

namespace Doppelganger

/-- An array: its shape, and its elements in order. -/
structure NdArray (F : Type) where
  shape : List ℕ
  data : List F

/-- numpy's float32 numbers. -/
structure Numpy where
  Float32 : Type
  /-- `np.float32(v)` of a value that is neither list nor dict; `none` where it raises. -/
  float32 : Json → Option Float32
  /-- The number that it is; `none` for the infinities and NaN. -/
  value : Float32 → Option ℚ
  /-- `np.linalg.norm`. -/
  norm : List Float32 → Float32
  /-- `np.dot` where it is one number, of the elements of the two arrays. -/
  dot : List Float32 → List Float32 → Float32
  mul : Float32 → Float32 → Float32
  div : Float32 → Float32 → Float32

namespace Numpy

/-! ## Arrays -/

section

variable (np : Numpy)

/-- Arrays of one shape on top of each other. -/
def stack {F : Type} : List (NdArray F) → Option (NdArray F)
  | [] => some ⟨[0], []⟩
  | a :: rest =>
    if rest.all fun b => b.shape = a.shape then
      some ⟨(a :: rest).length :: a.shape, (a :: rest).flatMap NdArray.data⟩
    else none

mutual

/-- The array a value spells; `none` where it is ragged or an element is no number. -/
def nested : Json → Option (NdArray np.Float32)
  | .arr xs => (nestedElements xs).bind stack
  | .obj _ => none
  | v => (np.float32 v).map fun x => ⟨[], [x]⟩

def nestedElements : List Json → Option (List (NdArray np.Float32))
  | [] => some []
  | x :: xs =>
    match nested x, nestedElements xs with
    | some a, some rest => some (a :: rest)
    | _, _ => none

end

/-- `NPY_MAXDIMS`. -/
def maxDims : ℕ := 32

/-- `np.array(v, dtype=np.float32)`; `none` where it raises. -/
def array (v : Json) : Option (NdArray np.Float32) :=
  (np.nested v).filter fun a => a.shape.length ≤ maxDims

end

/-- What is left of the axes when the last one of `a` goes with the last but one of `b`, or with its
only one; a scalar goes with everything. -/
def contract (a b : List ℕ) : Option (List ℕ) :=
  match a.getLast?, b.reverse with
  | none, _ => some b
  | some _, [] => some a
  | some m, [n] => if m = n then some a.dropLast else none
  | some m, k :: n :: rest => if m = n then some (a.dropLast ++ rest.reverse ++ [k]) else none

/-- The shape of `np.dot` of arrays of two shapes; `none` where it raises. -/
def dotShape (a b : List ℕ) : Option (List ℕ) :=
  (contract a b).filter fun shape => shape.length ≤ maxDims

/-! ### From the value alone -/

/-- The lists in `v` are nested as `shape` says. -/
def Rectangle : List ℕ → Json → Prop
  | [], v => (∀ vs, v ≠ .arr vs) ∧ ∀ members, v ≠ .obj members
  | n :: shape, v =>
    ∃ vs, v = .arr vs ∧ vs.length = n ∧ (vs = [] → shape = []) ∧ ∀ u ∈ vs, Rectangle shape u

/-- The values in the innermost lists. -/
def leaves : List ℕ → Json → List Json
  | [], v => [v]
  | _ :: shape, .arr vs => vs.flatMap (leaves shape)
  | _ :: _, _ => []

/-- `v` reads as the array of this shape with these elements. -/
structure Reads (np : Numpy) (v : Json) (shape : List ℕ) (xs : List np.Float32) : Prop where
  rectangle : Rectangle shape v
  dims : shape.length ≤ maxDims
  numbers : List.Forall₂ (fun u x => np.float32 u = some x) (leaves shape v) xs

section

variable {np : Numpy} {v : Json} {vs : List Json} {shape : List ℕ} {xs : List np.Float32}

theorem nestedElements_eq_some {as : List (NdArray np.Float32)} :
    np.nestedElements vs = some as ↔ List.Forall₂ (fun u a => np.nested u = some a) vs as := by
  induction vs generalizing as with
  | nil => simp [nestedElements, eq_comm]
  | cons u vs ih =>
    rw [List.forall₂_cons_left_iff]
    constructor
    · intro h
      unfold nestedElements at h
      split at h
      · rename_i a rest ha hrest
        obtain rfl := Option.some.inj h
        exact ⟨a, rest, ha, ih.mp hrest, rfl⟩
      · cases h
    · rintro ⟨a, rest, ha, hrest, rfl⟩
      simp [nestedElements, ha, ih.mpr hrest]

theorem stack_eq_some {F : Type} {as : List (NdArray F)} {n : ℕ} {shape : List ℕ} {xs : List F} :
    stack as = some ⟨n :: shape, xs⟩ ↔ as.length = n ∧ (as = [] → shape = []) ∧
      (∀ a ∈ as, a.shape = shape) ∧ as.flatMap NdArray.data = xs := by
  cases as with
  | nil => simp [stack, eq_comm, and_assoc]
  | cons a rest =>
    simp only [stack, List.all_eq_true, decide_eq_true_eq]
    constructor
    · intro h
      split_ifs at h with hall
      obtain ⟨⟨rfl, rfl⟩, rfl⟩ : ((a :: rest).length = n ∧ a.shape = shape) ∧
          (a :: rest).flatMap NdArray.data = xs := by simpa using h
      exact ⟨rfl, by simp, by simpa using hall, rfl⟩
    · rintro ⟨rfl, _, hall, rfl⟩
      have ha := hall a List.mem_cons_self
      rw [if_pos fun b hb => (hall b (List.mem_cons_of_mem _ hb)).trans ha.symm, ha]

theorem stack_shape_ne_nil {F : Type} {as : List (NdArray F)} {xs : List F} :
    stack as ≠ some ⟨[], xs⟩ := by
  cases as with
  | nil => simp [stack]
  | cons a rest =>
    simp only [stack]
    split_ifs <;> simp

theorem nested_scalar (h : Rectangle [] v) :
    np.nested v = (np.float32 v).map fun x => ⟨[], [x]⟩ := by
  cases v with
  | arr vs => exact absurd rfl (h.1 vs)
  | obj members => exact absurd rfl (h.2 members)
  | _ => simp only [nested]

/-- The values in a list of arrays of one shape are those of the arrays. -/
theorem blocks_of_numbers {R : Json → np.Float32 → Prop} {f : Json → List Json}
    (h : List.Forall₂ R (vs.flatMap f) xs) :
    ∃ blocks, List.Forall₂ (fun u block => List.Forall₂ R (f u) block) vs blocks ∧
      blocks.flatten = xs := by
  induction vs generalizing xs with
  | nil =>
    obtain rfl := List.forall₂_nil_left_iff.mp h
    exact ⟨[], .nil, rfl⟩
  | cons u vs ih =>
    have hu := List.forall₂_take (f u).length h
    have hvs := List.forall₂_drop (f u).length h
    rw [List.flatMap_cons, List.take_left] at hu
    rw [List.flatMap_cons, List.drop_left] at hvs
    rcases ih hvs with ⟨blocks, hblocks, hxs⟩
    refine ⟨_ :: blocks, .cons hu hblocks, ?_⟩
    rw [List.flatten_cons, hxs, List.take_append_drop]

/-- The array that a value makes, from the value alone. -/
theorem nested_eq_some : np.nested v = some ⟨shape, xs⟩ ↔ Rectangle shape v ∧
    List.Forall₂ (fun u x => np.float32 u = some x) (leaves shape v) xs := by
  induction shape generalizing v xs with
  | nil =>
    constructor
    · intro h
      have hscalar : Rectangle [] v := by
        constructor
        · rintro vs rfl
          rcases Option.bind_eq_some_iff.mp (by simpa only [nested] using h) with ⟨as, _, hstack⟩
          exact stack_shape_ne_nil hstack
        · rintro members rfl
          simp [nested] at h
      rw [nested_scalar hscalar] at h
      rcases Option.map_eq_some_iff.mp h with ⟨x, hx, heq⟩
      obtain rfl : [x] = xs := (NdArray.mk.inj heq).2
      exact ⟨hscalar, .cons hx .nil⟩
    · rintro ⟨hscalar, hnumbers⟩
      rcases List.forall₂_cons_left_iff.mp hnumbers with ⟨x, _, hx, hnil, rfl⟩
      obtain rfl := List.forall₂_nil_left_iff.mp hnil
      rw [nested_scalar hscalar, hx]
      rfl
  | cons n shape ih =>
    constructor
    · intro h
      cases v with
      | arr vs =>
        rcases Option.bind_eq_some_iff.mp (by simpa only [nested] using h) with ⟨as, has, hstack⟩
        rcases stack_eq_some.mp hstack with ⟨hlength, hnil, hshape, rfl⟩
        rw [nestedElements_eq_some] at has
        have hread : List.Forall₂ (fun u a => Rectangle shape u ∧
            List.Forall₂ (fun w x => np.float32 w = some x) (leaves shape u) a.data) vs as := by
          refine List.forall₂_iff_zip.mpr ⟨has.length_eq, fun {u a} hmem => ?_⟩
          have ha := hshape a (List.of_mem_zip hmem).2
          refine ih.mp ?_
          rw [← ha]
          exact List.forall₂_zip has hmem
        rcases (List.forall₂_and_left _ _).mp hread with ⟨hall, hnumbers⟩
        refine ⟨⟨vs, rfl, has.length_eq.trans hlength, ?_, hall⟩, ?_⟩
        · rintro rfl
          exact hnil (List.forall₂_nil_left_iff.mp has)
        · exact List.rel_flatMap hnumbers fun _ _ h => h
      | obj members => simp [nested] at h
      | _ =>
        simp [nested] at h
    · rintro ⟨⟨vs, rfl, hlength, hnil, hall⟩, hnumbers⟩
      rcases blocks_of_numbers hnumbers with ⟨blocks, hblocks, rfl⟩
      have has : np.nestedElements vs = some (blocks.map fun block => ⟨shape, block⟩) := by
        rw [nestedElements_eq_some, List.forall₂_map_right_iff, List.forall₂_iff_zip]
        refine ⟨hblocks.length_eq, fun {u block} hmem => ih.mpr ⟨?_, ?_⟩⟩
        · exact hall u (List.of_mem_zip hmem).1
        · exact List.forall₂_zip hblocks hmem
      rw [nested, has, Option.bind_some, stack_eq_some]
      refine ⟨?_, ?_, by simp, by simp [List.flatMap_map, List.flatMap_id']⟩
      · rw [List.length_map, ← hblocks.length_eq, hlength]
      · intro h
        refine hnil (List.length_eq_zero_iff.mp ?_)
        rw [hblocks.length_eq, List.map_eq_nil_iff.mp h]
        rfl

theorem array_eq_some {a : NdArray np.Float32} : np.array v = some a ↔ np.Reads v a.shape a.data := by
  rcases a with ⟨shape, xs⟩
  rw [array, Option.filter_eq_some_iff, nested_eq_some, decide_eq_true_eq]
  exact ⟨fun ⟨⟨hr, hx⟩, hd⟩ => ⟨hr, hd, hx⟩, fun h => ⟨⟨h.rectangle, h.numbers⟩, h.dims⟩⟩

/-- A flat list of numbers. -/
theorem reads_of_scalars (h : List.Forall₂ (fun u x => np.nested u = some ⟨[], [x]⟩) vs xs) :
    np.Reads (.arr vs) [vs.length] xs := by
  have hread : List.Forall₂ (fun u x => Rectangle [] u ∧ np.float32 u = some x) vs xs := by
    refine h.imp fun u x hux => ?_
    rcases nested_eq_some.mp hux with ⟨hscalar, hnumber⟩
    exact ⟨hscalar, (List.forall₂_cons.mp hnumber).1⟩
  rcases (List.forall₂_and_left _ _).mp hread with ⟨hall, hnumbers⟩
  refine ⟨⟨vs, rfl, rfl, fun _ => rfl, hall⟩, by simp [maxDims], ?_⟩
  have hleaves : leaves [vs.length] (.arr vs) = vs := List.flatMap_singleton' vs
  rwa [hleaves]

/-- A value reads as one array only. -/
theorem Reads.unique {shape' : List ℕ} {xs' : List np.Float32} (h : np.Reads v shape xs)
    (h' : np.Reads v shape' xs') : shape = shape' ∧ xs = xs' := by
  have ha : np.array v = some ⟨shape, xs⟩ := array_eq_some.mpr h
  have ha' : np.array v = some ⟨shape', xs'⟩ := array_eq_some.mpr h'
  exact NdArray.mk.inj (Option.some.inj (ha.symm.trans ha'))

/-- It has as many elements as its shape says. -/
theorem Reads.length_eq (h : np.Reads v shape xs) : xs.length = shape.prod := by
  have hleaves : ∀ shape v, Rectangle shape v → (leaves shape v).length = shape.prod := by
    intro shape
    induction shape with
    | nil =>
      intro v _
      rfl
    | cons n shape ih =>
      rintro _ ⟨vs, rfl, rfl, _, hall⟩
      rw [leaves, List.length_flatMap, List.prod_cons]
      rw [List.map_congr_left fun u hu => ih u (hall u hu)]
      simp
  rw [← h.numbers.length_eq, hleaves shape v h.rectangle]

end

/-! ### Shapes whose product is one number -/

/-- Two scalars or arrays of one element, or a row and a column of one length. -/
inductive Combine : List ℕ → List ℕ → Prop
  | scalarLeft (i : ℕ) : i ≤ maxDims → Combine [] (List.replicate i 1)
  | scalarRight (i : ℕ) : i ≤ maxDims → Combine (List.replicate i 1) []
  | vector (i n : ℕ) : i ≤ maxDims → Combine (List.replicate i 1 ++ [n]) [n]
  | column (i j n : ℕ) : i + j + 1 ≤ maxDims →
      Combine (List.replicate i 1 ++ [n]) (List.replicate j 1 ++ [n, 1])

theorem prod_eq_one {shape : List ℕ} : shape.prod = 1 ↔ ∀ n ∈ shape, n = 1 := by
  induction shape with
  | nil => simp
  | cons n shape ih => simp [ih]

theorem replicate_of_prod {shape : List ℕ} (h : shape.prod = 1) :
    shape = List.replicate shape.length 1 :=
  List.eq_replicate_of_mem (prod_eq_one.mp h)

theorem contract_nil_right (a : List ℕ) : contract a [] = some a := by
  unfold contract
  cases h : a.getLast? with
  | none => rw [List.getLast?_eq_none_iff.mp h]
  | some m => rfl

theorem contract_vector (a : List ℕ) (m n : ℕ) :
    contract (a ++ [m]) [n] = if m = n then some a else none := by
  simp [contract]

theorem contract_matrix (a b : List ℕ) (m n k : ℕ) :
    contract (a ++ [m]) (b ++ [n, k]) = if m = n then some (a ++ b ++ [k]) else none := by
  simp [contract]

theorem dotShape_eq_some {a b shape : List ℕ} :
    dotShape a b = some shape ↔ contract a b = some shape ∧ shape.length ≤ maxDims := by
  simp [dotShape]

theorem dotShape_prod {a b : List ℕ} :
    (∃ shape, dotShape a b = some shape ∧ shape.prod = 1) ↔ Combine a b := by
  simp only [dotShape_eq_some]
  constructor
  · rintro ⟨shape, ⟨hcontract, hdims⟩, hprod⟩
    have hones := replicate_of_prod hprod
    rcases a.eq_nil_or_concat' with rfl | ⟨a, m, rfl⟩
    · obtain rfl : b = shape := Option.some.inj hcontract
      rw [hones]
      exact .scalarLeft _ hdims
    rcases b.eq_nil_or_concat' with rfl | ⟨b, k, rfl⟩
    · rw [contract_nil_right] at hcontract
      obtain rfl := Option.some.inj hcontract
      rw [hones]
      exact .scalarRight _ hdims
    rcases b.eq_nil_or_concat' with rfl | ⟨b, n, rfl⟩
    · rw [List.nil_append, contract_vector] at hcontract
      split_ifs at hcontract with hmn
      obtain rfl := Option.some.inj hcontract
      rw [hmn, hones]
      exact .vector _ _ hdims
    · rw [List.append_assoc, List.singleton_append, contract_matrix] at hcontract
      split_ifs at hcontract with hmn
      obtain rfl := Option.some.inj hcontract
      rw [List.prod_append, List.prod_append, mul_eq_one, mul_eq_one] at hprod
      obtain ⟨⟨ha, hb⟩, hk⟩ := hprod
      obtain rfl : k = 1 := by simpa using hk
      rw [hmn, List.append_assoc, List.singleton_append, replicate_of_prod ha, replicate_of_prod hb]
      exact .column _ _ _ (by simpa [Nat.add_assoc] using hdims)
  · intro h
    cases h with
    | scalarLeft i hi => exact ⟨_, ⟨rfl, by simpa using hi⟩, by simp⟩
    | scalarRight i hi => exact ⟨_, ⟨contract_nil_right _, by simpa using hi⟩, by simp⟩
    | vector i n hi =>
      exact ⟨_, ⟨(contract_vector _ n n).trans (if_pos rfl), by simpa using hi⟩, by simp⟩
    | column i j n hij =>
      refine ⟨_, ⟨(contract_matrix _ _ n n 1).trans (if_pos rfl), ?_⟩, by simp⟩
      simpa [Nat.add_assoc] using hij

theorem Combine.prod_eq {a b : List ℕ} (h : Combine a b) : a.prod = b.prod := by
  cases h <;> simp

/-! ## float32 -/

/-- The numbers that the elements are; none of them is infinite or NaN. -/
def Values (np : Numpy) (xs : List np.Float32) (ps : List ℚ) : Prop :=
  List.Forall₂ (fun x p => np.value x = some p) xs ps

/-- The sum of the squares. -/
def squares (ps : List ℚ) : ℚ := (ps.map fun p => p ^ 2).sum

/-- The sum of the absolute values of the products. -/
def products (ps qs : List ℚ) : ℚ := (List.zipWith (fun p q => |p * q|) ps qs).sum

/-- Numbers that are neither too many nor, together, too large or too small for float32. -/
structure Ordinary (ps : List ℚ) : Prop where
  length_le : ps.length ≤ 2 ^ 20
  le_squares : 1 / 2 ^ 124 ≤ squares ps
  squares_le : squares ps ≤ 2 ^ 124

/-- What is documented of the arithmetic. A sum is taken in any order and rounded after every term,
so that it is near the exact one as far as there are not too many terms and none of the partial sums
overflows; an infinity or NaN stays one, or turns into the other. -/
structure Documented (np : Numpy) : Prop where
  norm_zero : ∀ xs, (∀ x ∈ xs, np.value x = some 0) → np.value (np.norm xs) = some 0
  norm_near : ∀ xs ps, np.Values xs ps → Ordinary ps →
    ∃ v, np.value (np.norm xs) = some v ∧ squares ps ≤ 2 * v ^ 2 ∧ v ^ 2 ≤ 2 * squares ps
  norm_lost : ∀ xs, (∃ x ∈ xs, np.value x = none) → np.value (np.norm xs) = none
  dot_near : ∀ xs ps ys qs, np.Values xs ps → np.Values ys qs → xs.length = ys.length →
    Ordinary ps → Ordinary qs →
    ∃ v, np.value (np.dot xs ys) = some v ∧ |v| ≤ 2 * products ps qs + 1 / 2 ^ 128
  dot_lost : ∀ xs ys, xs.length = ys.length → (∃ x ∈ xs ++ ys, np.value x = none) →
    np.value (np.dot xs ys) = none
  mul_near : ∀ x p y q, np.value x = some p → np.value y = some q → 1 / 2 ^ 126 ≤ |p * q| →
    |p * q| ≤ 2 ^ 126 → ∃ v, np.value (np.mul x y) = some v ∧ |p * q| ≤ 2 * |v|
  div_finite : ∀ x p y q, np.value x = some p → np.value y = some q → q ≠ 0 →
    |p| ≤ 2 ^ 100 * |q| → (np.value (np.div x y)).isSome = true
  div_lost : ∀ x y, np.value x = none → np.value (np.div x y) = none

/-- All elements are zero. -/
def Zero (np : Numpy) (xs : List np.Float32) : Prop := ∀ x ∈ xs, np.value x = some 0

/-- No element is infinite or NaN. -/
def Finite (np : Numpy) (xs : List np.Float32) : Prop := ∀ x ∈ xs, (np.value x).isSome = true

/-- The numbers in `v`, if it is an array of numbers, are all zero or ordinary. -/
def Sized (np : Numpy) (v : Json) : Prop :=
  ∀ shape xs ps, np.Reads v shape xs → np.Values xs ps → np.Zero xs ∨ Ordinary ps

/-- Both values are arrays, and one of them is zero, or their numbers are finite and the product is
one number. -/
def Comparable (np : Numpy) (v w : Json) : Prop :=
  ∃ m xs n ys, np.Reads v m xs ∧ np.Reads w n ys ∧
    (np.Zero xs ∨ np.Zero ys ∨ Combine m n ∧ np.Finite xs ∧ np.Finite ys)

theorem squares_nonneg (ps : List ℚ) : 0 ≤ squares ps := by
  refine List.sum_nonneg ?_
  intro x hx
  rcases List.mem_map.mp hx with ⟨p, _, rfl⟩
  exact sq_nonneg p

theorem products_nonneg (ps qs : List ℚ) : 0 ≤ products ps qs := by
  induction ps generalizing qs with
  | nil => simp [products]
  | cons p ps ih =>
    cases qs with
    | nil => simp [products]
    | cons q qs => simpa [products] using add_nonneg (abs_nonneg (p * q)) (ih qs)

/-- The Cauchy-Schwarz inequality. -/
theorem products_sq_le (ps qs : List ℚ) : products ps qs ^ 2 ≤ squares ps * squares qs := by
  induction ps generalizing qs with
  | nil => simp [products, squares]
  | cons p ps ih =>
    cases qs with
    | nil => simp [products, squares]
    | cons q qs =>
      have hih := ih qs
      have ha := squares_nonneg ps
      have hb := squares_nonneg qs
      simp only [products, squares, List.zipWith_cons_cons, List.map_cons, List.sum_cons]
        at hih ha hb ⊢
      set c := (List.zipWith (fun p q => |p * q|) ps qs).sum
      set a := (ps.map fun p => p ^ 2).sum
      set b := (qs.map fun q => q ^ 2).sum
      have hsq : |p * q| ^ 2 = p ^ 2 * q ^ 2 := by rw [sq_abs, mul_pow]
      -- twice the mixed term is at most the two mixed products
      have hmixed : 2 * (|p * q| * c) ≤ p ^ 2 * b + a * q ^ 2 := by
        refine (abs_le_of_sq_le_sq' ?_ (by positivity)).2
        calc (2 * (|p * q| * c)) ^ 2 = 4 * (p ^ 2 * q ^ 2) * c ^ 2 := by rw [← hsq]; ring
          _ ≤ 4 * (p ^ 2 * q ^ 2) * (a * b) := by gcongr
          _ ≤ (p ^ 2 * b + a * q ^ 2) ^ 2 := by linarith [sq_nonneg (p ^ 2 * b - a * q ^ 2)]
      calc (|p * q| + c) ^ 2 = p ^ 2 * q ^ 2 + 2 * (|p * q| * c) + c ^ 2 := by rw [← hsq]; ring
        _ ≤ p ^ 2 * q ^ 2 + (p ^ 2 * b + a * q ^ 2) + a * b := by gcongr
        _ = (p ^ 2 + a) * (q ^ 2 + b) := by ring

/-- A number whose square is near `a * b` is in the range of float32, and not far below a number whose
square is at most `a * b`. -/
theorem bounds_of_squares {a b c n : ℚ} (ha : 1 / 2 ^ 124 ≤ a ∧ a ≤ 2 ^ 124)
    (hb : 1 / 2 ^ 124 ≤ b ∧ b ≤ 2 ^ 124) (hn : 0 ≤ n) (hc : c ^ 2 ≤ a * b)
    (hlo : a * b ≤ 4 * n ^ 2) (hhi : n ^ 2 ≤ 4 * (a * b)) :
    1 / 2 ^ 125 ≤ n ∧ n ≤ 2 ^ 125 ∧ c ≤ 2 * n := by
  have hab : (1 / 2 ^ 124 : ℚ) * (1 / 2 ^ 124) ≤ a * b :=
    mul_le_mul ha.1 hb.1 (by positivity) (le_trans (by positivity) ha.1)
  have hab' : a * b ≤ 2 ^ 124 * 2 ^ 124 :=
    mul_le_mul ha.2 hb.2 (le_trans (by positivity) hb.1) (by positivity)
  refine ⟨?_, ?_, ?_⟩
  · refine (abs_le_of_sq_le_sq' ?_ hn).2
    norm_num at hab ⊢
    linarith
  · refine (abs_le_of_sq_le_sq' ?_ (by positivity)).2
    norm_num at hab' ⊢
    linarith
  · refine (abs_le_of_sq_le_sq' ?_ (by positivity)).2
    linarith

section

variable {np : Numpy} {xs ys : List np.Float32} {ps qs : List ℚ}

theorem Finite.values (h : np.Finite xs) : ∃ ps, np.Values xs ps := by
  induction xs with
  | nil => exact ⟨[], .nil⟩
  | cons x xs ih =>
    rcases Option.isSome_iff_exists.mp (h x List.mem_cons_self) with ⟨p, hp⟩
    rcases ih fun y hy => h y (List.mem_cons_of_mem _ hy) with ⟨ps, hps⟩
    exact ⟨p :: ps, .cons hp hps⟩

variable (hnp : np.Documented)

include hnp

/-- A norm of ordinary numbers is not zero. -/
theorem norm_ne_zero (hps : np.Values xs ps) (ho : Ordinary ps) :
    np.value (np.norm xs) ≠ some 0 := by
  intro hzero
  rcases hnp.norm_near xs ps hps ho with ⟨v, hv, hle, _⟩
  obtain rfl : v = 0 := Option.some.inj (hv.symm.trans hzero)
  have hlow := ho.le_squares
  norm_num at hle hlow
  linarith

/-- Ordinary numbers have a quotient. -/
theorem quotient_isSome (hps : np.Values xs ps) (hqs : np.Values ys qs)
    (hlength : xs.length = ys.length) (hp : Ordinary ps) (hq : Ordinary qs) :
    (np.value (np.div (np.dot xs ys) (np.mul (np.norm xs) (np.norm ys)))).isSome = true := by
  rcases hnp.norm_near xs ps hps hp with ⟨m, hm, hmlo, hmhi⟩
  rcases hnp.norm_near ys qs hqs hq with ⟨n, hn, hnlo, hnhi⟩
  rcases hnp.dot_near xs ps ys qs hps hqs hlength hp hq with ⟨d, hd, hdle⟩
  have ha := squares_nonneg ps
  have hb := squares_nonneg qs
  have hsq : |m * n| ^ 2 = m ^ 2 * n ^ 2 := by rw [sq_abs, mul_pow]
  -- the product of the norms is in the range of float32, and not far below the dot product
  obtain ⟨hlower, hupper, hproducts⟩ := bounds_of_squares ⟨hp.le_squares, hp.squares_le⟩
    ⟨hq.le_squares, hq.squares_le⟩ (abs_nonneg (m * n)) (products_sq_le ps qs)
    (by
      calc squares ps * squares qs ≤ 2 * m ^ 2 * (2 * n ^ 2) := by gcongr
        _ = 4 * |m * n| ^ 2 := by rw [hsq]; ring)
    (by
      calc |m * n| ^ 2 = m ^ 2 * n ^ 2 := hsq
        _ ≤ 2 * squares ps * (2 * squares qs) := by gcongr
        _ = 4 * (squares ps * squares qs) := by ring)
  rcases hnp.mul_near _ m _ n hm hn (le_trans (by norm_num) hlower)
    (hupper.trans (by norm_num)) with ⟨v, hv, hmv⟩
  have hv0 : 0 < |v| := by
    have : (0 : ℚ) < 1 / 2 ^ 125 := by positivity
    linarith
  refine hnp.div_finite _ d _ v hd hv (abs_pos.mp hv0) ?_
  calc |d| ≤ 2 * products ps qs + 1 / 2 ^ 128 := hdle
    _ ≤ 4 * |m * n| + 1 / 2 ^ 125 := by
      have : (1 / 2 ^ 128 : ℚ) ≤ 1 / 2 ^ 125 := by norm_num
      linarith
    _ ≤ 10 * |v| := by linarith
    _ ≤ 2 ^ 100 * |v| := by gcongr; norm_num

/-- A list whose norm is zero has nothing but zeros, if it is sized. -/
theorem Sized.zero_of_norm {v : Json} {shape : List ℕ} (hv : np.Sized v) (hr : np.Reads v shape xs)
    (hzero : np.value (np.norm xs) = some 0) : np.Zero xs := by
  have hfinite : np.Finite xs := by
    intro x hx
    rw [Option.isSome_iff_ne_none]
    intro hnone
    rw [hnp.norm_lost xs ⟨x, hx, hnone⟩] at hzero
    cases hzero
  rcases hfinite.values with ⟨ps, hps⟩
  rcases hv shape xs ps hr hps with h | ho
  · exact h
  · exact absurd hzero (norm_ne_zero hnp hps ho)

/-- A quotient has lost no element. -/
theorem finite_of_quotient (hlength : xs.length = ys.length) {y : np.Float32}
    (h : (np.value (np.div (np.dot xs ys) y)).isSome = true) : np.Finite xs ∧ np.Finite ys := by
  have hall : ∀ x ∈ xs ++ ys, (np.value x).isSome = true := by
    intro x hx
    rw [Option.isSome_iff_ne_none]
    intro hnone
    rw [hnp.div_lost _ y (hnp.dot_lost xs ys hlength ⟨x, hx, hnone⟩)] at h
    cases h
  exact ⟨fun x hx => hall x (List.mem_append_left _ hx),
    fun y hy => hall y (List.mem_append_right _ hy)⟩

end

end Numpy

end Doppelganger
