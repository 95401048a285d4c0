import Mathlib.Tactic

/-!
# Atomic objects and their histories

An object performs operations one at a time. A *history* says for every instant
which operation is performed there, if any. To linearize a concurrent run is to
find a history of an atomic object for it, with the same outputs and the same
final state.

A history is found along the run. At each step it grows by one instant
(`state_concat`, `performs_concat`). Some operations turn out to have no effect
only after other operations were performed; such an operation can still be put at
an instant of the past that was left idle (`state_set`, `Performs.set`).
-/

universe u v w

/-- An object on which each operation is one step. -/
structure AtomicObject (S : Type u) (Op : Type v) (Out : Type w) where
  apply : Op → S → S × Out

namespace AtomicObject

variable {S : Type u} {Op : Type v} {Out : Type w} (O : AtomicObject S Op Out)

/-- The state after a history. -/
def state : List (Option Op) → S → S
  | [], s => s
  | none :: h, s => state h s
  | some op :: h, s => state h (O.apply op s).1

/-- The state at instant `i`, before what is performed there. -/
def stateAt (h : List (Option Op)) (s : S) (i : ℕ) : S := O.state (h.take i) s

/-- `op` is performed at instant `i` and gives `out`. -/
def Performs (h : List (Option Op)) (s : S) (i : ℕ) (op : Op) (out : Out) : Prop :=
  h[i]? = some (some op) ∧ (O.apply op (O.stateAt h s i)).2 = out

/-- `op` changes nothing. -/
def Quiet (op : Op) (s : S) : Prop := (O.apply op s).1 = s

/-- `h'` is `h` with one more instant. The operation that is new in it, with its instant, is none at
all, one performed now, or a quiet one put at an idle instant of the past. -/
inductive Grows (s : S) (h : List (Option Op)) : List (Option Op) → Option (ℕ × Op) → Prop
  | idle : Grows s h (h ++ [none]) none
  | now (op : Op) : Grows s h (h ++ [some op]) (some (h.length, op))
  | past (j : ℕ) (op : Op) : h[j]? = some none → Quiet O op (stateAt O h s j) →
      Grows s h (h.set j (some op) ++ [none]) (some (j, op))

variable {O} {h h' : List (Option Op)} {s : S} {i j : ℕ} {op op' : Op} {out : Out}

/-! ## A history grows -/

theorem state_append : O.state (h ++ h') s = O.state h' (O.state h s) := by
  induction h generalizing s with
  | nil => rfl
  | cons a h ih =>
    cases a with
    | none => exact ih
    | some op => exact ih

@[simp] theorem state_concat_none : O.state (h ++ [none]) s = O.state h s := by
  rw [state_append]
  rfl

@[simp] theorem state_concat_some :
    O.state (h ++ [some op]) s = (O.apply op (O.state h s)).1 := by
  rw [state_append]
  rfl

theorem stateAt_append (hi : i ≤ h.length) : O.stateAt (h ++ h') s i = O.stateAt h s i := by
  rw [stateAt, stateAt, List.take_append_of_le_length hi]

@[simp] theorem stateAt_length : O.stateAt h s h.length = O.state h s := by
  rw [stateAt, List.take_length]

theorem Performs.lt (hp : O.Performs h s i op out) : i < h.length :=
  (List.getElem?_eq_some_iff.mp hp.1).1

theorem Performs.append (hp : O.Performs h s i op out) : O.Performs (h ++ h') s i op out := by
  have hi := hp.lt
  constructor
  · rw [List.getElem?_append_left hi]
    exact hp.1
  · rw [stateAt_append hi.le]
    exact hp.2

theorem performs_concat :
    O.Performs (h ++ [some op]) s h.length op (O.apply op (O.state h s)).2 := by
  refine ⟨by simp, ?_⟩
  rw [stateAt_append le_rfl, stateAt_length]

/-- What is performed in a history with one more instant was performed before, or is performed there. -/
theorem Performs.of_concat {a : Option Op} (hp : O.Performs (h ++ [a]) s i op out) :
    O.Performs h s i op out ∨
      (i = h.length ∧ a = some op ∧ (O.apply op (O.state h s)).2 = out) := by
  have hlt := hp.lt
  rw [List.length_append, List.length_singleton] at hlt
  rcases Nat.lt_or_ge i h.length with hi | hi
  · left
    rcases hp with ⟨hget, hout⟩
    rw [List.getElem?_append_left hi] at hget
    rw [stateAt_append hi.le] at hout
    exact ⟨hget, hout⟩
  · right
    obtain rfl : i = h.length := by omega
    rcases hp with ⟨hget, hout⟩
    rw [stateAt_append le_rfl, stateAt_length] at hout
    exact ⟨rfl, by simpa using hget, hout⟩

/-! ## A quiet operation is put in the past -/

theorem state_set (hj : h[j]? = some none) (hq : O.Quiet op (O.stateAt h s j)) :
    O.state (h.set j (some op)) s = O.state h s := by
  induction h generalizing s j with
  | nil => cases hj
  | cons a h ih =>
    cases j with
    | zero =>
      obtain rfl : a = none := by simpa using hj
      have hs : (O.apply op s).1 = s := hq
      simp [state, hs]
    | succ j =>
      have hj' : h[j]? = some none := by simpa using hj
      cases a with
      | none => exact ih hj' hq
      | some op' => exact ih hj' hq

theorem stateAt_set (hj : h[j]? = some none) (hq : O.Quiet op (O.stateAt h s j)) (i : ℕ) :
    O.stateAt (h.set j (some op)) s i = O.stateAt h s i := by
  rw [stateAt, stateAt, List.take_set]
  rcases Nat.lt_or_ge j i with hlt | hge
  · refine state_set ?_ ?_
    · rwa [List.getElem?_take_of_lt hlt]
    · rwa [stateAt, List.take_take, Nat.min_eq_left hlt.le]
  · -- instants from `i` on do not matter
    rw [List.set_eq_of_length_le]
    exact (List.length_take_le i h).trans hge

/-- The other operations give the same. -/
theorem Performs.set (hp : O.Performs h s i op' out) (hj : h[j]? = some none)
    (hq : O.Quiet op (O.stateAt h s j)) : O.Performs (h.set j (some op)) s i op' out := by
  have hne : j ≠ i := by
    rintro rfl
    rw [hp.1] at hj
    cases hj
  constructor
  · rw [List.getElem?_set_ne hne]
    exact hp.1
  · rw [stateAt_set hj hq]
    exact hp.2

theorem performs_set (hj : h[j]? = some none) (hq : O.Quiet op (O.stateAt h s j)) :
    O.Performs (h.set j (some op)) s j op (O.apply op (O.stateAt h s j)).2 := by
  have hlt := (List.getElem?_eq_some_iff.mp hj).1
  constructor
  · simp [hlt]
  · rw [stateAt_set hj hq]

/-! ## One more instant -/

namespace Grows

variable {new : Option (ℕ × Op)}

theorem length (hg : O.Grows s h h' new) : h'.length = h.length + 1 := by
  cases hg <;> simp

/-- The past is the same up to the new instant. -/
theorem stateAt (hg : O.Grows s h h' new) (hi : i ≤ h.length) :
    O.stateAt h' s i = O.stateAt h s i := by
  cases hg with
  | idle => exact stateAt_append hi
  | now op => exact stateAt_append hi
  | past j op hj hq =>
    rw [stateAt_append (by simpa using hi)]
    exact stateAt_set hj hq i

theorem performs (hg : O.Grows s h h' new) (hp : O.Performs h s i op out) :
    O.Performs h' s i op out := by
  cases hg with
  | idle => exact hp.append
  | now op => exact hp.append
  | past j op hj hq => exact (hp.set hj hq).append

/-- What is performed in `h'`. -/
theorem performed_iff (hg : O.Grows s h h' new) :
    h'[i]? = some (some op) ↔ h[i]? = some (some op) ∨ new = some (i, op) := by
  cases hg with
  | idle =>
    rcases Nat.lt_trichotomy i h.length with hlt | rfl | hgt
    · simp [List.getElem?_append_left hlt]
    · simp
    · rw [List.getElem?_eq_none (by simp; omega), List.getElem?_eq_none hgt.le]
      simp
  | now op' =>
    rcases Nat.lt_trichotomy i h.length with hlt | rfl | hgt
    · rw [List.getElem?_append_left hlt]
      simp [hlt.ne']
    · simp
    · rw [List.getElem?_eq_none (by simp; omega), List.getElem?_eq_none hgt.le]
      simp [hgt.ne]
  | past j op' hj _ =>
    have hjlt := (List.getElem?_eq_some_iff.mp hj).1
    rcases Nat.lt_trichotomy i h.length with hlt | rfl | hgt
    · rw [List.getElem?_append_left (by simpa using hlt)]
      by_cases hij : j = i
      · subst hij
        rw [hj, List.getElem?_set_self hjlt]
        simp
      · simp [List.getElem?_set_ne hij, hij]
    · rw [List.getElem?_append_right (by simp)]
      simp [hjlt.ne]
    · rw [List.getElem?_eq_none (by simp; omega), List.getElem?_eq_none hgt.le]
      have hne : j ≠ i := by omega
      simp [hne]

/-- An instant that is idle stays so, unless the new operation is put there. -/
theorem idle_of_idle (hg : O.Grows s h h' new) (hi : h[i]? = some none)
    (hne : ∀ op, new ≠ some (i, op)) : h'[i]? = some none := by
  have hlt := (List.getElem?_eq_some_iff.mp hi).1
  cases hg with
  | idle => rwa [List.getElem?_append_left hlt]
  | now op => rwa [List.getElem?_append_left hlt]
  | past j op hj _ =>
    have hij : j ≠ i := fun hij => hne op (by rw [hij])
    rw [List.getElem?_append_left (by simpa using hlt), List.getElem?_set_ne hij]
    exact hi

/-- The new operation gives what it gives in the state at its instant. -/
theorem performs_new (hg : O.Grows s h h' new) (hnew : new = some (i, op)) :
    O.Performs h' s i op (O.apply op (O.stateAt h s i)).2 := by
  cases hg with
  | idle => cases hnew
  | now op' =>
    rcases Prod.mk.inj (Option.some.inj hnew) with ⟨rfl, rfl⟩
    rw [stateAt_length]
    exact performs_concat
  | past j op' hj hq =>
    rcases Prod.mk.inj (Option.some.inj hnew) with ⟨rfl, rfl⟩
    exact (performs_set hj hq).append

end Grows

end AtomicObject
