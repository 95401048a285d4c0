import Mathlib.Tactic

/-!
# Bounded semaphores

A semaphore made with `bound` permits, and the parties that share it, each of which holds
a permit or does not. `Inv` is the account: the permits that are free and those that are
held make up the bound. It is kept by everything that a party can do with a permit it
has, or has not (`acquire`, `release`, `keep`), and a release by a holder never exceeds
the bound (`lt_of_holds`).
-/

universe u

namespace BoundedSemaphore

variable {α : Type u} {holds : α → Bool} {bound free i : ℕ} {parties : List α} {a b : α}

/-- The free permits and the held ones make up the bound. -/
def Inv (holds : α → Bool) (bound free : ℕ) (parties : List α) : Prop :=
  free + parties.countP holds = bound

/-- One party is another now. -/
theorem countP_set_add (holds : α → Bool) (ha : parties[i]? = some a) (b : α) :
    (parties.set i b).countP holds + (holds a).toNat = parties.countP holds + (holds b).toNat := by
  rcases List.getElem?_eq_some_iff.mp ha with ⟨hi, rfl⟩
  have hle : (holds parties[i]).toNat ≤ parties.countP holds := by
    cases hh : holds parties[i] with
    | false => exact Nat.zero_le _
    | true => exact List.countP_pos_iff.mpr ⟨_, List.getElem_mem hi, hh⟩
  rw [List.countP_set hi]
  cases hh : holds parties[i] <;> rw [hh] at hle <;> cases hb : holds b <;>
    simp only [Bool.false_eq_true, if_false, if_true, Bool.toNat_false, Bool.toNat_true] at hle ⊢ <;>
    omega

namespace Inv

theorem init (holds : α → Bool) (bound : ℕ) : Inv holds bound bound [] := rfl

/-- A party without a permit comes in. -/
theorem enter (h : Inv holds bound free parties) (ha : holds a = false) :
    Inv holds bound free (parties ++ [a]) := by
  unfold Inv
  rw [List.countP_append, List.countP_singleton, ha]
  exact h

theorem keep (h : Inv holds bound free parties) (ha : parties[i]? = some a)
    (hab : holds b = holds a) : Inv holds bound free (parties.set i b) := by
  have hset := countP_set_add holds ha b
  unfold Inv at *
  rw [hab] at hset
  omega

theorem acquire (h : Inv holds bound free parties) (ha : parties[i]? = some a)
    (hno : holds a = false) (hyes : holds b = true) (hfree : 0 < free) :
    Inv holds bound (free - 1) (parties.set i b) := by
  have hset := countP_set_add holds ha b
  unfold Inv at *
  simp only [hno, hyes, Bool.toNat_false, Bool.toNat_true] at hset
  omega

/-- Who holds a permit may give it back. -/
theorem lt_of_holds (h : Inv holds bound free parties) (ha : parties[i]? = some a)
    (hyes : holds a = true) : free < bound := by
  have hpos : 0 < parties.countP holds :=
    List.countP_pos_iff.mpr ⟨a, List.mem_of_getElem? ha, hyes⟩
  unfold Inv at h
  omega

theorem release (h : Inv holds bound free parties) (ha : parties[i]? = some a)
    (hyes : holds a = true) (hno : holds b = false) :
    Inv holds bound (free + 1) (parties.set i b) := by
  have hset := countP_set_add holds ha b
  have hlt := h.lt_of_holds ha hyes
  unfold Inv at *
  simp only [hno, hyes, Bool.toNat_false, Bool.toNat_true] at hset
  omega

/-- Where nobody holds a permit, all are free. -/
theorem all_free (h : Inv holds bound free parties) (hno : ∀ a ∈ parties, holds a = false) :
    free = bound := by
  have hzero : parties.countP holds = 0 := by
    rw [List.countP_eq_zero]
    intro a ha
    simp [hno a ha]
  unfold Inv at h
  omega

/-- No more parties do what takes a permit than there are permits. -/
theorem countP_le (h : Inv holds bound free parties) {p : α → Bool}
    (hp : ∀ a, p a = true → holds a = true) : parties.countP p ≤ bound := by
  have hle : parties.countP p ≤ parties.countP holds := List.countP_mono_left fun a _ => hp a
  unfold Inv at h
  omega

end Inv

end BoundedSemaphore
