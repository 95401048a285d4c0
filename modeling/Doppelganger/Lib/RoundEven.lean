import Mathlib.Algebra.Order.Field.Basic
import Mathlib.Algebra.Ring.Int.Parity
import Mathlib.Tactic

/-!
# Rounding half to even

`RoundsTo x n` says that the integer `n` is `x` rounded to the nearest, a tie going to the
even neighbour. It determines `n`, and comparing `n` with an integer comes down to comparing
`x` with a half point (`le_iff_of_even`, `le_iff_of_odd`). `roundEven` computes it.

Rounding to a grid of step `1 / k` first and to integers afterwards moves those half points by
half a step (`twice_le_iff_of_even`, `twice_le_iff_of_odd`), so the two ways differ only next to
them (`eq_twice_iff`).
-/

variable {α : Type*} [Field α] [LinearOrder α] [IsStrictOrderedRing α]

structure RoundsTo (x : α) (n : ℤ) : Prop where
  below : (n : α) - 1 / 2 ≤ x
  above : x ≤ n + 1 / 2
  tie_below : x = n - 1 / 2 → Even n
  tie_above : x = n + 1 / 2 → Even n

namespace RoundsTo

variable {x y : α} {m n : ℤ}

/-- An even number is reached from the half point before it on. -/
theorem le_iff_of_even (h : RoundsTo x n) (hm : Even m) : m ≤ n ↔ (m : α) - 1 / 2 ≤ x := by
  constructor
  · intro hmn
    have hcast : (m : α) ≤ n := by exact_mod_cast hmn
    linarith [h.below]
  · intro hx
    by_contra hlt
    have hcast : (n : α) + 1 ≤ m := by exact_mod_cast not_le.mp hlt
    -- rounded down from the half point itself: then the lower neighbour is even as well
    have hn : (m : α) = n + 1 := by linarith [h.above]
    have htie : x = n + 1 / 2 := by linarith [h.above]
    have hn' : m = n + 1 := by exact_mod_cast hn
    rw [hn'] at hm
    exact (Int.even_add_one.mp hm) (h.tie_above htie)

/-- An odd number is reached from just after the half point before it on. -/
theorem le_iff_of_odd (h : RoundsTo x n) (hm : Odd m) : m ≤ n ↔ (m : α) - 1 / 2 < x := by
  constructor
  · intro hmn
    rcases hmn.lt_or_eq with hlt | rfl
    · have hcast : (m : α) + 1 ≤ n := by exact_mod_cast hlt
      linarith [h.below]
    · refine lt_of_le_of_ne h.below ?_
      intro htie
      exact (Int.not_even_iff_odd.mpr hm) (h.tie_below htie.symm)
  · intro hx
    by_contra hlt
    have hcast : (n : α) + 1 ≤ m := by exact_mod_cast not_le.mp hlt
    linarith [h.above]

theorem mono (hx : RoundsTo x m) (hy : RoundsTo y n) (h : x ≤ y) : m ≤ n := by
  rcases Int.even_or_odd m with hm | hm
  · rw [hy.le_iff_of_even hm]
    exact ((hx.le_iff_of_even hm).mp le_rfl).trans h
  · rw [hy.le_iff_of_odd hm]
    exact ((hx.le_iff_of_odd hm).mp le_rfl).trans_le h

theorem unique (hm : RoundsTo x m) (hn : RoundsTo x n) : m = n :=
  le_antisymm (hm.mono hn le_rfl) (hn.mono hm le_rfl)

theorem intCast (n : ℤ) : RoundsTo (n : α) n := by
  constructor
  · linarith
  · linarith
  · intro h
    linarith
  · intro h
    linarith

theorem neg (h : RoundsTo x n) : RoundsTo (-x) (-n) := by
  constructor
  · push_cast
    linarith [h.above]
  · push_cast
    linarith [h.below]
  · intro hx
    rw [even_neg]
    push_cast at hx
    exact h.tie_above (by linarith)
  · intro hx
    rw [even_neg]
    push_cast at hx
    exact h.tie_below (by linarith)

/-- An integer bound on `x` is a bound on the rounded `x`. -/
theorem le_of_intCast_le (h : RoundsTo x n) (hm : (m : α) ≤ x) : m ≤ n := (intCast m).mono h hm

theorem le_of_le_intCast (h : RoundsTo x n) (hm : x ≤ (m : α)) : n ≤ m := h.mono (intCast m) hm

end RoundsTo

/-- The nearest integer, ties to the even one. -/
def roundEven [FloorRing α] (x : α) : ℤ :=
  let n := ⌊x⌋
  if x - n < 1 / 2 then n
  else if 1 / 2 < x - n then n + 1
  else if n % 2 = 0 then n else n + 1

theorem roundEven_roundsTo [FloorRing α] (x : α) : RoundsTo x (roundEven x) := by
  have hlo := Int.floor_le x
  have hhi := Int.lt_floor_add_one x
  unfold roundEven
  dsimp only
  split_ifs with h₁ h₂ h₃
  · exact ⟨by linarith, by linarith, fun h => by linarith, fun h => by linarith⟩
  · constructor
    · push_cast
      linarith
    · push_cast
      linarith
    · push_cast
      intro h
      linarith
    · push_cast
      intro h
      linarith
  · exact ⟨by linarith, by linarith, fun _ => Int.even_iff.mpr h₃, fun _ => Int.even_iff.mpr h₃⟩
  · have heven : Even (⌊x⌋ + 1) := Int.even_add_one.mpr fun h => h₃ (Int.even_iff.mp h)
    constructor
    · push_cast
      linarith
    · push_cast
      linarith
    · exact fun _ => heven
    · exact fun _ => heven

theorem roundEven_eq [FloorRing α] {x : α} {n : ℤ} (h : RoundsTo x n) : roundEven x = n :=
  (roundEven_roundsTo x).unique h

theorem roundEven_neg [FloorRing α] (x : α) : roundEven (-x) = -roundEven x :=
  roundEven_eq (roundEven_roundsTo x).neg

theorem roundEven_nonneg [FloorRing α] {x : α} (h : 0 ≤ x) : 0 ≤ roundEven x := by
  refine (roundEven_roundsTo x).le_of_intCast_le ?_
  rwa [Int.cast_zero]

namespace RoundsTo

variable {x y : α} {m n : ℤ}

/-! ## Rounding twice

`r` is `x` in steps of `1 / k`, and `q` is `r / k` rounded again. For a `k` that four divides,
the half points are on the grid and have an even number. -/

section
variable {k r q : ℤ}

/-- The half point before `m`, counted in steps of `1 / k`. -/
theorem exists_half (h4 : 4 ∣ k) (m : ℤ) : ∃ c : ℤ, Even c ∧ (c : α) = k * (m - 1 / 2) := by
  rcases h4 with ⟨j, rfl⟩
  refine ⟨2 * (2 * j * m - j), even_two_mul _, ?_⟩
  push_cast
  ring

theorem twice_le_iff_of_even (hk : 0 < k) (h4 : 4 ∣ k) (hr : RoundsTo (k * x) r)
    (hq : RoundsTo ((r : α) / k) q) (hm : Even m) :
    m ≤ q ↔ (m : α) - 1 / 2 - 1 / (2 * k) ≤ x := by
  have hk' : (0 : α) < k := by exact_mod_cast hk
  rcases exists_half (α := α) h4 m with ⟨c, hc, hcast⟩
  have hgrid : (m : α) - 1 / 2 ≤ r / k ↔ c ≤ r := by
    rw [le_div_iff₀ hk', mul_comm, ← hcast, Int.cast_le]
  rw [hq.le_iff_of_even hm, hgrid, hr.le_iff_of_even hc, hcast]
  have hstep : (k : α) * (m - 1 / 2) - 1 / 2 = k * ((m : α) - 1 / 2 - 1 / (2 * k)) := by
    field_simp
  rw [hstep, mul_le_mul_iff_right₀ hk']

theorem twice_le_iff_of_odd (hk : 0 < k) (h4 : 4 ∣ k) (hr : RoundsTo (k * x) r)
    (hq : RoundsTo ((r : α) / k) q) (hm : Odd m) :
    m ≤ q ↔ (m : α) - 1 / 2 + 1 / (2 * k) < x := by
  have hk' : (0 : α) < k := by exact_mod_cast hk
  rcases exists_half (α := α) h4 m with ⟨c, hc, hcast⟩
  have hgrid : (m : α) - 1 / 2 < r / k ↔ c + 1 ≤ r := by
    rw [lt_div_iff₀ hk', mul_comm, ← hcast, Int.cast_lt, Int.add_one_le_iff]
  rw [hq.le_iff_of_odd hm, hgrid, hr.le_iff_of_odd hc.add_one, Int.cast_add, hcast, Int.cast_one]
  have hstep : (k : α) * (m - 1 / 2) + 1 - 1 / 2 = k * ((m : α) - 1 / 2 + 1 / (2 * k)) := by
    field_simp
    ring
  rw [hstep, mul_lt_mul_iff_right₀ hk']

/-- The half point before `m` separates `x` rounded twice from `x` rounded once: it is at most half
a step away, on the side that goes to the odd neighbour. -/
def Apart (k : ℤ) (x : α) (m : ℤ) : Prop :=
  Even m ∧ (m : α) - 1 / 2 - 1 / (2 * k) ≤ x ∧ x < m - 1 / 2 ∨
  Odd m ∧ (m : α) - 1 / 2 < x ∧ x ≤ m - 1 / 2 + 1 / (2 * k)

theorem eq_twice_iff (hk : 0 < k) (h4 : 4 ∣ k) (hn : RoundsTo x n) (hr : RoundsTo (k * x) r)
    (hq : RoundsTo ((r : α) / k) q) : q = n ↔ ∀ m, ¬ Apart k x m := by
  have hk' : (0 : α) < 1 / (2 * k) := by
    have hcast : (0 : α) < k := by exact_mod_cast hk
    positivity
  -- the two agree when they have the same integers below them
  have hsame : q = n ↔ ∀ m, m ≤ q ↔ m ≤ n :=
    ⟨fun h m => by rw [h], fun h => le_antisymm ((h q).mp le_rfl) ((h n).mpr le_rfl)⟩
  rw [hsame]
  refine forall_congr' ?_
  intro m
  rcases Int.even_or_odd m with hm | hm
  · have hodd : ¬ Odd m := Int.not_odd_iff_even.mpr hm
    rw [twice_le_iff_of_even hk h4 hr hq hm, hn.le_iff_of_even hm]
    simp only [Apart, hm, hodd, true_and, false_and, or_false, not_and, not_lt]
    exact ⟨fun h hx => h.mp hx, fun h => ⟨h, fun hx => by linarith⟩⟩
  · have heven : ¬ Even m := Int.not_even_iff_odd.mpr hm
    rw [twice_le_iff_of_odd hk h4 hr hq hm, hn.le_iff_of_odd hm]
    simp only [Apart, hm, heven, true_and, false_and, false_or, not_and, not_le]
    exact ⟨fun h hx => h.mpr hx, fun h => ⟨fun hx => by linarith, h⟩⟩

end

end RoundsTo
