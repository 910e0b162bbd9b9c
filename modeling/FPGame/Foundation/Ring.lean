import Mathlib.Data.Nat.ModEq
import Mathlib.Tactic

/-!
# Pointers that count down around a ring

A ring of `size` cells is addressed by a pointer that starts at 0 and is
decremented. After `n` steps it stands at `down size n`. Two counts that differ
by less than the size stand at different cells, and two counts that differ by
the size stand at the same one.
-/

set_option autoImplicit false

namespace FPGame.Foundation

/-- Where a pointer that counts down from 0 stands after `n` steps. -/
def down (size n : ℕ) : ℕ := (size - n % size) % size

variable {size n m : ℕ}

@[simp] theorem down_zero : down size 0 = 0 := by simp [down]

/-- One decrement modulo the size. -/
theorem down_succ (positive : 0 < size) : down size (n + 1) = (down size n + (size - 1)) % size := by
  have within : n % size < size := Nat.mod_lt _ positive
  have following : (n + 1) % size = if n % size + 1 = size then 0 else n % size + 1 := by
    rw [Nat.add_mod]
    split_ifs with wraps
    · rcases Nat.lt_or_ge 1 size with large | small
      · rw [Nat.mod_eq_of_lt large, wraps, Nat.mod_self]
      · obtain rfl : size = 1 := by omega
        exact Nat.mod_one _
    · rw [Nat.mod_eq_of_lt (show 1 < size by omega), Nat.mod_eq_of_lt (by omega)]
  simp only [down, following]
  by_cases start : n % size = 0
  · rw [start, Nat.sub_zero, Nat.mod_self, Nat.zero_add, Nat.zero_add]
    split_ifs with one
    · obtain rfl : size = 1 := one.symm
      rfl
    · rfl
  · rw [Nat.mod_eq_of_lt (show size - n % size < size by omega)]
    have wrapped : size - n % size + (size - 1) = size - (n % size + 1) + size := by omega
    rw [wrapped, Nat.add_mod_right]
    split_ifs with wraps
    · rw [wraps, Nat.sub_self, Nat.sub_zero, Nat.mod_self, Nat.zero_mod]
    · rfl

/-- Equal cells come from counts that agree modulo the size. -/
theorem down_eq_iff (positive : 0 < size) : down size n = down size m ↔ n % size = m % size := by
  have boundN : n % size < size := Nat.mod_lt _ positive
  have boundM : m % size < size := Nat.mod_lt _ positive
  constructor
  · intro same
    have value : ∀ k, k < size → (size - k) % size = if k = 0 then 0 else size - k := by
      intro k bound
      split_ifs with start
      · rw [start, Nat.sub_zero, Nat.mod_self]
      · exact Nat.mod_eq_of_lt (by omega)
    simp only [down, value _ boundN, value _ boundM] at same
    split_ifs at same <;> omega
  · intro same
    simp only [down, same]

/-- Counts less than a size apart stand at different cells. -/
theorem down_ne (before : n < m) (near : m < n + size) : down size n ≠ down size m := by
  intro same
  have congruent := (down_eq_iff (by omega)).mp same
  have divides : size ∣ m - n := (Nat.modEq_iff_dvd' (by omega)).mp congruent
  have := Nat.le_of_dvd (by omega) divides
  omega

end FPGame.Foundation
