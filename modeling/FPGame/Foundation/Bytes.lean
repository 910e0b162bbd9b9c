import FPGame.Foundation.Memory

/-!
# Little-endian words in a byte memory

`littleEndian` reads a number of any width from a byte memory and `bytesOf`
splits one into bytes. A wide word is the words of its halves, so a narrower
word is read from a wider one by selecting a lane; `doubleword` is the word of a
64-bit port.
-/

set_option autoImplicit false

namespace FPGame.Foundation

/-- The number in the `n` bytes at `a`, the least significant first. -/
def littleEndian (memory : ℕ → BitVec 8) (a : ℕ) : ℕ → ℕ
  | 0 => 0
  | n + 1 => (memory a).toNat + 256 * littleEndian memory (a + 1) n

/-- The `n` low bytes of a number, the least significant first. -/
def bytesOf (value : ℕ) : ℕ → List (BitVec 8)
  | 0 => []
  | n + 1 => BitVec.ofNat 8 value :: bytesOf (value / 256) n

variable (memory : ℕ → BitVec 8) (a n : ℕ)

@[simp] theorem length_bytesOf (value n : ℕ) : (bytesOf value n).length = n := by
  induction n generalizing value with
  | zero => rfl
  | succ n ih => rw [bytesOf, List.length_cons, ih]

theorem littleEndian_lt : littleEndian memory a n < 256 ^ n := by
  induction n generalizing a with
  | zero => exact Nat.one_pos
  | succ n ih =>
      have byte := (memory a).isLt
      have rest := ih (a + 1)
      rw [littleEndian, Nat.pow_succ]
      omega

theorem littleEndian_congr {memory memory' : ℕ → BitVec 8} {a a' n : ℕ}
    (same : ∀ k, k < n → memory (a + k) = memory' (a' + k)) :
    littleEndian memory a n = littleEndian memory' a' n := by
  induction n generalizing a a' with
  | zero => rfl
  | succ n ih =>
      have first : memory a = memory' a' := same 0 (by omega)
      have others : littleEndian memory (a + 1) n = littleEndian memory' (a' + 1) n := by
        apply ih
        intro k within
        rw [Nat.add_right_comm, Nat.add_right_comm a']
        exact same (k + 1) (by omega)
      rw [littleEndian, littleEndian, first, others]

theorem littleEndian_add (k : ℕ) :
    littleEndian memory a (n + k) =
      littleEndian memory a n + 256 ^ n * littleEndian memory (a + n) k := by
  induction n generalizing a with
  | zero => simp [littleEndian]
  | succ n ih =>
      rw [Nat.add_right_comm, littleEndian, littleEndian, ih, Nat.pow_succ,
        show a + 1 + n = a + (n + 1) by omega]
      ring

/-- A word of `k` bytes, `n` bytes into a wider one. -/
theorem littleEndian_select (k rest : ℕ) :
    littleEndian memory a (n + (k + rest)) / 256 ^ n % 256 ^ k =
      littleEndian memory (a + n) k := by
  rw [littleEndian_add, Nat.add_mul_div_left _ _ (Nat.pow_pos (by decide)),
    Nat.div_eq_of_lt (littleEndian_lt memory a n), Nat.zero_add, littleEndian_add,
    Nat.add_mul_mod_self_left, Nat.mod_eq_of_lt (littleEndian_lt memory (a + n) k)]

/-! ## The words of a 64-bit port -/

/-- The word that a 64-bit port reads at a word address. -/
def doubleword (memory : ℕ → BitVec 8) (w : ℕ) : BitVec 64 :=
  BitVec.ofNat 64 (littleEndian memory (8 * w) 8)

/-- A lane of a word is the number in its own bytes. -/
theorem lane_doubleword (w n k rest : ℕ) (split : n * k + (n + rest) = 8) :
    (lane (8 * n) k (doubleword memory w) : BitVec (8 * n)).toNat =
      littleEndian memory (8 * w + n * k) n := by
  have bound : littleEndian memory (8 * w) 8 < 2 ^ 64 := littleEndian_lt memory (8 * w) 8
  have selected := littleEndian_select memory (8 * w) (n * k) n rest
  have power : ∀ m, 2 ^ (8 * m) = 256 ^ m := fun m => by rw [Nat.pow_mul]
  rw [split] at selected
  rw [lane, BitVec.extractLsb'_toNat, doubleword, BitVec.toNat_ofNat,
    Nat.mod_eq_of_lt bound, Nat.shiftRight_eq_div_pow, power,
    show 8 * n * k = 8 * (n * k) by ring, power]
  exact selected

/-- The byte lanes of a word are its bytes. -/
theorem byte_doubleword (w : ℕ) {k : ℕ} (within : k < 8) :
    lane 8 k (doubleword memory w) = memory (8 * w + k) := by
  apply BitVec.eq_of_toNat_eq
  have selected := lane_doubleword memory w 1 k (7 - k) (by omega)
  simpa [littleEndian] using selected

theorem doubleword_congr {memory memory' : ℕ → BitVec 8} {w w' : ℕ}
    (same : ∀ k, k < 8 → memory (8 * w + k) = memory' (8 * w' + k)) :
    doubleword memory w = doubleword memory' w' := by
  rw [doubleword, doubleword, littleEndian_congr same]

/-! ## Reading back -/

/-- Reading back the digits of a number to the base 256. -/
theorem littleEndian_digits {memory : ℕ → BitVec 8} {a n value : ℕ}
    (digit : ∀ k, k < n → (memory (a + k)).toNat = value / 256 ^ k % 256) :
    littleEndian memory a n = value % 256 ^ n := by
  induction n generalizing a value with
  | zero => rw [littleEndian, Nat.pow_zero, Nat.mod_one]
  | succ n ih =>
      have first := digit 0 (Nat.succ_pos n)
      have rest := @ih (a + 1) (value / 256) fun k within => by
        have following := digit (k + 1) (Nat.succ_lt_succ within)
        rw [show a + 1 + k = a + (k + 1) by omega, following, Nat.div_div_eq_div_mul,
          ← Nat.pow_succ']
      rw [Nat.add_zero, Nat.pow_zero, Nat.div_one] at first
      rw [littleEndian, first, rest, Nat.pow_succ', Nat.mod_mul]

/-- The bytes of a number are its digits. -/
theorem getElem_bytesOf {value n k : ℕ} (within : k < (bytesOf value n).length) :
    (bytesOf value n)[k].toNat = value / 256 ^ k % 256 := by
  induction n generalizing value k with
  | zero => exact absurd within (Nat.not_lt_zero k)
  | succ n ih =>
      cases k with
      | zero =>
          rw [Nat.pow_zero, Nat.div_one]
          exact BitVec.toNat_ofNat value 8
      | succ k =>
          rw [Nat.pow_succ', ← Nat.div_div_eq_div_mul]
          exact ih (Nat.lt_of_succ_lt_succ within)

/-- Reading back what was split into bytes. -/
theorem littleEndian_bytesOf {memory : ℕ → BitVec 8} {a n value : ℕ}
    (stored : ∀ k (within : k < (bytesOf value n).length), memory (a + k) = (bytesOf value n)[k]) :
    littleEndian memory a n = value % 256 ^ n := by
  apply littleEndian_digits
  intro k within
  rw [stored k (by rwa [length_bytesOf]), getElem_bytesOf]

/-- Reading back a word of which every byte lane is stored. -/
theorem littleEndian_lanes {memory : ℕ → BitVec 8} {a n total : ℕ} {word : BitVec total}
    (stored : ∀ k, k < n → memory (a + k) = lane 8 k word) :
    littleEndian memory a n = word.toNat % 256 ^ n := by
  apply littleEndian_digits
  intro k within
  rw [stored k within, lane, BitVec.extractLsb'_toNat, Nat.shiftRight_eq_div_pow, Nat.pow_mul]

/-- A lane of a 64-bit word, of which every byte is stored. -/
theorem lane_doubleword_eq {memory : ℕ → BitVec 8} {w n k rest : ℕ} (split : n * k + (n + rest) = 8)
    {word : BitVec (8 * n)} (stored : ∀ j, j < n → memory (8 * w + n * k + j) = lane 8 j word) :
    lane (8 * n) k (doubleword memory w) = word := by
  apply BitVec.eq_of_toNat_eq
  rw [lane_doubleword memory w n k rest split, littleEndian_lanes stored]
  exact Nat.mod_eq_of_lt (by rw [show 256 = 2 ^ 8 from rfl, ← Nat.pow_mul]; exact word.isLt)

end FPGame.Foundation
