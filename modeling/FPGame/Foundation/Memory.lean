import Mathlib.Data.Nat.Basic
import Mathlib.Logic.Function.Basic
import Mathlib.Tactic

/-!
# Word memories with registered ports

A memory is a function from addresses to words. Its contents change at a clock
edge at which a port's write enable is high. A read port registers the address
and then the output, so the word that belongs to an address appears two clocks
after the address was presented.

A word that is wider than the port that reads it is split into lanes, the
lowest lane at the lowest address.
-/

set_option autoImplicit false

namespace FPGame.Foundation

universe u v

/-- The contents after a clock edge with one write port. -/
def store {α : Type u} (memory : ℕ → α) (wren : Bool) (address : ℕ) (data : α) : ℕ → α :=
  if wren then Function.update memory address data else memory

section Store

variable {α : Type u} (memory : ℕ → α) (address : ℕ) (data : α)

@[simp] theorem store_false : store memory false address data = memory := rfl

@[simp] theorem store_true :
    store memory true address data = Function.update memory address data := rfl

theorem store_of_ne (wren : Bool) {other : ℕ} (different : other ≠ address) :
    store memory wren address data other = memory other := by
  cases wren with
  | false => rfl
  | true => exact Function.update_of_ne different _ _

/-- Two writes at different addresses, read through a map of pairs, are one
write of the pair. -/
theorem pair_store (wren : Bool) (low high : α) :
    (fun a => (store (store memory wren (2 * address) low) wren (2 * address + 1) high (2 * a),
      store (store memory wren (2 * address) low) wren (2 * address + 1) high (2 * a + 1))) =
      store (fun a => (memory (2 * a), memory (2 * a + 1))) wren address (low, high) := by
  cases wren with
  | false => rfl
  | true =>
      funext a
      by_cases same : a = address
      · subst same
        simp
      · have even : ¬ 2 * a = 2 * address := by omega
        have crossed : ¬ 2 * a = 2 * address + 1 := by omega
        have crossed' : ¬ 2 * a + 1 = 2 * address := by omega
        simp [same, even, crossed, crossed']

end Store

/-- The contents after a block has been stored, its first cell at `address`. -/
def storeBlock {α : Type u} (memory : ℕ → α) (address : ℕ) (block : List α) : ℕ → α := fun a =>
  if h : address ≤ a ∧ a - address < block.length then block[a - address] else memory a

section StoreBlock

variable {α : Type u} (memory : ℕ → α) (address : ℕ) (block : List α)

@[simp] theorem storeBlock_nil : storeBlock memory address [] = memory := by
  funext a
  simp [storeBlock]

theorem storeBlock_at {k : ℕ} (within : k < block.length) :
    storeBlock memory address block (address + k) = block[k] := by
  have inside : address ≤ address + k ∧ address + k - address < block.length := by omega
  rw [storeBlock, dif_pos inside]
  congr 1
  exact Nat.add_sub_cancel_left address k

theorem storeBlock_of_outside {a : ℕ} (outside : a < address ∨ address + block.length ≤ a) :
    storeBlock memory address block a = memory a := by
  rw [storeBlock, dif_neg]
  omega

/-- A block is stored one cell after the other. -/
theorem store_storeBlock_take {k : ℕ} (within : k < block.length) :
    store (storeBlock memory address (block.take k)) true (address + k) block[k] =
      storeBlock memory address (block.take (k + 1)) := by
  funext a
  rw [store_true]
  by_cases here : a = address + k
  · subst here
    rw [Function.update_self, storeBlock_at memory address _ (by rw [List.length_take]; omega),
      List.getElem_take]
  · rw [Function.update_of_ne here]
    by_cases inside : address ≤ a ∧ a - address < k
    · obtain ⟨d, rfl⟩ := Nat.exists_eq_add_of_le inside.1
      rw [storeBlock_at memory address _ (by rw [List.length_take]; omega),
        storeBlock_at memory address _ (by rw [List.length_take]; omega), List.getElem_take,
        List.getElem_take]
    · rw [storeBlock_of_outside memory address _ (by rw [List.length_take]; omega),
        storeBlock_of_outside memory address _ (by rw [List.length_take]; omega)]

end StoreBlock

/-- A read port: the word at the registered address, and the output register. -/
structure ReadPort (α : Type u) where
  fetched : α
  q : α
deriving Repr, DecidableEq

/-- One clock of a read port that is presented with an address. -/
def ReadPort.next {α : Type u} {κ : Type v} (port : ReadPort α) (memory : κ → α) (address : κ) :
    ReadPort α where
  fetched := memory address
  q := port.fetched

namespace ReadPort

variable {α : Type u} {κ : Type v} (port : ReadPort α) (memory : κ → α) (address : κ)

@[simp] theorem next_fetched : (port.next memory address).fetched = memory address := rfl

@[simp] theorem next_q : (port.next memory address).q = port.fetched := rfl

end ReadPort

/-- Lane `k` of a word, counted from the least significant end. -/
def lane {total : ℕ} (width k : ℕ) (word : BitVec total) : BitVec width :=
  word.extractLsb' (width * k) width

/-- A concatenation as a number. -/
theorem toNat_append_add {m n : ℕ} (high : BitVec m) (low : BitVec n) :
    (high ++ low).toNat = high.toNat * 2 ^ n + low.toNat := by
  rw [BitVec.toNat_append, ← Nat.shiftLeft_add_eq_or_of_lt low.isLt, Nat.shiftLeft_eq]

end FPGame.Foundation
