import FPGame.Foundation.Memory

/-!
# Blocks stored one after the other

`storeBlocks` stores a list of blocks. A cell that every block misses keeps its
contents (`storeBlocks_of_misses`), and any other cell holds what the last block
that meets it has for it (`storeBlocks_last`). If the blocks are the values of a
function on `0, …, n - 1`, the last block is the one of the largest number
(`storeBlocks_range`).
-/

set_option autoImplicit false

namespace FPGame.Foundation

universe u

variable {α : Type u}

/-- The contents after blocks have been stored, each with its first address. -/
def storeBlocks (memory : ℕ → α) (blocks : List (ℕ × List α)) : ℕ → α :=
  blocks.foldl (fun memory block => storeBlock memory block.1 block.2) memory

/-- A block has no cell at an address. -/
def Misses (a : ℕ) (block : ℕ × List α) : Prop := a < block.1 ∨ block.1 + block.2.length ≤ a

theorem not_misses {a : ℕ} {block : ℕ × List α} :
    ¬ Misses a block ↔ ∃ k, k < block.2.length ∧ a = block.1 + k := by
  rw [Misses, not_or, Nat.not_lt, Nat.not_le]
  constructor
  · rintro ⟨first, last⟩
    exact ⟨a - block.1, by omega, by omega⟩
  · rintro ⟨k, within, rfl⟩
    exact ⟨Nat.le_add_right _ _, Nat.add_lt_add_left within _⟩

section Lists

variable (memory : ℕ → α)

@[simp] theorem storeBlocks_nil : storeBlocks memory [] = memory := rfl

@[simp] theorem storeBlocks_cons (block : ℕ × List α) (blocks : List (ℕ × List α)) :
    storeBlocks memory (block :: blocks) =
      storeBlocks (storeBlock memory block.1 block.2) blocks := rfl

theorem storeBlocks_append (first second : List (ℕ × List α)) :
    storeBlocks memory (first ++ second) = storeBlocks (storeBlocks memory first) second :=
  List.foldl_append

/-- **The frame.** -/
theorem storeBlocks_of_misses {blocks : List (ℕ × List α)} {a : ℕ}
    (misses : ∀ block ∈ blocks, Misses a block) : storeBlocks memory blocks a = memory a := by
  induction blocks generalizing memory with
  | nil => rfl
  | cons block blocks ih =>
      rw [storeBlocks_cons, ih _ fun other member => misses other (List.mem_cons_of_mem _ member)]
      exact storeBlock_of_outside memory _ _ (misses block List.mem_cons_self)

/-- **The last block wins.** -/
theorem storeBlocks_last {before after : List (ℕ × List α)} {block : ℕ × List α} {k : ℕ}
    (within : k < block.2.length) (misses : ∀ later ∈ after, Misses (block.1 + k) later) :
    storeBlocks memory (before ++ block :: after) (block.1 + k) = block.2[k] := by
  rw [storeBlocks_append, storeBlocks_cons, storeBlocks_of_misses _ misses]
  exact storeBlock_at _ _ _ within

end Lists

/-! ## Numbered blocks -/

section Numbered

variable (memory : ℕ → α) {block : ℕ → ℕ × List α} {n : ℕ}

theorem storeBlocks_range_of_misses {a : ℕ} (misses : ∀ i, i < n → Misses a (block i)) :
    storeBlocks memory ((List.range n).map block) a = memory a := by
  apply storeBlocks_of_misses
  intro other member
  obtain ⟨i, inside, rfl⟩ := List.mem_map.mp member
  exact misses i (List.mem_range.mp inside)

/-- A cell of a block that no block with a larger number meets. -/
theorem storeBlocks_range {i k : ℕ} (inside : i < n) (within : k < (block i).2.length)
    (misses : ∀ j, i < j → j < n → Misses ((block i).1 + k) (block j)) :
    storeBlocks memory ((List.range n).map block) ((block i).1 + k) = (block i).2[k] := by
  obtain ⟨d, rfl⟩ := Nat.exists_eq_add_of_lt inside
  have split : (List.range (i + d + 1)).map block =
      (List.range i).map block ++ block i :: (List.range' (i + 1) d).map block := by
    rw [List.range_eq_range', List.range_eq_range', show i + d + 1 = i + (d + 1) by omega,
      ← List.range'_append_1, List.map_append, Nat.zero_add, List.range'_succ, List.map_cons]
  rw [split]
  apply storeBlocks_last
  intro later member
  obtain ⟨j, named, rfl⟩ := List.mem_map.mp member
  obtain ⟨after, before⟩ := List.mem_range'_1.mp named
  exact misses j (by omega) (by omega)

end Numbered

/-! ## Memories that are seen from an offset -/

/-- Blocks stored above an offset, seen from there. -/
theorem storeBlocks_shift (memory : ℕ → α) (shift : ℕ) (blocks : List (ℕ × List α)) :
    (fun a => (blocks.foldl (fun memory block => storeBlock memory (shift + block.1) block.2)
      memory) (shift + a)) = storeBlocks (fun a => memory (shift + a)) blocks := by
  induction blocks generalizing memory with
  | nil => rfl
  | cons block blocks ih =>
      rw [List.foldl_cons, ih, storeBlocks_cons]
      congr 1
      funext a
      simp only [storeBlock, Nat.add_le_add_iff_left, Nat.add_sub_add_left]

end FPGame.Foundation
