import Mathlib.Data.Nat.Notation
import Mathlib.Logic.Function.Basic

/-!
# Stores into an array

What a function writes into an array is a list of stores. An element that is
stored with one value only holds it afterwards (`applyStores_of_mem`), and one
that is not stored is unchanged (`applyStores_of_not_stored`). Values that are
stored into consecutive elements are found there (`applyStores_storesFrom`).
-/

set_option autoImplicit false

namespace FPGame.Foundation

universe u v

variable {ι : Type u} {α : Type v} [DecidableEq ι]

/-- The array after stores have been made, one after the other. -/
def applyStores (memory : ι → α) (stores : List (ι × α)) : ι → α :=
  stores.foldl (fun memory store => Function.update memory store.1 store.2) memory

omit [DecidableEq ι] in
/-- An element is stored. -/
def Stored (stores : List (ι × α)) (i : ι) : Prop := ∃ value, (i, value) ∈ stores

section Stores

variable {memory : ι → α} {stores : List (ι × α)} {i : ι} {value : α}

theorem applyStores_cons (store : ι × α) :
    applyStores memory (store :: stores) =
      applyStores (Function.update memory store.1 store.2) stores := rfl

theorem applyStores_of_not_stored (misses : ¬ Stored stores i) :
    applyStores memory stores i = memory i := by
  induction stores generalizing memory with
  | nil => rfl
  | cons store stores ih =>
      have other : i ≠ store.1 := by
        rintro rfl
        exact misses ⟨store.2, List.mem_cons_self⟩
      rw [applyStores_cons, ih fun ⟨value, member⟩ => misses ⟨value, List.mem_cons_of_mem _ member⟩]
      exact Function.update_of_ne other _ _

/-- The last store of an element counts. -/
theorem applyStores_mem (stored : Stored stores i) :
    (i, applyStores memory stores i) ∈ stores := by
  induction stores generalizing memory with
  | nil =>
      obtain ⟨value, member⟩ := stored
      exact absurd member List.not_mem_nil
  | cons store stores ih =>
      rw [applyStores_cons]
      by_cases later : Stored stores i
      · exact List.mem_cons_of_mem _ (ih later)
      · obtain ⟨value, member⟩ := stored
        rcases List.mem_cons.mp member with rfl | tail
        · rw [applyStores_of_not_stored later, Function.update_self]
          exact List.mem_cons_self
        · exact absurd ⟨value, tail⟩ later

theorem applyStores_of_mem (member : (i, value) ∈ stores)
    (only : ∀ other, (i, other) ∈ stores → other = value) :
    applyStores memory stores i = value :=
  only _ (applyStores_mem ⟨value, member⟩)

end Stores

/-! ## Consecutive elements -/

/-- Values stored into consecutive elements, from element `first` on. -/
def storesFrom (first : ℕ) : List α → List (ℕ × α)
  | [] => []
  | value :: values => (first, value) :: storesFrom (first + 1) values

section Consecutive

variable {memory : ℕ → α} {values : List α} {i : ℕ} {value : α}

theorem mem_storesFrom {first : ℕ} :
    (i, value) ∈ storesFrom first values ↔ first ≤ i ∧ values[i - first]? = some value := by
  induction values generalizing first with
  | nil => simp [storesFrom]
  | cons head values ih =>
      rw [storesFrom, List.mem_cons, Prod.mk.injEq, ih]
      constructor
      · rintro (⟨rfl, rfl⟩ | ⟨after, there⟩)
        · exact ⟨Nat.le_refl i, by rw [Nat.sub_self, List.getElem?_cons_zero]⟩
        · refine ⟨Nat.le_of_succ_le after, ?_⟩
          rw [show i - first = (i - (first + 1)) + 1 by omega, List.getElem?_cons_succ, there]
      · rintro ⟨after, there⟩
        rcases Nat.eq_or_lt_of_le after with rfl | later
        · rw [Nat.sub_self, List.getElem?_cons_zero] at there
          exact .inl ⟨rfl, (Option.some.inj there).symm⟩
        · rw [show i - first = (i - (first + 1)) + 1 by omega, List.getElem?_cons_succ] at there
          exact .inr ⟨later, there⟩

theorem stored_storesFrom : Stored (storesFrom 0 values) i ↔ i < values.length := by
  simp only [Stored, mem_storesFrom, Nat.zero_le, true_and, Nat.sub_zero]
  constructor
  · rintro ⟨value, there⟩
    exact (List.getElem?_eq_some_iff.mp there).1
  · intro inside
    exact ⟨values[i], List.getElem?_eq_getElem inside⟩

/-- **Each value is found in its element.** -/
theorem applyStores_storesFrom (inside : i < values.length) :
    applyStores memory (storesFrom 0 values) i = values[i] := by
  refine applyStores_of_mem (mem_storesFrom.mpr ⟨Nat.zero_le i, ?_⟩) fun other member => ?_
  · exact List.getElem?_eq_getElem inside
  · obtain ⟨-, there⟩ := mem_storesFrom.mp member
    rw [Nat.sub_zero, List.getElem?_eq_getElem inside] at there
    exact (Option.some.inj there).symm

end Consecutive

end FPGame.Foundation
