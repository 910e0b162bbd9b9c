import Mathlib.Logic.Function.Basic
import Mathlib.Tactic

/-!
# Interleaved threads

A system of threads is a transition relation on global states. What is true of
the initial states and survives every step is true of every reachable state,
whatever the interleaving (`Reachable.invariant`).

Exclusive possession is described by `SoleHolder`: the threads that satisfy a
predicate are at most one, and it is named. A step of one thread moves the name
in one of three ways, and every other thread is left alone.
-/

set_option autoImplicit false

namespace FPGame.Foundation

universe u v

/-- A transition system with labelled steps. -/
structure Transitions (σ : Type u) (ℓ : Type v) where
  initial : σ → Prop
  step : σ → ℓ → σ → Prop

namespace Transitions

variable {σ : Type u} {ℓ : Type v} (T : Transitions σ ℓ)

/-- The states of all runs. -/
inductive Reachable : σ → Prop where
  | start {s : σ} : T.initial s → Reachable s
  | next {s s' : σ} {label : ℓ} : Reachable s → T.step s label s' → Reachable s'

variable {T}

/-- **The invariant rule.** -/
theorem Reachable.invariant {P : σ → Prop} (initial : ∀ s, T.initial s → P s)
    (preserved : ∀ s label s', P s → T.step s label s' → P s') {s : σ}
    (reachable : T.Reachable s) : P s := by
  induction reachable with
  | start starts => exact initial _ starts
  | next _ steps ih => exact preserved _ _ _ ih steps

variable (T) in
/-- A run that goes on for ever. -/
structure Run where
  state : ℕ → σ
  label : ℕ → ℓ
  initial : T.initial (state 0)
  step : ∀ n, T.step (state n) (label n) (state (n + 1))

theorem Run.reachable (run : T.Run) (n : ℕ) : T.Reachable (run.state n) := by
  induction n with
  | zero => exact .start run.initial
  | succ n ih => exact ih.next (run.step n)

variable (T) in
/-- The runs of which every step meets a condition on the state before it. -/
def guarded (meets : σ → ℓ → Prop) : Transitions σ ℓ where
  initial := T.initial
  step s label s' := T.step s label s' ∧ meets s label

theorem Reachable.of_guarded {meets : σ → ℓ → Prop} {s : σ}
    (reachable : (T.guarded meets).Reachable s) : T.Reachable s := by
  induction reachable with
  | start starts => exact .start starts
  | next _ steps ih => exact ih.next steps.1

end Transitions

/-! ## Exclusive possession -/

section SoleHolder

variable {ι : Type u} {α : Type v}

/-- The threads that satisfy `holds` are those named by `holder`. -/
def SoleHolder (holds : α → Prop) (threads : ι → α) (holder : Option ι) : Prop :=
  ∀ i, holds (threads i) ↔ holder = some i

variable {holds : α → Prop} {threads : ι → α} {holder : Option ι}

theorem SoleHolder.unique (sole : SoleHolder holds threads holder) {i j : ι}
    (first : holds (threads i)) (second : holds (threads j)) : i = j :=
  Option.some.inj (((sole i).mp first).symm.trans ((sole j).mp second))

theorem SoleHolder.isSome_iff (sole : SoleHolder holds threads holder) :
    holder.isSome = true ↔ ∃ i, holds (threads i) := by
  rw [Option.isSome_iff_exists]
  exact exists_congr fun i => (sole i).symm

variable [DecidableEq ι] {i : ι} {after : α}

/-- A step that does not change whether its thread holds keeps the holder. -/
theorem SoleHolder.keep (sole : SoleHolder holds threads holder)
    (same : holds after ↔ holds (threads i)) :
    SoleHolder holds (Function.update threads i after) holder := by
  intro j
  by_cases here : j = i
  · subst here
    rw [Function.update_self, same]
    exact sole j
  · rw [Function.update_of_ne here]
    exact sole j

/-- When nobody holds, one thread may begin to. -/
theorem SoleHolder.acquire (sole : SoleHolder holds threads none) (now : holds after) :
    SoleHolder holds (Function.update threads i after) (some i) := by
  intro j
  by_cases here : j = i
  · subst here
    simp [now]
  · rw [Function.update_of_ne here, sole j]
    simp [Ne.symm here]

/-- The holder may stop holding. -/
theorem SoleHolder.release (sole : SoleHolder holds threads holder)
    (before : holds (threads i)) (now : ¬ holds after) :
    SoleHolder holds (Function.update threads i after) none := by
  intro j
  by_cases here : j = i
  · subst here
    simp [now]
  · rw [Function.update_of_ne here, sole j, (sole i).mp before]
    simp [Ne.symm here]

end SoleHolder

/-! ## All threads after a step of one -/

section Update

variable {ι : Type u} {α : Type v} [DecidableEq ι] {P : α → Prop} {threads : ι → α} {i k : ι}
  {after : α}

theorem forall_update (before : ∀ j, j ≠ i → P (threads j)) (now : P after) (j : ι) :
    P (Function.update threads i after j) := by
  by_cases here : j = i
  · subst here
    rwa [Function.update_self]
  · rw [Function.update_of_ne here]
    exact before j here

theorem forall_ne_update (before : ∀ j, j ≠ k → P (threads j)) (now : P after) (j : ι)
    (others : j ≠ k) : P (Function.update threads i after j) := by
  by_cases here : j = i
  · subst here
    rwa [Function.update_self]
  · rw [Function.update_of_ne here]
    exact before j others

end Update

end FPGame.Foundation
