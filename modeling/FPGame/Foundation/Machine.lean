import Mathlib.Data.Nat.Nth
import Mathlib.Tactic

/-!
# Synchronous machines

A synchronous machine is a reset value of its registers and a function that
gives the registers after one clock from the registers and the inputs of that
clock. A run is determined by the stream of inputs, so a statement about every
run is a statement about every stream.

* `invariant` is the induction rule for safety: a predicate of the registers
  that holds at reset and survives every admitted clock holds at all times.
* `run_part` gives the parts of a machine their own runs.
* `Reached` are the registers of all runs, and `run_of_clocked` finds the run, for a
  machine that is clocked inside something larger.
* `exists_of_recurrence` is the rule for progress: a measure that falls again and
  again under a fair environment leads to its goal. `exists_of_helpful` is its form for
  a phase in which each value of the measure waits for an event of its own.
* `slot_rule` is the induction rule for work that is started by pulses.
* `run_eq_takenSince` reads what a machine holds as what it has taken since it
  was cleared.
-/

set_option autoImplicit false

namespace FPGame.Foundation

universe u v w x

/-- A synchronous machine with registers `σ` and inputs `ι`. -/
structure Machine (σ : Type u) (ι : Type v) where
  /-- The registers while reset is asserted. -/
  reset : σ
  /-- The registers after one clock edge. -/
  next : σ → ι → σ

namespace Machine

variable {σ : Type u} {ι : Type v} (M : Machine σ ι)

/-- The registers after `t` clocks that start from `s`. -/
def runFrom (s : σ) (inputs : ℕ → ι) : ℕ → σ
  | 0 => s
  | t + 1 => M.next (runFrom s inputs t) (inputs t)

/-- The registers after `t` clocks out of reset. -/
def run (inputs : ℕ → ι) : ℕ → σ := M.runFrom M.reset inputs

variable {M}

@[simp] theorem runFrom_zero (s : σ) (inputs : ℕ → ι) : M.runFrom s inputs 0 = s := rfl

theorem runFrom_succ (s : σ) (inputs : ℕ → ι) (t : ℕ) :
    M.runFrom s inputs (t + 1) = M.next (M.runFrom s inputs t) (inputs t) := rfl

@[simp] theorem run_zero (inputs : ℕ → ι) : M.run inputs 0 = M.reset := rfl

theorem run_succ (inputs : ℕ → ι) (t : ℕ) :
    M.run inputs (t + 1) = M.next (M.run inputs t) (inputs t) := rfl

/-- Running on is running from where the run stands. -/
theorem runFrom_add (s : σ) (inputs : ℕ → ι) (t u : ℕ) :
    M.runFrom s inputs (t + u) =
      M.runFrom (M.runFrom s inputs t) (fun k => inputs (t + k)) u := by
  induction u with
  | zero => rfl
  | succ u ih =>
      rw [← Nat.add_assoc, runFrom_succ, ih]
      rfl

/-- The registers depend on the inputs of the clocks before only. -/
theorem run_congr {inputs inputs' : ℕ → ι} {t : ℕ} (same : ∀ u, u < t → inputs u = inputs' u) :
    M.run inputs t = M.run inputs' t := by
  induction t with
  | zero => rfl
  | succ t ih =>
      rw [run_succ, run_succ, ih fun u before => same u (Nat.lt_succ_of_lt before),
        same t (Nat.lt_succ_self t)]

/-- **A part of a machine** runs as a machine of its own, whose inputs are what
the rest of the machine drives. -/
theorem run_part {τ : Type w} {κ : Type x} {N : Machine τ κ} (part : σ → τ) (wires : σ → ι → κ)
    (initial : part M.reset = N.reset)
    (step : ∀ s y, part (M.next s y) = N.next (part s) (wires s y)) (inputs : ℕ → ι) (t : ℕ) :
    N.run (fun u => wires (M.run inputs u) (inputs u)) t = part (M.run inputs t) := by
  induction t with
  | zero => exact initial.symm
  | succ t ih => rw [run_succ, run_succ, step, ih]

/-- **The invariant rule.** A predicate that holds at reset and survives every
clock whose inputs are admitted holds at all times of an admitted run. -/
theorem invariant {P : σ → Prop} {admits : σ → ι → Prop} (initial : P M.reset)
    (preserved : ∀ s x, P s → admits s x → P (M.next s x)) {inputs : ℕ → ι}
    (admitted : ∀ t, admits (M.run inputs t) (inputs t)) : ∀ t, P (M.run inputs t) := by
  intro t
  induction t with
  | zero => exact initial
  | succ t ih => exact preserved _ _ ih (admitted t)

/-- The invariant rule for a machine whose environment is not restricted. -/
theorem invariant_always {P : σ → Prop} (initial : P M.reset)
    (preserved : ∀ s x, P s → P (M.next s x)) (inputs : ℕ → ι) :
    ∀ t, P (M.run inputs t) :=
  invariant initial (fun s x holds (_ : True) => preserved s x holds) fun _ => trivial

variable (M) in
/-- The registers of all runs. A machine that is clocked inside a larger system
moves among these. -/
inductive Reached : σ → Prop where
  | reset : Reached M.reset
  | next {s : σ} (x : ι) : Reached s → Reached (M.next s x)

/-- Registers that are reached are those of a run. -/
theorem Reached.exists_run [Nonempty ι] {s : σ} (reached : M.Reached s) :
    ∃ inputs t, M.run inputs t = s := by
  classical
  induction reached with
  | reset => exact ⟨fun _ => Classical.arbitrary ι, 0, rfl⟩
  | @next s x _ ih =>
      obtain ⟨inputs, t, rfl⟩ := ih
      refine ⟨Function.update inputs t x, t + 1, ?_⟩
      rw [run_succ, Function.update_self]
      congr 1
      exact run_congr fun u before => Function.update_of_ne before.ne x inputs

/-- **A machine that is clocked now and then** inside a run of something larger. Its
run takes its inputs from the clocks, in their order. -/
theorem run_of_clocked (part : ℕ → σ) (clock : ℕ → Prop) [DecidablePred clock] (input : ℕ → ι)
    (initial : part 0 = M.reset) (clocked : ∀ n, clock n → part (n + 1) = M.next (part n) (input n))
    (still : ∀ n, ¬ clock n → part (n + 1) = part n) (n : ℕ) :
    M.run (fun k => input (Nat.nth clock k)) (Nat.count clock n) = part n := by
  induction n with
  | zero => rw [Nat.count_zero, initial, run_zero]
  | succ n ih =>
      rw [Nat.count_succ]
      by_cases here : clock n
      · rw [if_pos here, run_succ, ih, Nat.nth_count here, clocked n here]
      · rw [if_neg here, Nat.add_zero, ih, still n here]

end Machine

/-! ## Progress along a run

The rule speaks of predicates of time, so that it applies to any run. -/

section Progress

variable {P Q : ℕ → Prop} (measure : ℕ → ℕ)

/-- A phase that persists until its measure falls, and whose measure falls
again and again, leads to its goal. -/
theorem exists_of_recurrence
    (recurs : ∀ t, P t → ∃ u, t ≤ u ∧ (Q u ∨ (P (u + 1) ∧ measure (u + 1) < measure t))) :
    ∀ t, P t → ∃ u, t ≤ u ∧ Q u := by
  suffices all : ∀ n t, measure t ≤ n → P t → ∃ u, t ≤ u ∧ Q u from
    fun t holds => all _ t le_rfl holds
  intro n
  induction n with
  | zero =>
      intro t bound holds
      obtain ⟨u, later, goal | ⟨-, falls⟩⟩ := recurs t holds
      · exact ⟨u, later, goal⟩
      · omega
  | succ n ih =>
      intro t bound holds
      obtain ⟨u, later, goal | ⟨holds', falls⟩⟩ := recurs t holds
      · exact ⟨u, later, goal⟩
      · obtain ⟨w, further, goal⟩ := ih (u + 1) (by omega) holds'
        exact ⟨w, by omega, goal⟩

/-- **The rule for helpful events.** A phase is never left but for its goal, and its
measure never rises. If an event comes, sooner or later, that lowers the measure as it
stands, then the phase leads to its goal. -/
theorem exists_of_helpful
    (keeps : ∀ t, P t → Q t ∨ (P (t + 1) ∧ measure (t + 1) ≤ measure t))
    (helpful : ∀ t, P t → ∃ u, t ≤ u ∧ (P u → measure u = measure t →
      Q u ∨ (P (u + 1) ∧ measure (u + 1) < measure u))) :
    ∀ t, P t → ∃ u, t ≤ u ∧ Q u := by
  refine exists_of_recurrence measure fun t holds => ?_
  obtain ⟨u, later, helps⟩ := helpful t holds
  have waits : ∀ k, t ≤ k → k ≤ u →
      (∃ v, t ≤ v ∧ (Q v ∨ (P (v + 1) ∧ measure (v + 1) < measure t))) ∨
        (P k ∧ measure k = measure t) := by
    intro k since
    induction k, since using Nat.le_induction with
    | base => exact fun _ => .inr ⟨holds, rfl⟩
    | succ k since ih =>
        intro upTo
        rcases ih (by omega) with done | ⟨here, same⟩
        · exact .inl done
        · rcases keeps k here with goal | ⟨next, low⟩
          · exact .inl ⟨k, since, .inl goal⟩
          · rcases Nat.lt_or_eq_of_le (same ▸ low) with falls | equal
            · exact .inl ⟨k, since, .inr ⟨next, falls⟩⟩
            · exact .inr ⟨next, equal⟩
  rcases waits u later le_rfl with done | ⟨here, same⟩
  · exact done
  · exact ⟨u, later, same ▸ helps here same⟩

end Progress

/-! ## Slots between pulses

Work that a pulse starts has to be finished when the next one comes. -/

section Slots

variable {pulse P : ℕ → Prop} {span : ℕ}

/-- There is no pulse before `t`, or a last one. -/
theorem last_pulse (pulse : ℕ → Prop) (t : ℕ) :
    (∀ s, s < t → ¬ pulse s) ∨ ∃ s, s < t ∧ pulse s ∧ ∀ u, s < u → u < t → ¬ pulse u := by
  induction t with
  | zero => exact .inl nofun
  | succ t ih =>
      by_cases now : pulse t
      · exact .inr ⟨t, Nat.lt_succ_self t, now, fun u after before => by omega⟩
      · rcases ih with none | ⟨s, before, here, alone⟩
        · refine .inl fun s earlier => ?_
          rcases Nat.lt_succ_iff_lt_or_eq.mp earlier with earlier | rfl
          · exact none s earlier
          · exact now
        · refine .inr ⟨s, Nat.lt_succ_of_lt before, here, fun u after earlier => ?_⟩
          rcases Nat.lt_succ_iff_lt_or_eq.mp earlier with earlier | rfl
          · exact alone u after earlier
          · exact now

/-- **The slot rule.** If pulses are at least `span` apart, and a pulse that finds
`P` leads back to `P` within `span`, then `P` holds whenever no pulse was less
than `span` ago. -/
theorem slot_rule (apart : ∀ s t, pulse s → pulse t → s < t → s + span ≤ t)
    (before : ∀ t, (∀ s, s < t → ¬ pulse s) → P t)
    (slot : ∀ s t, pulse s → P s → s + span ≤ t → (∀ u, s < u → u < t → ¬ pulse u) → P t) :
    ∀ t, (∀ s, pulse s → s < t → s + span ≤ t) → P t := by
  intro t
  induction t using Nat.strong_induction_on with
  | _ t ih =>
      intro far
      rcases last_pulse pulse t with none | ⟨s, earlier, here, alone⟩
      · exact before t none
      · exact slot s t here (ih s earlier fun r there => apart r s there here) (far s here earlier)
          alone

end Slots

/-! ## What a machine has taken -/

section Taking

variable {α : Type w}

/-- The items that were taken since the last clear, the earliest first. -/
def takenSince (cleared : ℕ → Bool) (taken : ℕ → Option α) : ℕ → List α
  | 0 => []
  | t + 1 => if cleared t then [] else takenSince cleared taken t ++ (taken t).toList

variable {σ : Type u} {ι : Type v} {M : Machine σ ι} {held : σ → List α}

/-- **The rule for what is held.** If every clock either drops all items or
appends the one that it takes, the items held are those taken since the last
clear. -/
theorem Machine.run_eq_takenSince (cleared : σ → ι → Bool) (taken : σ → ι → Option α)
    (initial : held M.reset = [])
    (drops : ∀ s x, cleared s x = true → held (M.next s x) = [])
    (appends : ∀ s x, cleared s x = false → held (M.next s x) = held s ++ (taken s x).toList)
    (inputs : ℕ → ι) (t : ℕ) :
    held (M.run inputs t) =
      takenSince (fun u => cleared (M.run inputs u) (inputs u))
        (fun u => taken (M.run inputs u) (inputs u)) t := by
  induction t with
  | zero => exact initial
  | succ t ih =>
      rw [run_succ, takenSince, ← ih]
      cases now : cleared (M.run inputs t) (inputs t) with
      | true => exact drops _ _ now
      | false => exact appends _ _ now

end Taking

end FPGame.Foundation
