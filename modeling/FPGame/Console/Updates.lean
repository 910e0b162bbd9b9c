import FPGame.Console.Screen

/-!
# Every update is acknowledged

A run of the console that goes on for ever clocks the hardware again and again, and
the clocks of it are a run of the hardware (`hardware_run`). In that run the driver
keeps the promises that the PPU relies on (`guarantee`), so what holds of the
hardware under these promises holds of it.

With a fair environment, every update that the driver sends ends with its interrupt
in the kernel, and then the PPU shows it (`update_acknowledged`).
-/

set_option autoImplicit false

namespace FPGame.Console

open FPGame.Foundation FPGame.Ppu FPGame.Dma FPGame.PpuDriver
open FPGame.FrameHandoff (Frame Stage)

/-! ## The clocks of a run -/

def Label.isClock {Tid : Type} : Label Tid → Bool
  | .clock _ => true
  | _ => false

/-- The environment of a clock. -/
def Label.clockOf {Tid : Type} : Label Tid → Clock
  | .clock c => c
  | _ => default

section Runs

variable {Tid : Type} [DecidableEq Tid] {alloc : Allocation} {powerUp : VideoSystem.PowerUp}
  (run : (console Tid alloc powerUp).Run)

/-- Step `n` is a clock. -/
def IsClock (n : ℕ) : Prop := (run.label n).isClock = true

instance : DecidablePred (IsClock run) := fun n =>
  inferInstanceAs (Decidable ((run.label n).isClock = true))

/-- The inputs of the hardware, clock by clock. -/
noncomputable def hardware (k : ℕ) : VideoSystem.Input :=
  (run.state (Nat.nth (IsClock run) k)).videoInput alloc
    (run.label (Nat.nth (IsClock run) k)).clockOf

/-- The clocks before step `n`. -/
abbrev clocks (n : ℕ) : ℕ := Nat.count (IsClock run) n

/-- What the environment owes: the hardware is clocked, stores arrive, no bus stalls
for ever, and the kernel takes a latched interrupt. -/
structure Fair : Prop where
  arrives : ∀ n, ∃ m, n ≤ m ∧ IsClock run m ∧ (run.label m).clockOf.arrives = true
  read : ∀ n, ∃ m, n ≤ m ∧ IsClock run m ∧ (run.label m).clockOf.readWaitrequest = false
  write : ∀ n, ∃ m, n ≤ m ∧ IsClock run m ∧ (run.label m).clockOf.writeWaitrequest = false
  respond : ∀ n, ∃ m, n ≤ m ∧ IsClock run m ∧ (run.label m).clockOf.respond = true
  interrupt : ∀ n, (run.state n).raised = true → ∃ m, n ≤ m ∧ run.label m = .irq

variable {run} {n k : ℕ}

theorem state_of_clock (clock : IsClock run n) :
    run.state (n + 1) = (run.state n).clockStep alloc (run.label n).clockOf := by
  have step := run.step n
  rw [IsClock] at clock
  cases label : run.label n with
  | clock c =>
      rw [label] at step
      exact step.of_clock
  | thread | irq =>
      rw [label] at clock
      cases clock

theorem video_of_not_clock (other : ¬ IsClock run n) :
    (run.state (n + 1)).video = (run.state n).video := by
  have step := run.step n
  rw [IsClock] at other
  cases label : run.label n with
  | clock c =>
      rw [label] at other
      exact absurd rfl other
  | thread tid choice =>
      rw [label] at step
      rw [step.of_thread.1]
      rfl
  | irq =>
      rw [label] at step
      rw [step.of_irq.1]
      rfl

/-- **The clocks are a run of the hardware.** -/
theorem hardware_run (n : ℕ) :
    (VideoSystem.machine powerUp).run (hardware run) (clocks run n) = (run.state n).video := by
  refine Machine.run_of_clocked (fun n => (run.state n).video) (IsClock run)
    (fun n => (run.state n).videoInput alloc (run.label n).clockOf) run.initial.video ?_ ?_ n
  · intro n clock
    rw [state_of_clock clock]
    rfl
  · exact fun n other => video_of_not_clock other

theorem hardware_of_clock (clock : IsClock run n) :
    hardware run (clocks run n) = (run.state n).videoInput alloc (run.label n).clockOf := by
  rw [hardware, Nat.nth_count clock]

theorem clocks_of_clock (clock : IsClock run n) : clocks run (n + 1) = clocks run n + 1 := by
  rw [clocks, Nat.count_succ, if_pos clock]

theorem clocks_of_not_clock (other : ¬ IsClock run n) : clocks run (n + 1) = clocks run n := by
  rw [clocks, Nat.count_succ, if_neg other, Nat.add_zero]

theorem Fair.infinite (fair : Fair run) : (Set.ofPred (IsClock run)).Infinite := by
  refine Set.infinite_of_forall_exists_gt fun n => ?_
  obtain ⟨m, later, clock, -⟩ := fair.arrives (n + 1)
  exact ⟨m, clock, later⟩

/-! ## The promises of the driver -/

/-- A step while the PPU has a frame. -/
theorem busy_next (aligned : 16 ∣ alloc.vramBaseP) {stage : Stage}
    (linked : Linked alloc powerUp stage (run.state n)) (busy : stage ≠ .waiting) :
    (∃ stage', stage' ≠ .waiting ∧ Linked alloc powerUp stage' (run.state (n + 1)) ∧
      (run.state (n + 1)).sent = (run.state n).sent) ∨
    (run.state (n + 1)).video.irq = true := by
  obtain ⟨-, silent, one⟩ := linked.of_busy busy
  have step := run.step n
  cases label : run.label n with
  | thread tid choice =>
      rw [label] at step
      obtain ⟨next, allowed⟩ := step.of_thread
      rw [next]
      exact .inl ⟨stage, busy, linked.thread tid choice allowed,
        linked.sent_thread (by omega) tid choice⟩
  | irq =>
      rw [label] at step
      exact absurd (silent.symm.trans step.of_irq.2) Bool.false_ne_true
  | clock c =>
      rw [label] at step
      rw [step.of_clock]
      rcases linked.clock_busy aligned busy c with ⟨stage', busy', linked', -⟩ | ⟨-, irq, -⟩
      · exact .inl ⟨stage', busy', linked', rfl⟩
      · exact .inr irq

/-- From the clock of a write to the interrupt the PPU has the frame. -/
theorem held (aligned : 16 ∣ alloc.vramBaseP) (infinite : (Set.ofPred (IsClock run)).Infinite)
    {w : ℕ} {src : BitVec 32} (write : (hardware run w).write = some src)
    (later : Nat.nth (IsClock run) w < n)
    (silent : ∀ u, w < u → u ≤ clocks run n →
      ((VideoSystem.machine powerUp).run (hardware run) u).irq = false) :
    ∃ stage, stage ≠ .waiting ∧ Linked alloc powerUp stage (run.state n) ∧
      (run.state n).frame alloc =
        Frame.mk src (hardware run w).memory (hardware run w).regs := by
  have clock : IsClock run (Nat.nth (IsClock run) w) := Nat.nth_mem_of_infinite infinite w
  induction n, later using Nat.le_induction with
  | base =>
      obtain ⟨stage, linked⟩ := linked_of_reachable aligned
        (run.reachable (Nat.nth (IsClock run) w))
      obtain ⟨-, -, -, -, frame⟩ := linked.input_of_write _ write
      obtain ⟨written, -⟩ := linked.clock_write _ write
      rw [Nat.succ_eq_add_one, state_of_clock clock]
      exact ⟨.written, by simp, written, frame.symm⟩
  | succ n later ih =>
      have upTo : clocks run n ≤ clocks run (n + 1) := Nat.count_monotone _ (Nat.le_succ n)
      obtain ⟨stage, busy, linked, frame⟩ := ih fun u after within => silent u after (by omega)
      rcases busy_next aligned linked busy with ⟨stage', busy', linked', sent⟩ | irq
      · refine ⟨stage', busy', linked', ?_⟩
        rw [State.frame, sent]
        exact frame
      · have counted : clocks run (Nat.nth (IsClock run) w + 1) ≤ clocks run (n + 1) :=
          Nat.count_monotone _ (Nat.le_succ_of_le later)
        rw [clocks, Nat.count_nth_succ_of_infinite infinite] at counted
        have low := silent (clocks run (n + 1)) counted le_rfl
        rw [hardware_run] at low
        rw [low] at irq
        cases irq

/-- **The driver keeps the promises of the CPU.** -/
theorem guarantee (aligned : 16 ∣ alloc.vramBaseP)
    (infinite : (Set.ofPred (IsClock run)).Infinite) :
    VideoSystem.CpuGuarantee powerUp (hardware run) := by
  have frozen : ∀ w t, VideoSystem.Outstanding powerUp (hardware run) w t →
      (hardware run t).write = none ∧ (hardware run t).memory = (hardware run w).memory ∧
        (hardware run t).regs = (hardware run w).regs := by
    rintro w t ⟨written, before, silent⟩
    obtain ⟨src, write⟩ := Option.isSome_iff_exists.mp written
    have later := (Nat.nth_lt_nth infinite).mpr before
    have counted : clocks run (Nat.nth (IsClock run) t) = t := Nat.count_nth_of_infinite infinite t
    obtain ⟨stage, busy, linked, frame⟩ := held aligned infinite write later fun u after within =>
      silent u after (by omega)
    obtain ⟨none, memory, regs⟩ := linked.input_of_busy busy
      (run.label (Nat.nth (IsClock run) t)).clockOf
    rw [frame] at memory regs
    exact ⟨none, memory, regs⟩
  exact
    { write := fun w t outstanding => (frozen w t outstanding).1
      regs := fun w t outstanding => (frozen w t outstanding).2.2
      memory := fun w t outstanding => (frozen w t outstanding).2.1 }

/-! ## The way of an update -/

/-- The step before a state in which the PPU has a frame. -/
theorem busy_before (aligned : 16 ∣ alloc.vramBaseP) {stage : Stage}
    (linked : Linked alloc powerUp stage (run.state (n + 1))) (busy : stage ≠ .waiting) :
    (∃ stage₀, stage₀ ≠ .waiting ∧ Linked alloc powerUp stage₀ (run.state n)) ∨
    (IsClock run n ∧ ∃ src, (hardware run (clocks run n)).write = some src) := by
  obtain ⟨stage₀, linked₀⟩ := linked_of_reachable aligned (run.reachable n)
  by_cases before : stage₀ ≠ .waiting
  · exact .inl ⟨stage₀, before, linked₀⟩
  · have step := run.step n
    cases label : run.label n with
    | thread tid choice =>
        rw [label] at step
        obtain ⟨next, allowed⟩ := step.of_thread
        rw [next] at linked
        exact absurd (((linked₀.thread tid choice allowed).busy_iff linked).mpr busy) before
    | irq =>
        rw [label] at step
        obtain ⟨next, raised⟩ := step.of_irq
        rw [next] at linked
        exact absurd (((linked₀.irq raised).busy_iff linked).mpr busy) before
    | clock c =>
        have clock : IsClock run n := by rw [IsClock, label]; rfl
        rw [label] at step
        rw [step.of_clock] at linked
        obtain rfl := not_not.mp before
        cases write : ((run.state n).videoInput alloc c).write with
        | none =>
            obtain ⟨waiting, -⟩ := linked₀.clock_waiting c write
            exact absurd rfl ((waiting.busy_iff linked).mpr busy)
        | some src =>
            refine .inr ⟨clock, src, ?_⟩
            rw [hardware_of_clock clock, label]
            exact write

/-- A frame that the PPU has was written in some clock, and its interrupt has not
been raised since. -/
theorem began (aligned : 16 ∣ alloc.vramBaseP) {stage : Stage}
    (linked : Linked alloc powerUp stage (run.state n)) (busy : stage ≠ .waiting) :
    ∃ w src, w < clocks run n ∧ (hardware run w).write = some src ∧
      ∀ u, w < u → u ≤ clocks run n →
        ((VideoSystem.machine powerUp).run (hardware run) u).irq = false := by
  induction n generalizing stage with
  | zero =>
      have idle : (run.state 0).kernel.shared.pending = 0 := run.initial.kernel.pending
      exact absurd (linked.of_idle idle).2.1 busy
  | succ n ih =>
      obtain ⟨-, silent, -⟩ := linked.of_busy busy
      have noIrq : IsClock run n → (run.state (n + 1)).video.irq = false := fun clock => by
        rw [state_of_clock clock] at silent ⊢
        exact (Bool.or_eq_false_iff.mp silent).2
      have upTo : ∀ u, u ≤ clocks run (n + 1) → u ≤ clocks run n ∨
          ((VideoSystem.machine powerUp).run (hardware run) u).irq = false := fun u within => by
        by_cases clock : IsClock run n
        · rcases Nat.lt_or_eq_of_le within with earlier | rfl
          · rw [clocks_of_clock clock] at earlier
            exact .inl (Nat.le_of_lt_succ earlier)
          · rw [hardware_run]
            exact .inr (noIrq clock)
        · rw [clocks_of_not_clock clock] at within
          exact .inl within
      have grows : clocks run n ≤ clocks run (n + 1) := Nat.count_monotone _ (Nat.le_succ n)
      rcases busy_before aligned linked busy with ⟨stage₀, before, linked₀⟩ | ⟨clock, src, write⟩
      · obtain ⟨w, src, earlier, write, low⟩ := ih linked₀ before
        refine ⟨w, src, by omega, write, fun u after within => ?_⟩
        rcases upTo u within with before | low'
        · exact low u after before
        · exact low'
      · refine ⟨clocks run n, src, ?_, write, fun u after within => ?_⟩
        · rw [clocks_of_clock clock]
          exact Nat.lt_succ_self _
        · rcases upTo u within with before | low
          · omega
          · exact low

/-- A step while an update is posted. -/
theorem posted_next (aligned : 16 ∣ alloc.vramBaseP)
    (posted : 0 < (run.state n).posted.countP isUpdate) :
    (IsClock run n ∧ ∃ src, (hardware run (clocks run n)).write = some src) ∨
    (0 < (run.state (n + 1)).posted.countP isUpdate ∧
      (run.state (n + 1)).posted.length ≤ (run.state n).posted.length ∧
      (IsClock run n → (run.label n).clockOf.arrives = true →
        (run.state (n + 1)).posted.length < (run.state n).posted.length)) := by
  obtain ⟨stage, linked⟩ := linked_of_reachable aligned (run.reachable n)
  have inFlight : 0 < (run.state n).kernel.shared.pending := by
    rw [linked.pending]
    omega
  by_cases clock : IsClock run n
  · rw [hardware_of_clock clock, state_of_clock clock]
    cases write : ((run.state n).videoInput alloc (run.label n).clockOf).write with
    | some src => exact .inl ⟨clock, src, rfl⟩
    | none =>
        obtain ⟨-, counted, -⟩ := (run.state n).clockStep_posted alloc (run.label n).clockOf
        have noUpdate : ((run.state n).arrival (run.label n).clockOf).any isUpdate = false := by
          rw [← Option.isSome_filter, Option.map_eq_none_iff.mp write]
          rfl
        rw [noUpdate, Bool.toNat_false, Nat.add_zero] at counted
        refine .inr ⟨counted ▸ posted, ?_, fun _ arrives => ?_⟩
        · simp only [State.clockStep]
          split_ifs
          · rw [List.length_tail]
            omega
          · exact le_rfl
        · have nonempty := posted.trans_le List.countP_le_length
          simp only [State.clockStep, arrives, if_true, List.length_tail]
          omega
  · have same : (run.state (n + 1)).posted = (run.state n).posted := by
      have step := run.step n
      cases label : run.label n with
      | thread tid choice =>
          rw [label] at step
          rw [step.of_thread.1]
          simp [State.threadStep, mmioStore_of_outside (linked.discipline.2 inFlight tid)]
      | irq =>
          rw [label] at step
          rw [step.of_irq.1]
          rfl
      | clock c =>
          rw [IsClock, label] at clock
          exact absurd rfl clock
    rw [same]
    exact .inr ⟨posted, le_rfl, (absurd · clock)⟩

/-- An update that has been posted arrives. -/
theorem written_of_posted (aligned : 16 ∣ alloc.vramBaseP) (fair : Fair run)
    (posted : 0 < (run.state n).posted.countP isUpdate) :
    ∃ u, n ≤ u ∧ IsClock run u ∧ ∃ src, (hardware run (clocks run u)).write = some src := by
  refine exists_of_recurrence (fun k => (run.state k).posted.length)
    (P := fun k => 0 < (run.state k).posted.countP isUpdate) (fun t posted => ?_) n posted
  obtain ⟨u, later, clock, arrives⟩ := fair.arrives t
  -- up to the next store that arrives, or the update itself does
  have waits : ∀ k, t ≤ k → k ≤ u →
      (∃ v, t ≤ v ∧ IsClock run v ∧ ∃ src, (hardware run (clocks run v)).write = some src) ∨
      (0 < (run.state k).posted.countP isUpdate ∧
        (run.state k).posted.length ≤ (run.state t).posted.length) := by
    intro k since upTo
    induction k, since using Nat.le_induction with
    | base => exact .inr ⟨posted, le_rfl⟩
    | succ k since ih =>
        rcases ih (by omega) with done | ⟨posted', short⟩
        · exact .inl done
        · rcases posted_next aligned posted' with ⟨clock', write⟩ | ⟨posted'', shorter, -⟩
          · exact .inl ⟨k, since, clock', write⟩
          · exact .inr ⟨posted'', shorter.trans short⟩
  rcases waits u later le_rfl with ⟨v, since, arrived⟩ | ⟨posted', short⟩
  · exact ⟨v, since, .inl arrived⟩
  · rcases posted_next aligned posted' with arrived | ⟨posted'', -, shorter⟩
    · exact ⟨u, later, .inl arrived⟩
    · exact ⟨u, later, .inr ⟨posted'', (shorter clock arrives).trans_le short⟩⟩

theorem Fair.buses (fair : Fair run) :
    Dma.Fair (VideoSystem.busInputs powerUp (hardware run)) := by
  have recurs : ∀ (p : Clock → Prop),
      (∀ n, ∃ m, n ≤ m ∧ IsClock run m ∧ p (run.label m).clockOf) →
      ∀ t, ∃ u, t ≤ u ∧ p (run.label (Nat.nth (IsClock run) u)).clockOf := by
    intro p again t
    obtain ⟨m, later, clock, holds⟩ := again (Nat.nth (IsClock run) t)
    refine ⟨clocks run m, ?_, ?_⟩
    · rw [← Nat.count_nth_of_infinite fair.infinite t]
      exact Nat.count_monotone _ later
    · rw [Nat.nth_count clock]
      exact holds
  exact
    { read := recurs (fun c => c.readWaitrequest = false) fair.read
      write := recurs (fun c => c.writeWaitrequest = false) fair.write
      respond := recurs (fun c => c.respond = true) fair.respond }

/-- An update in flight has its interrupt raised. -/
theorem raised_of_inFlight (aligned : 16 ∣ alloc.vramBaseP) (fair : Fair run)
    (inFlight : 0 < (run.state n).kernel.shared.pending) :
    ∃ m, n ≤ m ∧ (run.state m).raised = true := by
  obtain ⟨stage, linked⟩ := linked_of_reachable aligned (run.reachable n)
  have given : VideoSystem.CpuGuarantee powerUp (hardware run) := guarantee aligned fair.infinite
  -- from the clock in which the PPU is written to
  have raises : ∀ w src, (hardware run w).write = some src →
      (∀ u, w < u → u ≤ clocks run n →
        ((VideoSystem.machine powerUp).run (hardware run) u).irq = false) →
      ∃ m, n ≤ m ∧ (run.state m).raised = true := by
    intro w src write silent
    obtain ⟨f, t, after, -, later, -, irq, -⟩ := VideoSystem.irq_of_write given fair.buses write
    have beyond : clocks run n < t := by
      by_contra within
      rw [silent t (by omega) (by omega)] at irq
      cases irq
    obtain ⟨k, rfl⟩ : ∃ k, t = k + 1 := ⟨t - 1, by omega⟩
    have clock : IsClock run (Nat.nth (IsClock run) k) := Nat.nth_mem_of_infinite fair.infinite k
    have counted : clocks run (Nat.nth (IsClock run) k + 1) = k + 1 :=
      Nat.count_nth_succ_of_infinite fair.infinite k
    rw [← counted, hardware_run, state_of_clock clock] at irq
    refine ⟨Nat.nth (IsClock run) k + 1, ?_, ?_⟩
    · have upTo := Nat.nth_monotone fair.infinite (Nat.le_of_lt_succ beyond)
      exact Nat.le_succ_of_le ((Nat.le_nth_count fair.infinite n).trans upTo)
    · rw [state_of_clock clock]
      exact Bool.or_eq_true_iff.mpr (.inr irq)
  by_cases busy : stage ≠ .waiting
  · obtain ⟨w, src, -, write, silent⟩ := began aligned linked busy
    exact raises w src write silent
  · by_cases raised : (run.state n).raised = true
    · exact ⟨n, le_rfl, raised⟩
    · have parts := linked.pending
      rw [decide_eq_false busy, Bool.eq_false_iff.mpr raised] at parts
      simp only [Bool.toNat_false, Nat.add_zero] at parts
      obtain ⟨u, later, clock, src, write⟩ := written_of_posted aligned fair (parts ▸ inFlight)
      refine raises (clocks run u) src write fun v after within => ?_
      have upTo : clocks run n ≤ clocks run u := Nat.count_monotone _ later
      omega

/-- A step between the store of an update and its interrupt in the kernel. -/
theorem inFlight_next (aligned : 16 ∣ alloc.vramBaseP)
    (inFlight : 0 < (run.state n).kernel.shared.pending) (noIrq : run.label n ≠ .irq) :
    0 < (run.state (n + 1)).kernel.shared.pending ∧
      (run.state (n + 1)).sent = (run.state n).sent := by
  obtain ⟨stage, linked⟩ := linked_of_reachable aligned (run.reachable n)
  have step := run.step n
  cases label : run.label n with
  | thread tid choice =>
      rw [label] at step
      rw [step.of_thread.1]
      refine ⟨?_, linked.sent_thread inFlight tid choice⟩
      have pending := (act_mmioStore alloc.config (run.state n).kernel.shared
        ((run.state n).kernel.threads tid) choice).2
      rw [mmioStore_of_outside (linked.discipline.2 inFlight tid)] at pending
      exact inFlight.trans_eq pending.symm
  | irq => exact absurd label noIrq
  | clock c =>
      rw [label] at step
      rw [step.of_clock, State.clockStep_shared]
      exact ⟨inFlight, rfl⟩

/-- The lock of an update in flight. -/
theorem vramLock_of_inFlight (reachable : (fileSystem Tid alloc).Reachable (run.state n).kernel)
    (inFlight : 0 < (run.state n).kernel.shared.pending) :
    (run.state n).kernel.shared.vramLock = 1 := by
  obtain ⟨owner, owned⟩ := (session_of_reachable reachable).owned
  rw [owned.pending] at inFlight
  rw [owned.lock]
  cases owner with
  | transfer => rfl
  | _ => exact absurd inFlight (lt_irrefl 0)

/-- The kernel takes the interrupt of an update in flight. -/
theorem irq_of_inFlight (aligned : 16 ∣ alloc.vramBaseP) (fair : Fair run)
    (inFlight : 0 < (run.state n).kernel.shared.pending) :
    ∃ m, n ≤ m ∧ run.label m = .irq ∧ ∀ k, n ≤ k → k ≤ m →
      0 < (run.state k).kernel.shared.pending ∧ (run.state k).sent = (run.state n).sent := by
  classical
  obtain ⟨r, since, raised⟩ := raised_of_inFlight aligned fair inFlight
  have taken : ∃ m, n ≤ m ∧ run.label m = .irq := by
    obtain ⟨m, later, irq⟩ := fair.interrupt r raised
    exact ⟨m, by omega, irq⟩
  obtain ⟨later, irq⟩ := Nat.find_spec taken
  refine ⟨Nat.find taken, later, irq, fun k since upTo => ?_⟩
  induction k, since using Nat.le_induction with
  | base => exact ⟨inFlight, rfl⟩
  | succ k since ih =>
      obtain ⟨pending, sent⟩ := ih (by omega)
      have noIrq : run.label k ≠ .irq := fun irq => Nat.find_min taken upTo ⟨since, irq⟩
      obtain ⟨pending', sent'⟩ := inFlight_next aligned pending noIrq
      exact ⟨pending', sent'.trans sent⟩

/-- **Every update is acknowledged.** In every run with a fair environment, whatever
the threads do: an update that is in flight has its interrupt in the kernel after
some steps. Up to then nobody changes the buffer or the registers, and `vram_lock` is
held. Then the PPU shows the update, and the lock is free. -/
theorem update_acknowledged (aligned : 16 ∣ alloc.vramBaseP) (run : (console Tid alloc powerUp).Run)
    (fair : Fair run) (n : ℕ) (inFlight : 0 < (run.state n).kernel.shared.pending) :
    ∃ m, n ≤ m ∧ run.label m = .irq ∧
      (∀ k, n ≤ k → k ≤ m →
        (run.state k).kernel.shared.vramLock = 1 ∧
        (run.state k).kernel.shared.vram = (run.state n).kernel.shared.vram ∧
        (run.state k).kernel.shared.mmio = (run.state n).kernel.shared.mmio) ∧
      (run.state (m + 1)).shown =
        some
          { vram := (run.state n).kernel.shared.vram
            mmio := (run.state n).kernel.shared.mmio } ∧
      (run.state (m + 1)).kernel.shared.vramLock = 0 := by
  obtain ⟨m, later, irq, keeps⟩ := irq_of_inFlight aligned fair inFlight
  obtain ⟨_, linked⟩ := linked_of_reachable aligned (run.reachable n)
  have step := run.step m
  rw [irq] at step
  obtain ⟨next, raised⟩ := step.of_irq
  refine ⟨m, later, irq, fun k since upTo => ?_, ?_, ?_⟩
  · obtain ⟨pending, sent⟩ := keeps k since upTo
    obtain ⟨_, linked'⟩ := linked_of_reachable aligned (run.reachable k)
    rw [linked.sent inFlight, linked'.sent pending, Option.some.injEq, Snapshot.mk.injEq] at sent
    exact ⟨vramLock_of_inFlight linked'.session pending, sent.1, sent.2⟩
  · obtain ⟨pending, sent⟩ := keeps m later le_rfl
    obtain ⟨stage, linked'⟩ := linked_of_reachable aligned (run.reachable m)
    have waiting : stage = .waiting := by
      by_contra busy
      exact Bool.false_ne_true ((linked'.of_busy busy).2.1.symm.trans raised)
    have parts := linked'.pending
    obtain ⟨single, -⟩ := linked'.discipline
    rw [raised, Bool.toNat_true] at parts
    rw [next, ← linked.sent inFlight, ← sent]
    exact linked'.answered (by omega) waiting
  · rw [next]
    rfl

end Runs

/-! ## The session as a run -/

def sessionRun : (console Unit pageAlloc VideoSystem.blankPowerUp).Run where
  state := session
  label n := turn n (session n)
  initial := initial_session
  step := step_session

/-- The hardware is clocked again and again. -/
theorem clock_session (n : ℕ) :
    ∃ m, n ≤ m ∧ sessionRun.label m = .clock { idleClock with arrives := true } := by
  have odd : ∀ k, turn (2 * k + 9) (session (2 * k + 9)) =
      if (session (2 * k + 9)).raised then .irq else .clock { idleClock with arrives := true } :=
    fun k => if_neg (by omega)
  by_cases raised : (session (2 * n + 9)).raised = true
  · -- the interrupt goes first
    have taken : session (2 * n + 10) = (session (2 * n + 9)).irqStep := by
      rw [session, odd n, if_pos raised]
      rfl
    have low : (session (2 * (n + 1) + 9)).raised = false := by
      rw [show 2 * (n + 1) + 9 = 2 * n + 10 + 1 by omega, session, turn,
        if_pos (.inr (by omega)), taken]
      rfl
    exact ⟨2 * (n + 1) + 9, by omega, (odd (n + 1)).trans (if_neg (by rw [low]; decide))⟩
  · exact ⟨2 * n + 9, by omega, (odd n).trans (if_neg raised)⟩

/-- A step of the process latches nothing. -/
theorem raised_session {n : ℕ} (process : n < 8 ∨ n % 2 = 0) :
    (session (n + 1)).raised = (session n).raised := by
  rw [session, turn, if_pos process]
  rfl

theorem interrupt_session {n : ℕ} (raised : (session n).raised = true) :
    ∃ m, n ≤ m ∧ sessionRun.label m = .irq := by
  have taken : ∀ m, (session m).raised = true → ¬ (m < 8 ∨ m % 2 = 0) →
      sessionRun.label m = .irq := fun m latched hardware =>
    (if_neg hardware).trans (if_pos latched)
  by_cases process : n < 8 ∨ n % 2 = 0
  · have late : 8 ≤ n := by
      by_contra early
      have quietUpTo : ∀ k, k ≤ 8 → (session k).raised = false := by
        intro k within
        induction k with
        | zero => rfl
        | succ k ih => exact (raised_session (.inl within)).trans (ih (by omega))
      exact Bool.false_ne_true ((quietUpTo n (by omega)).symm.trans raised)
    exact ⟨n + 1, by omega, taken (n + 1) ((raised_session process).trans raised) (by omega)⟩
  · exact ⟨n, le_rfl, taken n raised process⟩

theorem fair_session : Fair sessionRun := by
  have recurs : ∀ p : Clock → Prop, p { idleClock with arrives := true } →
      ∀ n, ∃ m, n ≤ m ∧ IsClock sessionRun m ∧ p (sessionRun.label m).clockOf := by
    intro p holds n
    obtain ⟨m, later, label⟩ := clock_session n
    exact ⟨m, later, by rw [IsClock, label]; rfl, by rw [label]; exact holds⟩
  exact
    { arrives := recurs (fun c => c.arrives = true) rfl
      read := recurs (fun c => c.readWaitrequest = false) rfl
      write := recurs (fun c => c.writeWaitrequest = false) rfl
      respond := recurs (fun c => c.respond = true) rfl
      interrupt := fun _ raised => interrupt_session raised }

/-- The update of the session is shown. -/
theorem update_acknowledged_session : ∃ m, 6 ≤ m ∧ (session (m + 1)).shown =
    some { vram := (session 6).kernel.shared.vram, mmio := (session 6).kernel.shared.mmio } := by
  obtain ⟨m, later, -, -, shown, -⟩ :=
    update_acknowledged (by decide) sessionRun fair_session 6 (by decide)
  exact ⟨m, later, shown⟩

end FPGame.Console
