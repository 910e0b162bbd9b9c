import FPGame.Kernel.PpuLock

/-!
# The process that holds the PPU

A process with one thread that is the only holder of the descriptor makes its
calls one after the other. Everything else that can happen meanwhile is
`Background`: an interrupt that is due, and other processes that try to open
the device. A call is a sequence of atomic steps with background between any
two of them (`Returns`).

For such a process `ppu_write` is all that it looks like: it is refused and
changes nothing, or it stores its bytes and leaves the lock free with no
transfer in flight (`write_returns`).
-/

set_option autoImplicit false

namespace FPGame.PpuDriver

open FPGame.Foundation FPGame.Linux

/-- Outside the driver, or in a call that needs no descriptor. -/
def Pc.opening : Pc → Bool
  | .user | .openTry | .returned _ => true
  | _ => false

/-- What a thread without the descriptor may choose. -/
def Choice.opens : Choice → Prop
  | .call made => made = .open
  | _ => True

section Opening

variable {cfg : Config} {sh : Shared} {th : Thread} {choice : Choice}

/-- A thread without the descriptor touches nothing but `ppu_lock`. -/
theorem act_opening (opening : th.pc.opening = true) (opens : choice.opens) :
    (act cfg sh th choice).2.pc.opening = true ∧
      (act cfg sh th choice).1.vramLock = sh.vramLock ∧
      (act cfg sh th choice).1.pending = sh.pending ∧
      (act cfg sh th choice).1.vram = sh.vram := by
  obtain ⟨pc, call, offset, owes⟩ := th
  cases pc with
  | user =>
      cases choice with
      | call call =>
          obtain rfl : call = .open := opens
          exact ⟨rfl, rfl, rfl, rfl⟩
      | advance | fault => exact ⟨rfl, rfl, rfl, rfl⟩
  | openTry | returned => exact ⟨rfl, rfl, rfl, rfl⟩
  | _ => cases opening

end Opening

section Process

variable {Tid : Type} [DecidableEq Tid] {cfg : Config} {tid : Tid} {s s' s₁ : State Tid}

/-- No thread but `tid` has the descriptor. -/
def SoleUser (tid : Tid) (s : State Tid) : Prop :=
  ∀ other, other ≠ tid → (s.threads other).pc.opening = true

/-- Neither a lock nor a transfer is held. -/
structure Calm (s : State Tid) : Prop where
  vramLock : s.shared.vramLock = 0
  pending : s.shared.pending = 0

/-- The process is the only holder of the descriptor, in a state that belongs
to an owner of the lock. -/
structure Exclusive (tid : Tid) (s : State Tid) : Prop where
  sole : SoleUser tid s
  owned : ∃ owner, Owned owner s

/-- A step that is not a step of the process. -/
inductive Background (cfg : Config) (tid : Tid) : State Tid → State Tid → Prop where
  | irq {s s' : State Tid} (step : Step cfg s .irq s') : Background cfg tid s s'
  | other {s s' : State Tid} {other : Tid} {choice : Choice} (distinct : other ≠ tid)
      (opens : choice.opens) (step : Step cfg s (.thread other choice) s') :
      Background cfg tid s s'

/-- What the background leaves alone. -/
structure Undisturbed (tid : Tid) (s s' : State Tid) : Prop where
  thread : s'.threads tid = s.threads tid
  vram : s'.shared.vram = s.shared.vram
  calm : Calm s → Calm s'

theorem Background.exclusive (background : Background cfg tid s s') (alone : Exclusive tid s) :
    Exclusive tid s' := by
  obtain ⟨sole, owner, owned⟩ := alone
  cases background with
  | irq step =>
      refine ⟨?_, owned.step step⟩
      cases step
      exact sole
  | @other who choice distinct opens step =>
      refine ⟨?_, owned.step step⟩
      cases step
      intro other others
      by_cases here : other = who
      · subst here
        simp only [Function.update_self]
        exact (act_opening (sole other others) opens).1
      · simp only [Function.update_of_ne here]
        exact sole other others

theorem Background.undisturbed (background : Background cfg tid s s') (sole : SoleUser tid s) :
    Undisturbed tid s s' := by
  cases background with
  | irq step =>
      cases step with
      | irq due =>
          refine ⟨rfl, rfl, fun calm => ?_⟩
          rw [calm.pending] at due
          exact absurd due (lt_irrefl 0)
  | @other who choice distinct opens step =>
      cases step
      obtain ⟨-, lock, pending, vram⟩ :=
        @act_opening cfg s.shared _ _ (sole who distinct) opens
      exact ⟨Function.update_of_ne distinct.symm _ _, vram,
        fun calm => ⟨lock.trans calm.vramLock, pending.trans calm.pending⟩⟩

/-- A step of the process keeps the descriptor to it. -/
theorem Exclusive.step {choice : Choice} (alone : Exclusive tid s)
    (step : Step cfg s (.thread tid choice) s') : Exclusive tid s' := by
  obtain ⟨sole, owner, owned⟩ := alone
  refine ⟨?_, owned.step step⟩
  cases step
  intro other others
  simp only [Function.update_of_ne others]
  exact sole other others

/-- From inside a call to its return, without a fault. -/
inductive Returns (cfg : Config) (tid : Tid) : State Tid → ℤ → State Tid → Prop where
  | background {s s₁ s' : State Tid} {ret : ℤ} (step : Background cfg tid s s₁)
      (rest : Returns cfg tid s₁ ret s') : Returns cfg tid s ret s'
  | advance {s s₁ s' : State Tid} {ret : ℤ} (inside : ∀ ret, (s.threads tid).pc ≠ .returned ret)
      (step : Step cfg s (.thread tid .advance) s₁) (rest : Returns cfg tid s₁ ret s') :
      Returns cfg tid s ret s'
  | returned {s s' : State Tid} {ret : ℤ} (here : (s.threads tid).pc = .returned ret)
      (step : Step cfg s (.thread tid .advance) s') : Returns cfg tid s ret s'

/-! ## `ppu_write` -/

section Write

variable {offset : ℕ} {buf : List (BitVec 8)} {before : ℕ → BitVec 8} {calm : Prop}

/-- Where a write is. `before` is the VRAM that it found, and `calm` says
whether it found neither a lock nor a transfer. -/
inductive WriteStage (cfg : Config) (tid : Tid) (offset : ℕ) (buf : List (BitVec 8))
    (before : ℕ → BitVec 8) (calm : Prop) (s : State Tid) : Prop where
  | invalid (pc : (s.threads tid).pc = .returned (-EINVAL))
      (beyond : vramSize < offset + buf.length) (vram : s.shared.vram = before)
  | trying (pc : (s.threads tid).pc = .writeTry buf) (position : (s.threads tid).offset = offset)
      (inside : offset + buf.length ≤ vramSize) (vram : s.shared.vram = before)
      (kept : calm → Calm s)
  | copying (k : ℕ) (pc : (s.threads tid).pc = .writeCopy buf k)
      (position : (s.threads tid).offset = offset) (inside : offset + buf.length ≤ vramSize)
      (within : k ≤ buf.length)
      (vram : s.shared.vram = storeBlock before (cfg.shift + offset) (buf.take k))
  | copied (pc : (s.threads tid).pc = .writeDone buf) (inside : offset + buf.length ≤ vramSize)
      (vram : s.shared.vram = storeBlock before (cfg.shift + offset) buf)
  | busy (pc : (s.threads tid).pc = .returned (-EBUSY)) (inside : offset + buf.length ≤ vramSize)
      (vram : s.shared.vram = before) (held : ¬ calm)
  | done (pc : (s.threads tid).pc = .returned buf.length)
      (inside : offset + buf.length ≤ vramSize)
      (vram : s.shared.vram = storeBlock before (cfg.shift + offset) buf) (free : Calm s)

theorem WriteStage.background (stage : WriteStage cfg tid offset buf before calm s)
    (sole : SoleUser tid s) (background : Background cfg tid s s') :
    WriteStage cfg tid offset buf before calm s' := by
  obtain ⟨thread, same, keeps⟩ := background.undisturbed sole
  cases stage with
  | invalid pc beyond vram => exact .invalid (by rw [thread, pc]) beyond (same.trans vram)
  | trying pc position inside vram kept =>
      exact .trying (by rw [thread, pc]) (by rw [thread, position]) inside (same.trans vram)
        fun found => keeps (kept found)
  | copying k pc position inside within vram =>
      exact .copying k (by rw [thread, pc]) (by rw [thread, position]) inside within
        (same.trans vram)
  | copied pc inside vram => exact .copied (by rw [thread, pc]) inside (same.trans vram)
  | busy pc inside vram held => exact .busy (by rw [thread, pc]) inside (same.trans vram) held
  | done pc inside vram free => exact .done (by rw [thread, pc]) inside (same.trans vram) (keeps free)

/-- **The step of a write.** -/
theorem WriteStage.advance (stage : WriteStage cfg tid offset buf before calm s)
    (alone : Exclusive tid s) (inside : ∀ ret, (s.threads tid).pc ≠ .returned ret)
    (step : Step cfg s (.thread tid .advance) s') :
    WriteStage cfg tid offset buf before calm s' := by
  obtain ⟨-, owner, owned⟩ := alone
  cases step
  cases stage with
  | invalid pc | busy pc | done pc => exact absurd pc (inside _)
  | trying pc position bound vram kept =>
      by_cases busy : s.shared.vramLock = 1
      · refine .busy ?_ bound ?_ fun found => ?_
        · simp [act, pc, busy]
        · simp only [act, pc, if_pos busy]
          exact vram
        · rw [(kept found).vramLock] at busy
          exact absurd busy (by decide)
      · refine .copying 0 ?_ ?_ bound (Nat.zero_le _) ?_
        · simp [act, pc, busy]
        · simp [act, pc, busy, position]
        · simp only [act, pc, if_neg busy, List.take_zero, storeBlock_nil]
          exact vram
  | copying k pc position bound within vram =>
      cases byte : buf[k]? with
      | none =>
          have ended : buf.take k = buf :=
            List.take_of_length_le (List.getElem?_eq_none_iff.mp byte)
          refine .copied ?_ bound ?_
          · simp [act, pc, byte]
          · simp only [act, pc, byte]
            rw [vram, ended]
      | some b =>
          obtain ⟨more, value⟩ := List.getElem?_eq_some_iff.mp byte
          refine .copying (k + 1) ?_ ?_ bound more ?_
          · simp [act, pc, byte]
          · simp [act, pc, byte, position]
          · simp only [act, pc, byte]
            rw [vram, position, ← value]
            exact store_storeBlock_take before (cfg.shift + offset) buf more
  | copied pc bound vram =>
      -- the lock was the thread's own, so no transfer is in flight
      have mine : owner = .thread tid :=
        owned.eq_thread (show (s.threads tid).pc.locked = true by rw [pc]; rfl)
      have pending := owned.pending
      rw [mine] at pending
      refine .done ?_ bound ?_ ⟨?_, ?_⟩
      · simp [act, pc]
      · simp only [act, pc]
        exact vram
      · simp only [act, pc]
      · simp only [act, pc]
        exact pending

/-- What a write has done when it has returned. -/
inductive WriteResult (cfg : Config) (offset : ℕ) (buf : List (BitVec 8))
    (before : ℕ → BitVec 8) (calm : Prop) (ret : ℤ) (s : State Tid) : Prop where
  | invalid (value : ret = -EINVAL) (beyond : vramSize < offset + buf.length)
      (vram : s.shared.vram = before)
  | busy (value : ret = -EBUSY) (inside : offset + buf.length ≤ vramSize)
      (vram : s.shared.vram = before) (held : ¬ calm)
  | done (value : ret = buf.length) (inside : offset + buf.length ≤ vramSize)
      (vram : s.shared.vram = storeBlock before (cfg.shift + offset) buf) (free : Calm s)

theorem WriteStage.returns {ret : ℤ} (returns : Returns cfg tid s ret s')
    (stage : WriteStage cfg tid offset buf before calm s) (alone : Exclusive tid s) :
    Exclusive tid s' ∧ (s'.threads tid).pc = .user ∧
      WriteResult cfg offset buf before calm ret s' := by
  induction returns with
  | background step rest ih => exact ih (stage.background alone.sole step) (step.exclusive alone)
  | advance inside step rest ih => exact ih (stage.advance alone inside step) (alone.step step)
  | @returned s s' ret here step =>
      refine ⟨alone.step step, ?_, ?_⟩
      · cases step
        simp [act, here]
      · cases step
        have frame : (act cfg s.shared (s.threads tid) .advance).1 = s.shared := by
          simp only [act, here]
        cases stage with
        | invalid pc beyond vram =>
            refine .invalid (Pc.returned.inj (here.symm.trans pc)) beyond ?_
            rw [frame, vram]
        | busy pc inside vram held =>
            refine .busy (Pc.returned.inj (here.symm.trans pc)) inside ?_ held
            rw [frame, vram]
        | done pc inside vram free =>
            refine .done (Pc.returned.inj (here.symm.trans pc)) inside ?_ ?_
            · rw [frame, vram]
            · exact ⟨by rw [frame, free.vramLock], by rw [frame, free.pending]⟩
        | trying pc | copying k pc | copied pc => cases here.symm.trans pc

/-- **`ppu_write` of the only holder.** -/
theorem write_returns {ret : ℤ} (alone : Exclusive tid s) (outside : (s.threads tid).pc = .user)
    (called : Step cfg s (.thread tid (.call (.write offset buf))) s₁)
    (returns : Returns cfg tid s₁ ret s') :
    Exclusive tid s' ∧ (s'.threads tid).pc = .user ∧
      WriteResult cfg offset buf s.shared.vram (Calm s) ret s' := by
  have begun : WriteStage cfg tid offset buf s.shared.vram (Calm s) s₁ := by
    cases called
    by_cases beyond : vramSize < offset + buf.length
    · refine .invalid ?_ beyond ?_
      · simp [act, outside, beyond]
      · simp only [act, outside]
    · refine .trying ?_ ?_ (by omega) ?_ fun found => ?_
      · simp [act, outside, beyond]
      · simp [act, outside]
      · simp only [act, outside]
      · simp only [act, outside]
        exact ⟨found.vramLock, found.pending⟩
  exact begun.returns returns (alone.step called)

end Write

end Process

end FPGame.PpuDriver
