import FPGame.Kernel.PpuDriver

/-!
# Who holds `vram_lock`

The lock is taken by one agent and often released by another: an update leaves
it to the interrupt, and `ppu_release` hands it to the transfer it starts and
takes it back by spinning with an exchange that itself writes 1.

`Owner` is the abstract lock: it belongs to nobody, to one thread or to the
transfer in flight. Every atomic step of the driver is a move of the owner or
leaves it alone (`act_effect`), and the state of the driver determines the
owner (`Owned`).
-/

set_option autoImplicit false

namespace FPGame.PpuDriver

open FPGame.Foundation

/-! ## Locked sections -/

/-- The thread is between its exchange that took the lock and the step that
gives it away. -/
def Pc.locked : Pc → Bool
  | .writeCopy _ _ | .writePad _ _ | .writeUndo _ | .writeDone _ => true
  | .ioctlSwitch _ _ | .ioctlUnlock _ => true
  | .releaseMemset _ | .releaseMmio _ | .releaseUpdate | .releaseVram => true
  | _ => false

/-- The thread is inside `copy_from_user`, `memset` or `mmio_write`. -/
def Pc.inside : Pc → Bool
  | .writeCopy _ _ | .writePad _ _ => true
  | .ioctlSwitch _ _ => true
  | .releaseMemset _ | .releaseMmio _ | .releaseUpdate => true
  | _ => false

theorem Pc.locked_of_inside {pc : Pc} (inside : pc.inside = true) : pc.locked = true := by
  cases pc <;> first | rfl | cases inside

/-! ## What a step does to the lock -/

theorem resetOffsets_ne {k offset : ℕ} (reset : resetOffsets[k]? = some offset) :
    offset ≠ ppuDmaAddrOffset := by
  have member := List.mem_of_getElem? reset
  simp only [resetOffsets, ppuBgscrollOffset, ppuFgscrollOffset, ppuBgcolorOffset,
    ppuEnableOffset, List.mem_cons, List.not_mem_nil, or_false] at member
  simp only [ppuDmaAddrOffset]
  omega

/-- Only the update command stores to the DMA address register. -/
theorem ioctlTarget_ne {cfg : Config} {num : ℕ} {param val : BitVec 32} {offset : ℕ}
    (notUpdate : num ≠ ioctlPpuUpdate) (target : ioctlTarget cfg num param = some (offset, val)) :
    offset ≠ ppuDmaAddrOffset := by
  rw [ioctlTarget, if_neg notUpdate] at target
  split_ifs at target <;>
    simp only [Option.some.injEq, Prod.mk.injEq] at target <;>
    rw [← target.1] <;>
    decide

theorem ioctlTarget_update (cfg : Config) (param : BitVec 32) :
    ioctlTarget cfg ioctlPpuUpdate param = some (ppuDmaAddrOffset, cfg.vramAddrP) := if_pos rfl

/-- The ways in which a step of a thread can treat the lock. -/
inductive Effect (before : Shared) (pc : Pc) (after : Shared) (pc' : Pc) : Prop where
  /-- The step leaves the lock and the transfers alone. -/
  | neutral : pc'.locked = pc.locked → after.vramLock = before.vramLock →
      after.pending = before.pending → Effect before pc after pc'
  /-- The thread takes the free lock. -/
  | take : pc.locked = false → pc'.locked = true → before.vramLock = 0 → after.vramLock = 1 →
      after.pending = before.pending → Effect before pc after pc'
  /-- The thread gives the lock back. -/
  | giveBack : pc.locked = true → pc'.locked = false → after.vramLock = 0 →
      after.pending = before.pending → Effect before pc after pc'
  /-- The thread leaves the lock to the transfer that it starts. -/
  | handOver : pc.locked = true → pc'.locked = false → after.vramLock = before.vramLock →
      after.pending = before.pending + 1 → Effect before pc after pc'

/-- **The inversion lemma of the driver.** -/
theorem act_effect (cfg : Config) (sh : Shared) (th : Thread) (choice : Choice)
    (bit : sh.vramLock = 0 ∨ sh.vramLock = 1) :
    Effect sh th.pc (act cfg sh th choice).1 (act cfg sh th choice).2.pc := by
  obtain ⟨pc, call, offset, owes⟩ := th
  have free : ¬ sh.vramLock = 1 → sh.vramLock = 0 := fun busy => bit.resolve_right busy
  cases pc with
  | user =>
      cases choice with
      | call call =>
          cases call with
          | write offset buf =>
              refine .neutral ?_ rfl rfl
              simp only [act]
              split_ifs <;> rfl
          | _ => exact .neutral rfl rfl rfl
      | _ => exact .neutral rfl rfl rfl
  | writeTry buf =>
      by_cases busy : sh.vramLock = 1
      · simp only [act, if_pos busy]
        exact .neutral rfl busy.symm rfl
      · simp only [act, if_neg busy]
        exact .take rfl rfl (free busy) rfl rfl
  | writeCopy buf k =>
      cases byte : buf[k]? with
      | none => cases choice <;> simp only [act, byte] <;> exact .neutral rfl rfl rfl
      | some _ =>
          cases choice with
          | fault pad =>
              simp only [act, byte]
              cases pad <;> exact .neutral rfl rfl rfl
          | _ =>
              simp only [act, byte]
              exact .neutral rfl rfl rfl
  | writePad buf k =>
      simp only [act]
      split_ifs <;> exact .neutral rfl rfl rfl
  | writeUndo | writeDone | ioctlUnlock | releaseVram => exact .giveBack rfl rfl rfl rfl
  | ioctlTry num param =>
      by_cases busy : sh.vramLock = 1
      · simp only [act, if_pos busy]
        exact .neutral rfl busy.symm rfl
      · simp only [act, if_neg busy]
        exact .take rfl rfl (free busy) rfl rfl
  | ioctlSwitch num param =>
      by_cases update : num = ioctlPpuUpdate
      · subst update
        simp only [act, ioctlTarget_update, if_true]
        exact .handOver rfl rfl rfl (mmioWrite_pending sh _)
      · cases target : ioctlTarget cfg num param with
        | none =>
            simp only [act, target]
            exact .neutral rfl rfl rfl
        | some store =>
            simp only [act, target, if_neg update]
            exact .neutral rfl rfl (mmioWrite_pending_of_ne sh (ioctlTarget_ne update target) _)
  | releaseTest =>
      simp only [act]
      split_ifs <;> exact .neutral rfl rfl rfl
  | releaseSpin | releaseSpinAgain =>
      by_cases busy : sh.vramLock = 1
      · simp only [act, if_pos busy]
        exact .neutral rfl busy.symm rfl
      · simp only [act, if_neg busy]
        exact .take rfl rfl (free busy) rfl rfl
  | releaseMemset k =>
      simp only [act]
      split_ifs <;> exact .neutral rfl rfl rfl
  | releaseMmio k =>
      cases reset : resetOffsets[k]? with
      | none =>
          simp only [act, reset]
          exact .neutral rfl rfl rfl
      | some offset =>
          simp only [act, reset]
          exact .neutral rfl rfl (mmioWrite_pending_of_ne sh (resetOffsets_ne reset) _)
  | releaseUpdate => exact .handOver rfl rfl rfl (mmioWrite_pending sh _)
  | openTry | releaseUnopened | releasePpu | returned => exact .neutral rfl rfl rfl

/-- A thread that is not inside changes neither the VRAM nor a register. -/
theorem act_frame (cfg : Config) (sh : Shared) (th : Thread) (choice : Choice)
    (outside : th.pc.inside = false) :
    (act cfg sh th choice).1.vram = sh.vram ∧ (act cfg sh th choice).1.mmio = sh.mmio := by
  obtain ⟨pc, call, offset, owes⟩ := th
  cases pc with
  | user =>
      cases choice with
      | call call => cases call <;> exact ⟨rfl, rfl⟩
      | _ => exact ⟨rfl, rfl⟩
  | writeTry | ioctlTry | releaseSpin | releaseSpinAgain =>
      simp only [act]
      split_ifs <;> exact ⟨rfl, rfl⟩
  | openTry | writeUndo | writeDone | ioctlUnlock | releaseTest | releaseUnopened | releaseVram
  | releasePpu | returned => exact ⟨rfl, rfl⟩
  | _ => cases outside

/-! ## The history of a call -/

/-- What a thread owes at each place: the lock it has taken, unless it was an
update that left it to the interrupt. -/
def Thread.Consistent (th : Thread) : Prop :=
  match th.pc with
  | .user => True
  | .returned _ => th.call.isUpdate = false → th.owes = false
  | .releaseSpinAgain => th.owes = true
  | .ioctlSwitch num param => th.owes = true ∧ th.call = .ioctl num param
  | .ioctlTry num param => th.owes = false ∧ th.call = .ioctl num param
  | pc => th.owes = pc.locked

theorem act_consistent (cfg : Config) (sh : Shared) (th : Thread) (choice : Choice)
    (consistent : th.Consistent) : (act cfg sh th choice).2.Consistent := by
  obtain ⟨pc, call, offset, owes⟩ := th
  cases pc with
  | user =>
      cases choice with
      | call call =>
          cases call with
          | write offset buf =>
              simp only [act]
              split_ifs
              · exact fun _ => rfl
              · rfl
          | ioctl num param => exact ⟨rfl, rfl⟩
          | _ => rfl
      | _ => trivial
  | openTry | releaseUnopened | releasePpu => exact fun _ => consistent
  | writeTry buf =>
      simp only [act]
      split_ifs
      · exact fun _ => consistent
      · rfl
  | writeCopy buf k =>
      cases byte : buf[k]? with
      | none => cases choice <;> simp only [act, byte] <;> exact consistent
      | some _ =>
          cases choice with
          | fault pad =>
              simp only [act, byte]
              cases pad <;> exact consistent
          | _ =>
              simp only [act, byte]
              exact consistent
  | writePad | releaseMemset =>
      simp only [act]
      split_ifs <;> exact consistent
  | writeUndo | writeDone | ioctlUnlock => exact fun _ => rfl
  | ioctlTry num param =>
      simp only [act]
      split_ifs
      · exact fun _ => consistent.1
      · exact ⟨rfl, consistent.2⟩
  | ioctlSwitch num param =>
      by_cases update : num = ioctlPpuUpdate
      · subst update
        simp only [act, ioctlTarget_update, if_true]
        -- the one return that still owes the lock
        intro notUpdate
        rw [show call = .ioctl ioctlPpuUpdate param from consistent.2] at notUpdate
        simp [Call.isUpdate] at notUpdate
      · cases target : ioctlTarget cfg num param with
        | none =>
            simp only [act, target]
            exact consistent.1
        | some store =>
            simp only [act, target, if_neg update]
            exact consistent.1
  | releaseTest =>
      simp only [act]
      split_ifs <;> exact consistent
  | releaseSpin =>
      simp only [act]
      split_ifs
      · exact consistent
      · rfl
  | releaseMmio k =>
      cases reset : resetOffsets[k]? <;> simp only [act, reset] <;> exact consistent
  | releaseUpdate => exact consistent
  | releaseSpinAgain =>
      simp only [act]
      split_ifs <;> exact consistent
  | releaseVram => rfl
  | returned ret => trivial

/-! ## The abstract lock -/

/-- Who the lock belongs to. -/
inductive Owner (Tid : Type) where
  | nobody
  | thread (tid : Tid)
  | transfer

/-- The thread that owns the lock. -/
def Owner.holder {Tid : Type} : Owner Tid → Option Tid
  | .thread tid => some tid
  | _ => none

/-- The value of the lock word. -/
def Owner.lock {Tid : Type} : Owner Tid → ℕ
  | .nobody => 0
  | _ => 1

/-- The transfers in flight. -/
def Owner.pending {Tid : Type} : Owner Tid → ℕ
  | .transfer => 1
  | _ => 0

section System

variable {Tid : Type} {cfg : Config}

/-- A thread in a locked section. -/
def Thread.Locked (th : Thread) : Prop := th.pc.locked = true

/-- The state belongs to an owner: the lock word, the locked sections and the
transfers in flight all agree with it. -/
structure Owned (owner : Owner Tid) (s : State Tid) : Prop where
  lock : s.shared.vramLock = owner.lock
  sections : SoleHolder Thread.Locked s.threads owner.holder
  pending : s.shared.pending = owner.pending

theorem Owned.bit {owner : Owner Tid} {s : State Tid} (owned : Owned owner s) :
    s.shared.vramLock = 0 ∨ s.shared.vramLock = 1 := by
  rw [owned.lock]
  cases owner <;> simp [Owner.lock]

/-- Where a thread is in a locked section, it is the owner. -/
theorem Owned.eq_thread {owner : Owner Tid} {s : State Tid} (owned : Owned owner s) {tid : Tid}
    (locked : (s.threads tid).Locked) : owner = .thread tid := by
  have holder := (owned.sections tid).mp locked
  cases owner with
  | thread other => rw [Option.some.inj holder]
  | _ => cases holder

variable [DecidableEq Tid]

/-- **Every step is a move of the owner.** -/
theorem Owned.step {owner : Owner Tid} {s s' : State Tid} {label : Label Tid}
    (owned : Owned owner s) (step : Step cfg s label s') : ∃ owner', Owned owner' s' := by
  cases step with
  | irq due =>
      -- an interrupt is due only while the transfer owns the lock
      cases owner with
      | transfer =>
          refine ⟨.nobody, rfl, owned.sections, ?_⟩
          show s.shared.pending - 1 = 0
          rw [owned.pending]
          rfl
      | _ => rw [owned.pending] at due; exact absurd due (lt_irrefl 0)
  | thread tid choice =>
      rcases act_effect cfg s.shared (s.threads tid) choice owned.bit with
        ⟨same, lock, pending⟩ | ⟨-, now, free, lock, pending⟩ | ⟨before, now, lock, pending⟩ |
        ⟨before, now, lock, pending⟩
      · refine ⟨owner, lock.trans owned.lock, ?_, pending.trans owned.pending⟩
        exact owned.sections.keep (by rw [Thread.Locked, Thread.Locked, same])
      · cases owner with
        | nobody =>
            exact ⟨.thread tid, lock, owned.sections.acquire now, pending.trans owned.pending⟩
        | _ => rw [owned.lock] at free; cases free
      · obtain rfl := owned.eq_thread before
        exact ⟨.nobody, lock, owned.sections.release before (by simp [Thread.Locked, now]),
          pending.trans owned.pending⟩
      · obtain rfl := owned.eq_thread before
        exact ⟨.transfer, lock.trans owned.lock,
          owned.sections.release before (by simp [Thread.Locked, now]),
          pending.trans (by rw [owned.pending]; rfl)⟩

/-- **The invariant of the driver.** -/
theorem owned_of_reachable {s : State Tid} (reachable : (driver Tid cfg).Reachable s) :
    ∃ owner, Owned owner s := by
  refine reachable.invariant (P := fun s => ∃ owner, Owned owner s) ?_ ?_
  · intro s (initial : Initial s)
    refine ⟨.nobody, initial.vramLock, fun tid => ?_, initial.pending⟩
    simp [Thread.Locked, initial.threads tid, Pc.locked, Owner.holder]
  · rintro s label s' ⟨owner, owned⟩ step
    exact owned.step step

theorem consistent_of_reachable {s : State Tid} (reachable : (driver Tid cfg).Reachable s) :
    ∀ tid, (s.threads tid).Consistent := by
  refine reachable.invariant (P := fun s => ∀ tid, (s.threads tid).Consistent) ?_ ?_
  · intro s (initial : Initial s) tid
    rw [Thread.Consistent, initial.threads tid]
    trivial
  · intro s label s' consistent step
    cases step with
    | irq due => exact consistent
    | thread tid choice =>
        intro other
        by_cases here : other = tid
        · subst here
          simp only [Function.update_self]
          exact act_consistent cfg s.shared _ choice (consistent other)
        · simp only [Function.update_of_ne here]
          exact consistent other

/-- **The PPU driver's lock.** In every reachable state, for any number of
threads and any interleaving of their steps with the interrupt:

1. `vram_lock` is 0 or 1, and it is 1 exactly when a thread is in a locked
   section or a transfer is in flight;
2. at most one thread is in a locked section, none is while a transfer is in
   flight, and at most one transfer is;
3. at most one thread is inside `copy_from_user`, `memset` or `mmio_write`;
4. a step taken while a transfer is in flight changes neither the kernel VRAM
   nor a register of the PPU;
5. a call that has returned and was not an update does not owe the lock. -/
theorem vram_lock_discipline {s : State Tid} (reachable : (driver Tid cfg).Reachable s) :
    (s.shared.vramLock = 0 ∨ s.shared.vramLock = 1) ∧
    (s.shared.vramLock = 1 ↔
      (∃ tid, (s.threads tid).pc.locked = true) ∨ 0 < s.shared.pending) ∧
    (∀ tid tid', (s.threads tid).pc.locked = true → (s.threads tid').pc.locked = true →
      tid = tid') ∧
    (∀ tid, (s.threads tid).pc.locked = true → s.shared.pending = 0) ∧
    s.shared.pending ≤ 1 ∧
    (∀ tid tid', (s.threads tid).pc.inside = true → (s.threads tid').pc.inside = true →
      tid = tid') ∧
    (∀ label s', Step cfg s label s' → 0 < s.shared.pending →
      s'.shared.vram = s.shared.vram ∧ s'.shared.mmio = s.shared.mmio) ∧
    ∀ tid ret, (s.threads tid).pc = .returned ret → (s.threads tid).call.isUpdate = false →
      (s.threads tid).owes = false := by
  obtain ⟨owner, owned⟩ := owned_of_reachable reachable
  have exclusive : ∀ tid, (s.threads tid).pc.locked = true → s.shared.pending = 0 := by
    intro tid locked
    obtain rfl := owned.eq_thread locked
    exact owned.pending
  refine ⟨owned.bit, ?_, fun tid tid' => owned.sections.unique, exclusive, ?_, ?_, ?_, ?_⟩
  · rw [owned.lock, owned.pending]
    have sections := owned.sections.isSome_iff
    cases owner with
    | nobody => simpa [Owner.holder, Owner.lock, Owner.pending, Thread.Locked] using sections
    | thread tid => simpa [Owner.holder, Owner.lock, Owner.pending, Thread.Locked] using sections
    | transfer => simp [Owner.lock, Owner.pending]
  · rw [owned.pending]
    cases owner <;> simp [Owner.pending]
  · exact fun tid tid' inside inside' =>
      owned.sections.unique (Pc.locked_of_inside inside) (Pc.locked_of_inside inside')
  · intro label s' step inFlight
    cases step with
    | irq => exact ⟨rfl, rfl⟩
    | thread tid choice =>
        refine act_frame cfg s.shared (s.threads tid) choice ?_
        rw [Bool.eq_false_iff]
        intro inside
        exact inFlight.ne' (exclusive tid (Pc.locked_of_inside inside))
  · intro tid ret returned notUpdate
    have consistent := consistent_of_reachable reachable tid
    rw [Thread.Consistent, returned] at consistent
    exact consistent notUpdate

end System

/-- Two threads outside the driver, with everything cleared. -/
def atRest : State Bool where
  shared := { ppuLock := 0, vramLock := 0, vram := fun _ => 0, mmio := fun _ => 0, pending := 0 }
  threads _ := { pc := .user, call := .open, offset := 0, owes := false }

/-- The state after a step of a thread. -/
def stepThread (cfg : Config) (s : State Bool) (tid : Bool) (choice : Choice) : State Bool where
  shared := (act cfg s.shared (s.threads tid) choice).1
  threads := Function.update s.threads tid (act cfg s.shared (s.threads tid) choice).2

/-- One thread has started a transfer and returned; the interrupt is still due. -/
def updating : State Bool :=
  let cfg : Config := { shift := 0, vramAddrP := 0x30000000 }
  let called := stepThread cfg atRest true (.call (.ioctl ioctlPpuUpdate 0))
  stepThread cfg (stepThread cfg called true .advance) true .advance

theorem reachable_updating :
    (driver Bool { shift := 0, vramAddrP := 0x30000000 }).Reachable updating := by
  have start : (driver Bool { shift := 0, vramAddrP := 0x30000000 }).Reachable atRest :=
    .start ⟨rfl, rfl, rfl, fun _ => rfl⟩
  exact ((start.next (.thread _ true (.call (.ioctl ioctlPpuUpdate 0)))).next
    (.thread _ true .advance)).next (.thread _ true .advance)

theorem vram_lock_discipline_updating : updating.shared.vramLock = 1 :=
  (vram_lock_discipline reachable_updating).2.1.mpr (.inr (by decide))

end FPGame.PpuDriver
