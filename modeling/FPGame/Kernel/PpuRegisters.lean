import FPGame.Kernel.PpuProcess
import FPGame.Ppu.Control

/-!
# Control registers that an ioctl sets

An ioctl other than the update stores its parameter in one control register, or
it is refused. For the only holder of the descriptor nothing else writes a
register meanwhile, so that the registers after the call are those before it but
for the one that was named (`register_returns`).
-/

set_option autoImplicit false

namespace FPGame.PpuDriver

open FPGame.Foundation FPGame.Linux

/-- What the PPU sees of the registers that the driver writes: the widths of their PIOs. -/
def ctrlRegsOf (mmio : ℕ → BitVec 32) : Ppu.CtrlRegs where
  bgscroll := mmio ppuBgscrollOffset
  fgscroll := mmio ppuFgscrollOffset
  enable := (mmio ppuEnableOffset).setWidth 3
  bgcolor := (mmio ppuBgcolorOffset).setWidth 24

/-- A thread without the descriptor writes no register. -/
theorem act_opening_mmio {cfg : Config} {sh : Shared} {th : Thread} {choice : Choice}
    (opening : th.pc.opening = true) (opens : choice.opens) :
    (act cfg sh th choice).1.mmio = sh.mmio := by
  obtain ⟨pc, call, offset, owes⟩ := th
  cases pc with
  | user =>
      cases choice with
      | call made =>
          obtain rfl : made = .open := opens
          rfl
      | advance | fault => rfl
  | openTry | returned => rfl
  | _ => cases opening

section Process

variable {Tid : Type} [DecidableEq Tid] {cfg : Config} {tid : Tid} {s s' s₁ : State Tid}

/-- The background writes no register. -/
theorem Background.mmio (background : Background cfg tid s s') (sole : SoleUser tid s) :
    s'.shared.mmio = s.shared.mmio := by
  cases background with
  | irq step =>
      cases step
      rfl
  | @other who choice distinct opens step =>
      cases step
      exact act_opening_mmio (sole who distinct) opens

section Register

variable {num : ℕ} {param : BitVec 32} {offset : ℕ} {before : ℕ → BitVec 32}

/-- Where an ioctl on a register is. `before` are the registers that it found. -/
inductive RegisterStage (tid : Tid) (num : ℕ) (param : BitVec 32) (offset : ℕ)
    (before : ℕ → BitVec 32) (s : State Tid) : Prop where
  | trying (pc : (s.threads tid).pc = .ioctlTry num param) (mmio : s.shared.mmio = before)
  | switching (pc : (s.threads tid).pc = .ioctlSwitch num param) (mmio : s.shared.mmio = before)
  | stored (pc : (s.threads tid).pc = .ioctlUnlock 0)
      (mmio : s.shared.mmio = Function.update before offset param)
  | busy (pc : (s.threads tid).pc = .returned (-EBUSY)) (mmio : s.shared.mmio = before)
  | done (pc : (s.threads tid).pc = .returned 0)
      (mmio : s.shared.mmio = Function.update before offset param)

theorem RegisterStage.background (stage : RegisterStage tid num param offset before s)
    (sole : SoleUser tid s) (background : Background cfg tid s s') :
    RegisterStage tid num param offset before s' := by
  have thread := (background.undisturbed sole).thread
  have same := background.mmio sole
  cases stage with
  | trying pc mmio => exact .trying (by rw [thread, pc]) (same.trans mmio)
  | switching pc mmio => exact .switching (by rw [thread, pc]) (same.trans mmio)
  | stored pc mmio => exact .stored (by rw [thread, pc]) (same.trans mmio)
  | busy pc mmio => exact .busy (by rw [thread, pc]) (same.trans mmio)
  | done pc mmio => exact .done (by rw [thread, pc]) (same.trans mmio)

/-- **The step of an ioctl on a register.** -/
theorem RegisterStage.advance (stage : RegisterStage tid num param offset before s)
    (register : ioctlTarget cfg num param = some (offset, param)) (keeps : num ≠ ioctlPpuUpdate)
    (inside : ∀ ret, (s.threads tid).pc ≠ .returned ret)
    (step : Step cfg s (.thread tid .advance) s') :
    RegisterStage tid num param offset before s' := by
  cases step
  cases stage with
  | trying pc mmio =>
      by_cases busy : s.shared.vramLock = 1
      · refine .busy ?_ ?_
        · simp only [act, pc, if_pos busy, Function.update_self]
        · simp only [act, pc, if_pos busy]
          exact mmio
      · refine .switching ?_ ?_
        · simp only [act, pc, if_neg busy, Function.update_self]
        · simp only [act, pc, if_neg busy]
          exact mmio
  | switching pc mmio =>
      refine .stored ?_ ?_
      · simp only [act, pc, register, if_neg keeps, Function.update_self]
      · simp only [act, pc, register, mmioWrite]
        rw [mmio]
  | stored pc mmio =>
      refine .done ?_ ?_
      · simp only [act, pc, Function.update_self]
      · simp only [act, pc]
        exact mmio
  | busy pc | done pc => exact absurd pc (inside _)

/-- What an ioctl on a register has done when it has returned. -/
inductive RegisterResult (param : BitVec 32) (offset : ℕ) (before : ℕ → BitVec 32) (ret : ℤ)
    (s : State Tid) : Prop where
  | busy (value : ret = -EBUSY) (mmio : s.shared.mmio = before)
  | done (value : ret = 0) (mmio : s.shared.mmio = Function.update before offset param)

theorem RegisterStage.returns {ret : ℤ} (returns : Returns cfg tid s ret s')
    (stage : RegisterStage tid num param offset before s)
    (register : ioctlTarget cfg num param = some (offset, param)) (keeps : num ≠ ioctlPpuUpdate)
    (alone : Exclusive tid s) : RegisterResult param offset before ret s' := by
  induction returns with
  | background step rest ih => exact ih (stage.background alone.sole step) (step.exclusive alone)
  | advance inside step rest ih =>
      exact ih (stage.advance register keeps inside step) (alone.step step)
  | @returned s s' ret here step =>
      cases step
      have frame : (act cfg s.shared (s.threads tid) .advance).1 = s.shared := by
        simp only [act, here]
      cases stage with
      | busy pc mmio =>
          refine .busy (Pc.returned.inj (here.symm.trans pc)) ?_
          rw [frame, mmio]
      | done pc mmio =>
          refine .done (Pc.returned.inj (here.symm.trans pc)) ?_
          rw [frame, mmio]
      | trying pc | switching pc | stored pc => cases here.symm.trans pc

/-- **An ioctl on a register, of the only holder.** -/
theorem register_returns {ret : ℤ} (alone : Exclusive tid s)
    (outside : (s.threads tid).pc = .user)
    (register : ioctlTarget cfg num param = some (offset, param)) (keeps : num ≠ ioctlPpuUpdate)
    (called : Step cfg s (.thread tid (.call (.ioctl num param))) s₁)
    (returns : Returns cfg tid s₁ ret s') :
    RegisterResult param offset s.shared.mmio ret s' := by
  have begun : RegisterStage tid num param offset s.shared.mmio s₁ := by
    cases called
    refine .trying ?_ ?_
    · simp only [act, outside, Function.update_self]
    · simp only [act, outside]
  exact begun.returns returns register keeps (alone.step called)

end Register

end Process

end FPGame.PpuDriver
