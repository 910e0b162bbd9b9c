import FPGame.Kernel.PpuRegisters
import FPGame.Library.Pwrites
import FPGame.Ppu.HandedOver
import FPGame.Ppu.Scrolling

/-!
# Scroll values from the library to the screen

`ppu_set_scroll` packs two numbers into one word, the driver stores the word in
a register, the PPU copies the register with the next frame, and the tile engine
takes nine bits for each direction out of it. The library masks nothing, so the
vertical position is that of both arguments together: the two halves are ORed.
-/

set_option autoImplicit false

namespace FPGame.Library

open FPGame.Foundation FPGame.Linux FPGame.Ppu
open FPGame.PpuDriver (Config State Exclusive SoleUser driver owned_of_reachable ioctlTarget
  ioctlPpuUpdate ioctlPpuSetBgscroll ioctlPpuSetFgscroll ppuBgscrollOffset ppuFgscrollOffset
  ctrlRegsOf register_returns)
open FPGame.TileEngine (ShowsFrom showsFrom_iff)

/-! ## Setting a register -/

/-- `ppu_set_scroll` -/
def ppuSetScroll (process : Process) (tileLayer scrollX scrollY : BitVec 32) : Program :=
  .nowaymsg (!process.ppuFd) "PPU not enabled or owned by this process!" <|
  .nowaymsg (decide (tileLayer = layerSpr))
    "FP-GAme PPU does not support Sprite Layer scrolling!" <|
  .setRegister (if tileLayer = layerFg then ioctlPpuSetFgscroll else ioctlPpuSetBgscroll)
    (scrollY <<< 16 ||| scrollX)

section Exec

variable {Tid : Type} [DecidableEq Tid] {cfg : Config} {tid : Tid} {s s' : State Tid}
  {p : Program} {o : Outcome} {num : ℕ} {param : BitVec 32} {offset : ℕ}

/-- A program that is over writes no register. -/
theorem Exec.mmio_of_done {ret : ℤ} (exec : Exec cfg tid s (.done ret) s' o)
    (alone : Exclusive tid s) : s'.shared.mmio = s.shared.mmio := by
  generalize program : Program.done ret = p at exec
  induction exec with
  | done => rfl
  | abort | sys => cases program
  | background step rest ih =>
      exact (ih (step.exclusive alone) program).trans (step.mmio alone.sole)

/-- **The spec of `setRegister`.** -/
theorem Exec.setRegister (exec : Exec cfg tid s (.setRegister num param) s' (.returned 0))
    (alone : Exclusive tid s) (register : ioctlTarget cfg num param = some (offset, param))
    (keeps : num ≠ ioctlPpuUpdate) :
    s'.shared.mmio = Function.update s.shared.mmio offset param := by
  generalize program : Program.setRegister num param = p at exec
  generalize outcome : Outcome.returned 0 = o at exec
  induction exec with
  | done | abort => cases program
  | background step rest ih =>
      rw [ih (step.exclusive alone) program outcome, step.mmio alone.sole]
  | @sys s s₁ s₂ s' call next ret o outside called returns following ih =>
      obtain ⟨rfl, rfl⟩ := Program.sys.inj program
      have alone' := returns_exclusive returns (alone.step called)
      cases register_returns alone outside register keeps called returns with
      | busy value mmio =>
          subst value
          have refused := (following.of_over alone').1 (-1) rfl
          rw [← outcome] at refused
          cases refused.1
      | done value mmio =>
          subst value
          rw [following.mmio_of_done alone', mmio]

/-- A free driver sets a register. -/
theorem exec_setRegister_free (outside : (s.threads tid).pc = .user)
    (free : s.shared.vramLock ≠ 1) (register : ioctlTarget cfg num param = some (offset, param))
    (keeps : num ≠ ioctlPpuUpdate) :
    ∃ after, Exec cfg tid s (.setRegister num param) after (.returned 0) := by
  obtain ⟨s₂, returns, -⟩ := @returns_of_finish Tid _ cfg tid
    { shared := (PpuDriver.act cfg s.shared (s.threads tid) (.call (.ioctl num param))).1
      threads := Function.update s.threads tid
        (PpuDriver.act cfg s.shared (s.threads tid) (.call (.ioctl num param))).2 } 4 _ (by
      simp only [Function.update_self, PpuDriver.act, outside, PpuDriver.finish, if_neg free,
        register, if_neg keeps]
      rfl)
  exact ⟨s₂, .sys outside (.thread s tid _) returns .done⟩

end Exec

/-! ## The registers of the PPU -/

/-- The scroll value of a tile layer. -/
def scrollOf (fg : Bool) (regs : CtrlRegs) : BitVec 32 :=
  if fg then regs.fgscroll else regs.bgscroll

/-- The register of a tile layer. -/
def scrollOffset (fg : Bool) : ℕ := if fg then ppuFgscrollOffset else ppuBgscrollOffset

section Registers

variable {mmio : ℕ → BitVec 32} {param : BitVec 32}

theorem scrollOf_update (fg : Bool) :
    scrollOf fg (ctrlRegsOf (Function.update mmio (scrollOffset fg) param)) = param := by
  cases fg <;> rfl

theorem scrollOf_update_other (fg : Bool) :
    scrollOf (!fg) (ctrlRegsOf (Function.update mmio (scrollOffset fg) param)) =
      scrollOf (!fg) (ctrlRegsOf mmio) := by
  cases fg <;> rfl

end Registers

/-! ## What the packed word means -/

section Packed

variable {x y : BitVec 32}

theorem scrollX_packed : (scrollX (y <<< 16 ||| x)).toNat = x.toNat % 512 := by
  have low : scrollX (y <<< 16 ||| x) = x.extractLsb' 0 9 := by
    apply BitVec.eq_of_getLsbD_eq
    intro i small
    have early : i < 16 := by omega
    simp only [scrollX, BitVec.getLsbD_extractLsb', BitVec.getLsbD_or, BitVec.getLsbD_shiftLeft,
      Nat.zero_add, early, decide_true, Bool.not_true, Bool.and_false, Bool.false_and,
      Bool.false_or]
  rw [low, BitVec.extractLsb'_toNat, Nat.shiftRight_zero]

/-- The vertical position is that of both arguments. -/
theorem scrollY_packed :
    scrollY (y <<< 16 ||| x) = x.extractLsb' 16 9 ||| y.extractLsb' 0 9 := by
  apply BitVec.eq_of_getLsbD_eq
  intro i small
  have inside : 16 + i < 32 := by omega
  have high : ¬ 16 + i < 16 := by omega
  simp only [scrollY, BitVec.getLsbD_extractLsb', BitVec.getLsbD_or, BitVec.getLsbD_shiftLeft,
    small, inside, high, decide_true, decide_false, Bool.not_false, Bool.true_and, Nat.zero_add,
    Nat.add_sub_cancel_left, Bool.and_or_distrib_left]
  exact Bool.or_comm _ _

/-- The position is that of the arguments if the horizontal one does not reach
into the vertical one. -/
theorem showsFrom_packed (fg : Bool) :
    ShowsFrom fg (y <<< 16 ||| x) x.toNat y.toNat ↔
      x.extractLsb' 16 9 ||| y.extractLsb' 0 9 = y.extractLsb' 0 9 := by
  have vertical : y.toNat % 512 = (y.extractLsb' 0 9).toNat := by
    rw [BitVec.extractLsb'_toNat, Nat.shiftRight_zero]
  rw [showsFrom_iff, scrollX_packed, scrollY_packed, vertical, BitVec.toNat_inj, and_iff_right rfl]
  exact eq_comm

end Packed

/-! ## The call -/

section Scroll

variable {Tid : Type} [DecidableEq Tid] {cfg : Config} {tid : Tid} {s s' : State Tid}
  {process : Process} {tileLayer scrollX scrollY : BitVec 32}

/-- The ioctl of a tile layer. -/
theorem scroll_register (fg : Bool) (param : BitVec 32) :
    ioctlTarget cfg (if fg then ioctlPpuSetFgscroll else ioctlPpuSetBgscroll) param =
        some (scrollOffset fg, param) ∧
      (if fg then ioctlPpuSetFgscroll else ioctlPpuSetBgscroll) ≠ ioctlPpuUpdate := by
  cases fg <;> exact ⟨rfl, by decide⟩

theorem setScroll_mmio (alone : Exclusive tid s)
    (exec : Exec cfg tid s (ppuSetScroll process tileLayer scrollX scrollY) s' (.returned 0)) :
    s'.shared.mmio = Function.update s.shared.mmio (scrollOffset (decide (tileLayer = layerFg)))
      (scrollY <<< 16 ||| scrollX) := by
  obtain ⟨-, exec⟩ := exec.of_nowaymsg alone
  obtain ⟨-, exec⟩ := exec.of_nowaymsg alone
  obtain ⟨register, keeps⟩ := @scroll_register cfg (decide (tileLayer = layerFg))
    (scrollY <<< 16 ||| scrollX)
  simp only [decide_eq_true_eq] at register keeps
  exact exec.setRegister alone register keeps

/-- **Scroll values.** Once `ppu_set_scroll` has returned 0 and the registers are
synced, the engine of the layer shows the map from the position of the arguments,
and the other layer is where it was, if and only if `scroll_x` has none of its bits
16 to 24 set but those that are already set in bits 0 to 8 of `scroll_y`. -/
theorem scroll_iff (reachable : (driver Tid cfg).Reachable s) (sole : SoleUser tid s)
    (exec : Exec cfg tid s (ppuSetScroll process tileLayer scrollX scrollY) s' (.returned 0))
    {fg : Bool} (layer : tileLayer = if fg then layerFg else layerBg) {dbuf dbuf' : CtrlRegs}
    (before : dbuf = ctrlRegsOf s.shared.mmio) (synced : dbuf' = ctrlRegsOf s'.shared.mmio) :
    (ShowsFrom fg (scrollOf fg dbuf') scrollX.toNat scrollY.toNat ∧
      ∀ x y, ShowsFrom (!fg) (scrollOf (!fg) dbuf') x y ↔
        ShowsFrom (!fg) (scrollOf (!fg) dbuf) x y) ↔
    scrollX.extractLsb' 16 9 ||| scrollY.extractLsb' 0 9 = scrollY.extractLsb' 0 9 := by
  have mmio := setScroll_mmio ⟨sole, owned_of_reachable reachable⟩ exec
  have named : decide (tileLayer = layerFg) = fg := by
    rw [layer]
    cases fg <;> rfl
  rw [named] at mmio
  rw [synced, before, mmio, scrollOf_update, scrollOf_update_other, showsFrom_packed]
  exact and_iff_left fun _ _ => Iff.rfl

end Scroll

/-- The driver at rest sets a scroll value. -/
theorem exec_setScroll (fg : Bool) (x y : BitVec 32) :
    ∃ after, Exec alignedConfig true PpuDriver.atRest
      (ppuSetScroll grayProcess (if fg then layerFg else layerBg) x y) after (.returned 0) := by
  obtain ⟨register, keeps⟩ := @scroll_register alignedConfig fg (y <<< 16 ||| x)
  obtain ⟨after, exec⟩ := @exec_setRegister_free Bool _ alignedConfig true PpuDriver.atRest
    (if fg then ioctlPpuSetFgscroll else ioctlPpuSetBgscroll) (y <<< 16 ||| x) _ rfl (by decide)
    register keeps
  refine ⟨after, ?_⟩
  cases fg with
  | true | false => exact exec

/-- A camera at (300, 511). -/
theorem scroll_iff_camera :
    ∃ after : State Bool,
      Exec alignedConfig true PpuDriver.atRest (ppuSetScroll grayProcess layerFg 300 511) after
        (.returned 0) ∧
      ShowsFrom true (ctrlRegsOf after.shared.mmio).fgscroll 300 511 := by
  obtain ⟨after, exec⟩ := exec_setScroll true 300 511
  refine ⟨after, exec, ?_⟩
  have sole : SoleUser true (PpuDriver.atRest : State Bool) := fun _ _ => rfl
  have foreground : (layerFg : BitVec 32) = if true then layerFg else layerBg := rfl
  have shows := (scroll_iff reachable_atRest sole exec foreground rfl rfl).mpr (by decide)
  exact shows.1

/-- A camera that has stepped below zero. -/
theorem scroll_below_zero :
    ∃ after : State Bool,
      (driver Bool alignedConfig).Reachable PpuDriver.atRest ∧ SoleUser true PpuDriver.atRest ∧
      Exec alignedConfig true PpuDriver.atRest (ppuSetScroll grayProcess layerBg 0xFFFFFFFF 0) after
        (.returned 0) ∧
      ¬ ShowsFrom false (ctrlRegsOf after.shared.mmio).bgscroll 0xFFFFFFFF 0 ∧
      ShowsFrom false (ctrlRegsOf after.shared.mmio).bgscroll 0xFFFFFFFF 511 := by
  obtain ⟨after, exec⟩ := exec_setScroll false 0xFFFFFFFF 0
  have sole : SoleUser true PpuDriver.atRest := fun _ _ => rfl
  have mmio := setScroll_mmio ⟨sole, owned_of_reachable reachable_atRest⟩ exec
  refine ⟨after, reachable_atRest, sole, exec, ?_, ?_⟩
  · rw [mmio, showsFrom_iff]
    decide
  · rw [mmio, showsFrom_iff]
    decide

end FPGame.Library
