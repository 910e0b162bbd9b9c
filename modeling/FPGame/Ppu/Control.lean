import FPGame.Foundation.Machine

/-!
# The PPU's control state

Three small state machines decide when the CPU's frame becomes visible: the PIO
register that the CPU writes a DMA source address to, the PPU's own state
machine, and the double-buffered control registers.

The PIO is acknowledged by its own `update_avail`, because `fpgame.sv` connects
its `read_rst` to that net and not to the PPU's `vramsrcaddrpio_read_rst`. The
acknowledgement does not wait for the PPU.
-/

set_option autoImplicit false

namespace FPGame.Ppu

/-! ## `pio_write_w_avail` -/

/-- Registers of the PIO. -/
structure Pio where
  updateAvail : Bool
  rddata : BitVec 32
deriving DecidableEq, Repr

namespace Pio

def reset : Pio := { updateAvail := false, rddata := 0 }

/-- One clock: a CPU write takes priority over the acknowledgement. -/
def next (s : Pio) (write : Option (BitVec 32)) (readRst : Bool) : Pio :=
  match write with
  | some data => { updateAvail := true, rddata := data }
  | none => if readRst then { s with updateAvail := false } else s

/-- As it is wired, a clock without a write clears `update_avail`. -/
theorem next_none (s : Pio) : (s.next none s.updateAvail).updateAvail = false := by
  obtain ⟨updateAvail, rddata⟩ := s
  cases updateAvail <;> rfl

end Pio

/-! ## `dbuf_ppu_ctrl_regs` -/

/-- The control registers that the CPU sets for a frame. -/
structure CtrlRegs where
  bgscroll : BitVec 32
  fgscroll : BitVec 32
  enable : BitVec 3
  bgcolor : BitVec 24
deriving DecidableEq, Repr

namespace CtrlRegs

def reset : CtrlRegs := { bgscroll := 0, fgscroll := 0, enable := 0, bgcolor := 0 }

/-- One clock of the buffered copy: each register follows its source on `sync`. -/
def next (s : CtrlRegs) (sync : Bool) (source : CtrlRegs) : CtrlRegs where
  bgscroll := if sync then source.bgscroll else s.bgscroll
  fgscroll := if sync then source.fgscroll else s.fgscroll
  enable := if sync then source.enable else s.enable
  bgcolor := if sync then source.bgcolor else s.bgcolor

@[simp] theorem next_true (s source : CtrlRegs) : s.next true source = source := rfl

@[simp] theorem next_false (s source : CtrlRegs) : s.next false source = s := rfl

end CtrlRegs

/-! ## The PPU FSM -/

/-- `enum { PPU_IDLE, PPU_DISP, PPU_SYNC }` -/
inductive Mode where
  | idle
  | disp
  | sync
deriving DecidableEq, Repr

/-- Registers of the state machine. -/
structure Fsm where
  state : Mode
  vramSync : Bool
  dmaRdyForSync : Bool
  dmaEngineSrcAddr : BitVec 32
  dmaEngineStart : Bool
  ppuDmaRdyIrq : Bool
deriving DecidableEq, Repr

namespace Fsm

/-- What the state machine reads in a clock. -/
structure Input where
  vblankStart : Bool
  vblankEndSoon : Bool
  vramSyncDone : Bool
  dmaEngineFinish : Bool
  updateAvail : Bool
  rddata : BitVec 32

def reset : Fsm where
  state := .idle
  vramSync := false
  dmaRdyForSync := false
  dmaEngineSrcAddr := 0
  dmaEngineStart := false
  ppuDmaRdyIrq := false

variable (s : Fsm) (x : Input)

/-- The sync writer has the PPU-facing ports. -/
def syncActive : Bool := s.state == .sync

/-- A new source address is taken. -/
def takes : Bool := x.updateAvail && !s.dmaRdyForSync

def nextState : Mode :=
  match s.state with
  | .idle => if x.vblankEndSoon then .disp else .idle
  | .disp => if x.vblankStart then if s.dmaRdyForSync then .sync else .idle else .disp
  | .sync => if x.vblankEndSoon then .disp else .sync

/-- One clock of the state machine. -/
def next : Fsm where
  state := s.nextState x
  vramSync := s.state == .disp && x.vblankStart && s.dmaRdyForSync
  dmaRdyForSync :=
    if x.dmaEngineFinish then true
    else if s.state == .sync && x.vramSyncDone then false
    else s.dmaRdyForSync
  dmaEngineSrcAddr := if s.takes x then x.rddata else s.dmaEngineSrcAddr
  dmaEngineStart := s.takes x
  ppuDmaRdyIrq := s.state == .sync && x.vramSyncDone

end Fsm

end FPGame.Ppu
