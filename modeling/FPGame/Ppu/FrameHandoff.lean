import FPGame.Dma.ImageCopy
import FPGame.Ppu.Control
import FPGame.Vram.VramSyncWriter

/-!
# Frame handoff

The CPU hands a frame over by writing its address to the PIO. The PPU starts
the DMA engine, remembers that an image is ready, copies it to the PPU-facing
VRAM at the next vertical blank together with the control registers, and raises
`ppu_dma_rdy_irq`. A transfer may take any time and finish in any state of the
PPU.

The five machines are composed as `fpgame.sv` and `ppu.sv` connect them. `Stage`
lists what a frame goes through and `Holds` says what all registers are in each
stage, so a frame is never in two places and the interrupt comes at the end of
the last one.
-/

set_option autoImplicit false

namespace FPGame.FrameHandoff

open FPGame.Foundation FPGame.Vram FPGame.Dma FPGame.Ppu
open FPGame.VramSyncWriter (copyClocks ReadsOnly Idle Busy)

/-! ## The composition -/

/-- A clock of the environment: the CPU's write to the PIO, the registers and
the source memory it owns, the vertical blank, the stalls of the two buses, the
PPU's addresses and the values of undriven nets. -/
structure Input where
  write : Option (BitVec 32)
  regs : CtrlRegs
  memory : BitVec 32 → BitVec 128
  vblankStart : Bool
  vblankEndSoon : Bool
  readWaitrequest : Bool
  writeWaitrequest : Bool
  respond : Bool
  ppuAddrA : Segment → ℕ
  ppuAddrB : Segment → ℕ
  undriven : BitVec 128
  undrivenP : BitVec 64

/-- The registers and memories of the composition. -/
structure System where
  pio : Pio
  fsm : Fsm
  bus : Bus
  video : VramSyncWriter.System
  dbuf : CtrlRegs

namespace System

variable (s : System) (x : Input)

def busInput : Bus.Input where
  dmaEngineSrcAddr := s.fsm.dmaEngineSrcAddr
  dmaEngineStart := s.fsm.dmaEngineStart
  readWaitrequest := x.readWaitrequest
  writeWaitrequest := x.writeWaitrequest
  respond := x.respond
  memory := x.memory

def videoInput : VramSyncWriter.Input where
  sync := s.fsm.vramSync
  syncActive := s.fsm.syncActive
  wraddr := s.bus.wraddr
  wren := s.bus.incWrite (s.busInput x)
  wrdata := s.bus.engine.writeWritedata
  ppuAddrA := x.ppuAddrA
  ppuAddrB := x.ppuAddrB
  undriven := x.undriven
  undrivenP := x.undrivenP

def fsmInput : Fsm.Input where
  vblankStart := x.vblankStart
  vblankEndSoon := x.vblankEndSoon
  vramSyncDone := s.video.vsw.done
  dmaEngineFinish := s.bus.engine.dmaEngineFinish
  updateAvail := s.pio.updateAvail
  rddata := s.pio.rddata

/-- One clock of the composition. -/
def next : System where
  pio := s.pio.next x.write s.pio.updateAvail
  fsm := s.fsm.next (s.fsmInput x)
  bus := s.bus.next (s.busInput x)
  video := s.video.next (s.videoInput x)
  dbuf := s.dbuf.next s.fsm.vramSync x.regs

/-- `ppu_dma_rdy_irq`. -/
def irq : Bool := s.fsm.ppuDmaRdyIrq

/-- The DMA engine accepts a start in this clock. -/
def begins : Bool := s.bus.begins (s.busInput x)

/-- A transfer into the CPU-facing VRAM is under way. -/
def dmaActive : Prop := s.bus.engine.started = true

/-- A copy to the PPU-facing VRAM is under way. -/
def copyActive : Prop := s.fsm.vramSync = true ∨ s.video.vsw.state = .sync

end System

/-- The machine, from any contents of the memories. -/
def machine (memArray : ℕ → BitVec 128) (vram : Vram.State) : Machine System Input where
  reset :=
    { pio := Pio.reset
      fsm := Fsm.reset
      bus := Bus.reset memArray
      video := { vsw := VramSyncWriter.reset, vram := vram }
      dbuf := CtrlRegs.reset }
  next := System.next

/-! ## The stages of a frame -/

/-- What the CPU hands over. -/
structure Frame where
  src : BitVec 32
  memory : BitVec 32 → BitVec 128
  regs : CtrlRegs

/-- Where a frame is: nowhere, in the PIO, on its way to the engine, being
transferred, just transferred, ready for the next vertical blank, about to be
copied, or `k` clocks into the copy. -/
inductive Stage where
  | waiting
  | written
  | requested
  | moving
  | finished
  | ready
  | pulse
  | copying (k : ℕ)
deriving DecidableEq, Repr

/-- `dma_rdy_for_sync` is high. -/
def Stage.rdy : Stage → Bool
  | .ready | .pulse | .copying _ => true
  | _ => false

/-- The image is in the CPU-facing VRAM. -/
def Stage.loaded : Stage → Bool
  | .finished | .ready | .pulse | .copying _ => true
  | _ => false

/-- The PPU is in `PPU_SYNC` on behalf of the frame. -/
def Stage.syncing : Stage → Bool
  | .pulse | .copying _ => true
  | _ => false

/-- The stage that may follow in a clock, unless the interrupt comes. -/
inductive Stage.Follows : Stage → Stage → Prop
  | taken : Follows .written .requested
  | begins : Follows .requested .moving
  | moves : Follows .moving .moving
  | finishes : Follows .moving .finished
  | recorded : Follows .finished .ready
  | waits : Follows .ready .ready
  | pulses : Follows .ready .pulse
  | copies : Follows .pulse (.copying 0)
  | goesOn (k : ℕ) (more : k + 1 < copyClocks) : Follows (.copying k) (.copying (k + 1))

/-- The CPU-facing VRAM holds the image of the frame. -/
def Frame.Loaded (frame : Frame) (cpu : CpuFacing) : Prop :=
  ∃ before, cpu = landed (imageWord frame.memory frame.src) before imageWords

/-- The registers of the composition in a stage of a frame. -/
structure Holds (frame : Frame) (stage : Stage) (s : System) : Prop where
  updateAvail : s.pio.updateAvail = decide (stage = .written)
  rddata : stage = .written → s.pio.rddata = frame.src
  start : s.fsm.dmaEngineStart = decide (stage = .requested)
  srcAddr : stage = .requested → s.fsm.dmaEngineSrcAddr = frame.src
  rdy : s.fsm.dmaRdyForSync = stage.rdy
  vramSync : s.fsm.vramSync = decide (stage = .pulse)
  state : stage.syncing = true → s.fsm.state = .sync
  quiet : stage ≠ .moving → Quiet s.bus
  moving : stage = .moving → ∃ a r w before,
    Moving (imageWord frame.memory frame.src) frame.src a r w s.bus ∧
      s.video.vram.cpu = landed (imageWord frame.memory frame.src) before w
  done : s.bus.engine.done = decide (stage = .finished)
  loaded : stage.loaded = true → frame.Loaded s.video.vram.cpu
  idle : (∀ k, stage ≠ .copying k) → Idle s.video.vsw
  busy : ∀ k, stage = .copying k → ∃ before, Busy s.video.vram.cpu before k s.video
  dbuf : ∀ k, stage = .copying k → s.dbuf = frame.regs
  reads : ReadsOnly s.video.vsw

section Components

variable {s : System} {x : Input}

theorem next_quiet (quiet : Quiet s.bus) (noStart : s.fsm.dmaEngineStart = false) :
    Quiet (s.next x).bus ∧ (s.next x).bus.engine.done = false :=
  ⟨(quiet.next_quiet noStart).1, quiet.next_done⟩

/-- A quiet engine leaves the CPU-facing VRAM alone. -/
theorem next_cpu_of_quiet (quiet : Quiet s.bus) (reads : ReadsOnly s.video.vsw) :
    (s.next x).video.vram.cpu = s.video.vram.cpu := by
  refine (VramSyncWriter.next_cpu (x := s.videoInput x) reads).trans ?_
  rw [show (s.videoInput x).wren = false from quiet.incWrite, h2fWrite_false]

theorem next_idle (idle : Idle s.video.vsw) (noSync : s.fsm.vramSync = false) :
    Idle (s.next x).video.vsw :=
  (idle.next_quiet (x := s.videoInput x) noSync).1

theorem next_reads (reads : ReadsOnly s.video.vsw) : ReadsOnly (s.next x).video.vsw :=
  reads.next _

/-- The interrupt follows the sync writer's `done` in `PPU_SYNC`. -/
theorem next_irq : (s.next x).irq = (s.fsm.state == .sync && s.video.vsw.done) := rfl

theorem next_irq_of_not_done (notDone : s.video.vsw.done = false) : (s.next x).irq = false := by
  rw [next_irq, notDone, Bool.and_false]

/-- The state machine, in clocks in which the sync writer is not done. -/
theorem next_fsm (notDone : s.video.vsw.done = false) :
    (s.next x).fsm.dmaRdyForSync = (s.bus.engine.done || s.fsm.dmaRdyForSync) ∧
    (s.next x).fsm.dmaEngineStart = (s.pio.updateAvail && !s.fsm.dmaRdyForSync) ∧
    (s.next x).fsm.vramSync = (s.fsm.state == .disp && x.vblankStart && s.fsm.dmaRdyForSync) := by
  refine ⟨?_, rfl, rfl⟩
  simp only [System.next, Fsm.next, System.fsmInput, notDone, Bool.and_false, Bool.false_eq_true,
    if_false, Engine.dmaEngineFinish]
  cases s.bus.engine.done <;> rfl

theorem next_updateAvail (noWrite : x.write = none) : (s.next x).pio.updateAvail = false := by
  show (s.pio.next x.write s.pio.updateAvail).updateAvail = false
  rw [noWrite]
  exact s.pio.next_none

end Components

namespace Holds

variable {frame : Frame} {s : System} {x : Input}

theorem notDone {stage : Stage} (h : Holds frame stage s) (noCopy : ∀ k, stage ≠ .copying k) :
    s.video.vsw.done = false :=
  (h.idle noCopy).done

/-- While the PPU waits it knows of no frame. -/
theorem of_waiting (h : Holds frame .waiting s) (frame' : Frame) : Holds frame' .waiting s where
  updateAvail := h.updateAvail
  rddata := nofun
  start := h.start
  srcAddr := nofun
  rdy := h.rdy
  vramSync := h.vramSync
  state := nofun
  quiet := h.quiet
  moving := nofun
  done := h.done
  loaded := nofun
  idle := h.idle
  busy := nofun
  dbuf := nofun
  reads := h.reads

/-- Without a write the PPU waits. -/
theorem next_waiting (h : Holds frame .waiting s) (noWrite : x.write = none) :
    Holds frame .waiting (s.next x) ∧ (s.next x).irq = false := by
  have notDone := h.notDone (by simp)
  obtain ⟨rdy, start, vramSync⟩ := next_fsm (x := x) notDone
  obtain ⟨quiet, done⟩ := next_quiet (x := x) (h.quiet (by simp)) h.start
  refine ⟨?_, next_irq_of_not_done notDone⟩
  exact
    { updateAvail := next_updateAvail noWrite
      rddata := nofun
      start := by rw [start, h.updateAvail]; rfl
      srcAddr := nofun
      rdy := by rw [rdy, h.done, h.rdy]; rfl
      vramSync := by rw [vramSync, h.rdy]; exact Bool.and_false _
      state := nofun
      quiet := fun _ => quiet
      moving := nofun
      done := done
      loaded := nofun
      idle := fun _ => next_idle (h.idle (by simp)) h.vramSync
      busy := nofun
      dbuf := nofun
      reads := next_reads h.reads }

/-- A write of the CPU hands a frame over. -/
theorem next_write {src : BitVec 32} (h : Holds frame .waiting s) (write : x.write = some src) :
    Holds { src := src, memory := x.memory, regs := x.regs } .written (s.next x) ∧
      (s.next x).irq = false := by
  have notDone := h.notDone (by simp)
  obtain ⟨rdy, start, vramSync⟩ := next_fsm (x := x) notDone
  obtain ⟨quiet, done⟩ := next_quiet (x := x) (h.quiet (by simp)) h.start
  refine ⟨?_, next_irq_of_not_done notDone⟩
  exact
    { updateAvail := by simp [System.next, Pio.next, write]
      rddata := fun _ => by simp [System.next, Pio.next, write]
      start := by rw [start, h.updateAvail]; rfl
      srcAddr := nofun
      rdy := by rw [rdy, h.done, h.rdy]; rfl
      vramSync := by rw [vramSync, h.rdy]; exact Bool.and_false _
      state := nofun
      quiet := fun _ => quiet
      moving := nofun
      done := done
      loaded := nofun
      idle := fun _ => next_idle (h.idle (by simp)) h.vramSync
      busy := nofun
      dbuf := nofun
      reads := next_reads h.reads }

/-- The PPU takes the address one clock after the write. -/
theorem next_written (h : Holds frame .written s) (noWrite : x.write = none) :
    Holds frame .requested (s.next x) ∧ (s.next x).irq = false := by
  have notDone := h.notDone (by simp)
  obtain ⟨rdy, start, vramSync⟩ := next_fsm (x := x) notDone
  obtain ⟨quiet, done⟩ := next_quiet (x := x) (h.quiet (by simp)) h.start
  have takes : s.fsm.takes (s.fsmInput x) = true := by
    rw [Fsm.takes, h.rdy, show (s.fsmInput x).updateAvail = true from h.updateAvail]
    rfl
  refine ⟨?_, next_irq_of_not_done notDone⟩
  exact
    { updateAvail := next_updateAvail noWrite
      rddata := nofun
      start := by rw [start, h.updateAvail, h.rdy]; rfl
      srcAddr := fun _ => by
        show (if s.fsm.takes (s.fsmInput x) then (s.fsmInput x).rddata else _) = frame.src
        rw [takes, if_pos rfl]
        exact h.rddata rfl
      rdy := by rw [rdy, h.done, h.rdy]; rfl
      vramSync := by rw [vramSync, h.rdy]; exact Bool.and_false _
      state := nofun
      quiet := fun _ => quiet
      moving := nofun
      done := done
      loaded := nofun
      idle := fun _ => next_idle (h.idle (by simp)) h.vramSync
      busy := nofun
      dbuf := nofun
      reads := next_reads h.reads }

/-- The engine accepts the start with the address of the frame. -/
theorem next_requested (h : Holds frame .requested s) (noWrite : x.write = none) :
    Holds frame .moving (s.next x) ∧ (s.next x).irq = false ∧ s.begins x = true := by
  have notDone := h.notDone (by simp)
  have quiet := h.quiet (by simp)
  obtain ⟨rdy, start, vramSync⟩ := next_fsm (x := x) notDone
  have starts : (s.busInput x).dmaEngineStart = true := h.start
  have moving := quiet.next_start starts (imageWord frame.memory frame.src)
  rw [show (s.busInput x).dmaEngineSrcAddr = frame.src from h.srcAddr rfl] at moving
  refine ⟨?_, next_irq_of_not_done notDone, quiet.begins.trans starts⟩
  exact
    { updateAvail := next_updateAvail noWrite
      rddata := nofun
      start := by rw [start, h.updateAvail]; rfl
      srcAddr := nofun
      rdy := by rw [rdy, h.done, h.rdy]; rfl
      vramSync := by rw [vramSync, h.rdy]; exact Bool.and_false _
      state := nofun
      quiet := fun elsewhere => absurd rfl elsewhere
      moving := fun _ => ⟨0, 0, 0, s.video.vram.cpu, moving, by
        rw [landed_zero]
        exact next_cpu_of_quiet quiet h.reads⟩
      done := moving.done
      loaded := nofun
      idle := fun _ => next_idle (h.idle (by simp)) h.vramSync
      busy := nofun
      dbuf := nofun
      reads := next_reads h.reads }

/-- A transfer goes on or finishes, whatever the vertical blank does. -/
theorem next_moving (h : Holds frame .moving s) (noWrite : x.write = none)
    (still : x.memory = frame.memory) :
    (Holds frame .moving (s.next x) ∨ Holds frame .finished (s.next x)) ∧
      (s.next x).irq = false := by
  have notDone := h.notDone (by simp)
  obtain ⟨a, r, w, before, moving, image⟩ := h.moving rfl
  obtain ⟨rdy, start, vramSync⟩ := next_fsm (x := x) notDone
  have image' : (s.next x).video.vram.cpu =
      landed (imageWord frame.memory frame.src) before
        (w + (s.bus.incWrite (s.busInput x)).toNat) := by
    refine (VramSyncWriter.next_cpu (x := s.videoInput x) h.reads).trans ?_
    rw [image]
    exact moving.h2fWrite_landed (s.busInput x) before
  have updateAvail := next_updateAvail (s := s) noWrite
  have start' : (s.next x).fsm.dmaEngineStart = false := by rw [start, h.updateAvail]; rfl
  have rdy' : (s.next x).fsm.dmaRdyForSync = false := by rw [rdy, h.done, h.rdy]; rfl
  have vramSync' : (s.next x).fsm.vramSync = false := by
    rw [vramSync, h.rdy]
    exact Bool.and_false _
  have idle := next_idle (x := x) (h.idle (by simp)) h.vramSync
  refine ⟨?_, next_irq_of_not_done notDone⟩
  by_cases finished : w = imageWords
  · obtain ⟨quiet, done, -⟩ := moving.finish (x := s.busInput x) finished
    have noWriteBus : s.bus.incWrite (s.busInput x) = false := by
      rw [Bool.eq_false_iff]
      exact fun writes => (moving.more_of_incWrite writes).ne finished
    rw [noWriteBus, finished] at image'
    exact .inr
      { updateAvail := updateAvail
        rddata := nofun
        start := start'
        srcAddr := nofun
        rdy := rdy'
        vramSync := vramSync'
        state := nofun
        quiet := fun _ => quiet
        moving := nofun
        done := done
        loaded := fun _ => ⟨before, image'⟩
        idle := fun _ => idle
        busy := nofun
        dbuf := nofun
        reads := next_reads h.reads }
  · have ordered := moving.order
    have following := moving.next (x := s.busInput x)
      (fun _ => by rw [show (s.busInput x).memory = frame.memory from still]) (by omega)
    exact .inl
      { updateAvail := updateAvail
        rddata := nofun
        start := start'
        srcAddr := nofun
        rdy := rdy'
        vramSync := vramSync'
        state := nofun
        quiet := fun elsewhere => absurd rfl elsewhere
        moving := fun _ => ⟨_, _, _, before, following, image'⟩
        done := following.done
        loaded := nofun
        idle := fun _ => idle
        busy := nofun
        dbuf := nofun
        reads := next_reads h.reads }

/-- `dma_engine_finish` makes the frame ready. -/
theorem next_finished (h : Holds frame .finished s) (noWrite : x.write = none) :
    Holds frame .ready (s.next x) ∧ (s.next x).irq = false := by
  have notDone := h.notDone (by simp)
  obtain ⟨rdy, start, vramSync⟩ := next_fsm (x := x) notDone
  obtain ⟨quiet, done⟩ := next_quiet (x := x) (h.quiet (by simp)) h.start
  refine ⟨?_, next_irq_of_not_done notDone⟩
  exact
    { updateAvail := next_updateAvail noWrite
      rddata := nofun
      start := by rw [start, h.updateAvail]; rfl
      srcAddr := nofun
      rdy := by rw [rdy, h.done]; rfl
      vramSync := by rw [vramSync, h.rdy]; exact Bool.and_false _
      state := nofun
      quiet := fun _ => quiet
      moving := nofun
      done := done
      loaded := fun _ => by
        rw [next_cpu_of_quiet (h.quiet (by simp)) h.reads]
        exact h.loaded rfl
      idle := fun _ => next_idle (h.idle (by simp)) h.vramSync
      busy := nofun
      dbuf := nofun
      reads := next_reads h.reads }

/-- A frame that is ready waits for a vertical blank that begins in
`PPU_DISP`. -/
theorem next_ready (h : Holds frame .ready s) (noWrite : x.write = none) :
    (Holds frame .ready (s.next x) ∨ (x.vblankStart = true ∧ Holds frame .pulse (s.next x))) ∧
      (s.next x).irq = false := by
  have notDone := h.notDone (by simp)
  obtain ⟨rdy, start, vramSync⟩ := next_fsm (x := x) notDone
  obtain ⟨quiet, done⟩ := next_quiet (x := x) (h.quiet (by simp)) h.start
  have updateAvail := next_updateAvail (s := s) noWrite
  have start' : (s.next x).fsm.dmaEngineStart = false := by rw [start, h.updateAvail]; rfl
  have rdy' : (s.next x).fsm.dmaRdyForSync = true := by rw [rdy, h.rdy]; exact Bool.or_true _
  have loaded : frame.Loaded (s.next x).video.vram.cpu := by
    rw [next_cpu_of_quiet (h.quiet (by simp)) h.reads]
    exact h.loaded rfl
  have idle := next_idle (x := x) (h.idle (by simp)) h.vramSync
  refine ⟨?_, next_irq_of_not_done notDone⟩
  cases begins : s.fsm.state == .disp && x.vblankStart with
  | false =>
      exact .inl
        { updateAvail := updateAvail
          rddata := nofun
          start := start'
          srcAddr := nofun
          rdy := rdy'
          vramSync := by rw [vramSync, begins]; rfl
          state := nofun
          quiet := fun _ => quiet
          moving := nofun
          done := done
          loaded := fun _ => loaded
          idle := fun _ => idle
          busy := nofun
          dbuf := nofun
          reads := next_reads h.reads }
  | true =>
      have vramSync' : (s.next x).fsm.vramSync = true := by rw [vramSync, begins, h.rdy]; rfl
      rw [Bool.and_eq_true, beq_iff_eq] at begins
      refine .inr ⟨begins.2, ?_⟩
      exact
        { updateAvail := updateAvail
          rddata := nofun
          start := start'
          srcAddr := nofun
          rdy := rdy'
          vramSync := vramSync'
          state := fun _ => by
            have rdy : s.fsm.dmaRdyForSync = true := h.rdy
            simp [System.next, Fsm.next, Fsm.nextState, System.fsmInput, begins, rdy]
          quiet := fun _ => quiet
          moving := nofun
          done := done
          loaded := fun _ => loaded
          idle := fun _ => idle
          busy := nofun
          dbuf := nofun
          reads := next_reads h.reads }

/-- `PPU_SYNC` is kept while the vertical blank lasts. -/
theorem next_state {stage : Stage} (h : Holds frame stage s) (syncing : stage.syncing = true)
    (blank : x.vblankEndSoon = false) : (s.next x).fsm.state = .sync := by
  simp [System.next, Fsm.next, Fsm.nextState, System.fsmInput, h.state syncing, blank]

theorem syncActive {stage : Stage} (h : Holds frame stage s) (syncing : stage.syncing = true) :
    (s.videoInput x).syncActive = true := by
  show (s.fsm.state == .sync) = true
  rw [h.state syncing]
  rfl

/-- The pulse starts the copy and latches the control registers. -/
theorem next_pulse (h : Holds frame .pulse s) (noWrite : x.write = none)
    (still : x.regs = frame.regs) (blank : x.vblankEndSoon = false) :
    Holds frame (.copying 0) (s.next x) ∧ (s.next x).irq = false := by
  have notDone := h.notDone (by simp)
  obtain ⟨rdy, start, vramSync⟩ := next_fsm (x := x) notDone
  obtain ⟨quiet, done⟩ := next_quiet (x := x) (h.quiet (by simp)) h.start
  have state : s.fsm.state = .sync := h.state rfl
  have pulse : s.fsm.vramSync = true := h.vramSync
  refine ⟨?_, next_irq_of_not_done notDone⟩
  exact
    { updateAvail := next_updateAvail noWrite
      rddata := nofun
      start := by rw [start, h.updateAvail]; rfl
      srcAddr := nofun
      rdy := by rw [rdy, h.rdy]; exact Bool.or_true _
      vramSync := by rw [vramSync, state]; rfl
      state := fun _ => h.next_state rfl blank
      quiet := fun _ => quiet
      moving := nofun
      done := done
      loaded := fun _ => by
        rw [next_cpu_of_quiet (h.quiet (by simp)) h.reads]
        exact h.loaded rfl
      idle := fun noCopy => absurd rfl (noCopy 0)
      busy := by
        rintro _ ⟨rfl⟩
        exact ⟨s.video.vram.ppu, (h.idle (by simp)).next_sync (x := s.videoInput x) pulse⟩
      dbuf := fun _ _ => by
        show s.dbuf.next s.fsm.vramSync x.regs = frame.regs
        rw [pulse, CtrlRegs.next_true, still]
      reads := next_reads h.reads }

/-- A clock of the copy. -/
theorem next_copying {k : ℕ} (h : Holds frame (.copying k) s) (noWrite : x.write = none)
    (more : k + 1 < copyClocks) (blank : x.vblankEndSoon = false) :
    Holds frame (.copying (k + 1)) (s.next x) ∧ (s.next x).irq = false := by
  obtain ⟨before, busy⟩ := h.busy k rfl
  have notDone : s.video.vsw.done = false := by
    rw [busy.done]
    exact decide_eq_false (by omega)
  obtain ⟨rdy, start, vramSync⟩ := next_fsm (x := x) notDone
  obtain ⟨quiet, done⟩ := next_quiet (x := x) (h.quiet (by simp)) h.start
  have state : s.fsm.state = .sync := h.state rfl
  have same := next_cpu_of_quiet (x := x) (h.quiet (by simp)) h.reads
  refine ⟨?_, next_irq_of_not_done notDone⟩
  exact
    { updateAvail := next_updateAvail noWrite
      rddata := nofun
      start := by rw [start, h.updateAvail]; rfl
      srcAddr := nofun
      rdy := by rw [rdy, h.rdy]; exact Bool.or_true _
      vramSync := by rw [vramSync, state]; rfl
      state := fun _ => h.next_state rfl blank
      quiet := fun _ => quiet
      moving := nofun
      done := done
      loaded := fun _ => by rw [same]; exact h.loaded rfl
      idle := fun noCopy => absurd rfl (noCopy (k + 1))
      busy := by
        rintro _ ⟨rfl⟩
        rw [same]
        exact ⟨before, busy.next (x := s.videoInput x) h.reads more h.vramSync
          (h.syncActive rfl) ((h.quiet (by simp)).incWrite)⟩
      dbuf := fun _ _ => by
        show s.dbuf.next s.fsm.vramSync x.regs = frame.regs
        rw [show s.fsm.vramSync = false from h.vramSync, CtrlRegs.next_false]
        exact h.dbuf k rfl
      reads := next_reads h.reads }

/-- **The end of a frame.** The clock in which the sync writer is done raises
the interrupt, and then both copies of the VRAM and the buffered registers are
those of the frame. -/
theorem next_copied {k : ℕ} (h : Holds frame (.copying k) s) (noWrite : x.write = none)
    (last : k + 1 = copyClocks) :
    Holds frame .waiting (s.next x) ∧ (s.next x).irq = true ∧
      Synced (s.next x).video.vram.cpu (s.next x).video.vram.ppu ∧
      frame.Loaded (s.next x).video.vram.cpu ∧ (s.next x).dbuf = frame.regs := by
  obtain ⟨before, busy⟩ := h.busy k rfl
  have isDone : s.video.vsw.done = true := by
    rw [busy.done]
    exact decide_eq_true last
  obtain ⟨quiet, done⟩ := next_quiet (x := x) (h.quiet (by simp)) h.start
  have state : s.fsm.state = .sync := h.state rfl
  have same := next_cpu_of_quiet (x := x) (h.quiet (by simp)) h.reads
  refine ⟨?_, by rw [next_irq, state, isDone]; rfl, ?_, by rw [same]; exact h.loaded rfl, ?_⟩
  · exact
      { updateAvail := next_updateAvail noWrite
        rddata := nofun
        start := by
          show (s.pio.updateAvail && !s.fsm.dmaRdyForSync) = false
          rw [h.updateAvail]
          rfl
        srcAddr := nofun
        rdy := by
          have low : s.bus.engine.done = false := h.done
          simp [System.next, Fsm.next, System.fsmInput, Engine.dmaEngineFinish, low, state, isDone,
            Stage.rdy]
        vramSync := by
          show (s.fsm.state == .disp && x.vblankStart && s.fsm.dmaRdyForSync) = false
          rw [state]
          rfl
        state := nofun
        quiet := fun _ => quiet
        moving := nofun
        done := done
        loaded := nofun
        idle := fun _ => busy.next_last (x := s.videoInput x) last h.vramSync (h.syncActive rfl)
        busy := nofun
        dbuf := nofun
        reads := next_reads h.reads }
  · rw [same, show (s.next x).video.vram.ppu = s.video.vram.ppu from
      busy.next_ppu (x := s.videoInput x) last]
    exact busy.synced last
  · show s.dbuf.next s.fsm.vramSync x.regs = frame.regs
    rw [show s.fsm.vramSync = false from h.vramSync, CtrlRegs.next_false]
    exact h.dbuf k rfl

/-- **One clock of a frame**: it goes on to its next stage, or its interrupt comes. -/
theorem next {stage : Stage} (h : Holds frame stage s) (busy : stage ≠ .waiting)
    (noWrite : x.write = none) (memory : x.memory = frame.memory) (regs : x.regs = frame.regs)
    (blank : stage.syncing = true → (∀ k, stage = .copying k → k + 1 < copyClocks) →
      x.vblankEndSoon = false) :
    (∃ stage', stage.Follows stage' ∧ Holds frame stage' (s.next x) ∧ (s.next x).irq = false ∧
      (stage' = .pulse → x.vblankStart = true)) ∨
    ((∃ k, stage = .copying k ∧ k + 1 = copyClocks) ∧ Holds frame .waiting (s.next x) ∧
      (s.next x).irq = true) := by
  cases stage with
  | waiting => exact absurd rfl busy
  | written =>
      obtain ⟨holds, noIrq⟩ := h.next_written noWrite
      exact .inl ⟨.requested, .taken, holds, noIrq, nofun⟩
  | requested =>
      obtain ⟨holds, noIrq, -⟩ := h.next_requested noWrite
      exact .inl ⟨.moving, .begins, holds, noIrq, nofun⟩
  | moving =>
      obtain ⟨holds | holds, noIrq⟩ := h.next_moving noWrite memory
      · exact .inl ⟨.moving, .moves, holds, noIrq, nofun⟩
      · exact .inl ⟨.finished, .finishes, holds, noIrq, nofun⟩
  | finished =>
      obtain ⟨holds, noIrq⟩ := h.next_finished noWrite
      exact .inl ⟨.ready, .recorded, holds, noIrq, nofun⟩
  | ready =>
      obtain ⟨holds | ⟨starts, holds⟩, noIrq⟩ := h.next_ready noWrite
      · exact .inl ⟨.ready, .waits, holds, noIrq, nofun⟩
      · exact .inl ⟨.pulse, .pulses, holds, noIrq, fun _ => starts⟩
  | pulse =>
      obtain ⟨holds, noIrq⟩ := h.next_pulse noWrite regs (blank rfl nofun)
      exact .inl ⟨.copying 0, .copies, holds, noIrq, nofun⟩
  | copying k =>
      by_cases last : k + 1 = copyClocks
      · obtain ⟨holds, irq, -⟩ := h.next_copied noWrite last
        exact .inr ⟨⟨k, rfl, last⟩, holds, irq⟩
      · obtain ⟨_, copying⟩ := h.busy k rfl
        have more : k + 1 < copyClocks := lt_of_le_of_ne copying.bound last
        have stays := blank rfl fun _ same => Stage.copying.inj same ▸ more
        obtain ⟨holds, noIrq⟩ := h.next_copying noWrite more stays
        exact .inl ⟨.copying (k + 1), .goesOn k more, holds, noIrq, nofun⟩

/-- The engine accepts a start exactly when the request reaches it. -/
theorem begins_eq {stage : Stage} (h : Holds frame stage s) :
    s.begins x = decide (stage = .requested) := by
  by_cases inTransfer : stage = .moving
  · obtain ⟨_, _, _, _, moving, -⟩ := h.moving inTransfer
    rw [inTransfer]
    exact moving.begins
  · exact (h.quiet inTransfer).begins.trans h.start

/-- A transfer is under way in one stage only, and that is not a stage of the
copy. -/
theorem not_both {stage : Stage} (h : Holds frame stage s) : ¬ (s.dmaActive ∧ s.copyActive) := by
  rintro ⟨dma, copy⟩
  have inTransfer : stage = .moving := by
    by_contra elsewhere
    rw [System.dmaActive, (h.quiet elsewhere).started] at dma
    cases dma
  subst inTransfer
  rcases copy with pulse | copying
  · exact Bool.false_ne_true (h.vramSync.symm.trans pulse)
  · rw [(h.idle (by simp)).state] at copying
    cases copying

end Holds

/-! ## Runs -/

/-- A frame was handed over at `w`, and up to `t` its interrupt has not been
delivered. -/
def Outstanding (sys : ℕ → System) (inputs : ℕ → Input) (w t : ℕ) : Prop :=
  (inputs w).write.isSome = true ∧ w < t ∧ ∀ u, w < u → u ≤ t → (sys u).irq = false

/-- What the callers guarantee: while a frame is outstanding the CPU writes no
new address and changes neither the source registers nor the source memory, and
a vertical blank is longer than a copy. -/
structure CallersGuarantee (memArray : ℕ → BitVec 128) (vram : Vram.State)
    (inputs : ℕ → Input) : Prop where
  write : ∀ w t, Outstanding ((machine memArray vram).run inputs) inputs w t →
    (inputs t).write = none
  regs : ∀ w t, Outstanding ((machine memArray vram).run inputs) inputs w t →
    (inputs t).regs = (inputs w).regs
  memory : ∀ w t, Outstanding ((machine memArray vram).run inputs) inputs w t →
    (inputs t).memory = (inputs w).memory
  window : ∀ t u, (inputs t).vblankStart = true → t < u → u ≤ t + copyClocks →
    (inputs u).vblankEndSoon = false

/-- The stage of a run at time `t`, and when its frame was handed over. -/
structure Tracks (sys : ℕ → System) (inputs : ℕ → Input) (t : ℕ) (stage : Stage) (frame : Frame)
    (w : ℕ) : Prop where
  holds : Holds frame stage (sys t)
  write : stage ≠ .waiting → (inputs w).write = some frame.src
  memory : stage ≠ .waiting → (inputs w).memory = frame.memory
  regs : stage ≠ .waiting → (inputs w).regs = frame.regs
  outstanding : stage ≠ .waiting → Outstanding sys inputs w t
  written : stage = .written → t = w + 1
  requested : stage = .requested → t = w + 2
  blank : stage.syncing = true → ∃ v, (inputs v).vblankStart = true ∧ v < t ∧
    (stage = .pulse → t = v + 1) ∧ ∀ k, stage = .copying k → t = v + 2 + k

section Runs

variable {memArray : ℕ → BitVec 128} {vram : Vram.State} {inputs : ℕ → Input}

theorem holds_reset (frame : Frame) : Holds frame .waiting (machine memArray vram).reset where
  updateAvail := rfl
  rddata := nofun
  start := rfl
  srcAddr := nofun
  rdy := rfl
  vramSync := rfl
  state := nofun
  quiet _ := Quiet.initial memArray
  moving := nofun
  done := rfl
  loaded := nofun
  idle _ := VramSyncWriter.idle_reset
  busy := nofun
  dbuf := nofun
  reads _ := rfl

/-- The frame stays outstanding over a clock without an interrupt. -/
theorem Outstanding.next {sys : ℕ → System} {w t : ℕ} (outstanding : Outstanding sys inputs w t)
    (noIrq : (sys (t + 1)).irq = false) : Outstanding sys inputs w (t + 1) := by
  obtain ⟨written, before, silent⟩ := outstanding
  refine ⟨written, by omega, fun u after bound => ?_⟩
  rcases Nat.lt_succ_iff_lt_or_eq.mp (Nat.lt_succ_of_le bound) with earlier | rfl
  · exact silent u after (by omega)
  · exact noIrq

/-- A stage of the same frame, one clock later. -/
theorem Tracks.next {sys : ℕ → System} {t : ℕ} {stage stage' : Stage} {frame : Frame} {w : ℕ}
    (tracks : Tracks sys inputs t stage frame w) (busy : stage ≠ .waiting)
    (noIrq : (sys (t + 1)).irq = false) (holds : Holds frame stage' (sys (t + 1)))
    (written : stage' = .written → t + 1 = w + 1) (requested : stage' = .requested → t + 1 = w + 2)
    (blank : stage'.syncing = true → ∃ v, (inputs v).vblankStart = true ∧ v < t + 1 ∧
      (stage' = .pulse → t + 1 = v + 1) ∧ ∀ k, stage' = .copying k → t + 1 = v + 2 + k) :
    Tracks sys inputs (t + 1) stage' frame w where
  holds := holds
  write _ := tracks.write busy
  memory _ := tracks.memory busy
  regs _ := tracks.regs busy
  outstanding _ := (tracks.outstanding busy).next noIrq
  written := written
  requested := requested
  blank := blank

/-- While the PPU waits nothing is known of a frame. -/
theorem Tracks.of_waiting {sys : ℕ → System} {t : ℕ} {frame : Frame} {w : ℕ}
    (holds : Holds frame .waiting (sys t)) : Tracks sys inputs t .waiting frame w :=
  ⟨holds, by simp, by simp, by simp, by simp, by simp, by simp, by simp [Stage.syncing]⟩

/-- Nothing more is known of a stage between the request and the pulse. -/
theorem Tracks.next_plain {sys : ℕ → System} {t : ℕ} {stage stage' : Stage} {frame : Frame} {w : ℕ}
    (tracks : Tracks sys inputs t stage frame w) (busy : stage ≠ .waiting)
    (noIrq : (sys (t + 1)).irq = false) (holds : Holds frame stage' (sys (t + 1)))
    (plain : stage' = .moving ∨ stage' = .finished ∨ stage' = .ready) :
    Tracks sys inputs (t + 1) stage' frame w := by
  rcases plain with rfl | rfl | rfl <;>
    exact tracks.next busy noIrq holds (by simp) (by simp) (by simp [Stage.syncing])

/-- **One clock of a frame** in a run. -/
theorem CallersGuarantee.tracks_next (given : CallersGuarantee memArray vram inputs) {t : ℕ}
    {stage : Stage} {frame : Frame} {w : ℕ}
    (tracks : Tracks ((machine memArray vram).run inputs) inputs t stage frame w)
    (busy : stage ≠ .waiting) :
    (∃ stage', stage.Follows stage' ∧
      Tracks ((machine memArray vram).run inputs) inputs (t + 1) stage' frame w) ∨
    ((∃ k, stage = .copying k ∧ k + 1 = copyClocks) ∧
      Holds frame .waiting ((machine memArray vram).run inputs (t + 1)) ∧
      ((machine memArray vram).run inputs (t + 1)).irq = true) := by
  have outstanding := tracks.outstanding busy
  have lasts : stage.syncing = true → (∀ k, stage = .copying k → k + 1 < copyClocks) →
      (inputs t).vblankEndSoon = false := fun syncing more => by
    obtain ⟨v, blank, before, pulse, copying⟩ := tracks.blank syncing
    refine given.window v t blank before ?_
    cases stage with
    | pulse =>
        have now := pulse rfl
        rw [copyClocks]
        omega
    | copying k =>
        have now := copying k rfl
        have bound := more k rfl
        omega
    | waiting | written | requested | moving | finished | ready => cases syncing
  rcases tracks.holds.next (x := inputs t) busy (given.write w t outstanding)
    ((given.memory w t outstanding).trans (tracks.memory busy))
    ((given.regs w t outstanding).trans (tracks.regs busy)) lasts with
    ⟨stage', follows, holds, noIrq, starts⟩ | ends
  · refine .inl ⟨stage', follows, ?_⟩
    cases follows with
    | taken =>
        have now := tracks.written rfl
        exact tracks.next busy noIrq holds (by simp) (fun _ => by omega) (by simp [Stage.syncing])
    | begins | moves => exact tracks.next_plain busy noIrq holds (.inl rfl)
    | finishes => exact tracks.next_plain busy noIrq holds (.inr (.inl rfl))
    | recorded | waits => exact tracks.next_plain busy noIrq holds (.inr (.inr rfl))
    | pulses =>
        exact tracks.next busy noIrq holds (by simp) (by simp)
          fun _ => ⟨t, starts rfl, Nat.lt_succ_self t, fun _ => rfl, by simp⟩
    | copies =>
        obtain ⟨v, blank, before, here, -⟩ := tracks.blank rfl
        have now := here rfl
        exact tracks.next busy noIrq holds (by simp) (by simp)
          fun _ => ⟨v, blank, by omega, by simp, by rintro _ ⟨rfl⟩; omega⟩
    | goesOn k more =>
        obtain ⟨v, blank, before, -, here⟩ := tracks.blank rfl
        have now := here k rfl
        exact tracks.next busy noIrq holds (by simp) (by simp)
          fun _ => ⟨v, blank, by omega, by simp, by rintro _ ⟨rfl⟩; omega⟩
  · exact .inr ends

/-- A write that finds the PPU waiting hands a frame over. -/
theorem Tracks.written_of_write {t : ℕ} {frame : Frame} {src : BitVec 32}
    (holds : Holds frame .waiting ((machine memArray vram).run inputs t))
    (write : (inputs t).write = some src) :
    Tracks ((machine memArray vram).run inputs) inputs (t + 1) .written
      { src := src, memory := (inputs t).memory, regs := (inputs t).regs } t := by
  obtain ⟨following, noIrq⟩ := holds.next_write (x := inputs t) write
  refine ⟨following, fun _ => write, fun _ => rfl, fun _ => rfl,
    fun _ => ⟨by rw [write]; rfl, Nat.lt_succ_self t, fun u after bound => ?_⟩,
    fun _ => rfl, by simp, by simp [Stage.syncing]⟩
  obtain rfl : u = t + 1 := by omega
  exact noIrq

/-- **The run invariant**: at every time one frame, or none, is in one stage. -/
theorem CallersGuarantee.tracks (given : CallersGuarantee memArray vram inputs) (t : ℕ) :
    ∃ stage frame w, Tracks ((machine memArray vram).run inputs) inputs t stage frame w := by
  induction t with
  | zero =>
      refine ⟨.waiting, { src := 0, memory := fun _ => 0, regs := CtrlRegs.reset }, 0, ?_⟩
      exact .of_waiting (holds_reset _)
  | succ t ih =>
      obtain ⟨stage, frame, w, tracks⟩ := ih
      by_cases waits : stage = .waiting
      · subst waits
        cases write : (inputs t).write with
        | none =>
            obtain ⟨holds, -⟩ := tracks.holds.next_waiting (x := inputs t) write
            exact ⟨.waiting, frame, w, .of_waiting holds⟩
        | some src => exact ⟨.written, _, t, .written_of_write tracks.holds write⟩
      · rcases given.tracks_next tracks waits with ⟨stage', -, tracks'⟩ | ⟨-, holds, -⟩
        · exact ⟨stage', frame, w, tracks'⟩
        · exact ⟨.waiting, frame, w, .of_waiting holds⟩

/-- A write finds the PPU waiting. -/
theorem CallersGuarantee.tracks_written (given : CallersGuarantee memArray vram inputs) {w : ℕ}
    {src : BitVec 32} (write : (inputs w).write = some src) :
    Tracks ((machine memArray vram).run inputs) inputs (w + 1) .written
      { src := src, memory := (inputs w).memory, regs := (inputs w).regs } w := by
  obtain ⟨stage, frame, w', tracks⟩ := given.tracks w
  obtain rfl : stage = .waiting := by
    by_contra busy
    have none := given.write w' w (tracks.outstanding busy)
    rw [write] at none
    cases none
  exact .written_of_write tracks.holds write

/-- A write finds the PPU waiting, and is accepted by the engine two clocks
later. -/
theorem CallersGuarantee.begins_of_write (given : CallersGuarantee memArray vram inputs) {w : ℕ}
    {src : BitVec 32} (write : (inputs w).write = some src) :
    ((machine memArray vram).run inputs (w + 2)).begins (inputs (w + 2)) = true ∧
      ((machine memArray vram).run inputs (w + 2)).fsm.dmaEngineSrcAddr = src := by
  have written := given.tracks_written write
  obtain ⟨requested, -⟩ := written.holds.next_written (x := inputs (w + 1))
    (given.write w (w + 1) (written.outstanding (by simp)))
  exact ⟨requested.begins_eq, requested.srcAddr rfl⟩

/-- Every accepted start goes back to a write two clocks before. -/
theorem CallersGuarantee.write_of_begins (given : CallersGuarantee memArray vram inputs) {t : ℕ}
    (begins : ((machine memArray vram).run inputs t).begins (inputs t) = true) :
    ∃ w, t = w + 2 ∧
      (inputs w).write = some ((machine memArray vram).run inputs t).fsm.dmaEngineSrcAddr := by
  obtain ⟨stage, frame, w, tracks⟩ := given.tracks t
  rw [tracks.holds.begins_eq, decide_eq_true_eq] at begins
  subst begins
  refine ⟨w, tracks.requested rfl, ?_⟩
  rw [tracks.write (by simp), tracks.holds.srcAddr rfl]

/-- An interrupt ends the copy of a frame that was handed over before. -/
theorem CallersGuarantee.copied_of_irq (given : CallersGuarantee memArray vram inputs) {t : ℕ}
    (irq : ((machine memArray vram).run inputs t).irq = true) :
    ∃ (w : ℕ) (frame : Frame), w < t ∧ (inputs w).write = some frame.src ∧
      (inputs w).memory = frame.memory ∧
      (inputs w).regs = frame.regs ∧
      (∀ u, w < u → u < t →
        (inputs u).write = none ∧ ((machine memArray vram).run inputs u).irq = false) ∧
      Synced ((machine memArray vram).run inputs t).video.vram.cpu
        ((machine memArray vram).run inputs t).video.vram.ppu ∧
      frame.Loaded ((machine memArray vram).run inputs t).video.vram.cpu ∧
      ((machine memArray vram).run inputs t).dbuf = frame.regs := by
  cases t with
  | zero => cases irq
  | succ t =>
      obtain ⟨stage, frame, w, tracks⟩ := given.tracks t
      have noWrite : stage ≠ .waiting → (inputs t).write = none := fun busy =>
        given.write w t (tracks.outstanding busy)
      by_cases last : ∃ k, stage = .copying k ∧ k + 1 = copyClocks
      · obtain ⟨k, rfl, last⟩ := last
        obtain ⟨-, -, synced, loaded, regs⟩ :=
          tracks.holds.next_copied (x := inputs t) (noWrite (by simp)) last
        obtain ⟨written, before, silent⟩ := tracks.outstanding (by simp)
        refine ⟨w, frame, by omega, tracks.write (by simp), tracks.memory (by simp),
          tracks.regs (by simp), fun u after bound => ⟨?_, silent u after (by omega)⟩, synced,
          loaded, regs⟩
        exact given.write w u ⟨written, after, fun v lower upper => silent v lower (by omega)⟩
      · -- in every other stage the sync writer is not done
        have notDone : ((machine memArray vram).run inputs t).video.vsw.done = false := by
          by_cases copying : ∃ k, stage = .copying k
          · obtain ⟨k, rfl⟩ := copying
            obtain ⟨before, busy⟩ := tracks.holds.busy k rfl
            rw [busy.done]
            exact decide_eq_false fun ends => last ⟨k, rfl, ends⟩
          · exact tracks.holds.notDone fun k same => copying ⟨k, same⟩
        exact absurd ((next_irq_of_not_done (x := inputs t) notDone).symm.trans irq)
          Bool.false_ne_true

/-- **Frame handoff.** In every run in which the callers keep their guarantees:

1. a DMA transfer and a VRAM copy are never under way together;
2. every address write is followed by one accepted start with that address, two
   clocks later, and there is no other accepted start; between an interrupt and
   the write that it answers there is neither another write nor another
   interrupt, so a write has at most one interrupt;
3. when the interrupt is raised, the two copies of the VRAM agree, the
   CPU-facing one holds the image that lay at the written address, and the
   buffered control registers are the source registers of the frame. -/
theorem frame_handoff (given : CallersGuarantee memArray vram inputs) :
    (∀ t, ¬ (((machine memArray vram).run inputs t).dmaActive ∧
      ((machine memArray vram).run inputs t).copyActive)) ∧
    (∀ w src, (inputs w).write = some src →
      ((machine memArray vram).run inputs (w + 2)).begins (inputs (w + 2)) = true ∧
      ((machine memArray vram).run inputs (w + 2)).fsm.dmaEngineSrcAddr = src) ∧
    (∀ t, ((machine memArray vram).run inputs t).begins (inputs t) = true →
      ∃ w, t = w + 2 ∧ (inputs w).write =
        some ((machine memArray vram).run inputs t).fsm.dmaEngineSrcAddr) ∧
    ∀ t, ((machine memArray vram).run inputs t).irq = true →
      ∃ w src, w < t ∧ (inputs w).write = some src ∧
        (∀ u, w < u → u < t →
          (inputs u).write = none ∧ ((machine memArray vram).run inputs u).irq = false) ∧
        (∀ segment a, a ≤ segment.maxAddr →
          ((machine memArray vram).run inputs t).video.vram.ppu segment (2 * a) =
            lane 64 0 (((machine memArray vram).run inputs t).video.vram.cpu segment a) ∧
          ((machine memArray vram).run inputs t).video.vram.ppu segment (2 * a + 1) =
            lane 64 1 (((machine memArray vram).run inputs t).video.vram.cpu segment a)) ∧
        (∀ o, o < 0xD140 → 16 ∣ o →
          ((machine memArray vram).run inputs t).video.vram.cpu (byteLocate o).1
            (byteLocate o).2 = (inputs w).memory (src + BitVec.ofNat 32 o)) ∧
        ((machine memArray vram).run inputs t).dbuf = (inputs w).regs := by
  refine ⟨fun t => ?_, fun w src write => given.begins_of_write write,
    fun t begins => given.write_of_begins begins, fun t irq => ?_⟩
  · obtain ⟨stage, frame, w, tracks⟩ := given.tracks t
    exact tracks.holds.not_both
  · obtain ⟨w, frame, before, write, memory, regs, between, synced, ⟨_, image⟩, dbuf⟩ :=
      given.copied_of_irq irq
    refine ⟨w, frame.src, before, write, between,
      fun segment a within => Prod.mk.inj (synced segment a within),
      fun o within aligned => ?_, dbuf.trans regs.symm⟩
    rw [image, landed_byteLocate within aligned, memory, imageWord, sourceAddress,
      Nat.mul_div_cancel' aligned]

/-- The CPU hands over one frame at address `0x2000`, out of reset. -/
def firstFrame (t : ℕ) : Input where
  write := if t = 0 then some 0x2000 else none
  regs := { bgscroll := 0, fgscroll := 0, enable := 7, bgcolor := 0 }
  memory _ := 0
  vblankStart := t % 1000000 == 500000
  vblankEndSoon := t % 1000000 == 600000
  readWaitrequest := false
  writeWaitrequest := false
  respond := true
  ppuAddrA _ := 0
  ppuAddrB _ := 0
  undriven := 0
  undrivenP := 0

theorem callersGuarantee_firstFrame (memArray : ℕ → BitVec 128) (vram : Vram.State) :
    CallersGuarantee memArray vram firstFrame where
  write w t outstanding := by
    have later := outstanding.2.1
    exact if_neg (by omega)
  regs _ _ _ := rfl
  memory _ _ _ := rfl
  window t u blank after bound := by
    simp only [firstFrame, beq_iff_eq, beq_eq_false_iff_ne, copyClocks] at *
    omega

theorem frame_handoff_firstFrame :
    ((machine (fun _ => 0) VramSyncWriter.numbered).run firstFrame 2).begins (firstFrame 2) = true ∧
      ((machine (fun _ => 0) VramSyncWriter.numbered).run firstFrame 2).fsm.dmaEngineSrcAddr =
        0x2000 :=
  (frame_handoff (callersGuarantee_firstFrame _ _)).2.1 0 0x2000 rfl

end Runs

end FPGame.FrameHandoff
