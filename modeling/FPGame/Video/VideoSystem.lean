import FPGame.Ppu.HandedOver
import FPGame.Video.Picture

/-!
# The video half of `fpgame.sv`

`ppu.sv` with all its parts, the DMA engine and the PIO register of the CPU in
front of it, and `hdmi_video_output` behind it. The state machine of the PPU and
the buffered registers serve both sides: the frame handoff sees the vertical
blank of the video output, and the engines and the palette lookup read the
PPU-facing copy of the VRAM that the sync writer fills.

`run_handoff` and `run_display` give both sides their own runs, so everything
that holds of them holds of the whole. In the display period nothing writes what
the engines read (`next_scene`), so the screen shows the scene that the PPU holds
(`screen_shows_scene`), whatever the CPU and the buses do.
-/

set_option autoImplicit false

namespace FPGame.VideoSystem

open FPGame.Foundation FPGame.Vram FPGame.Ppu FPGame.Video

/-- A clock of the environment: the CPU's write to the PIO, the registers and the
memory it owns, the stalls of the buses, undriven nets, and the words that the
engines find on their ports while these belong to the sync writer. -/
structure Input where
  write : Option (BitVec 32)
  regs : CtrlRegs
  memory : BitVec 32 → BitVec 128
  readWaitrequest : Bool
  writeWaitrequest : Bool
  respond : Bool
  undriven : BitVec 128
  undrivenP : BitVec 64
  palramAddrB : ℕ
  tilram : TileRam
  patram : PatternRam
  sprram : ℕ → BitVec 64

/-- The scene of a PPU-facing copy of the VRAM and buffered registers. -/
def sceneOf (ppu : PpuFacing) (regs : CtrlRegs) : Scene where
  tilram := tilramOf ppu
  patram := patramOf ppu
  sprram := ppu .sprram
  palette := ppu .palram
  regs := regs

structure System where
  handoff : FrameHandoff.System
  video : Generator
  rows : RowRamSwap
  colors : ColorPipeline
  bgte : TileEngine.State
  fgte : TileEngine.State
  spre : SpriteEngine.State
  pmxr : PixelMixer.State
  swapPatramMux : Bool

namespace System

variable (s : System) (x : Input)

/-- The side of the engines and of the video output. -/
def display : Display.System where
  screen :=
    { video := s.video
      fsm := s.handoff.fsm
      dbuf := s.handoff.dbuf
      rows := s.rows
      palette := s.handoff.video.vram.ppu .palram
      colors := s.colors }
  bgte := s.bgte
  fgte := s.fgte
  spre := s.spre
  pmxr := s.pmxr
  swapPatramMux := s.swapPatramMux

/-- What `ppu_logic` drives on port a of the PPU-facing RAMs. -/
def ppuAddrA : Segment → ℕ
  | .tilram =>
      (tilramAddr false s.handoff.dbuf.bgscroll s.video.out.nextRow
        s.bgte.tilramFetcher.addrFrom).toNat
  | .patram => s.display.patramAddrA.toNat
  | .palram => ColorPipeline.palramAddr s.video.out.colorRdaddr
  | .sprram => oamMainWord s.spre.scanner.oamAddr.toNat

/-- What it drives on port b. -/
def ppuAddrB : Segment → ℕ
  | .tilram =>
      (tilramAddr true s.handoff.dbuf.fgscroll s.video.out.nextRow
        s.fgte.tilramFetcher.addrFrom).toNat
  | .patram =>
      (patramAddr s.handoff.dbuf.fgscroll s.video.out.nextRow s.fgte.ports.tilram.q).toNat
  | .palram => x.palramAddrB
  | .sprram => oamExtWord s.spre.scanner.oamAddr.toNat

def handoffInput : FrameHandoff.Input where
  write := x.write
  regs := x.regs
  memory := x.memory
  vblankStart := s.video.out.vblankStart
  vblankEndSoon := s.video.out.vblankEndSoon
  readWaitrequest := x.readWaitrequest
  writeWaitrequest := x.writeWaitrequest
  respond := x.respond
  ppuAddrA := s.ppuAddrA
  ppuAddrB := s.ppuAddrB x
  undriven := x.undriven
  undrivenP := x.undrivenP

/-- The PPU-facing copy of the VRAM. -/
def ppu : PpuFacing := s.handoff.video.vram.ppu

/-- The mixer drives `pmxr` itself. -/
def displayInput : Display.Input where
  screen :=
    { vramSyncDone := s.handoff.video.vsw.done
      dmaEngineFinish := s.handoff.bus.engine.dmaEngineFinish
      updateAvail := s.handoff.pio.updateAvail
      rddata := s.handoff.pio.rddata
      regs := x.regs
      pmxr := { wrdata := 0, wraddr := 0, wren := false }
      vsw := s.handoff.video.vsw.ifP s.handoff.video.rddata
      ppuAddrB := s.ppuAddrB x
      undriven := x.undrivenP }
  tilram := if s.handoff.fsm.syncActive then x.tilram else tilramOf s.ppu
  patram := if s.handoff.fsm.syncActive then x.patram else patramOf s.ppu
  sprram := if s.handoff.fsm.syncActive then x.sprram else s.ppu .sprram

/-- One system clock. -/
def next : System where
  handoff := s.handoff.next (s.handoffInput x)
  video := (s.display.next (s.displayInput x)).screen.video
  rows := (s.display.next (s.displayInput x)).screen.rows
  colors := (s.display.next (s.displayInput x)).screen.colors
  bgte := (s.display.next (s.displayInput x)).bgte
  fgte := (s.display.next (s.displayInput x)).fgte
  spre := (s.display.next (s.displayInput x)).spre
  pmxr := (s.display.next (s.displayInput x)).pmxr
  swapPatramMux := (s.display.next (s.displayInput x)).swapPatramMux

/-- The two sides agree on what they share. -/
theorem display_next : (s.next x).display = s.display.next (s.displayInput x) := rfl

/-- What the PPU shows. -/
def scene : Scene := sceneOf s.ppu s.handoff.dbuf

end System

/-- What reset does not touch, and the kind of clock edge that comes first. -/
structure PowerUp where
  phase : Bool
  memArray : ℕ → BitVec 128
  vram : Vram.State
  rr1 : RowRam
  rr2 : RowRam
  palram : ReadPort (BitVec 64)
  bgte : TileEngine.Memories
  fgte : TileEngine.Memories
  spre : SpriteEngine.Ports

/-- The part of it that belongs to the side of the engines. -/
def PowerUp.display (powerUp : PowerUp) : Display.PowerUp where
  phase := powerUp.phase
  rams :=
    { rr1 := powerUp.rr1
      rr2 := powerUp.rr2
      palette := powerUp.vram.ppu .palram
      palram := powerUp.palram }
  bgte := powerUp.bgte
  fgte := powerUp.fgte
  spre := powerUp.spre

def machine (powerUp : PowerUp) : Machine System Input where
  reset :=
    { handoff := (FrameHandoff.machine powerUp.memArray powerUp.vram).reset
      video := Generator.reset powerUp.phase
      rows := (Display.machine powerUp.display).reset.screen.rows
      colors := (Display.machine powerUp.display).reset.screen.colors
      bgte := TileEngine.reset powerUp.bgte
      fgte := TileEngine.reset powerUp.fgte
      spre := SpriteEngine.reset powerUp.spre
      pmxr := PixelMixer.reset
      swapPatramMux := false }
  next := System.next

/-! ## Both sides -/

section Runs

variable (powerUp : PowerUp) (inputs : ℕ → Input)

/-- What the handoff sees in a run. -/
def handoffInputs (t : ℕ) : FrameHandoff.Input :=
  ((machine powerUp).run inputs t).handoffInput (inputs t)

/-- What the engines see in a run. -/
def displayInputs (t : ℕ) : Display.Input :=
  ((machine powerUp).run inputs t).displayInput (inputs t)

theorem run_handoff (t : ℕ) :
    (FrameHandoff.machine powerUp.memArray powerUp.vram).run (handoffInputs powerUp inputs) t =
      ((machine powerUp).run inputs t).handoff :=
  Machine.run_part System.handoff System.handoffInput rfl (fun _ _ => rfl) inputs t

theorem run_display (t : ℕ) :
    (Display.machine powerUp.display).run (displayInputs powerUp inputs) t =
      ((machine powerUp).run inputs t).display :=
  Machine.run_part System.display System.displayInput rfl System.display_next inputs t

/-- The PPU follows the video output. -/
theorem timed (t : ℕ) :
    Timed ((machine powerUp).run inputs t).video ((machine powerUp).run inputs t).handoff.fsm := by
  have holds : Video.Holds ((Video.machine powerUp.phase powerUp.display.rams).run
      (fun u => ((Display.machine powerUp.display).run (displayInputs powerUp inputs) u
        ).screenInput (displayInputs powerUp inputs u)) t) := Video.holds t
  rw [show powerUp.phase = powerUp.display.phase from rfl, Display.run_screen, run_display] at holds
  exact holds.timed

variable {powerUp inputs} {t u : ℕ}

theorem tick_run (t : ℕ) :
    ((machine powerUp).run inputs t).video.tick =
      (t + powerUp.phase.toNat) % Generator.frameTicks := by
  induction t with
  | zero => cases phase : powerUp.phase <;> simp [machine, phase] <;> rfl
  | succ t ih =>
      have step := Generator.tick_next (timed powerUp inputs t).inLine
        ((machine powerUp).run inputs t).rows.hdmiRowramRddata
        ((machine powerUp).run inputs t).display.screen.hdmiColorRddata
      refine Eq.trans step ?_
      rw [ih, Nat.mod_add_mod]
      congr 1
      omega

/-! ## The display period -/

/-- Without the ports the sync writer cannot write. -/
theorem next_ppu_of_inactive {s : VramSyncWriter.System} {x : VramSyncWriter.Input}
    (inactive : x.syncActive = false) : (s.next x).vram.ppu = s.vram.ppu := by
  funext segment
  simp [VramSyncWriter.System.next, Vram.State.next, Ports.write, assignP, ppuLogicPorts, inactive]

/-- In the display period no copy is being asked for. -/
theorem vramSync_of_disp (disp : ((machine powerUp).run inputs t).handoff.fsm.state = .disp) :
    ((machine powerUp).run inputs t).handoff.fsm.vramSync = false := by
  have now := timed powerUp inputs t
  rw [Bool.eq_false_iff]
  intro sync
  have within := now.disp.mp disp
  rw [InDisplay, now.vramSync sync] at within
  omega

/-- **In the display period nothing changes what the PPU shows.** -/
theorem next_scene (disp : ((machine powerUp).run inputs t).handoff.fsm.state = .disp) :
    ((machine powerUp).run inputs (t + 1)).scene = ((machine powerUp).run inputs t).scene := by
  have inactive : ((machine powerUp).run inputs t).handoff.fsm.syncActive = false := by
    rw [Fsm.syncActive, disp]
    rfl
  have ppu : ((machine powerUp).run inputs (t + 1)).ppu = ((machine powerUp).run inputs t).ppu :=
    next_ppu_of_inactive inactive
  have regs : ((machine powerUp).run inputs (t + 1)).handoff.dbuf =
      ((machine powerUp).run inputs t).handoff.dbuf := by
    show CtrlRegs.next _ ((machine powerUp).run inputs t).handoff.fsm.vramSync _ = _
    rw [vramSync_of_disp disp, CtrlRegs.next_false]
    rfl
  rw [System.scene, System.scene, ppu, regs]

/-- The clocks of a display period. -/
theorem disp_of_period (disp : ((machine powerUp).run inputs t).handoff.fsm.state = .disp)
    (upTo : u ≤ t) (period : t + blankTicks < u + ((machine powerUp).run inputs t).video.tick) :
    ((machine powerUp).run inputs u).handoff.fsm.state = .disp := by
  have here := (timed powerUp inputs t).disp.mp disp
  have bit := powerUp.phase.toNat_le
  rw [(timed powerUp inputs u).disp]
  simp only [InDisplay, tick_run, blankTicks, Generator.frameTicks] at here period ⊢
  omega

/-- One scene is shown in a display period. -/
theorem scene_of_period (disp : ((machine powerUp).run inputs t).handoff.fsm.state = .disp)
    (upTo : u ≤ t) (period : t + blankTicks < u + ((machine powerUp).run inputs t).video.tick) :
    ((machine powerUp).run inputs u).scene = ((machine powerUp).run inputs t).scene := by
  suffices kept : ∀ v, u ≤ v → v ≤ t →
      ((machine powerUp).run inputs v).scene = ((machine powerUp).run inputs u).scene from
    (kept t upTo le_rfl).symm
  intro v since within
  induction v, since using Nat.le_induction with
  | base => rfl
  | succ v since ih =>
      exact (next_scene (disp_of_period disp (by omega) (by omega))).trans (ih (by omega))

/-- A visible position lies in the display period. -/
theorem disp_of_visible (visible : ((machine powerUp).run inputs t).video.out.vgaDe = true) :
    ((machine powerUp).run inputs t).handoff.fsm.state = .disp := by
  have bit := ((machine powerUp).run inputs t).video.half.toNat_le
  rw [VideoOutput.vgaDe_iff] at visible
  rw [(timed powerUp inputs t).disp, InDisplay, Generator.tick]
  omega

/-- A visible position has the colour of the scene there. -/
theorem color_of_visible (visible : ((machine powerUp).run inputs t).video.out.vgaDe = true) :
    ((machine powerUp).run inputs t).video.out.vgaRgb =
      ((machine powerUp).run inputs t).scene.color
        ((((machine powerUp).run inputs t).video.out.vCount - 35) / 2)
        ((((machine powerUp).run inputs t).video.out.hCount - 144) / 2) := by
  have disp := disp_of_visible visible
  have display := run_display powerUp inputs
  have shows := @Display.picture_of_steady powerUp.display (displayInputs powerUp inputs)
    ((machine powerUp).run inputs t).scene t
  simp only [display] at shows
  refine shows visible rfl (fun u upTo period => ?_) fun u upTo period => ?_
  · exact congrArg Scene.regs (scene_of_period disp upTo period)
  · have same := scene_of_period disp upTo period
    have inactive : ((machine powerUp).run inputs u).handoff.fsm.syncActive = false := by
      rw [Fsm.syncActive, disp_of_period disp upTo period]
      rfl
    simp only [displayInputs, System.displayInput, inactive, Bool.false_eq_true, if_false]
    exact ⟨congrArg Scene.tilram same, congrArg Scene.patram same, congrArg Scene.sprram same⟩

/-- **The screen shows the scene.** In every run, whatever the CPU writes, however
the buses stall and whatever the RAMs held at the start: at every visible position
the output is the colour that the scene which the PPU holds has there, and this is
the scene that it has held since the display period began. -/
theorem screen_shows_scene (powerUp : PowerUp) (inputs : ℕ → Input) (t : ℕ) :
    let sys : ℕ → System := (machine powerUp).run inputs
    (sys t).video.out.vgaDe = true →
      (sys t).video.out.vgaRgb = (sys t).scene.color (((sys t).video.out.vCount - 35) / 2)
        (((sys t).video.out.hCount - 144) / 2) ∧
      ∀ u, u ≤ t → t + blankTicks < u + (sys t).video.tick →
        (sys u).scene = (sys t).scene := by
  intro sys visible
  exact ⟨color_of_visible visible,
    fun u upTo period => scene_of_period (disp_of_visible visible) upTo period⟩

end Runs

/-- Memories of zeros. -/
def blankMemories : TileEngine.Memories where
  buffers := { tilram := fun _ => 0, patram := fun _ => 0 }
  ports := { tilram := ⟨0, 0⟩, patram := ⟨0, 0⟩ }
  tileRamPort := ⟨0, 0⟩
  patRamPort := ⟨0, 0⟩

/-- A power-up with RAMs of zeros. -/
def blankPowerUp : PowerUp where
  phase := false
  memArray _ := 0
  vram := { cpu := fun _ _ => 0, ppu := fun _ _ => 0, readA := fun _ => ⟨0, 0⟩ }
  rr1 := { mem := fun _ => 0, port := ⟨0, 0⟩ }
  rr2 := { mem := fun _ => 0, port := ⟨0, 0⟩ }
  palram := ⟨0, 0⟩
  bgte := blankMemories
  fgte := blankMemories
  spre := ⟨⟨0, 0⟩, ⟨0, 0⟩, ⟨0, 0⟩⟩

/-- The CPU hands over one frame out of reset, with all layers on; nothing stalls. The
bytes of the image count from 0 to 15 again and again. -/
def oneFrame (t : ℕ) : Input where
  write := if t = 0 then some 0x2000 else none
  regs := { bgscroll := 0, fgscroll := 0, enable := 7, bgcolor := 0x123456 }
  memory _ := 0x0F0E0D0C0B0A09080706050403020100
  readWaitrequest := false
  writeWaitrequest := false
  respond := true
  undriven := 0
  undrivenP := 0
  palramAddrB := 0
  tilram _ := 0
  patram _ := 0
  sprram _ := 0

end FPGame.VideoSystem
