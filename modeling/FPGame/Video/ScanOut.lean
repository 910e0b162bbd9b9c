import FPGame.Video.VideoOutput
import FPGame.Vram.Interconnect

/-!
# Scan-out

The way of a pixel from the row RAM to the HDMI output: `row_ram_swap` with its
two buffers, the palette lookup of `ppu_logic` and the output register of
`hdmi_video_output`. Each of the two lookups takes two video clocks, so a pixel
is shown four video clocks after its column was presented (`Piped`).

The pixel mixer writes whatever it likes to the other buffer, and the sync
writer to the Palette RAM when it owns it. `scan_out` says that the picture is
right and that the buffers are swapped once in each pulse.
-/

set_option autoImplicit false

namespace FPGame.Video

open FPGame.Foundation FPGame.Vram FPGame.Ppu

/-! ## `row_ram_swap` -/

/-- One row RAM: its contents and the port in use. -/
structure RowRam where
  mem : ℕ → BitVec 10
  port : ReadPort (BitVec 10)

/-- One clock of a row RAM; a write is seen by the read of its port. -/
def RowRam.next (s : RowRam) (address : BitVec 9) (wrdata : BitVec 10) (wren : Bool) : RowRam where
  mem := store s.mem wren address.toNat wrdata
  port := s.port.next (store s.mem wren address.toNat wrdata) address.toNat

structure RowRamSwap where
  swapped : Bool
  ignoreSwap : Bool
  rr1 : RowRam
  rr2 : RowRam

namespace RowRamSwap

/-- What the mixer drives. -/
structure Write where
  wrdata : BitVec 10
  wraddr : BitVec 9
  wren : Bool

variable (s : RowRamSwap)

def hdmiRowramRddata : BitVec 10 := if s.swapped then s.rr2.port.q else s.rr1.port.q

/-- One clock: the second clock of a swap pulse is ignored. -/
def next (rowramSwap : Bool) (hdmiRowramRdaddr : BitVec 9) (pmxr : Write) : RowRamSwap where
  swapped := if rowramSwap then if s.ignoreSwap then s.swapped else !s.swapped else s.swapped
  ignoreSwap := if rowramSwap then !s.ignoreSwap else s.ignoreSwap
  rr1 :=
    s.rr1.next (if s.swapped then pmxr.wraddr else hdmiRowramRdaddr) pmxr.wrdata
      (if s.swapped then pmxr.wren else false)
  rr2 :=
    s.rr2.next (if s.swapped then hdmiRowramRdaddr else pmxr.wraddr) pmxr.wrdata
      (if s.swapped then false else pmxr.wren)

/-- The two buffers; `swapped` is the one that is displayed. -/
def buffer (b : Bool) : RowRam := if b then s.rr2 else s.rr1

variable {s}

theorem hdmiRowramRddata_eq : s.hdmiRowramRddata = (s.buffer s.swapped).port.q := by
  rw [hdmiRowramRddata, buffer]
  cases s.swapped <;> rfl

/-- **The buffer being displayed is only read.** -/
theorem next_displayed (rowramSwap : Bool) (hdmiRowramRdaddr : BitVec 9) (pmxr : Write) :
    (s.next rowramSwap hdmiRowramRdaddr pmxr).buffer s.swapped =
      { mem := (s.buffer s.swapped).mem
        port := (s.buffer s.swapped).port.next (s.buffer s.swapped).mem
          hdmiRowramRdaddr.toNat } := by
  cases swapped : s.swapped <;> simp [buffer, next, RowRam.next, swapped]

end RowRamSwap

/-! ## The colour of a word -/

/-- The colour of a word of the row RAM: the background colour for word 0, else
the low 24 bits of that 32-bit word of the Palette RAM. -/
def colorOf (bgcolor : BitVec 24) (palette : ℕ → BitVec 64) (word : BitVec 10) : BitVec 24 :=
  if word = 0 then bgcolor
  else (lane 32 (word.toNat % 2) (palette (word.toNat / 2))).setWidth 24

/-- The registers behind `hdmi_color_rdaddr`. -/
structure ColorPipeline where
  palram : ReadPort (BitVec 64)
  p1ShowBgcolor : Bool
  showBgcolor : Bool
  p1ColorSel : Bool
  colorSel : Bool

namespace ColorPipeline

variable (s : ColorPipeline)

def hdmiColorRddata (bgcolor : BitVec 24) : BitVec 24 :=
  if s.showBgcolor then bgcolor
  else if s.colorSel then s.palram.q.extractLsb' 32 24
  else s.palram.q.extractLsb' 0 24

/-- One clock; port a of the Palette RAM is presented with `palramAddr`. -/
def next (palette : ℕ → BitVec 64) (palramAddr : ℕ) (hdmiColorRdaddr : BitVec 10) :
    ColorPipeline where
  palram := s.palram.next palette palramAddr
  p1ShowBgcolor := hdmiColorRdaddr == 0
  showBgcolor := s.p1ShowBgcolor
  p1ColorSel := hdmiColorRdaddr.getLsbD 0
  colorSel := s.p1ColorSel

/-- `hdmi_color_rdaddr[9:1]` -/
def palramAddr (hdmiColorRdaddr : BitVec 10) : ℕ := (hdmiColorRdaddr.extractLsb' 1 9).toNat

/-- The first stage has looked a word up. -/
structure Fetched (palette : ℕ → BitVec 64) (word : BitVec 10) : Prop where
  fetched : s.palram.fetched = palette (palramAddr word)
  clear : s.p1ShowBgcolor = (word == 0)
  sel : s.p1ColorSel = word.getLsbD 0

/-- The second stage has looked a word up. -/
structure Shows (palette : ℕ → BitVec 64) (word : BitVec 10) : Prop where
  q : s.palram.q = palette (palramAddr word)
  clear : s.showBgcolor = (word == 0)
  sel : s.colorSel = word.getLsbD 0

variable {s} {palette : ℕ → BitVec 64} {word : BitVec 10}

theorem fetched_next : Fetched (s.next palette (palramAddr word) word) palette word :=
  ⟨rfl, rfl, rfl⟩

theorem Fetched.shows (fetched : Fetched s palette word) (palramAddr : ℕ)
    (hdmiColorRdaddr : BitVec 10) : Shows (s.next palette palramAddr hdmiColorRdaddr) palette word :=
  ⟨fetched.fetched, fetched.clear, fetched.sel⟩

/-- The circuit selects the colour of the word. -/
theorem Shows.color (shows : Shows s palette word) (bgcolor : BitVec 24) :
    s.hdmiColorRddata bgcolor = colorOf bgcolor palette word := by
  have half : palramAddr word = word.toNat / 2 := by
    have small := word.isLt
    rw [palramAddr, BitVec.extractLsb'_toNat, Nat.shiftRight_eq_div_pow]
    omega
  rw [hdmiColorRddata, colorOf, shows.clear, shows.sel, shows.q, half]
  by_cases clear : word = 0
  · simp [clear]
  · have notClear : (word == 0) = false := beq_eq_false_iff_ne.mpr clear
    rw [notClear, if_neg Bool.false_ne_true, if_neg clear, lane]
    have bit : word.getLsbD 0 = decide (word.toNat % 2 = 1) := by
      rw [BitVec.getLsbD, Nat.testBit_zero]
    rw [bit]
    rcases Nat.mod_two_eq_zero_or_one word.toNat with even | odd
    · rw [even, if_neg (by decide)]
      ext i within
      simp
      omega
    · rw [odd, if_pos (by decide)]
      ext i within
      simp
      omega

end ColorPipeline

/-! ## The composition -/

/-- What the environment chooses in a clock: the inputs of the state machine,
the registers that the CPU owns, the write of the pixel mixer, what the sync
writer drives, the other addresses of `ppu_logic` and undriven nets. -/
structure Input where
  vramSyncDone : Bool
  dmaEngineFinish : Bool
  updateAvail : Bool
  rddata : BitVec 32
  regs : CtrlRegs
  pmxr : RowRamSwap.Write
  vsw : Segment → Ports 64
  ppuAddrB : Segment → ℕ
  undriven : BitVec 64

structure System where
  video : Generator
  fsm : Fsm
  dbuf : CtrlRegs
  rows : RowRamSwap
  palette : ℕ → BitVec 64
  colors : ColorPipeline

namespace System

variable (s : System) (x : Input)

def fsmInput : Fsm.Input where
  vblankStart := s.video.out.vblankStart
  vblankEndSoon := s.video.out.vblankEndSoon
  vramSyncDone := x.vramSyncDone
  dmaEngineFinish := x.dmaEngineFinish
  updateAvail := x.updateAvail
  rddata := x.rddata

/-- The swap signal is passed on in the display period. -/
def rowramSwapDisp : Bool := s.fsm.state == .disp && s.video.out.rowramSwap

def hdmiColorRddata : BitVec 24 := s.colors.hdmiColorRddata s.dbuf.bgcolor

/-- The ports of the Palette RAM, behind the interconnect. -/
def palramPorts : Ports 64 :=
  assignP s.fsm.syncActive x.vsw
    (ppuLogicPorts (fun _ => ColorPipeline.palramAddr s.video.out.colorRdaddr) x.ppuAddrB
      x.undriven) .palram

/-- One system clock. -/
def next : System where
  video := s.video.next s.rows.hdmiRowramRddata s.hdmiColorRddata
  fsm := s.fsm.next (s.fsmInput x)
  dbuf := s.dbuf.next s.fsm.vramSync x.regs
  rows := s.rows.next s.rowramSwapDisp s.video.out.rowramRdaddr x.pmxr
  palette := (s.palramPorts x).write s.palette
  colors :=
    s.colors.next ((s.palramPorts x).write s.palette) (s.palramPorts x).a.addr
      s.video.out.colorRdaddr

/-- The contents of the buffer that is displayed. -/
def shown : ℕ → BitVec 10 := (s.rows.buffer s.rows.swapped).mem

/-- The colour of a column of the buffer that is displayed. -/
def colorAt (c : ℕ) : BitVec 24 := colorOf s.dbuf.bgcolor s.palette (s.shown c)

end System

/-- The RAMs, whatever they and their output registers hold. -/
structure Rams where
  rr1 : RowRam
  rr2 : RowRam
  palette : ℕ → BitVec 64
  palram : ReadPort (BitVec 64)

/-- The machine, with either kind of clock edge first. -/
def machine (phase : Bool) (rams : Rams) : Machine System Input where
  reset :=
    { video := Generator.reset phase
      fsm := Fsm.reset
      dbuf := CtrlRegs.reset
      rows := { swapped := false, ignoreSwap := false, rr1 := rams.rr1, rr2 := rams.rr2 }
      palette := rams.palette
      colors :=
        { palram := rams.palram, p1ShowBgcolor := false, showBgcolor := false
          p1ColorSel := false, colorSel := false } }
  next := System.next

/-! ## The pipelines -/

open VideoOutput (column)

/-- What is in flight in clock `h` of a line. A stage looks at the column of
`h - 1` clocks and so on before; the first register of a RAM is one system clock
ahead of the second in the second half of a video clock. -/
structure Piped (s : System) (h : ℕ) : Prop where
  rowFetched : 141 ≤ h + s.video.half.toNat →
    (s.rows.buffer s.rows.swapped).port.fetched =
      s.shown (column (h + s.video.half.toNat - 1))
  rowQ : 141 ≤ h → (s.rows.buffer s.rows.swapped).port.q = s.shown (column (h - 1))
  colorRdaddr : 142 ≤ h → s.video.out.colorRdaddr = s.shown (column (h - 2))
  colorFetched : 143 ≤ h + s.video.half.toNat →
    s.colors.Fetched s.palette (s.shown (column (h + s.video.half.toNat - 3)))
  colorShows : 143 ≤ h → s.colors.Shows s.palette (s.shown (column (h - 3)))
  vgaRgb : 144 ≤ h → s.video.out.vgaRgb = s.colorAt (column (h - 4))

/-- What holds at every time. -/
structure Holds (s : System) : Prop where
  timed : Timed s.video s.fsm
  ignoreSwap : s.rows.ignoreSwap = (s.rowramSwapDisp && s.video.half)
  piped : s.fsm.state = .disp → s.video.out.hCount ≤ 783 → Piped s s.video.out.hCount

section Step

variable {s : System} {x : Input}

/-- A swap pulse, as it reaches the buffers. -/
theorem rowramSwapDisp_iff (timed : Timed s.video s.fsm) :
    s.rowramSwapDisp = true ↔ InDisplay s.video.tick ∧ s.video.out.hCount = 139 ∧
      s.video.out.vCount % 2 = 1 := by
  rw [System.rowramSwapDisp, Bool.and_eq_true, beq_iff_eq, timed.disp,
    timed.inLine.rowramSwap_iff]

/-- While the PPU owns the Palette RAM its contents do not change. -/
theorem next_palette (disp : s.fsm.state = .disp) :
    (s.next x).palette = s.palette ∧
      (s.palramPorts x).a.addr = ColorPipeline.palramAddr s.video.out.colorRdaddr := by
  have inactive : s.fsm.syncActive = false := by
    rw [Fsm.syncActive, disp]
    rfl
  constructor
  · simp [System.next, Ports.write, System.palramPorts, assignP, inactive, ppuLogicPorts]
  · simp [System.palramPorts, assignP, inactive, ppuLogicPorts]

/-- Outside of a swap pulse the buffer being displayed stays what it is. -/
theorem next_shown (noSwap : s.rowramSwapDisp = false) :
    (s.next x).rows.swapped = s.rows.swapped ∧
      (s.next x).rows.buffer (s.next x).rows.swapped =
        { mem := s.shown
          port := (s.rows.buffer s.rows.swapped).port.next s.shown
            s.video.out.rowramRdaddr.toNat } := by
  have same : (s.next x).rows.swapped = s.rows.swapped := by
    simp [System.next, RowRamSwap.next, noSwap]
  refine ⟨same, ?_⟩
  rw [same]
  exact s.rows.next_displayed _ _ _

/-- What stays the same in a clock of the display period after the swap. -/
structure Still (s s' : System) : Prop where
  shown : s'.shown = s.shown
  palette : s'.palette = s.palette
  bgcolor : s'.dbuf.bgcolor = s.dbuf.bgcolor
  rowFetched : (s'.rows.buffer s'.rows.swapped).port.fetched =
    s.shown s.video.out.rowramRdaddr.toNat
  rowQ : (s'.rows.buffer s'.rows.swapped).port.q =
    (s.rows.buffer s.rows.swapped).port.fetched
  colors : s'.colors = s.colors.next s.palette
    (ColorPipeline.palramAddr s.video.out.colorRdaddr) s.video.out.colorRdaddr

theorem Holds.still (holds : Holds s) (disp : s.fsm.state = .disp)
    (after : s.video.out.hCount ≠ 139) : Still s (s.next x) := by
  have noSwap : s.rowramSwapDisp = false := by
    rw [Bool.eq_false_iff]
    exact fun swaps => after ((rowramSwapDisp_iff holds.timed).mp swaps).2.1
  have noSync : s.fsm.vramSync = false := by
    rw [Bool.eq_false_iff]
    intro sync
    have within := holds.timed.disp.mp disp
    rw [InDisplay, holds.timed.vramSync sync] at within
    omega
  obtain ⟨palette, address⟩ := next_palette (x := x) disp
  obtain ⟨-, buffer⟩ := next_shown (x := x) noSwap
  refine ⟨?_, palette, ?_, ?_, ?_, ?_⟩
  · rw [System.shown, buffer]
  · show (s.dbuf.next s.fsm.vramSync x.regs).bgcolor = _
    rw [noSync, CtrlRegs.next_false]
  · rw [buffer, ReadPort.next_fetched]
  · rw [buffer, ReadPort.next_q]
  · show s.colors.next (s.next x).palette _ _ = _
    rw [palette, address]

/-- The middle of a video clock: the first registers move on. -/
theorem Piped.mid {s' : System} {h : ℕ} (piped : Piped s h) (still : Still s s')
    (first : s.video.half = false) (second : s'.video = { s.video with half := true })
    (inLine : s.video.out.InLine) (here : s.video.out.hCount = h) (after : 140 ≤ h)
    (bound : h ≤ 783) : Piped s' h := by
  have half : s'.video.half.toNat = 1 := by rw [second]; rfl
  have before : s.video.half.toNat = 0 := by rw [first]; rfl
  have out : s'.video.out = s.video.out := by rw [second]
  have rowFetched := piped.rowFetched
  have colorFetched := piped.colorFetched
  rw [before, Nat.add_zero] at rowFetched colorFetched
  have address := inLine.rowramRdaddr (by omega) (by omega)
  refine ⟨fun _ => ?_, fun on => ?_, fun on => ?_, fun on => ?_, fun on => ?_, fun on => ?_⟩
  · rw [still.rowFetched, still.shown, half, address, here, Nat.add_sub_cancel]
  · rw [still.rowQ, still.shown, rowFetched on]
  · rw [out, still.shown, piped.colorRdaddr on]
  · rw [half] at on ⊢
    rw [still.colors, still.palette, still.shown, piped.colorRdaddr (by omega),
      show h + 1 - 3 = h - 2 by omega]
    exact ColorPipeline.fetched_next
  · rw [still.colors, still.palette, still.shown]
    exact (colorFetched on).shows _ _
  · rw [out, System.colorAt, still.bgcolor, still.palette, still.shown, piped.vgaRgb on]
    rfl

/-- The edge of the video clock: all registers move on. -/
theorem Piped.edge {s' : System} {h : ℕ} (piped : Piped s h) (still : Still s s')
    (first : s.video.half = true)
    (second : s'.video =
      { half := false, out := s.video.out.next s.rows.hdmiRowramRddata s.hdmiColorRddata })
    (inLine : s.video.out.InLine) (here : s.video.out.hCount = h) (after : 140 ≤ h)
    (bound : h ≤ 782) : Piped s' (h + 1) := by
  have half : s'.video.half.toNat = 0 := by rw [second]; rfl
  have before : s.video.half.toNat = 1 := by rw [first]; rfl
  have display := inLine.display (by omega) (by omega)
  have color : s'.video.out.colorRdaddr = s.rows.hdmiRowramRddata := by rw [second]; rfl
  have vga : s'.video.out.vgaRgb = s.hdmiColorRddata := by
    rw [second]
    simp only [VideoOutput.next, display]
  have rowFetched := piped.rowFetched
  have colorFetched := piped.colorFetched
  rw [before] at rowFetched colorFetched
  have address := inLine.rowramRdaddr (by omega) (by omega)
  refine ⟨fun _ => ?_, fun on => ?_, fun on => ?_, fun on => ?_, fun on => ?_, fun on => ?_⟩
  · rw [still.rowFetched, still.shown, half, address, here, Nat.add_zero, Nat.add_sub_cancel]
  · rw [still.rowQ, still.shown, rowFetched on]
  · rw [color, RowRamSwap.hdmiRowramRddata_eq, piped.rowQ (by omega), still.shown,
      show h + 1 - 2 = h - 1 by omega]
  · rw [half] at on ⊢
    rw [still.colors, still.palette, still.shown, piped.colorRdaddr (by omega),
      show h + 1 + 0 - 3 = h - 2 by omega]
    exact ColorPipeline.fetched_next
  · rw [still.colors, still.palette, still.shown]
    exact (colorFetched on).shows _ _
  · rw [vga, System.hdmiColorRddata, (piped.colorShows (by omega)).color, System.colorAt,
      still.bgcolor, still.palette, still.shown, show h + 1 - 4 = h - 3 by omega]

/-- Before the first column has been fetched nothing is asked of the pipelines. -/
theorem Piped.early {h : ℕ} (early : h + s.video.half.toNat ≤ 140) : Piped s h := by
  refine ⟨fun on => ?_, fun on => ?_, fun on => ?_, fun on => ?_, fun on => ?_, fun on => ?_⟩ <;>
    omega

theorem Holds.next_piped (holds : Holds s) (disp : (s.next x).fsm.state = .disp)
    (line : (s.next x).video.out.hCount ≤ 783) : Piped (s.next x) (s.next x).video.out.hCount := by
  have inLine := holds.timed.inLine
  have timed' := holds.timed.next (x := s.fsmInput x) rfl rfl s.rows.hdmiRowramRddata
    s.hdmiColorRddata
  have within : InDisplay (s.next x).video.tick := timed'.disp.mp disp
  have tick : (s.next x).video.tick = (s.video.tick + 1) % Generator.frameTicks :=
    Generator.tick_next inLine _ _
  have bound := Generator.tick_lt inLine
  have column := Generator.hCount_eq inLine
  simp only [InDisplay, Generator.frameTicks] at within tick bound
  have displayed (after : 140 ≤ s.video.out.hCount) : s.fsm.state = .disp := by
    rw [holds.timed.disp, InDisplay]
    omega
  cases half : s.video.half with
  | false =>
      have video : (s.next x).video = { s.video with half := true } := by
        simp only [System.next, Generator.next, half, Bool.false_eq_true, if_false]
      have same : (s.next x).video.out.hCount = s.video.out.hCount := by rw [video]
      rw [same] at line ⊢
      by_cases after : 140 ≤ s.video.out.hCount
      · exact (holds.piped (displayed after) line).mid (holds.still (displayed after) (by omega))
          half video inLine rfl after line
      · exact .early (by rw [video]; simp only [Bool.toNat_true]; omega)
  | true =>
      have video : (s.next x).video =
          { half := false, out := s.video.out.next s.rows.hdmiRowramRddata s.hdmiColorRddata } := by
        simp only [System.next, Generator.next, half, if_true]
      have advances : (s.next x).video.out.hCount =
          if s.video.out.hCount = 799 then 0 else s.video.out.hCount + 1 := by
        rw [video]
        rfl
      have halfNext : (s.next x).video.half.toNat = 0 := by rw [video]; rfl
      rw [advances] at line ⊢
      split_ifs at line ⊢ with last
      · exact .early (by omega)
      · by_cases after : 140 ≤ s.video.out.hCount
        · exact (holds.piped (displayed after) (by omega)).edge
            (holds.still (displayed after) (by omega)) half video inLine rfl after (by omega)
        · exact .early (by omega)

/-- The ticks of the swap pulses. -/
def SwapTick (tick : ℕ) : Prop := InDisplay tick ∧ tick / 2 % 800 = 139 ∧ tick / 1600 % 2 = 1

theorem Holds.rowramSwapDisp_iff (holds : Holds s) :
    s.rowramSwapDisp = true ↔ SwapTick s.video.tick := by
  rw [Video.rowramSwapDisp_iff holds.timed, Generator.hCount_eq holds.timed.inLine,
    Generator.vCount_eq holds.timed.inLine, SwapTick]

theorem Holds.tick_next (holds : Holds s) :
    (s.next x).video.tick = (s.video.tick + 1) % Generator.frameTicks :=
  Generator.tick_next holds.timed.inLine _ _

/-- **The step lemma.** -/
theorem Holds.next (holds : Holds s) : Holds (s.next x) := by
  have timed' : Timed (s.next x).video (s.next x).fsm :=
    holds.timed.next rfl rfl s.rows.hdmiRowramRddata s.hdmiColorRddata
  refine ⟨timed', ?_, holds.next_piped⟩
  have tick := holds.tick_next (x := x)
  have bound := Generator.tick_lt holds.timed.inLine
  have now := holds.rowramSwapDisp_iff
  have later : (s.next x).rowramSwapDisp = true ↔ SwapTick (s.next x).video.tick := by
    rw [Video.rowramSwapDisp_iff timed', Generator.hCount_eq timed'.inLine,
      Generator.vCount_eq timed'.inLine, SwapTick]
  have half := Generator.half_iff (s := s.video)
  have half' := Generator.half_iff (s := (s.next x).video)
  have ignore : (s.next x).rows.ignoreSwap = (s.rowramSwapDisp && !s.video.half) := by
    simp only [System.next, RowRamSwap.next, holds.ignoreSwap]
    cases s.rowramSwapDisp <;> simp
  rw [ignore, Bool.eq_iff_iff, Bool.and_eq_true, Bool.and_eq_true, Bool.not_eq_true',
    ← Bool.not_eq_true, now, later, half, half', tick]
  simp only [SwapTick, InDisplay, Generator.frameTicks] at bound ⊢
  rcases Nat.lt_or_ge (s.video.tick + 1) (2 * (800 * 525)) with inside | wraps
  · rw [Nat.mod_eq_of_lt inside]
    omega
  · rw [show s.video.tick + 1 = 2 * (800 * 525) by omega]
    omega

/-- The buffers are swapped in the first clock of a pulse. -/
theorem Holds.next_swapped (holds : Holds s) :
    (s.next x).rows.swapped =
      if s.rowramSwapDisp && !s.video.half then !s.rows.swapped else s.rows.swapped := by
  simp only [System.next, RowRamSwap.next, holds.ignoreSwap]
  cases s.rowramSwapDisp <;> cases s.video.half <;> rfl

end Step

/-! ## Runs -/

/-- A swap pulse begins. -/
def PulseBegins (sys : ℕ → System) (t : ℕ) : Prop :=
  (sys t).rowramSwapDisp = true ∧ ∀ u, t = u + 1 → (sys u).rowramSwapDisp = false

/-- The buffer displayed at `t` is the one that was written from `t₀` to `t₁`,
while `row` was prepared. -/
structure Prepared (sys : ℕ → System) (row t₀ t₁ t : ℕ) : Prop where
  begins : PulseBegins sys t₀
  nextRow : (sys t₀).video.out.nextRow.toNat = row
  ends : PulseBegins sys t₁
  order : t₀ < t₁ ∧ t₁ < t
  between : ∀ u, t₀ < u → u ≤ t → PulseBegins sys u → u = t₁
  written : ∀ u, t₀ < u → u ≤ t₁ → (!(sys u).rows.swapped) = (sys t).rows.swapped
  displayed : ∀ u, t₁ < u → u ≤ t →
    (sys u).rows.swapped = (sys t).rows.swapped ∧ (sys u).shown = (sys t).shown

section Runs

variable {phase : Bool} {rams : Rams} {inputs : ℕ → Input}

theorem holds (t : ℕ) : Holds ((machine phase rams).run inputs t) :=
  Machine.invariant_always
    ⟨timed_reset phase, rfl, nofun⟩ (fun _ _ holds => holds.next) inputs t

theorem tick_run (t : ℕ) :
    ((machine phase rams).run inputs t).video.tick =
      (t + phase.toNat) % Generator.frameTicks := by
  induction t with
  | zero => cases phase <;> rfl
  | succ t ih =>
      rw [Machine.run_succ]
      refine ((holds t).tick_next).trans ?_
      rw [ih, Nat.mod_add_mod]
      congr 1
      omega

/-- Within a frame the ticks of earlier clocks are smaller. -/
theorem tick_sub {t d : ℕ} (within : d < ((machine phase rams).run inputs t).video.tick) :
    d ≤ t ∧ ((machine phase rams).run inputs (t - d)).video.tick =
      ((machine phase rams).run inputs t).video.tick - d := by
  have bit := phase.toNat_le
  rw [tick_run, Generator.frameTicks] at within
  rw [tick_run, tick_run, Generator.frameTicks]
  omega

theorem pulseBegins_iff (t : ℕ) :
    PulseBegins ((machine phase rams).run inputs) t ↔
      InDisplay ((machine phase rams).run inputs t).video.tick ∧
        ((machine phase rams).run inputs t).video.tick % 1600 = 278 ∧
        ((machine phase rams).run inputs t).video.tick / 1600 % 2 = 1 := by
  have now : ((machine phase rams).run inputs t).rowramSwapDisp = true ↔ SwapTick _ :=
    (holds t).rowramSwapDisp_iff
  cases t with
  | zero =>
      have start : ((machine phase rams).run inputs 0).video.tick = _ := tick_run 0
      have bit := phase.toNat_le
      simp only [SwapTick, InDisplay, Generator.frameTicks] at now start ⊢
      constructor
      · rintro ⟨swaps, -⟩
        have := now.mp swaps
        omega
      · intro begins
        omega
  | succ u =>
      have before : Holds ((machine phase rams).run inputs u) := holds u
      have tick : ((machine phase rams).run inputs (u + 1)).video.tick =
          (((machine phase rams).run inputs u).video.tick + 1) % Generator.frameTicks :=
        before.tick_next
      have bound := Generator.tick_lt before.timed.inLine
      have earlier := before.rowramSwapDisp_iff
      have wraps : ((machine phase rams).run inputs (u + 1)).video.tick =
            ((machine phase rams).run inputs u).video.tick + 1 ∨
          ((machine phase rams).run inputs (u + 1)).video.tick = 0 := by
        rw [tick]
        simp only [Generator.frameTicks] at bound ⊢
        omega
      clear tick bound
      simp only [SwapTick, InDisplay] at now earlier ⊢
      constructor
      · rintro ⟨swaps, off⟩
        have on := now.mp swaps
        have quiet := mt earlier.mpr (by rw [off u rfl]; simp)
        clear now earlier
        omega
      · intro begins
        refine ⟨now.mpr (by omega), fun v same => ?_⟩
        obtain rfl : u = v := by omega
        rw [Bool.eq_false_iff, ne_eq, earlier]
        clear now earlier
        omega

/-- A pulse lasts for two clocks. -/
theorem rowramSwapDisp_of_begins {t : ℕ}
    (begins : PulseBegins ((machine phase rams).run inputs) t) :
    ((machine phase rams).run inputs (t + 1)).rowramSwapDisp = true ∧
      ((machine phase rams).run inputs (t + 2)).rowramSwapDisp = false := by
  have here := (pulseBegins_iff t).mp begins
  have tick₁ : ((machine phase rams).run inputs (t + 1)).video.tick = _ := (holds t).tick_next
  have tick₂ : ((machine phase rams).run inputs (t + 2)).video.tick = _ := (holds (t + 1)).tick_next
  simp only [InDisplay, Generator.frameTicks] at here tick₁ tick₂
  rw [Nat.mod_eq_of_lt (by omega)] at tick₁
  rw [tick₁, Nat.mod_eq_of_lt (by omega)] at tick₂
  have second : ((machine phase rams).run inputs (t + 1)).rowramSwapDisp = true ↔ SwapTick _ :=
    (holds (t + 1)).rowramSwapDisp_iff
  have third : ((machine phase rams).run inputs (t + 2)).rowramSwapDisp = true ↔ SwapTick _ :=
    (holds (t + 2)).rowramSwapDisp_iff
  simp only [SwapTick, InDisplay, tick₁, tick₂] at second third
  rw [Bool.eq_false_iff, ne_eq, second, third]
  omega

theorem swaps_iff (t : ℕ) :
    (((machine phase rams).run inputs t).rowramSwapDisp &&
        !((machine phase rams).run inputs t).video.half) = true ↔
      PulseBegins ((machine phase rams).run inputs) t := by
  have now : ((machine phase rams).run inputs t).rowramSwapDisp = true ↔ SwapTick _ :=
    (holds t).rowramSwapDisp_iff
  have half := Generator.half_iff (s := ((machine phase rams).run inputs t).video)
  rw [Bool.and_eq_true, Bool.not_eq_true', ← Bool.not_eq_true, now, half, pulseBegins_iff]
  simp only [SwapTick, InDisplay]
  omega

theorem swapped_of_begins {t : ℕ} (begins : PulseBegins ((machine phase rams).run inputs) t) :
    ((machine phase rams).run inputs (t + 1)).rows.swapped =
      !((machine phase rams).run inputs t).rows.swapped :=
  ((holds t).next_swapped (x := inputs t)).trans (if_pos ((swaps_iff t).mpr begins))

theorem swapped_of_not_begins {t : ℕ}
    (quiet : ¬ PulseBegins ((machine phase rams).run inputs) t) :
    ((machine phase rams).run inputs (t + 1)).rows.swapped =
      ((machine phase rams).run inputs t).rows.swapped :=
  ((holds t).next_swapped (x := inputs t)).trans (if_neg (mt (swaps_iff t).mp quiet))

/-- The buffer being displayed is never written. -/
theorem displayed_succ (t : ℕ) :
    (((machine phase rams).run inputs (t + 1)).rows.buffer
      ((machine phase rams).run inputs t).rows.swapped).mem =
        ((machine phase rams).run inputs t).shown := by
  have step := RowRamSwap.next_displayed (s := ((machine phase rams).run inputs t).rows)
    ((machine phase rams).run inputs t).rowramSwapDisp
    ((machine phase rams).run inputs t).video.out.rowramRdaddr (inputs t).pmxr
  have contents := congrArg RowRam.mem step
  exact contents

/-- Between two pulses the same buffer is displayed, with the same contents. -/
theorem displayed_of_quiet {t u : ℕ} (later : t ≤ u)
    (quiet : ∀ v, t ≤ v → v < u → ¬ PulseBegins ((machine phase rams).run inputs) v) :
    ((machine phase rams).run inputs u).rows.swapped =
        ((machine phase rams).run inputs t).rows.swapped ∧
      ((machine phase rams).run inputs u).shown = ((machine phase rams).run inputs t).shown := by
  induction u, later using Nat.le_induction with
  | base => exact ⟨rfl, rfl⟩
  | succ u later ih =>
      obtain ⟨same, contents⟩ := ih fun v after before => quiet v after (Nat.lt_succ_of_lt before)
      have step := swapped_of_not_begins (quiet u later (Nat.lt_succ_self u))
      refine ⟨step.trans same, Eq.trans ?_ contents⟩
      rw [System.shown, step]
      exact displayed_succ u

/-- A visible line shows what was prepared two lines before. -/
theorem prepared_of_visible {t : ℕ}
    (visible : ((machine phase rams).run inputs t).video.out.vgaDe = true) :
    ∃ t₀ t₁, Prepared ((machine phase rams).run inputs)
      ((((machine phase rams).run inputs t).video.out.vCount - 35) / 2) t₀ t₁ t := by
  rw [VideoOutput.vgaDe_iff] at visible
  obtain ⟨row, row_eq⟩ :
      ∃ row, row = (((machine phase rams).run inputs t).video.out.vCount - 35) / 2 := ⟨_, rfl⟩
  rw [← row_eq]
  obtain ⟨d, now, after, late⟩ : ∃ d, ((machine phase rams).run inputs t).video.tick =
      1600 * (33 + 2 * row) + 278 + (d + 3200) ∧ 0 < d ∧ d < 3200 := by
    have bit := ((machine phase rams).run inputs t).video.half.toNat_le
    refine ⟨((machine phase rams).run inputs t).video.tick - (1600 * (35 + 2 * row) + 278), ?_⟩
    rw [Generator.tick]
    omega
  have last : row ≤ 239 := by omega
  clear row_eq visible
  have ticks : ∀ d, d < ((machine phase rams).run inputs t).video.tick → d ≤ t ∧
      ((machine phase rams).run inputs (t - d)).video.tick =
        ((machine phase rams).run inputs t).video.tick - d := fun _ => tick_sub
  rw [now] at ticks
  obtain ⟨t₀, start⟩ : ∃ t₀, t = t₀ + (d + 3200) :=
    ⟨t - (d + 3200), by have := (ticks (d + 3200) (by omega)).1; omega⟩
  have tick : ∀ k, k ≤ d + 3200 → ((machine phase rams).run inputs (t₀ + k)).video.tick =
      1600 * (33 + 2 * row) + 278 + k := by
    intro k bound
    have back := (ticks (d + 3200 - k) (by omega)).2
    rw [show t - (d + 3200 - k) = t₀ + k by omega] at back
    omega
  have begins : ∀ k, k ≤ d + 3200 →
      (PulseBegins ((machine phase rams).run inputs) (t₀ + k) ↔ k = 0 ∨ k = 3200) := by
    intro k bound
    rw [pulseBegins_iff, tick k bound, InDisplay]
    omega
  have displayed : ∀ u, t₀ + 3200 < u → u ≤ t →
      ((machine phase rams).run inputs t).rows.swapped =
          ((machine phase rams).run inputs u).rows.swapped ∧
        ((machine phase rams).run inputs t).shown = ((machine phase rams).run inputs u).shown := by
    intro u after before
    refine displayed_of_quiet before fun v later earlier pulse => ?_
    rw [show v = t₀ + (v - t₀) by omega, begins _ (by omega)] at pulse
    omega
  have swaps := swapped_of_begins ((begins 3200 (by omega)).mpr (.inr rfl))
  refine ⟨t₀, t₀ + 3200, (begins 0 (by omega)).mpr (.inl rfl), ?_,
    (begins 3200 (by omega)).mpr (.inr rfl), by omega, fun u after before pulse => ?_,
    fun u after before => ?_, fun u after before => ?_⟩
  · have inLine : ((machine phase rams).run inputs t₀).video.out.InLine := (holds t₀).timed.inLine
    have number := Generator.vCount_eq inLine
    have value := tick 0 (by omega)
    rw [Nat.add_zero] at value
    rw [value, show (1600 * (33 + 2 * row) + 278) / 1600 = 33 + 2 * row by omega] at number
    rw [VideoOutput.nextRow, BitVec.toNat_ofNat, number, if_pos (by omega)]
    omega
  · rw [show u = t₀ + (u - t₀) by omega, begins _ (by omega)] at pulse
    omega
  · rw [(displayed (t₀ + 3200 + 1) (by omega) (by omega)).1, swaps]
    have same : ((machine phase rams).run inputs (t₀ + 3200)).rows.swapped =
        ((machine phase rams).run inputs u).rows.swapped :=
      (displayed_of_quiet before fun v later earlier pulse => by
        rw [show v = t₀ + (v - t₀) by omega, begins _ (by omega)] at pulse
        omega).1
    rw [same]
  · exact ⟨(displayed u after before).1.symm, (displayed u after before).2.symm⟩

/-- **Scan-out.** In every run, whatever is written to the other buffer and,
outside of the display period, to the Palette RAM:

1. the buffer being displayed is never written;
2. each pulse that reaches the buffers lasts for two clocks and swaps them once,
   and nothing else swaps them;
3. at every visible position the output is the colour of column
   `(h_count - 144) / 2` of the buffer being displayed, which is the one that was
   written while row `(v_count - 35) / 2` was prepared. -/
theorem scan_out (phase : Bool) (rams : Rams) (inputs : ℕ → Input) :
    let sys := (machine phase rams).run inputs
    (∀ t, ((sys (t + 1)).rows.buffer (sys t).rows.swapped).mem = (sys t).shown) ∧
    (∀ t, PulseBegins sys t →
      (sys (t + 1)).rowramSwapDisp = true ∧ (sys (t + 2)).rowramSwapDisp = false ∧
      (sys (t + 1)).rows.swapped = (!(sys t).rows.swapped) ∧
      (sys (t + 2)).rows.swapped = (sys (t + 1)).rows.swapped) ∧
    (∀ t, (sys (t + 1)).rows.swapped ≠ (sys t).rows.swapped → PulseBegins sys t) ∧
    ∀ t, (sys t).video.out.vgaDe = true →
      (sys t).video.out.vgaRgb = (sys t).colorAt (((sys t).video.out.hCount - 144) / 2) ∧
      ∃ t₀ t₁, Prepared sys (((sys t).video.out.vCount - 35) / 2) t₀ t₁ t := by
  intro sys
  refine ⟨displayed_succ, fun t begins => ?_, fun t differs => ?_,
    fun t visible => ⟨?_, prepared_of_visible visible⟩⟩
  · obtain ⟨second, third⟩ := rowramSwapDisp_of_begins begins
    refine ⟨second, third, swapped_of_begins begins, swapped_of_not_begins fun again => ?_⟩
    exact absurd (begins.1.symm.trans (again.2 t rfl)) (by simp)
  · by_contra quiet
    exact differs (swapped_of_not_begins quiet)
  · have now : Holds (sys t) := holds t
    have bit := (sys t).video.half.toNat_le
    rw [VideoOutput.vgaDe_iff] at visible
    have disp : (sys t).fsm.state = .disp := by
      rw [now.timed.disp, InDisplay, Generator.tick]
      omega
    have piped := now.piped disp (by omega)
    rw [piped.vgaRgb (by omega), column]
    congr 1
    omega

end Runs

end FPGame.Video
