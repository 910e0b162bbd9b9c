import FPGame.Ppu.Control

/-!
# `hdmi_video_output`

The generator counts 800 video clocks a line and 525 lines a frame. Within a
line it is in `SWAP` for one clock, in `DISPLAY` from clock 140 to clock 783 and
in `IDLE` otherwise, and in `DISPLAY` it presents every column of the row RAM
for two clocks (`InLine`).

The video clock has half the frequency of the system clock and is aligned with
it, so every other system clock edge is a video clock edge. `tick` counts system
clocks within a frame. The state machine of the PPU follows the vertical blank
signals, so it is in `PPU_DISP` in a fixed range of ticks (`Timed`).
-/

set_option autoImplicit false

namespace FPGame.Video

open FPGame.Ppu

/-- `enum { IDLE, SWAP, DISPLAY }` -/
inductive DisplayState where
  | idle
  | swap
  | display
deriving DecidableEq, Repr

/-- The registers of the generator. -/
structure VideoOutput where
  hCount : ℕ
  vCount : ℕ
  cState : DisplayState
  addrToggle : Bool
  rowramRdaddr : BitVec 9
  colorRdaddr : BitVec 10
  vgaRgb : BitVec 24
deriving DecidableEq, Repr

namespace VideoOutput

def hVisible : ℕ := 640
def hSync : ℕ := 96
def hBackporch : ℕ := 48
def hTotal : ℕ := 800

def vVisible : ℕ := 480
def vFrontporch : ℕ := 10
def vSync : ℕ := 2
def vBackporch : ℕ := 33
def vTotal : ℕ := 525

def reset : VideoOutput where
  hCount := 0
  vCount := 0
  cState := .idle
  addrToggle := false
  rowramRdaddr := 0
  colorRdaddr := 0
  vgaRgb := 0

variable (s : VideoOutput)

def hDe : Bool :=
  decide (hSync + hBackporch ≤ s.hCount) && decide (s.hCount < hSync + hBackporch + hVisible)

def vDe : Bool :=
  decide (vSync + vBackporch ≤ s.vCount) && decide (s.vCount < vSync + vBackporch + vVisible)

def vgaDe : Bool := s.hDe && s.vDe

def vblankStart : Bool := s.vCount == vTotal - vFrontporch && s.hCount == 0

def vblankEndSoon : Bool := s.vCount == vSync + vBackporch - 2 && s.hCount == 0

/-- The row to be prepared, two lines ahead, each row being shown on two lines. -/
def nextRow : BitVec 8 :=
  BitVec.ofNat 8 (if 33 ≤ s.vCount ∧ s.vCount ≤ 512 then (s.vCount - 33) / 2 else 0)

/-- The buffers are swapped on odd lines. -/
def rowramSwap : Bool :=
  match s.cState with
  | .swap => s.vCount.testBit 0
  | _ => false

/-- The registers after a video clock edge. -/
def next (rowramRddata : BitVec 10) (colorRddata : BitVec 24) : VideoOutput where
  hCount := if s.hCount = hTotal - 1 then 0 else s.hCount + 1
  vCount :=
    if s.hCount = hTotal - 1 then if s.vCount = vTotal - 1 then 0 else s.vCount + 1
    else s.vCount
  cState :=
    match s.cState with
    | .idle => if s.hCount = hSync + hBackporch - 6 then .swap else .idle
    | .swap => .display
    | .display => if s.hCount = hSync + hBackporch + hVisible - 1 then .idle else .display
  addrToggle :=
    match s.cState with
    | .display => !s.addrToggle
    | _ => false
  rowramRdaddr :=
    match s.cState with
    | .idle => s.rowramRdaddr
    | .swap => 0
    | .display =>
        if s.addrToggle && decide (s.hCount < hSync + hBackporch + hVisible - 5) then
          s.rowramRdaddr + 1
        else s.rowramRdaddr
  colorRdaddr := rowramRddata
  vgaRgb :=
    match s.cState with
    | .display => colorRddata
    | _ => 0

/-- The visible positions. -/
theorem vgaDe_iff : s.vgaDe = true ↔
    (144 ≤ s.hCount ∧ s.hCount ≤ 783) ∧ 35 ≤ s.vCount ∧ s.vCount ≤ 514 := by
  rw [vgaDe, hDe, vDe, Bool.and_eq_true, Bool.and_eq_true, Bool.and_eq_true, decide_eq_true_eq,
    decide_eq_true_eq, decide_eq_true_eq, decide_eq_true_eq]
  simp only [hSync, hBackporch, hVisible, vSync, vBackporch, vVisible]
  omega

/-! ## A line -/

/-- The column that is presented in clock `h` of a line. -/
def column (h : ℕ) : ℕ := min ((h - 140) / 2) 319

/-- The generator is in step with its counters. -/
structure InLine : Prop where
  hCount : s.hCount < 800
  vCount : s.vCount < 525
  cState : s.cState =
    if s.hCount < 139 ∨ 783 < s.hCount then .idle else if s.hCount = 139 then .swap else .display
  addrToggle : 140 ≤ s.hCount → s.hCount ≤ 783 → s.addrToggle = decide (s.hCount % 2 = 1)
  rowramRdaddr : 140 ≤ s.hCount → s.hCount ≤ 783 → s.rowramRdaddr.toNat = column s.hCount

theorem inLine_reset : InLine reset where
  hCount := by decide
  vCount := by decide
  cState := rfl
  addrToggle := by decide
  rowramRdaddr := by decide

variable {s}

theorem InLine.swap (inLine : InLine s) (here : s.hCount = 139) : s.cState = .swap := by
  rw [inLine.cState, here]
  rfl

theorem InLine.display (inLine : InLine s) (after : 140 ≤ s.hCount) (bound : s.hCount ≤ 783) :
    s.cState = .display := by
  rw [inLine.cState, if_neg (by omega), if_neg (by omega)]

theorem InLine.idle (inLine : InLine s) (outside : s.hCount < 139 ∨ 783 < s.hCount) :
    s.cState = .idle := by
  rw [inLine.cState, if_pos outside]

/-- The swap signal is high in one clock of every odd line. -/
theorem InLine.rowramSwap_iff (inLine : InLine s) :
    s.rowramSwap = true ↔ s.hCount = 139 ∧ s.vCount % 2 = 1 := by
  by_cases here : s.hCount = 139
  · simp only [rowramSwap, inLine.swap here, here, true_and, Nat.testBit_zero, decide_eq_true_eq]
  · have off : s.rowramSwap = false := by
      by_cases outside : s.hCount < 139 ∨ 783 < s.hCount
      · simp only [rowramSwap, inLine.idle outside]
      · simp only [rowramSwap, inLine.display (by omega) (by omega)]
    simp [off, here]

/-- **One clock of the generator.** -/
theorem InLine.next (inLine : InLine s) (rowramRddata : BitVec 10) (colorRddata : BitVec 24) :
    InLine (s.next rowramRddata colorRddata) := by
  have h_lt := inLine.hCount
  have v_lt := inLine.vCount
  have hNext : (s.next rowramRddata colorRddata).hCount =
      if s.hCount = 799 then 0 else s.hCount + 1 := rfl
  refine ⟨?_, ?_, ?_, fun after bound => ?_, fun after bound => ?_⟩
  · rw [hNext]
    split_ifs <;> omega
  · show (if s.hCount = 799 then if s.vCount = 524 then 0 else s.vCount + 1 else s.vCount) < 525
    split_ifs <;> omega
  · rw [hNext]
    by_cases outside : s.hCount < 139 ∨ 783 < s.hCount
    · have step : (s.next rowramRddata colorRddata).cState =
          if s.hCount = 138 then .swap else .idle := by
        simp only [VideoOutput.next, inLine.idle outside]
        rfl
      rw [step]
      split_ifs <;> first | rfl | omega
    · by_cases here : s.hCount = 139
      · simp only [VideoOutput.next, inLine.swap here, here]
        rfl
      · have step : (s.next rowramRddata colorRddata).cState =
            if s.hCount = 783 then .idle else .display := by
          simp only [VideoOutput.next, inLine.display (by omega) (by omega)]
          rfl
        rw [step]
        split_ifs <;> first | rfl | omega
  · rw [hNext] at after bound ⊢
    split_ifs at after bound ⊢ with last
    · omega
    · by_cases here : s.hCount = 139
      · simp only [VideoOutput.next, inLine.swap here, here]
        rfl
      · have display := inLine.display (by omega) (by omega)
        have toggle := inLine.addrToggle (by omega) (by omega)
        simp only [VideoOutput.next, display, toggle, ← decide_not, decide_eq_decide]
        omega
  · rw [hNext] at after bound ⊢
    split_ifs at after bound ⊢ with last
    · omega
    · by_cases here : s.hCount = 139
      · simp only [VideoOutput.next, inLine.swap here, here]
        rfl
      · have display := inLine.display (by omega) (by omega)
        have toggle := inLine.addrToggle (by omega) (by omega)
        have address := inLine.rowramRdaddr (by omega) (by omega)
        have step : (s.next rowramRddata colorRddata).rowramRdaddr =
            if s.hCount % 2 = 1 ∧ s.hCount < 779 then s.rowramRdaddr + 1
            else s.rowramRdaddr := by
          simp only [VideoOutput.next, display, toggle, Bool.and_eq_true, decide_eq_true_eq]
          rfl
        rw [step]
        simp only [column] at address ⊢
        split_ifs with moves
        · rw [BitVec.toNat_add, address]
          simp only [BitVec.ofNat_eq_ofNat, BitVec.toNat_ofNat]
          omega
        · rw [address]
          omega

end VideoOutput

/-! ## Two clocks -/

/-- The generator beside the system clock; `half` says that the next edge of the
system clock is an edge of the video clock. -/
structure Generator where
  half : Bool
  out : VideoOutput
deriving DecidableEq, Repr

namespace Generator

/-- Out of reset, with either kind of edge first. -/
def reset (phase : Bool) : Generator where
  half := phase
  out := VideoOutput.reset

variable (s : Generator)

/-- One system clock. -/
def next (rowramRddata : BitVec 10) (colorRddata : BitVec 24) : Generator :=
  if s.half then { half := false, out := s.out.next rowramRddata colorRddata }
  else { s with half := true }

/-- The system clocks since the begin of the frame. -/
def tick : ℕ := 2 * (800 * s.out.vCount + s.out.hCount) + s.half.toNat

/-- The system clocks of a frame. -/
def frameTicks : ℕ := 2 * (800 * 525)

variable {s}

theorem vCount_eq (inLine : s.out.InLine) : s.out.vCount = s.tick / 1600 := by
  have bound := inLine.hCount
  have half := s.half.toNat_le
  simp only [tick]
  omega

theorem hCount_eq (inLine : s.out.InLine) : s.out.hCount = s.tick / 2 % 800 := by
  have bound := inLine.hCount
  have half := s.half.toNat_le
  simp only [tick]
  omega

theorem half_iff : s.half = true ↔ s.tick % 2 = 1 := by
  rw [tick]
  cases s.half <;> simp [Nat.add_mod]

theorem tick_lt (inLine : s.out.InLine) : s.tick < frameTicks := by
  have bound := inLine.hCount
  have lines := inLine.vCount
  have half := s.half.toNat_le
  simp only [tick, frameTicks]
  omega

theorem inLine_next (inLine : s.out.InLine) (rowramRddata : BitVec 10)
    (colorRddata : BitVec 24) : (s.next rowramRddata colorRddata).out.InLine := by
  rw [next]
  split_ifs
  · exact inLine.next rowramRddata colorRddata
  · exact inLine

theorem tick_next (inLine : s.out.InLine) (rowramRddata : BitVec 10)
    (colorRddata : BitVec 24) :
    (s.next rowramRddata colorRddata).tick = (s.tick + 1) % frameTicks := by
  have bound := inLine.hCount
  have lines := inLine.vCount
  cases half : s.half with
  | false =>
      simp only [next, half, Bool.false_eq_true, if_false, tick, frameTicks, Bool.toNat_false,
        Bool.toNat_true]
      omega
  | true =>
      have hNext : (s.out.next rowramRddata colorRddata).hCount =
          if s.out.hCount = 799 then 0 else s.out.hCount + 1 := rfl
      have vNext : (s.out.next rowramRddata colorRddata).vCount =
          if s.out.hCount = 799 then if s.out.vCount = 524 then 0 else s.out.vCount + 1
          else s.out.vCount := rfl
      simp only [next, half, if_true, tick, frameTicks, Bool.toNat_false, Bool.toNat_true]
      split_ifs at hNext vNext <;> rw [hNext, vNext] <;> omega

theorem vblankStart_iff (inLine : s.out.InLine) :
    s.out.vblankStart = true ↔ s.tick / 2 = 800 * 515 := by
  have bound := inLine.hCount
  have half := s.half.toNat_le
  simp only [VideoOutput.vblankStart, VideoOutput.vTotal, VideoOutput.vFrontporch,
    Bool.and_eq_true, beq_iff_eq, tick]
  omega

theorem vblankEndSoon_iff (inLine : s.out.InLine) :
    s.out.vblankEndSoon = true ↔ s.tick / 2 = 800 * 33 := by
  have bound := inLine.hCount
  have half := s.half.toNat_le
  simp only [VideoOutput.vblankEndSoon, VideoOutput.vSync, VideoOutput.vBackporch,
    Bool.and_eq_true, beq_iff_eq, tick]
  omega

end Generator

/-! ## The state machine of the PPU in a frame -/

/-- The ticks of the display period. -/
def InDisplay (tick : ℕ) : Prop := 2 * (800 * 33) < tick ∧ tick ≤ 2 * (800 * 515)

/-- The PPU follows the generator. -/
structure Timed (video : Generator) (fsm : Fsm) : Prop where
  inLine : video.out.InLine
  disp : fsm.state = .disp ↔ InDisplay video.tick
  vramSync : fsm.vramSync = true → video.tick = 2 * (800 * 515) + 1

theorem timed_reset (phase : Bool) : Timed (Generator.reset phase) Fsm.reset where
  inLine := VideoOutput.inLine_reset
  disp := by
    cases phase <;>
      simp [Fsm.reset, InDisplay, Generator.tick, Generator.reset, VideoOutput.reset]
  vramSync := nofun

section Timed

variable {video : Generator} {fsm : Fsm} {x : Fsm.Input}

/-- **One clock of the frame.** -/
theorem Timed.next (timed : Timed video fsm) (start : x.vblankStart = video.out.vblankStart)
    (endSoon : x.vblankEndSoon = video.out.vblankEndSoon) (rowramRddata : BitVec 10)
    (colorRddata : BitVec 24) : Timed (video.next rowramRddata colorRddata) (fsm.next x) := by
  have inLine := timed.inLine
  have tick := Generator.tick_next inLine rowramRddata colorRddata
  have bound := Generator.tick_lt inLine
  have starts := Generator.vblankStart_iff inLine
  have ends := Generator.vblankEndSoon_iff inLine
  have disp := timed.disp
  rw [← start] at starts
  rw [← endSoon] at ends
  simp only [InDisplay, Generator.frameTicks] at disp tick bound
  refine ⟨Generator.inLine_next inLine rowramRddata colorRddata, ?_, ?_⟩
  · show fsm.nextState x = .disp ↔ _
    rw [InDisplay, tick]
    cases state : fsm.state with
    | idle =>
        rw [state] at disp
        have off := mt disp.mpr (by simp)
        simp only [Fsm.nextState, state]
        split_ifs with now
        · have := ends.mp now
          simp only [true_iff]
          omega
        · have := mt ends.mpr now
          simp only [false_iff]
          omega
    | disp =>
        have on := disp.mp state
        simp only [Fsm.nextState, state]
        by_cases now : x.vblankStart = true
        · have := starts.mp now
          have leaves : (if x.vblankStart then if fsm.dmaRdyForSync then Mode.sync else .idle
              else .disp) ≠ .disp := by
            rw [if_pos now]
            split_ifs <;> simp
          simp only [leaves, false_iff]
          omega
        · have := mt starts.mpr now
          rw [if_neg now]
          simp only [true_iff]
          omega
    | sync =>
        rw [state] at disp
        have off := mt disp.mpr (by simp)
        simp only [Fsm.nextState, state]
        split_ifs with now
        · have := ends.mp now
          simp only [true_iff]
          omega
        · have := mt ends.mpr now
          simp only [false_iff]
          omega
  · intro sync
    have pulse : (fsm.state == .disp && x.vblankStart && fsm.dmaRdyForSync) = true := sync
    simp only [Bool.and_eq_true, beq_iff_eq] at pulse
    have on := disp.mp pulse.1.1
    have := starts.mp pulse.1.2
    rw [tick]
    omega

end Timed

end FPGame.Video
