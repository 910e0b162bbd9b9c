import FPGame.Foundation.Machine

/-!
# `pixel_mixer`

In `PMXR_FETCH` the mixer presents the columns 0 to 319 to the three engines,
one in each clock, and writes the mixed pixel of their answers. The write
address is the column of two clocks before. The pass ends with the write to
address 319.

`priorityMix` is the purpose of the combinational part; `pmxrRowramWrdata_eq`
connects it to the circuit.
-/

set_option autoImplicit false

namespace FPGame.Ppu

/-! ## Mixing -/

/-- `final_source` -/
inductive Source where
  | bg
  | fg
  | sp
deriving DecidableEq, Repr

section Mix

variable (bg fg : BitVec 8) (sp : BitVec 9) (spPrio : BitVec 2)

def bgColor : BitVec 4 := bg.extractLsb' 0 4
def fgColor : BitVec 4 := fg.extractLsb' 0 4
def spColor : BitVec 4 := sp.extractLsb' 0 4

def finalSource : Source :=
  if spColor sp = 0 then
    if fgColor fg ≠ 0 then .fg else .bg
  else if spPrio.getLsbD 1 then .sp
  else if spPrio = 0b01 then
    if fgColor fg = 0 then .sp else .fg
  else if spPrio = 0b00 then
    if fgColor fg = 0 then
      if bgColor bg = 0 then .sp else .bg
    else .fg
  else .bg

/-- `pmxr_rowram_wrdata` -/
def pmxrRowramWrdata : BitVec 10 :=
  match finalSource bg fg sp spPrio with
  | .bg => if bgColor bg = 0 then 0 else 0b00#2 ++ bg
  | .fg => 0b01#2 ++ fg
  | .sp => 0b1#1 ++ sp

/-- The priority of the layers: the sprite before both, before BG only, or
behind both. The pixel of a layer shows if no opaque pixel has a higher one. -/
def priorityMix : BitVec 10 :=
  let shownBg : Option (BitVec 10) := if bgColor bg = 0 then none else some (0b00#2 ++ bg)
  let shownFg : Option (BitVec 10) := if fgColor fg = 0 then none else some (0b01#2 ++ fg)
  let shownSp : Option (BitVec 10) := if spColor sp = 0 then none else some (0b1#1 ++ sp)
  let order :=
    if spPrio.getLsbD 1 then shownSp.or (shownFg.or shownBg)
    else if spPrio.getLsbD 0 then shownFg.or (shownSp.or shownBg)
    else shownFg.or (shownBg.or shownSp)
  order.getD 0

/-- The circuit mixes by priority. -/
theorem pmxrRowramWrdata_eq : pmxrRowramWrdata bg fg sp spPrio = priorityMix bg fg sp spPrio := by
  have prios : spPrio = 0b00 ∨ spPrio = 0b01 ∨ spPrio = 0b10 ∨ spPrio = 0b11 := by
    revert spPrio
    decide
  rcases prios with rfl | rfl | rfl | rfl <;>
    by_cases bgClear : bgColor bg = 0#4 <;> by_cases fgClear : fgColor fg = 0#4 <;>
      by_cases spClear : spColor sp = 0#4 <;>
        simp [pmxrRowramWrdata, finalSource, priorityMix, bgClear, fgClear, spClear]

end Mix

/-! ## The registers -/

/-- `enum {PMXR_WAIT, PMXR_FETCH}` -/
inductive PmxrState where
  | wait
  | fetch
deriving DecidableEq, Repr

namespace PixelMixer

/-- The registers of the mixer, its counter included. -/
structure State where
  state : PmxrState
  bgteDoneRec : Bool
  fgteDoneRec : Bool
  spreDoneRec : Bool
  pixelAddr : BitVec 9
  pixelAddrBuffer : BitVec 9
  pmxrRowramWraddr : BitVec 9
deriving DecidableEq, Repr

/-- The `done` outputs of the engines. -/
structure Input where
  bgteDone : Bool
  fgteDone : Bool
  spreDone : Bool

def reset : State where
  state := .wait
  bgteDoneRec := false
  fgteDoneRec := false
  spreDoneRec := false
  pixelAddr := 0
  pixelAddrBuffer := 0
  pmxrRowramWraddr := 0

def maxPixelAddr : BitVec 9 := 319

@[simp] theorem maxPixelAddr_toNat : maxPixelAddr.toNat = 319 := rfl

def pmxrRowramWren (s : State) : Bool := s.state == .fetch

/-- The registers after a clock edge. -/
def next (s : State) (x : Input) : State :=
  match s.state with
  | .wait =>
      { state := if s.bgteDoneRec && s.fgteDoneRec && s.spreDoneRec then .fetch else .wait
        bgteDoneRec := s.bgteDoneRec || x.bgteDone
        fgteDoneRec := s.fgteDoneRec || x.fgteDone
        spreDoneRec := s.spreDoneRec || x.spreDone
        pixelAddr := 0
        pixelAddrBuffer := s.pixelAddr
        pmxrRowramWraddr := s.pixelAddrBuffer }
  | .fetch =>
      { state := if s.pmxrRowramWraddr = maxPixelAddr then .wait else .fetch
        bgteDoneRec := false
        fgteDoneRec := false
        spreDoneRec := false
        pixelAddr := if s.pixelAddr = maxPixelAddr then s.pixelAddr else s.pixelAddr + 1
        pixelAddrBuffer := s.pixelAddr
        pmxrRowramWraddr := s.pixelAddrBuffer }

end PixelMixer

end FPGame.Ppu
