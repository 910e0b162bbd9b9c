import FPGame.Foundation.Machine
import FPGame.Ppu.Oam
import FPGame.Ppu.SpriteFile

/-!
# `sprite_engine`

The engine walks through OAM, fetches the pattern rows of the sprites that lie
on the row to be prepared, and hands them to the sprite file. `oam_scanner`
reads one entry after the other on request, `sprite_manager` takes those in
range, reads up to four pattern rows for each and offers the sprite to the file
until it is taken. Sprite RAM and Pattern RAM answer two clocks after an
address, and `debounce` delays the read strobes and the lane selects by as much.
-/

set_option autoImplicit false

namespace FPGame.Ppu

open FPGame.Foundation

/-! ## `debounce` -/

/-- Two registers in a row. -/
structure Debounce (α : Type) where
  mid : α
  out : α
deriving DecidableEq, Repr

def Debounce.next {α : Type} (s : Debounce α) (input : α) : Debounce α where
  mid := input
  out := s.mid

/-- `counter` -/
def counterNext {width : ℕ} (out : BitVec width) (inc clear : Bool) : BitVec width :=
  if clear then 0 else if inc then out + 1 else out

/-! ## `sprite_addr_gen` -/

namespace SpriteConf

variable (s : SpriteConf) (row : BitVec 8) (index : BitVec 2)

def hOffset : BitVec 3 := s.h.zeroExtend 3 + 1

def rowOffset : BitVec 5 := (row - s.y).setWidth 5

def mirrorLimit : BitVec 6 := (s.hOffset ++ 0#3 : BitVec 6) - 1

def rowIndex : BitVec 5 :=
  if s.yMirror then (s.mirrorLimit - (s.rowOffset row).zeroExtend 6).setWidth 5
  else s.rowOffset row

def tileY : BitVec 5 := s.tile.extractLsb' 5 5 + ((s.rowIndex row).extractLsb' 3 2).zeroExtend 5

def tileX : BitVec 5 := s.tile.extractLsb' 0 5 + index.zeroExtend 5

def tileRow : BitVec 3 := (s.rowIndex row).extractLsb' 0 3

/-- `addr` -/
def patternAddr : BitVec 13 := s.tileY row ++ s.tileX index ++ s.tileRow row

def hLimit : BitVec 9 := s.y.zeroExtend 9 + (s.hOffset ++ 0#3 : BitVec 6).zeroExtend 9

/-- The sprite lies on the row. -/
def inRange : Bool := decide (s.y ≤ row) && decide (row.zeroExtend 9 < s.hLimit)

/-- The part of the configuration that a sprite unit keeps. -/
def stripped : StrippedConf where
  palette := s.palette
  x := s.x
  w := s.w
  xMirror := s.xMirror
  fgPrio := s.fgPrio
  bgPrio := s.bgPrio

end SpriteConf

/-! ## `oam_scanner` -/

/-- `enum logic [1:0] { INIT, STANDBY, MEM_REQ }` -/
inductive ScanState where
  | init
  | standby
  | memReq
deriving DecidableEq, Repr

/-- The registers of the scanner. -/
structure OamScanner where
  state : ScanState
  oamAddr : BitVec 7
deriving DecidableEq, Repr

namespace OamScanner

def reset : OamScanner := { state := .init, oamAddr := 0 }

variable (s : OamScanner) (confReq oamAvail clear : Bool)

def moreConf : Bool := decide (s.oamAddr < 64)

def confExists : Bool :=
  match s.state with
  | .memReq => true
  | _ => moreConf s

def oamRead : Bool :=
  match s.state with
  | .standby => confReq && confExists s
  | _ => false

def confAck (row : BitVec 8) (oamData : SpriteConf) : Bool :=
  match s.state with
  | .memReq => oamData.inRange row && oamAvail
  | _ => false

/-- The registers after a clock edge. -/
def next : OamScanner where
  state :=
    match s.state with
    | .init => if clear then .standby else .init
    | .standby => if oamRead s confReq && !clear then .memReq else .standby
    | .memReq => if oamAvail || clear then if moreConf s then .standby else .init else .memReq
  oamAddr := counterNext s.oamAddr (oamRead s confReq) clear

end OamScanner

/-! ## `sprite_manager` -/

/-- `enum logic [2:0] { CONF_READ, PAT_READ, SEND_SPRITE, SIGNAL, DONE }` -/
inductive ManagerState where
  | confRead
  | patRead
  | sendSprite
  | signal
  | done
deriving DecidableEq, Repr

/-- The registers of the manager. -/
structure SpriteManager where
  state : ManagerState
  spriteConf : SpriteConf
  patBuf : PatBuf
  readReqCount : BitVec 3
  readAckCount : BitVec 3
  spriteCount : BitVec 5

namespace SpriteManager

/-- What the manager reads in a clock. -/
structure Input where
  clear : Bool
  conf : SpriteConf
  confAck : Bool
  confExists : Bool
  patternData : BitVec 32
  patternAvail : Bool
  spriteAck : Bool

def reset : SpriteManager where
  state := .confRead
  spriteConf := SpriteConf.ofBits 0
  patBuf _ := 0
  readReqCount := 0
  readAckCount := 0
  spriteCount := 0

variable (s : SpriteManager) (x : Input)

def confReq (confExists : Bool) : Bool :=
  match s.state with
  | .confRead => confExists && decide (s.spriteCount < 16)
  | _ => false

def patternRead : Bool :=
  match s.state with
  | .patRead => decide (s.readReqCount ≤ s.spriteConf.w.zeroExtend 3)
  | _ => false

/-- The index of the read is the counter without its top bit. -/
def patternAddr (row : BitVec 8) : BitVec 13 :=
  s.spriteConf.patternAddr row (s.readReqCount.setWidth 2)

def spriteValid : Bool := s.state == .sendSprite

def ready : Bool := s.state == .signal

def sprite : SpriteReg where
  pat := s.patBuf
  conf := s.spriteConf.stripped

def patCntClear : Bool := s.state == .confRead

/-- `next_pat_buf`; a row is stored only when it has arrived. -/
def nextPatBuf : PatBuf := fun k =>
  if s.state = .patRead ∧ x.patternAvail = true ∧ s.readAckCount.toNat = k.val then x.patternData
  else s.patBuf k

def nextState : ManagerState :=
  match s.state with
  | .confRead =>
      if x.clear then .confRead
      else if !confReq s x.confExists then .signal
      else if x.confAck then .patRead
      else .confRead
  | .patRead =>
      if x.clear then .confRead
      else if s.spriteConf.w.zeroExtend 3 < s.readAckCount then .sendSprite
      else .patRead
  | .sendSprite => if x.spriteAck || x.clear then .confRead else .sendSprite
  | .signal => if x.clear then .confRead else .done
  | .done => if x.clear then .confRead else .done

def nextSpriteConf : SpriteConf :=
  if x.clear then SpriteConf.ofBits 0
  else if s.state = .confRead ∧ confReq s x.confExists = true ∧ x.confAck = true then x.conf
  else s.spriteConf

/-- The registers after a clock edge. -/
def next : SpriteManager where
  state := nextState s x
  spriteConf := nextSpriteConf s x
  patBuf := nextPatBuf s x
  readReqCount := counterNext s.readReqCount (patternRead s) (patCntClear s || x.clear)
  readAckCount :=
    counterNext s.readAckCount (s.state == .patRead && x.patternAvail) (patCntClear s || x.clear)
  spriteCount := counterNext s.spriteCount (spriteValid s && x.spriteAck) x.clear

end SpriteManager

/-! ## The wrappers -/

/-- `oam_wrapper`, with the two ports of Sprite RAM. -/
structure OamWrapper where
  ackPipe : Debounce Bool
  mainSel : Debounce ℕ
  extSel : Debounce ℕ
  sprramA : ReadPort (BitVec 64)
  sprramB : ReadPort (BitVec 64)

namespace OamWrapper

variable (s : OamWrapper)

def oamAvail : Bool := s.ackPipe.out

def oamData : SpriteConf :=
  SpriteConf.ofBits
    ((lane 32 s.mainSel.out s.sprramA.q : BitVec 32) ++
      (lane 8 s.extSel.out s.sprramB.q : BitVec 8))

def next (sprram : ℕ → BitVec 64) (oamAddr : ℕ) (oamRead : Bool) : OamWrapper where
  ackPipe := s.ackPipe.next oamRead
  mainSel := s.mainSel.next (oamMainLane oamAddr)
  extSel := s.extSel.next (oamExtLane oamAddr)
  sprramA := s.sprramA.next sprram (oamMainWord oamAddr)
  sprramB := s.sprramB.next sprram (oamExtWord oamAddr)

end OamWrapper

/-- `pattern_wrapper`, with a port of Pattern RAM. -/
structure PatternWrapper where
  ackPipe : Debounce Bool
  selPipe : Debounce ℕ
  patram : ReadPort (BitVec 64)

namespace PatternWrapper

variable (s : PatternWrapper)

def patternAvail : Bool := s.ackPipe.out

def patternData : BitVec 32 := lane 32 s.selPipe.out s.patram.q

def next (patram : ℕ → BitVec 64) (patternAddr : ℕ) (patternRead : Bool) : PatternWrapper where
  ackPipe := s.ackPipe.next patternRead
  selPipe := s.selPipe.next (patternAddr % 2)
  patram := s.patram.next patram (patternAddr / 2)

end PatternWrapper

/-! ## The engine -/

namespace SpriteEngine

structure State where
  scanner : OamScanner
  manager : SpriteManager
  oam : OamWrapper
  pat : PatternWrapper
  chain : List SpriteUnit
  col : BitVec 9
  row : BitVec 8
  lastPrep : Bool

/-- The inputs of a clock; the RAMs may have any contents. -/
structure Input where
  prep : Bool
  nextRow : BitVec 8
  sprram : ℕ → BitVec 64
  patram : ℕ → BitVec 64
  pmxrPixelAddr : BitVec 9

variable (s : State) (x : Input)

/-- A preparation begins when `prep` rises. -/
def clear : Bool := x.prep && !s.lastPrep

def confReq : Bool := s.manager.confReq s.scanner.confExists

def oamRead : Bool := s.scanner.oamRead (confReq s)

def spriteAck : Bool :=
  SpriteFile.inAck (clear s x) s.manager.spriteValid s.manager.sprite false s.chain

def managerInput : SpriteManager.Input where
  clear := clear s x
  conf := s.oam.oamData
  confAck := s.scanner.confAck s.oam.oamAvail s.row s.oam.oamData
  confExists := s.scanner.confExists
  patternData := s.pat.patternData
  patternAvail := s.pat.patternAvail
  spriteAck := spriteAck s x

/-- `done` -/
def done : Bool := s.manager.ready

/-- `pmxr_pixel_data` and `pmxr_pixel_prio`. -/
def pixel (enable : Bool) : BitVec 9 × BitVec 2 :=
  (if enable then (pixelOut s.chain s.col).1 else 0, (pixelOut s.chain s.col).2)

/-- The registers after a clock edge. -/
def next : State where
  scanner := s.scanner.next (confReq s) s.oam.oamAvail (clear s x)
  manager := s.manager.next (managerInput s x)
  oam := s.oam.next x.sprram s.scanner.oamAddr.toNat (oamRead s)
  pat := s.pat.next x.patram (s.manager.patternAddr s.row).toNat s.manager.patternRead
  chain := SpriteFile.next (clear s x) s.manager.sprite s.manager.spriteValid false s.chain
  col := x.pmxrPixelAddr
  row := if clear s x then x.nextRow else s.row
  lastPrep := x.prep

/-- `MAX_SPRITES_PER_LINE` -/
def maxSpritesPerLine : ℕ := 16

/-- The output registers of the RAMs are not reset. -/
structure Ports where
  sprramA : ReadPort (BitVec 64)
  sprramB : ReadPort (BitVec 64)
  patram : ReadPort (BitVec 64)

/-- The registers while reset is asserted. -/
def reset (ports : Ports) : State where
  scanner := OamScanner.reset
  manager := SpriteManager.reset
  oam :=
    { ackPipe := ⟨false, false⟩, mainSel := ⟨0, 0⟩, extSel := ⟨0, 0⟩, sprramA := ports.sprramA
      sprramB := ports.sprramB }
  pat := { ackPipe := ⟨false, false⟩, selPipe := ⟨0, 0⟩, patram := ports.patram }
  chain :=
    List.replicate maxSpritesPerLine
      { out := { pat := fun _ => 0, conf := (SpriteConf.ofBits 0).stripped }, outValid := false }
  col := 0
  row := 0
  lastPrep := false

def machine (ports : Ports) : Machine State Input where
  reset := reset ports
  next := next

end SpriteEngine

end FPGame.Ppu
