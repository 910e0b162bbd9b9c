import FPGame.Ppu.RowComposition
import FPGame.Ppu.SpriteScan
import FPGame.Ppu.TileEngine
import FPGame.Video.ScanOut

/-!
# `ppu_logic` behind `hdmi_video_output`

The three engines prepare the next row while the row before it is shown. A swap
of the row buffers starts both tile engines; when they are done, port a of
Pattern RAM is handed to the sprite engine and it starts; and when it is done
too, the mixer writes the row to the buffer that is not shown. Nothing in this
chain can hold up the video timing.

`System` is the composition with the output path of `Video.System`, whose row
buffer is written by the mixer. The RAMs of the engines may have any contents in
any clock, so nothing is assumed about the sync writer. `run_screen` and its
companions give each part its own run.
-/

set_option autoImplicit false

namespace FPGame.Display

open FPGame.Foundation FPGame.Ppu FPGame.Video

/-- What the environment chooses in a clock: the environment of the output path,
whose row buffer the mixer writes, and the contents of the RAMs. -/
structure Input where
  screen : Video.Input
  tilram : TileRam
  patram : PatternRam
  sprram : ℕ → BitVec 64

structure System where
  screen : Video.System
  bgte : TileEngine.State
  fgte : TileEngine.State
  spre : SpriteEngine.State
  pmxr : PixelMixer.State
  swapPatramMux : Bool

namespace System

variable (s : System) (x : Input)

/-- `prep` of the tile engines. -/
def rowramSwap : Bool := s.screen.rowramSwapDisp

def nextRow : BitVec 8 := s.screen.video.out.nextRow

/-- The sprite engine starts when a tile engine is done. -/
def spreStart : Bool := s.fgte.done

/-- The address on port a of Pattern RAM. -/
def patramAddrA : BitVec 12 :=
  if s.swapPatramMux then (s.spre.manager.patternAddr s.spre.row).extractLsb' 1 12
  else patramAddr s.screen.dbuf.bgscroll s.nextRow s.bgte.ports.tilram.q

def bgteInput : TileEngine.Input where
  prep := s.rowramSwap
  nextRow := s.nextRow
  scroll := s.screen.dbuf.bgscroll
  enable := s.screen.dbuf.enable.getLsbD 0
  pmxrPixelAddr := s.pmxr.pixelAddr
  tileRam := x.tilram
  patRam _ := x.patram s.patramAddrA

def fgteInput : TileEngine.Input where
  prep := s.rowramSwap
  nextRow := s.nextRow
  scroll := s.screen.dbuf.fgscroll
  enable := s.screen.dbuf.enable.getLsbD 1
  pmxrPixelAddr := s.pmxr.pixelAddr
  tileRam := x.tilram
  patRam := x.patram

def spreInput : SpriteEngine.Input where
  prep := s.spreStart
  nextRow := s.nextRow
  sprram := x.sprram
  patram _ := x.patram s.patramAddrA
  pmxrPixelAddr := s.pmxr.pixelAddr

def pmxrInput : PixelMixer.Input where
  bgteDone := s.bgte.done
  fgteDone := s.fgte.done
  spreDone := SpriteEngine.done s.spre

/-- What the mixer drives. -/
def rowWrite : RowRamSwap.Write where
  wrdata :=
    let sp := SpriteEngine.pixel s.spre (s.screen.dbuf.enable.getLsbD 2)
    pmxrRowramWrdata (TileEngine.pmxrPixelData s.bgte (s.bgteInput x))
      (TileEngine.pmxrPixelData s.fgte (s.fgteInput x)) sp.1 sp.2
  wraddr := s.pmxr.pmxrRowramWraddr
  wren := PixelMixer.pmxrRowramWren s.pmxr

def screenInput : Video.Input := { x.screen with pmxr := s.rowWrite x }

/-- One system clock. -/
def next : System where
  screen := s.screen.next (s.screenInput x)
  bgte := TileEngine.next false s.bgte (s.bgteInput x)
  fgte := TileEngine.next true s.fgte (s.fgteInput x)
  spre := SpriteEngine.next s.spre (s.spreInput x)
  pmxr := PixelMixer.next s.pmxr s.pmxrInput
  swapPatramMux :=
    if s.spreStart then true else if s.rowramSwap then false else s.swapPatramMux

end System

/-- What reset does not touch, and the kind of clock edge that comes first. -/
structure PowerUp where
  phase : Bool
  rams : Rams
  bgte : TileEngine.Memories
  fgte : TileEngine.Memories
  spre : SpriteEngine.Ports

def machine (powerUp : PowerUp) : Machine System Input where
  reset :=
    { screen := (Video.machine powerUp.phase powerUp.rams).reset
      bgte := TileEngine.reset powerUp.bgte
      fgte := TileEngine.reset powerUp.fgte
      spre := SpriteEngine.reset powerUp.spre
      pmxr := PixelMixer.reset
      swapPatramMux := false }
  next := System.next

/-! ## The parts -/

section Parts

variable (powerUp : PowerUp) (inputs : ℕ → Input)

theorem run_screen (t : ℕ) :
    (Video.machine powerUp.phase powerUp.rams).run
        (fun u => ((machine powerUp).run inputs u).screenInput (inputs u)) t =
      ((machine powerUp).run inputs t).screen :=
  Machine.run_part System.screen System.screenInput rfl (fun _ _ => rfl) inputs t

theorem run_bgte (t : ℕ) :
    (TileEngine.machine false powerUp.bgte).run
        (fun u => ((machine powerUp).run inputs u).bgteInput (inputs u)) t =
      ((machine powerUp).run inputs t).bgte :=
  Machine.run_part System.bgte System.bgteInput rfl (fun _ _ => rfl) inputs t

theorem run_fgte (t : ℕ) :
    (TileEngine.machine true powerUp.fgte).run
        (fun u => ((machine powerUp).run inputs u).fgteInput (inputs u)) t =
      ((machine powerUp).run inputs t).fgte :=
  Machine.run_part System.fgte System.fgteInput rfl (fun _ _ => rfl) inputs t

theorem run_spre (t : ℕ) :
    (SpriteEngine.machine powerUp.spre).run
        (fun u => ((machine powerUp).run inputs u).spreInput (inputs u)) t =
      ((machine powerUp).run inputs t).spre :=
  Machine.run_part System.spre System.spreInput rfl (fun _ _ => rfl) inputs t

end Parts

end FPGame.Display
