import FPGame.Foundation.Memory

/-!
# What a tile engine shows

Between two preparations a tile engine answers the pixel mixer from two row
buffers: `tilram_rbuf` with the tile entries of the row, read as 16-bit lanes,
and `patram_rbuf` with two pixel rows of each of these tiles, read as nibbles.
The scroll value decides which entry and which nibble a pixel address selects.
Both buffers register the address and the output.
-/

set_option autoImplicit false

namespace FPGame.Ppu

open FPGame.Foundation

/-! ## Scrolling calculations -/

section Scroll

variable (scroll : BitVec 32) (nextRow : BitVec 8) (pmxrPixelAddr : BitVec 9)

def scrollX : BitVec 9 := scroll.extractLsb' 0 9

def tileScrollX : BitVec 6 := (scrollX scroll).extractLsb' 3 6

def pixelScrollX : BitVec 3 := (scrollX scroll).extractLsb' 0 3

def initialTile : BitVec 2 := (tileScrollX scroll).extractLsb' 0 2

def pixelAddr : BitVec 9 := pmxrPixelAddr + (pixelScrollX scroll).zeroExtend 9

def tileAddr : BitVec 6 :=
  (initialTile scroll).zeroExtend 6 + (pixelAddr scroll pmxrPixelAddr).extractLsb' 3 6

def scrollY : BitVec 9 := scroll.extractLsb' 16 9

def pixelrow : BitVec 9 := scrollY scroll + nextRow.zeroExtend 9

def tilerow : BitVec 6 := (pixelrow scroll nextRow).extractLsb' 3 6

/-- `patram_rbuf_pmxr_rdaddr` -/
def patramRbufRdaddr : BitVec 10 :=
  tileAddr scroll pmxrPixelAddr ++ (pixelrow scroll nextRow).extractLsb' 0 1 ++
    (pixelAddr scroll pmxrPixelAddr).extractLsb' 0 3

def pmxrPixelAddrScrolled : BitVec 9 := pmxrPixelAddr + (scrollX scroll &&& 0b11111)

def pmxrTileAddr : BitVec 6 := (pmxrPixelAddrScrolled scroll pmxrPixelAddr).extractLsb' 3 6

end Scroll

/-! ## The row buffers -/

/-- The two buffers, as 64-bit words. -/
structure RowBuffers where
  tilram : ℕ → BitVec 64
  patram : ℕ → BitVec 64

/-- A buffer seen through a port that is `width` bits wide. -/
def narrow (width : ℕ) (words : ℕ → BitVec 64) (a : ℕ) : BitVec width :=
  lane width (a % (64 / width)) (words (a / (64 / width)))

/-- The registers of the ports that the mixer reads. -/
structure RowPorts where
  tilram : ReadPort (BitVec 16)
  patram : ReadPort (BitVec 4)
deriving DecidableEq, Repr

/-- What a tile engine depends on while it is idle. -/
structure TileLayer where
  enable : Bool
  scroll : BitVec 32
  nextRow : BitVec 8
  buffers : RowBuffers

namespace TileLayer

variable (layer : TileLayer)

/-- One clock of the ports in `TILENG_IDLE`. -/
def nextPorts (ports : RowPorts) (pmxrPixelAddr : BitVec 9) : RowPorts where
  tilram :=
    ports.tilram.next (narrow 16 layer.buffers.tilram)
      (pmxrTileAddr layer.scroll pmxrPixelAddr).toNat
  patram :=
    ports.patram.next (narrow 4 layer.buffers.patram)
      (patramRbufRdaddr layer.scroll layer.nextRow pmxrPixelAddr).toNat

/-- `pmxr_pixel_data`, from what the two ports put out. -/
def pixelData (tile : BitVec 16) (color : BitVec 4) : BitVec 8 :=
  if layer.enable then tile.extractLsb' 2 4 ++ color else 0

/-- The pixel of a layer for a pixel address. -/
def pixel (pmxrPixelAddr : BitVec 9) : BitVec 8 :=
  layer.pixelData
    (narrow 16 layer.buffers.tilram (pmxrTileAddr layer.scroll pmxrPixelAddr).toNat)
    (narrow 4 layer.buffers.patram
      (patramRbufRdaddr layer.scroll layer.nextRow pmxrPixelAddr).toNat)

/-- The output of the engine in a clock. -/
def pmxrPixelData (ports : RowPorts) : BitVec 8 := layer.pixelData ports.tilram.q ports.patram.q

end TileLayer

end FPGame.Ppu
