import FPGame.Library.Program
import FPGame.Library.SpriteRoundTrip

/-!
# The write functions of the library

`ppu_write_tiles_horizontal`, `ppu_write_tiles_vertical`, `ppu_write_pattern`,
`ppu_write_palette` and `ppu_write_sprites` as programs. Addresses and counts
are 32-bit unsigned integers and wrap as the source's do; an array is a
function of its index, and a pointer that may be `NULL` is an `Option`.

Each of them is a sequence of checked writes, and each write lies in the part
of the VRAM that the arguments name. The exceptions are a tile layer that
`ppu_write_tiles_vertical` does not check, a layer that `ppu_write_palette`
does not check, and a sum that wraps in `ppu_write_sprites`.
-/

set_option autoImplicit false

namespace FPGame.Library

open FPGame.Foundation FPGame.Linux
open FPGame.PpuDriver (Call Config Shared Return ppuWrite vramSize)

/-! ## Constants -/

def layerBg : BitVec 32 := 1
def layerFg : BitVec 32 := 2
def layerSpr : BitVec 32 := 4

def tilelayerWidth : ℕ := 64
def tilelayerHeight : ℕ := 64
def tiledataBsize : ℕ := 2
def tileramFgoffset : ℕ := 0x2000
def tilepatternBsize : ℕ := 32
def vramPatternoffset : ℕ := 0x4000
def vramPaletteoffset : ℕ := 0xC000
def palette15Bsize : ℕ := 60
def palette16Bsize : ℕ := 64
def paletteramBgoffset : ℕ := 0
def paletteramFgoffset : ℕ := 0x400
def paletteramSproffset : ℕ := 0x800
def paletteramSpritemax : ℕ := 32
def paletteramTilemax : ℕ := 16

/-- What a call finds in its process: whether `ppu_fd` is open, the heap, and
the results of its `malloc`s. -/
structure Process where
  ppuFd : Bool
  heap : ℕ → BitVec 8
  writeTiles : Bool
  spriteBuf : Option ℕ
  spriteExtraBuf : Option ℕ

/-- `unsigned_min` -/
def unsignedMin (a b : BitVec 32) : BitVec 32 := if a.toNat < b.toNat then a else b

/-! ## Tiles -/

/-- `n` iterations of the loop that repeats `tiles`. -/
def repeatTiles (tiles : ℕ → BitVec 16) (len : BitVec 32) : ℕ → BitVec 32 → List (BitVec 16)
  | 0, _ => []
  | n + 1, written =>
      tiles written.toNat ::
        repeatTiles tiles len n (if written = len - 1 then 0 else written + 1)

/-- The bytes of an array of tiles. -/
def tileBytes (tiles : List (BitVec 16)) (k : ℕ) : BitVec 8 := lane 8 (k % 2) (tiles.getD (k / 2) 0)

/-- `(count > TILELAYER_WIDTH) ? TILELAYER_WIDTH : count` -/
def clamp (bound : ℕ) (count : BitVec 32) : BitVec 32 :=
  if bound < count.toNat then BitVec.ofNat 32 bound else count

/-- `(layer == LAYER_FG) ? TILERAM_FGOFFSET : 0` -/
def tileLayerOffset (layer : BitVec 32) : BitVec 32 :=
  if layer = layerFg then BitVec.ofNat 32 tileramFgoffset else 0

/-- `ppu_write_tiles_horizontal` -/
def ppuWriteTilesHorizontal (process : Process) (tiles : Option (ℕ → BitVec 16))
    (len layer xI yI count : BitVec 32) : Program :=
  .nowaymsg (!process.ppuFd) "PPU not enabled or owned by this process!" <|
  .nowaymsg (decide (tilelayerWidth ≤ xI.toNat)) "Initial write position out of bounds!" <|
  .nowaymsg (decide (tilelayerHeight ≤ yI.toNat)) "Initial write position out of bounds!" <|
  .nowaymsg (decide (layer ≠ layerBg ∧ layer ≠ layerFg)) "Incorrect layer to write tiles to!" <|
  match tiles with
  | none => .abort (.check "Tile array is NULL!")
  | some tiles =>
      if count = 0 ∨ len = 0 then .done 0
      else
        let count := clamp tilelayerWidth count
        let len := clamp tilelayerWidth len
        .nowaymsg (!process.writeTiles) "Malloc failed!" <|
        let writeTiles := tileBytes (repeatTiles tiles len count.toNat 0)
        let startAddr := tileLayerOffset layer +
          (yI * BitVec.ofNat 32 tilelayerHeight + xI) * BitVec.ofNat 32 tiledataBsize
        -- up to the end of the row
        let tilesWritten := unsignedMin (BitVec.ofNat 32 tilelayerWidth - xI) count
        .pwrite writeTiles (tilesWritten * BitVec.ofNat 32 tiledataBsize) startAddr <|
        let tilesTowrite := count - tilesWritten
        if tilesTowrite = 0 then .done 0
        else
          -- the rest from the start of the row
          let startAddr := tileLayerOffset layer +
            yI * BitVec.ofNat 32 tilelayerHeight * BitVec.ofNat 32 tiledataBsize
          .pwrite (fun k => writeTiles (tiledataBsize * tilesWritten.toNat + k))
            (tilesTowrite * BitVec.ofNat 32 tiledataBsize) startAddr <|
          if count - (tilesWritten + tilesTowrite) = 0 then .done 0 else .abort .assertion

/-- The inner loop of `ppu_write_tiles_vertical`, which counts `towrite` down;
`rest` follows it. -/
def writeColumn (writeTiles : ℕ → BitVec 8) (count : BitVec 32) (rest : BitVec 32 → Program) :
    ℕ → BitVec 32 → BitVec 32 → Program
  | 0, written, _ => rest written
  | towrite + 1, written, startAddr =>
      if written.toNat < count.toNat then
        .pwrite (fun k => writeTiles (tiledataBsize * written.toNat + k))
          (BitVec.ofNat 32 tiledataBsize) startAddr <|
        writeColumn writeTiles count rest towrite (written + 1)
          (startAddr + BitVec.ofNat 32 (tilelayerWidth * tiledataBsize))
      else rest written

/-- At most `fuel` iterations of the outer loop; to need more fails an
assertion. -/
def writeColumns (writeTiles : ℕ → BitVec 8) (count topAddr : BitVec 32) :
    ℕ → BitVec 32 → BitVec 32 → BitVec 32 → Program
  | 0, _, _, _ => .abort .assertion
  | fuel + 1, towrite, written, startAddr =>
      if written.toNat < count.toNat then
        writeColumn writeTiles count
          (fun written => writeColumns writeTiles count topAddr fuel (count - written) written topAddr)
          towrite.toNat written startAddr
      else .done 0

/-- `ppu_write_tiles_vertical` -/
def ppuWriteTilesVertical (process : Process) (tiles : Option (ℕ → BitVec 16))
    (len layer xI yI count : BitVec 32) : Program :=
  .nowaymsg (!process.ppuFd) "PPU not enabled or owned by this process!" <|
  .nowaymsg (decide (tilelayerWidth ≤ xI.toNat)) "Initial write position out of bounds!" <|
  .nowaymsg (decide (tilelayerHeight ≤ yI.toNat)) "Initial write position out of bounds!" <|
  match tiles with
  | none => .abort (.check "Tile array is NULL!")
  | some tiles =>
      if count = 0 ∨ len = 0 then .done 0
      else
        let count := clamp tilelayerHeight count
        let len := clamp tilelayerHeight len
        .nowaymsg (!process.writeTiles) "Malloc failed!" <|
        let writeTiles := tileBytes (repeatTiles tiles len count.toNat 0)
        let startAddr := tileLayerOffset layer + (yI <<< 6 + xI) * BitVec.ofNat 32 tiledataBsize
        let topAddr := tileLayerOffset layer + xI * BitVec.ofNat 32 tiledataBsize
        -- every iteration but the last writes a tile
        writeColumns writeTiles count topAddr (count.toNat + 1)
          (unsignedMin (BitVec.ofNat 32 tilelayerHeight - yI) count) 0 startAddr

/-! ## Patterns -/

/-- `ppu_pattern_addr`; `rest` gets its result. -/
def ppuPatternAddr (x y : BitVec 32) (rest : BitVec 32 → Program) : Program :=
  .nowaymsg (decide (31 < x.toNat)) "Argument out of range!" <|
  .nowaymsg (decide (31 < y.toNat)) "Argument out of range!" <|
  rest (y <<< 5 ||| x)

/-- The bytes of a `pattern_t`. -/
def patternBytes (pxrow : Fin 8 → BitVec 32) (k : ℕ) : BitVec 8 :=
  lane 8 (k % 4) (pxrow (Fin.ofNat 8 (k / 4)))

/-- The last `n` iterations of the loop over the columns of a row. -/
def writePatternRow (pattern : ℕ → Fin 8 → BitVec 32) (width xI yI row : BitVec 32)
    (rest : Program) : ℕ → BitVec 32 → Program
  | 0, _ => rest
  | n + 1, col =>
      ppuPatternAddr ((xI + col) &&& 0x1F) ((yI + row) &&& 0x1F) fun addr =>
        .pwrite (patternBytes (pattern (col + width * row).toNat))
          (BitVec.ofNat 32 tilepatternBsize)
          (BitVec.ofNat 32 vramPatternoffset + BitVec.ofNat 32 tilepatternBsize * addr)
          (writePatternRow pattern width xI yI row rest n (col + 1))

/-- The last `n` iterations of the loop over the rows. -/
def writePatternRows (pattern : ℕ → Fin 8 → BitVec 32) (width xI yI : BitVec 32) :
    ℕ → BitVec 32 → Program
  | 0, _ => .done 0
  | n + 1, row =>
      writePatternRow pattern width xI yI row (writePatternRows pattern width xI yI n (row + 1))
        width.toNat 0

/-- `ppu_write_pattern` -/
def ppuWritePattern (process : Process) (pattern : Option (ℕ → Fin 8 → BitVec 32))
    (width height patternAddr : BitVec 32) : Program :=
  .nowaymsg (!process.ppuFd) "PPU not enabled or owned by this process!" <|
  match pattern with
  | none => .abort (.check "Pattern array is NULL!")
  | some pattern =>
      .nowaymsg (decide (patternMaxaddr < patternAddr.toNat)) "Pattern address malformed!" <|
      .nowaymsg (decide (width = 0)) "Pattern width cannot be 0!" <|
      .nowaymsg (decide (height = 0)) "Pattern height cannot be 0!" <|
      writePatternRows pattern width (patternAddr &&& 0x1F) (patternAddr >>> 5 &&& 0x1F)
        height.toNat 0

/-! ## Palettes -/

/-- The bytes of a `palette_t`. -/
def paletteBytes (color : Fin 15 → BitVec 32) (k : ℕ) : BitVec 8 :=
  lane 8 (k % 4) (color (Fin.ofNat 15 (k / 4)))

/-- `layer_offset` -/
def paletteLayerOffset (layerId : BitVec 32) : ℕ :=
  if layerId = layerSpr then paletteramSproffset
  else if layerId = layerFg then paletteramFgoffset
  else paletteramBgoffset

/-- `ppu_write_palette` -/
def ppuWritePalette (process : Process) (palette : Option (Fin 15 → BitVec 32))
    (layerId paletteId : BitVec 32) : Program :=
  .nowaymsg (!process.ppuFd) "PPU not enabled or owned by this process!" <|
  match palette with
  | none => .abort (.check "Palette is NULL!")
  | some palette =>
      .nowaymsg
        (decide ((if layerId = layerSpr then paletteramSpritemax else paletteramTilemax) ≤
          paletteId.toNat))
        "Attempting to access palette out of bounds!" <|
      -- the transparent colour stays
      let wrAddr := BitVec.ofNat 32 vramPaletteoffset +
        BitVec.ofNat 32 (paletteLayerOffset layerId) +
        paletteId * BitVec.ofNat 32 palette16Bsize + 4
      .pwrite (paletteBytes palette) (BitVec.ofNat 32 palette15Bsize) wrAddr <|
      .done 0

/-! ## Sprites -/

/-- `ppu_write_sprites`; on the descriptor -1 its `pwrite` fails with EBADF. -/
def ppuWriteSpritesCalls (process : Process) (sprites : Option (ℕ → Sprite))
    (len spriteIdI : BitVec 32) : Program :=
  match sprites with
  | none => .abort (.check "Sprite Array is NULL!")
  | some sprites =>
      .nowaymsg (decide (spriteMaxcount < (spriteIdI + len).toNat))
        "Sprite write would exceed Sprite RAM bounds!" <|
      match process.spriteBuf, process.spriteExtraBuf with
      | none, _ => .abort (.check "Sprite data malloc failed!")
      | some _, none => .abort (.check "Sprite extra data malloc failed!")
      | some spriteBuf, some spriteExtraBuf =>
          match fillBuffers sprites len spriteBuf spriteExtraBuf len.toNat
            { heap := process.heap, stores := [] } with
          | .error msg => .abort (.check msg)
          | .ok buffers =>
              if process.ppuFd then
                .pwrite (fun k => buffers.heap (spriteBuf + k)) (len * 4)
                  (BitVec.ofNat 32 vramSpritesoffset + spriteIdI * 4) <|
                .pwrite (fun k => buffers.heap (spriteExtraBuf + k)) len
                  (BitVec.ofNat 32 (vramSpritesoffset + sprramExtraoffset) + spriteIdI) <|
                .done 0
              else .abort .assertion


/-! ## Regions of the VRAM -/

/-- The first byte of a tile layer. -/
def tileLayerBase (layer : BitVec 32) : ℕ := if layer = layerFg then tileramFgoffset else 0

/-- The bytes of a tile layer. -/
def tileRegion (layer : BitVec 32) (a : ℕ) : Prop :=
  tileLayerBase layer ≤ a ∧ a < tileLayerBase layer + tileramFgoffset

/-- The bytes of Pattern RAM. -/
def patternRegion (a : ℕ) : Prop := vramPatternoffset ≤ a ∧ a < vramPaletteoffset

/-- The first byte of a palette. -/
def paletteBase (layerId paletteId : BitVec 32) : ℕ :=
  vramPaletteoffset + paletteLayerOffset layerId + palette16Bsize * paletteId.toNat

/-- The fifteen opaque colours of a palette. -/
def paletteRegion (layerId paletteId : BitVec 32) (a : ℕ) : Prop :=
  paletteBase layerId paletteId + 4 ≤ a ∧ a < paletteBase layerId paletteId + palette16Bsize

/-- The entries of sprites in both tables, if there are that many. -/
def spriteRegion (len spriteIdI : BitVec 32) (a : ℕ) : Prop :=
  spriteIdI.toNat + len.toNat ≤ spriteMaxcount ∧
    (vramSpritesoffset + spriteBsize * spriteIdI.toNat ≤ a ∧
        a < vramSpritesoffset + spriteBsize * (spriteIdI.toNat + len.toNat) ∨
      vramSpritesoffset + sprramExtraoffset + spriteIdI.toNat ≤ a ∧
        a < vramSpritesoffset + sprramExtraoffset + (spriteIdI.toNat + len.toNat))

/-- A write inside the VRAM and inside a region. -/
def Within (region : ℕ → Prop) (offset count : ℕ) : Prop :=
  offset + count ≤ vramSize ∧ ∀ k, k < count → region (offset + k)

section Sequences

variable {region : ℕ → Prop} {buf : ℕ → BitVec 8} {count offset : BitVec 32} {rest : Program}

theorem Sequence.nowaymsg {fits : ℕ → ℕ → Prop} {err : Bool} {msg : String}
    (following : err = false → Sequence fits rest) : Sequence fits (.nowaymsg err msg rest) := by
  cases err with
  | true => exact .check msg
  | false => exact following rfl

theorem Sequence.range {fits : ℕ → ℕ → Prop} {c : Prop} [Decidable c] {msg : String}
    (following : ¬ c → Sequence fits rest) : Sequence fits (.nowaymsg (decide c) msg rest) :=
  .nowaymsg fun passed => following (of_decide_eq_false passed)

theorem Sequence.ite {fits : ℕ → ℕ → Prop} {c : Prop} [Decidable c] {other : Program}
    (yes : c → Sequence fits rest) (no : ¬ c → Sequence fits other) :
    Sequence fits (if c then rest else other) := by
  split_ifs with h
  · exact yes h
  · exact no h

/-- A write given by its numbers. -/
theorem Sequence.write (a n : ℕ) (offsetEq : offset.toNat = a) (countEq : count.toNat = n)
    (within : Within region a n) (following : Sequence (Within region) rest) :
    Sequence (Within region) (.pwrite buf count offset rest) := by
  subst offsetEq countEq
  refine .pwrite ?_ within following
  have bound : count.toNat < 2 ^ 31 := by
    have inside := within.1
    have small : vramSize < 2 ^ 31 := by decide
    omega
  rw [BitVec.toInt_eq_toNat_of_lt (by omega)]
  omega

end Sequences

section Tiles

variable {layer xI yI count : BitVec 32}

theorem tileLayerOffset_toNat (layer : BitVec 32) :
    (tileLayerOffset layer).toNat = tileLayerBase layer := by
  rw [tileLayerOffset, tileLayerBase]
  split_ifs <;> rfl

theorem tileLayerBase_le (layer : BitVec 32) : tileLayerBase layer ≤ 0x2000 := by
  rw [tileLayerBase]
  split_ifs <;> decide

theorem clamp_toNat (positive : count ≠ 0) :
    1 ≤ (clamp 64 count).toNat ∧ (clamp 64 count).toNat ≤ 64 := by
  have some : count.toNat ≠ 0 := fun zero => positive (BitVec.eq_of_toNat_eq zero)
  rw [clamp]
  split_ifs with above
  · decide
  · omega

theorem unsignedMin_toNat (a b : BitVec 32) : (unsignedMin a b).toNat = min a.toNat b.toNat := by
  rw [unsignedMin]
  split_ifs <;> omega

/-- A row of tiles stays in its layer. -/
theorem within_tiles (layer : BitVec 32) {first n : ℕ} (inside : first + n ≤ 64 * 64) :
    Within (tileRegion layer) (tileLayerBase layer + first * 2) (n * 2) := by
  have base := tileLayerBase_le layer
  simp only [Within, tileRegion, vramSize, tileramFgoffset]
  refine ⟨by omega, fun k within => ⟨by omega, by omega⟩⟩

/-- The number of tiles up to the end of the row or the column. -/
theorem firstTiles_toNat (start : xI.toNat < 64) :
    (unsignedMin (BitVec.ofNat 32 64 - xI) (clamp 64 count)).toNat =
      min (64 - xI.toNat) (clamp 64 count).toNat := by
  rw [unsignedMin_toNat, BitVec.toNat_sub, BitVec.toNat_ofNat]
  omega

/-- The number of tiles that are left after them. -/
theorem leftTiles_toNat (start : xI.toNat < 64) :
    (clamp 64 count - unsignedMin (BitVec.ofNat 32 64 - xI) (clamp 64 count)).toNat =
      (clamp 64 count).toNat - min (64 - xI.toNat) (clamp 64 count).toNat := by
  rw [BitVec.toNat_sub, firstTiles_toNat start]
  omega

/-- The address of a tile, as `ppu_write_tiles_horizontal` computes it. -/
theorem rowAddr_toNat (layer : BitVec 32) (x : xI.toNat < 64) (y : yI.toNat < 64) :
    (tileLayerOffset layer + (yI * BitVec.ofNat 32 64 + xI) * BitVec.ofNat 32 2).toNat =
      tileLayerBase layer + (yI.toNat * 64 + xI.toNat) * 2 := by
  have base := tileLayerBase_le layer
  rw [BitVec.toNat_add, BitVec.toNat_mul, BitVec.toNat_add, BitVec.toNat_mul,
    tileLayerOffset_toNat, BitVec.toNat_ofNat, BitVec.toNat_ofNat]
  omega

/-- The address of the first tile of a row. -/
theorem rowTop_toNat (layer : BitVec 32) (y : yI.toNat < 64) :
    (tileLayerOffset layer + yI * BitVec.ofNat 32 64 * BitVec.ofNat 32 2).toNat =
      tileLayerBase layer + yI.toNat * 64 * 2 := by
  have base := tileLayerBase_le layer
  rw [BitVec.toNat_add, BitVec.toNat_mul, BitVec.toNat_mul, tileLayerOffset_toNat,
    BitVec.toNat_ofNat, BitVec.toNat_ofNat]
  omega

/-- The address of a tile, as `ppu_write_tiles_vertical` computes it. -/
theorem columnAddr_toNat (layer : BitVec 32) (x : xI.toNat < 64) (y : yI.toNat < 64) :
    (tileLayerOffset layer + (yI <<< 6 + xI) * BitVec.ofNat 32 2).toNat =
      tileLayerBase layer + (yI.toNat * 64 + xI.toNat) * 2 := by
  have base := tileLayerBase_le layer
  rw [BitVec.toNat_add, BitVec.toNat_mul, BitVec.toNat_add, BitVec.toNat_shiftLeft,
    tileLayerOffset_toNat, BitVec.toNat_ofNat, Nat.shiftLeft_eq]
  omega

/-- The address of the first tile of a column. -/
theorem columnTop_toNat (layer : BitVec 32) (x : xI.toNat < 64) :
    (tileLayerOffset layer + xI * BitVec.ofNat 32 2).toNat =
      tileLayerBase layer + xI.toNat * 2 := by
  have base := tileLayerBase_le layer
  rw [BitVec.toNat_add, BitVec.toNat_mul, tileLayerOffset_toNat, BitVec.toNat_ofNat]
  omega

/-- **A row of tiles.** -/
theorem sequence_horizontal (process : Process) (tiles : Option (ℕ → BitVec 16))
    (len layer xI yI count : BitVec 32) :
    Sequence (Within (tileRegion layer))
      (ppuWriteTilesHorizontal process tiles len layer xI yI count) := by
  refine .nowaymsg fun _ => .range fun x => .range fun y => .range fun _ => ?_
  cases tiles with
  | none => exact .check _
  | some tiles =>
      refine .ite (fun _ => .done) fun nothing => .nowaymsg fun _ => ?_
      rw [not_or] at nothing
      obtain ⟨positive, most⟩ := clamp_toNat nothing.1
      simp only [not_le, tilelayerWidth, tilelayerHeight] at x y
      have first := @firstTiles_toNat xI count x
      have left := @leftTiles_toNat xI count x
      refine .write _ (min (64 - xI.toNat) (clamp 64 count).toNat * 2) (rowAddr_toNat layer x y) ?_
        (within_tiles layer (by omega)) ?_
      · rw [BitVec.toNat_mul, tilelayerWidth, first, BitVec.toNat_ofNat, tiledataBsize]
        omega
      refine .ite (fun _ => .done) fun _ => ?_
      refine .write _ (((clamp 64 count).toNat - min (64 - xI.toNat) (clamp 64 count).toNat) * 2)
        (rowTop_toNat layer y) ?_ (within_tiles layer (by omega)) ?_
      · rw [BitVec.toNat_mul, tilelayerWidth, left, BitVec.toNat_ofNat, tiledataBsize]
        omega
      -- the final assertion: no tiles are left
      refine .ite (fun _ => .done) fun remain => absurd ?_ remain
      apply BitVec.eq_of_toNat_eq
      rw [tilelayerWidth, BitVec.toNat_sub, BitVec.toNat_add, first, left]
      simp only [BitVec.ofNat_eq_ofNat, BitVec.toNat_ofNat]
      omega

/-- The inner loop writes a tile in each row until it has counted down. -/
theorem sequence_column {region : ℕ → Prop} {writeTiles : ℕ → BitVec 8}
    {rest : BitVec 32 → Program} {n : ℕ} {written startAddr : BitVec 32}
    (small : startAddr.toNat + 128 * n < 2 ^ 32) (most : written.toNat + n ≤ count.toNat)
    (fits : ∀ i, i < n → Within region (startAddr.toNat + 128 * i) 2)
    (following : ∀ w : BitVec 32, w.toNat = written.toNat + n → Sequence (Within region) (rest w)) :
    Sequence (Within region) (writeColumn writeTiles count rest n written startAddr) := by
  induction n generalizing written startAddr with
  | zero => exact following written rfl
  | succ n ih =>
      have room := count.isLt
      have more : (written + 1).toNat = written.toNat + 1 := by
        rw [BitVec.toNat_add]
        simp only [BitVec.ofNat_eq_ofNat, BitVec.toNat_ofNat]
        omega
      have below : (startAddr + BitVec.ofNat 32 (tilelayerWidth * tiledataBsize)).toNat =
          startAddr.toNat + 128 := by
        rw [BitVec.toNat_add, BitVec.toNat_ofNat, tilelayerWidth, tiledataBsize]
        omega
      rw [writeColumn, if_pos (by omega)]
      refine .write startAddr.toNat 2 rfl rfl (fits 0 (Nat.succ_pos n)) (ih ?_ ?_ ?_ ?_)
      · omega
      · omega
      · intro i within
        rw [below, show startAddr.toNat + 128 + 128 * i = startAddr.toNat + 128 * (i + 1) by ring]
        exact fits (i + 1) (by omega)
      · intro w last
        exact following w (by omega)

/-- The outer loop runs twice at most. -/
theorem writeColumns_ended {writeTiles : ℕ → BitVec 8} {topAddr towrite written startAddr : BitVec 32}
    {fuel : ℕ} (all : count.toNat ≤ written.toNat) :
    writeColumns writeTiles count topAddr (fuel + 1) towrite written startAddr = .done 0 := by
  rw [writeColumns, if_neg (by omega)]

/-- **A column of tiles.** -/
theorem sequence_vertical (process : Process) (tiles : Option (ℕ → BitVec 16))
    (len layer xI yI count : BitVec 32) :
    Sequence (Within (tileRegion layer))
      (ppuWriteTilesVertical process tiles len layer xI yI count) := by
  refine .nowaymsg fun _ => .range fun x => .range fun y => ?_
  cases tiles with
  | none => exact .check _
  | some tiles =>
      refine .ite (fun _ => .done) fun nothing => .nowaymsg fun _ => ?_
      rw [not_or] at nothing
      obtain ⟨positive, most⟩ := clamp_toNat nothing.1
      have base := tileLayerBase_le layer
      simp only [not_le, tilelayerWidth, tilelayerHeight] at x y
      have first := @firstTiles_toNat yI count y
      have start := columnAddr_toNat layer x y
      have top := columnTop_toNat layer x
      have rows : ∀ row, row < 64 → Within (tileRegion layer)
          (tileLayerBase layer + (row * 64 + xI.toNat) * 2) 2 := fun row below =>
        within_tiles layer (n := 1) (by omega)
      simp only [tilelayerHeight, tiledataBsize]
      generalize clamp 64 count = n at positive most first ⊢
      have zero : (0 : BitVec 32).toNat = 0 := rfl
      rw [writeColumns, if_pos (show (0 : BitVec 32).toNat < n.toNat from positive), first]
      refine sequence_column (by omega) (by omega) ?_ ?_
      · intro i within
        rw [start, show tileLayerBase layer + (yI.toNat * 64 + xI.toNat) * 2 + 128 * i =
          tileLayerBase layer + ((yI.toNat + i) * 64 + xI.toNat) * 2 by ring]
        exact rows (yI.toNat + i) (by omega)
      · intro w counted
        obtain ⟨fuel, enough⟩ := Nat.exists_eq_add_of_le' positive
        rw [enough]
        by_cases all : n.toNat ≤ w.toNat
        · rw [writeColumns_ended all]
          exact .done
        · have left : (n - w).toNat = n.toNat - w.toNat := by
            rw [BitVec.toNat_sub]
            omega
          rw [writeColumns, if_pos (by omega), left]
          refine sequence_column (by omega) (by omega) ?_ ?_
          · intro i within
            rw [top, show tileLayerBase layer + xI.toNat * 2 + 128 * i =
              tileLayerBase layer + (i * 64 + xI.toNat) * 2 by ring]
            exact rows i (by omega)
          · intro w' counted'
            obtain ⟨fuel', enough'⟩ := Nat.exists_eq_add_of_le' (show 1 ≤ fuel by omega)
            rw [enough', writeColumns_ended (by omega)]
            exact .done

end Tiles

section Patterns

/-- A pattern of a 32 by 32 map of them. -/
theorem sequence_patternAddr {region : ℕ → Prop} {x y : BitVec 32} {rest : BitVec 32 → Program}
    (following : ∀ addr : BitVec 32, addr.toNat < 1024 → Sequence (Within region) (rest addr)) :
    Sequence (Within region) (ppuPatternAddr x y rest) := by
  refine .range fun column => .range fun row => following _ ?_
  rw [BitVec.toNat_or, BitVec.toNat_shiftLeft, Nat.mod_eq_of_lt (by
    rw [Nat.shiftLeft_eq]
    omega), shiftLeft_or (by omega)]
  omega

theorem within_pattern {addr : ℕ} (bound : addr < 1024) :
    Within patternRegion (vramPatternoffset + tilepatternBsize * addr) tilepatternBsize := by
  simp only [Within, patternRegion, vramPatternoffset, tilepatternBsize, vramPaletteoffset,
    vramSize]
  exact ⟨by omega, fun k within => ⟨by omega, by omega⟩⟩

theorem sequence_patternRow {pattern : ℕ → Fin 8 → BitVec 32} {width xI yI row : BitVec 32}
    {rest : Program} (following : Sequence (Within patternRegion) rest) (n : ℕ) (col : BitVec 32) :
    Sequence (Within patternRegion) (writePatternRow pattern width xI yI row rest n col) := by
  induction n generalizing col with
  | zero => exact following
  | succ n ih =>
      refine sequence_patternAddr fun addr bound => ?_
      refine .write (vramPatternoffset + tilepatternBsize * addr.toNat) tilepatternBsize ?_ rfl
        (within_pattern bound) (ih (col + 1))
      rw [BitVec.toNat_add, BitVec.toNat_mul, BitVec.toNat_ofNat, BitVec.toNat_ofNat,
        vramPatternoffset, tilepatternBsize]
      omega

theorem sequence_patternRows {pattern : ℕ → Fin 8 → BitVec 32} {width xI yI : BitVec 32} (n : ℕ)
    (row : BitVec 32) :
    Sequence (Within patternRegion) (writePatternRows pattern width xI yI n row) := by
  induction n generalizing row with
  | zero => exact .done
  | succ n ih => exact sequence_patternRow (ih (row + 1)) width.toNat 0

/-- **A block of patterns.** -/
theorem sequence_pattern (process : Process) (pattern : Option (ℕ → Fin 8 → BitVec 32))
    (width height patternAddr : BitVec 32) :
    Sequence (Within patternRegion) (ppuWritePattern process pattern width height patternAddr) := by
  refine .nowaymsg fun _ => ?_
  cases pattern with
  | none => exact .check _
  | some pattern =>
      exact .range fun _ => .range fun _ => .range fun _ => sequence_patternRows height.toNat 0

end Patterns

/-- **A palette.** -/
theorem sequence_palette (process : Process) (palette : Option (Fin 15 → BitVec 32))
    (layerId paletteId : BitVec 32) :
    Sequence (Within (paletteRegion layerId paletteId))
      (ppuWritePalette process palette layerId paletteId) := by
  refine .nowaymsg fun _ => ?_
  cases palette with
  | none => exact .check _
  | some palette =>
      refine .range fun bound => ?_
      have bounds : paletteLayerOffset layerId + palette16Bsize * paletteId.toNat + 64 ≤ 0x1000 := by
        rw [not_le] at bound
        rw [paletteLayerOffset]
        simp only [paletteramSpritemax, paletteramTilemax, paletteramSproffset,
          paletteramFgoffset, paletteramBgoffset, palette16Bsize] at bound ⊢
        split_ifs at bound ⊢ <;> omega
      refine .write (paletteBase layerId paletteId + 4) palette15Bsize ?_ rfl ?_ .done
      · rw [palette16Bsize] at bounds
        simp only [BitVec.toNat_add, BitVec.toNat_mul, BitVec.toNat_ofNat, BitVec.ofNat_eq_ofNat,
          paletteBase, vramPaletteoffset, palette16Bsize]
        omega
      · simp only [Within, paletteRegion, paletteBase, vramPaletteoffset, palette16Bsize,
          palette15Bsize, vramSize] at bounds ⊢
        exact ⟨by omega, fun k within => ⟨by omega, by omega⟩⟩

/-- How far `ppu_write_sprites` comes: a check aborts it, or it has filled its
buffers and writes both tables. -/
inductive SpriteCalls (process : Process) (sprites : Option (ℕ → Sprite))
    (len spriteIdI : BitVec 32) : Prop where
  | check (msg : String)
      (program : ppuWriteSpritesCalls process sprites len spriteIdI = .abort (.check msg))
  | writes (array : ℕ → Sprite) (spriteBuf spriteExtraBuf : ℕ) (buffers : Buffers)
      (given : sprites = some array) (bound : (spriteIdI + len).toNat ≤ spriteMaxcount)
      (fills : fillBuffers array len spriteBuf spriteExtraBuf len.toNat
        { heap := process.heap, stores := [] } = .ok buffers)
      (program : ppuWriteSpritesCalls process sprites len spriteIdI =
        .pwrite (fun k => buffers.heap (spriteBuf + k)) (len * 4)
          (BitVec.ofNat 32 vramSpritesoffset + spriteIdI * 4)
          (.pwrite (fun k => buffers.heap (spriteExtraBuf + k)) len
            (BitVec.ofNat 32 (vramSpritesoffset + sprramExtraoffset) + spriteIdI) (.done 0)))

theorem spriteCalls (process : Process) (ppuFd : process.ppuFd = true)
    (sprites : Option (ℕ → Sprite)) (len spriteIdI : BitVec 32) :
    SpriteCalls process sprites len spriteIdI := by
  cases sprites with
  | none => exact .check _ rfl
  | some array =>
      by_cases bound : spriteMaxcount < (spriteIdI + len).toNat
      · refine .check "Sprite write would exceed Sprite RAM bounds!" ?_
        rw [ppuWriteSpritesCalls, Program.nowaymsg, if_pos (decide_eq_true bound)]
      · have passed : ¬ decide (spriteMaxcount < (spriteIdI + len).toNat) = true :=
          fun exceeds => bound (of_decide_eq_true exceeds)
        cases main : process.spriteBuf with
        | none =>
            refine .check "Sprite data malloc failed!" ?_
            rw [ppuWriteSpritesCalls, Program.nowaymsg, if_neg passed, main]
        | some spriteBuf =>
            cases extra : process.spriteExtraBuf with
            | none =>
                refine .check "Sprite extra data malloc failed!" ?_
                rw [ppuWriteSpritesCalls, Program.nowaymsg, if_neg passed, main, extra]
            | some spriteExtraBuf =>
                cases fills : fillBuffers array len spriteBuf spriteExtraBuf len.toNat
                    { heap := process.heap, stores := [] } with
                | error msg =>
                    refine .check msg ?_
                    rw [ppuWriteSpritesCalls, Program.nowaymsg, if_neg passed, main, extra]
                    dsimp only
                    rw [fills]
                | ok buffers =>
                    refine .writes array spriteBuf spriteExtraBuf buffers rfl (not_lt.mp bound) fills ?_
                    rw [ppuWriteSpritesCalls, Program.nowaymsg, if_neg passed, main, extra]
                    dsimp only
                    rw [fills]
                    dsimp only
                    rw [if_pos ppuFd]

/-- A multiple of four is not -1. -/
theorem times_four_toInt (len : BitVec 32) : (len * 4).toInt ≠ -1 := by
  intro minusOne
  have last := congrArg BitVec.toNat (BitVec.eq_of_toInt_eq (y := BitVec.allOnes 32) minusOne)
  rw [BitVec.toNat_mul, BitVec.toNat_allOnes] at last
  simp only [BitVec.ofNat_eq_ofNat, BitVec.toNat_ofNat] at last
  omega

section Sprites

variable {process : Process} {sprites : Option (ℕ → Sprite)} {len spriteIdI : BitVec 32}

/-- **Sprites**, if the sum that is checked does not wrap. -/
theorem sequence_sprites (noWrap : spriteIdI.toNat + len.toNat < 2 ^ 32)
    (ppuFd : process.ppuFd = true) :
    Sequence (Within (spriteRegion len spriteIdI))
      (ppuWriteSpritesCalls process sprites len spriteIdI) := by
  cases spriteCalls process ppuFd sprites len spriteIdI with
  | check msg program =>
      rw [program]
      exact .check msg
  | writes array spriteBuf spriteExtraBuf buffers given bound fills program =>
      rw [BitVec.toNat_add, Nat.mod_eq_of_lt noWrap, spriteMaxcount] at bound
      rw [program]
      refine .write (vramSpritesoffset + 4 * spriteIdI.toNat) (4 * len.toNat) ?_ ?_ ?_
        (.write (vramSpritesoffset + sprramExtraoffset + spriteIdI.toNat) len.toNat ?_ rfl ?_ .done)
      · simp only [BitVec.toNat_add, BitVec.toNat_mul, BitVec.toNat_ofNat, BitVec.ofNat_eq_ofNat,
          vramSpritesoffset]
        omega
      · simp only [BitVec.toNat_mul, BitVec.toNat_ofNat, BitVec.ofNat_eq_ofNat]
        omega
      · simp only [Within, spriteRegion, vramSpritesoffset, sprramExtraoffset, spriteBsize,
          spriteMaxcount, vramSize]
        exact ⟨by omega, fun k within => ⟨bound, .inl ⟨by omega, by omega⟩⟩⟩
      · simp only [BitVec.toNat_add, BitVec.toNat_ofNat, vramSpritesoffset, sprramExtraoffset]
        omega
      · simp only [Within, spriteRegion, vramSpritesoffset, sprramExtraoffset, spriteBsize,
          spriteMaxcount, vramSize]
        exact ⟨by omega, fun k within => ⟨bound, .inr ⟨by omega, by omega⟩⟩⟩

/-- However the sum wraps, the calls of `ppu_write_sprites` are checked writes. -/
theorem sequence_sprites_wrapping (ppuFd : process.ppuFd = true) (proper : len.toInt ≠ -1) :
    Sequence (fun _ _ => True) (ppuWriteSpritesCalls process sprites len spriteIdI) := by
  cases spriteCalls process ppuFd sprites len spriteIdI with
  | check msg program =>
      rw [program]
      exact .check msg
  | writes array spriteBuf spriteExtraBuf buffers given bound fills program =>
      rw [program]
      exact .pwrite (times_four_toInt len) trivial (.pwrite proper trivial .done)

end Sprites

/-! ## The two forms of `ppu_write_sprites` -/

section Forms

variable {cfg : Config} {kernel : Shared} {buf : ℕ → BitVec 8} {count offset : BitVec 32}
  {after : Return} {rest : Program}

/-- What `ppu_write` can return. -/
theorem ppuWrite_ret
    (writes : ppuWrite cfg kernel offset.toNat ((List.range count.toNat).map buf) = some after) :
    (vramSize < offset.toNat + count.toNat ∧ after.ret = -EINVAL) ∨
      (offset.toNat + count.toNat ≤ vramSize ∧ after.ret = -EBUSY) ∨
      (offset.toNat + count.toNat ≤ vramSize ∧
        after.ret = ((List.range count.toNat).map buf).length) := by
  rw [PpuDriver.ppuWrite_eq, Option.some.injEq] at writes
  subst writes
  rw [List.length_map, List.length_range]
  split_ifs with beyond busy
  · exact .inl ⟨beyond, rfl⟩
  · exact .inr (.inl ⟨not_lt.mp beyond, rfl⟩)
  · exact .inr (.inr ⟨not_lt.mp beyond, rfl⟩)

/-- A result that is the count was not an error. -/
theorem checked_of_ret_eq
    (writes : ppuWrite cfg kernel offset.toNat ((List.range count.toNat).map buf) = some after)
    (ret : after.ret = count.toInt) (notInvalid : count.toInt ≠ -EINVAL) :
    offset.toNat + count.toNat ≤ vramSize ∧ Program.checked count rest after.ret = rest := by
  rcases ppuWrite_ret writes with ⟨-, invalid⟩ | ⟨inside, busy⟩ | ⟨inside, counted⟩
  · exact absurd (ret.symm.trans invalid) notInvalid
  · have small : count.toNat < 2 ^ 31 := by
      rw [vramSize] at inside
      omega
    rw [ret, BitVec.toInt_eq_toNat_of_lt (by omega), EBUSY] at busy
    omega
  · have same := @userRet_count buf count offset inside
    exact ⟨inside, by rw [Program.checked, counted, if_pos same]⟩

theorem checked_of_busy (busy : after.ret = -EBUSY) (proper : count.toInt ≠ -1) :
    Program.checked count rest after.ret = .done (-1) := by
  have failed : ¬ Program.userRet after.ret = count.toInt := by
    rw [busy]
    exact fun same => proper same.symm
  rw [Program.checked, if_neg failed, if_pos busy]

theorem some_of_pwrite {heap : ℕ → BitVec 8} {start n a : ℕ}
    (writes : pwrite cfg kernel heap start n a = .ok after) :
    ppuWrite cfg kernel a ((List.range n).map fun k => heap (start + k)) = some after := by
  rw [pwrite] at writes
  split at writes
  · next returned => rw [returned, Except.ok.inj writes]
  · cases writes

variable {Tid : Type} [DecidableEq Tid] {tid : Tid} {s : PpuDriver.State Tid} {env : Env}
  {sprites : ℕ → Sprite} {len spriteIdI : BitVec 32} {result : Result}

/-- A call of `ppu_write_sprites` that returns, run alone, is a run of its
program. -/
theorem exec_of_ppuWriteSprites (returns : ppuWriteSprites env sprites len spriteIdI = .ok result)
    (outside : (s.threads tid).pc = .user) (shared : s.shared = env.kernel) :
    ∃ s', s'.shared = result.kernel ∧
      Exec env.cfg tid s
        (ppuWriteSpritesCalls ⟨true, env.heap, true, env.spriteBuf, env.spriteExtraBuf⟩
          (some sprites) len spriteIdI) s' (.returned result.ret) := by
  obtain ⟨_, passes, returns⟩ := bind_eq_ok returns
  have bound := of_decide_eq_false (nowaymsg_eq_ok passes)
  rw [ppuWriteSpritesCalls, Program.nowaymsg, decide_eq_false bound, if_neg Bool.false_ne_true]
  cases allocMain : env.spriteBuf with
  | none => simp only [allocMain] at returns; cases returns
  | some spriteBuf =>
      cases allocExtra : env.spriteExtraBuf with
      | none => simp only [allocMain, allocExtra] at returns; cases returns
      | some spriteExtraBuf =>
          simp only [allocMain, allocExtra] at returns ⊢
          obtain ⟨buffers, fills, returns⟩ := bind_eq_ok returns
          rw [fills]
          dsimp only
          rw [if_pos trivial]
          obtain ⟨first, firstWrite, returns⟩ := bind_eq_ok returns
          have firstWrites := some_of_pwrite firstWrite
          rw [← shared] at firstWrites
          obtain ⟨s₁, shared₁, outside₁, continues₁⟩ := @exec_pwrite_alone Tid _ env.cfg tid s
            (fun k => buffers.heap (spriteBuf + k)) (len * 4)
            (BitVec.ofNat 32 vramSpritesoffset + spriteIdI * 4)
            (.pwrite (fun k => buffers.heap (spriteExtraBuf + k)) len
              (BitVec.ofNat 32 (vramSpritesoffset + sprramExtraoffset) + spriteIdI) (.done 0))
            outside first firstWrites
          have fourfold := times_four_toInt len
          have notInvalid : (len * 4).toInt ≠ -EINVAL := by
            intro invalid
            have last := congrArg BitVec.toNat
              (BitVec.eq_of_toInt_eq (y := BitVec.ofInt 32 (-EINVAL)) (invalid.trans (by decide)))
            rw [BitVec.toNat_mul] at last
            have value : (BitVec.ofInt 32 (-EINVAL)).toNat = 2 ^ 32 - 22 := by decide
            simp only [BitVec.ofNat_eq_ofNat, BitVec.toNat_ofNat, value] at last
            omega
          by_cases firstRet : first.ret = (len * 4).toInt
          · rw [if_neg (not_not.mpr firstRet)] at returns
            obtain ⟨inside₁, checked₁⟩ := checked_of_ret_eq firstWrites firstRet notInvalid
            rw [checked₁] at continues₁
            obtain ⟨second, secondWrite, returns⟩ := bind_eq_ok returns
            have secondWrites := some_of_pwrite secondWrite
            rw [← shared₁] at secondWrites
            obtain ⟨s₂, shared₂, -, continues₂⟩ := @exec_pwrite_alone Tid _ env.cfg tid s₁
              (fun k => buffers.heap (spriteExtraBuf + k)) len
              (BitVec.ofNat 32 (vramSpritesoffset + sprramExtraoffset) + spriteIdI) (.done 0)
              outside₁ second secondWrites
            -- the first table was accepted, so the length is not a negative number
            have positive : 0 ≤ len.toInt ∨ len.toInt < -1000 := by
              rw [BitVec.toNat_mul] at inside₁
              simp only [BitVec.ofNat_eq_ofNat, BitVec.toNat_ofNat, vramSize] at inside₁
              rw [BitVec.toInt_eq_toNat_cond]
              split_ifs <;> omega
            by_cases secondRet : second.ret = len.toInt
            · rw [if_neg (not_not.mpr secondRet)] at returns
              obtain rfl := Except.ok.inj returns
              refine ⟨s₂, shared₂, continues₁ _ _ (continues₂ _ _ ?_)⟩
              rw [(checked_of_ret_eq secondWrites secondRet (by rw [EINVAL]; omega)).2]
              exact .done
            · rw [if_pos secondRet] at returns
              obtain ⟨_, asserts, returns⟩ := bind_eq_ok returns
              obtain rfl := Except.ok.inj returns
              have busy := not_not.mp (of_decide_eq_false (nowaymsg_eq_ok asserts))
              refine ⟨s₂, shared₂, continues₁ _ _ (continues₂ _ _ ?_)⟩
              rw [checked_of_busy busy (by omega)]
              exact .done
          · rw [if_pos firstRet] at returns
            obtain ⟨_, asserts, returns⟩ := bind_eq_ok returns
            obtain rfl := Except.ok.inj returns
            have busy := not_not.mp (of_decide_eq_false (nowaymsg_eq_ok asserts))
            refine ⟨s₁, shared₁, continues₁ _ _ ?_⟩
            rw [checked_of_busy busy fourfold]
            exact .done

end Forms

/-! ## The calls -/

/-- A call of one of the write functions, with its arguments. -/
inductive WriteCall where
  | tilesHorizontal (tiles : Option (ℕ → BitVec 16)) (len layer xI yI count : BitVec 32)
  | tilesVertical (tiles : Option (ℕ → BitVec 16)) (len layer xI yI count : BitVec 32)
  | pattern (pattern : Option (ℕ → Fin 8 → BitVec 32)) (width height patternAddr : BitVec 32)
  | palette (palette : Option (Fin 15 → BitVec 32)) (layerId paletteId : BitVec 32)
  | sprites (sprites : Option (ℕ → Sprite)) (len spriteIdI : BitVec 32)

/-- What the library does for a call. -/
def WriteCall.program (process : Process) : WriteCall → Program
  | .tilesHorizontal tiles len layer xI yI count =>
      ppuWriteTilesHorizontal process tiles len layer xI yI count
  | .tilesVertical tiles len layer xI yI count =>
      ppuWriteTilesVertical process tiles len layer xI yI count
  | .pattern block width height patternAddr =>
      ppuWritePattern process block width height patternAddr
  | .palette colors layerId paletteId => ppuWritePalette process colors layerId paletteId
  | .sprites array len spriteIdI => ppuWriteSpritesCalls process array len spriteIdI

/-- The bytes of the object that a call names. -/
def WriteCall.region : WriteCall → ℕ → Prop
  | .tilesHorizontal _ _ layer _ _ _ | .tilesVertical _ _ layer _ _ _ => tileRegion layer
  | .pattern _ _ _ _ => patternRegion
  | .palette _ layerId paletteId => paletteRegion layerId paletteId
  | .sprites _ len spriteIdI => spriteRegion len spriteIdI

/-- No sum that a call checks or addresses with wraps. -/
def WriteCall.NoWrap : WriteCall → Prop
  | .sprites _ len spriteIdI => spriteIdI.toNat + len.toNat < 2 ^ 32
  | _ => True

/-- **The region lemma.** -/
theorem WriteCall.sequence (process : Process) (ppuFd : process.ppuFd = true) (call : WriteCall)
    (noWrap : call.NoWrap) : Sequence (Within call.region) (call.program process) := by
  cases call with
  | tilesHorizontal tiles len layer xI yI count => exact sequence_horizontal _ _ _ _ _ _ _
  | tilesVertical tiles len layer xI yI count => exact sequence_vertical _ _ _ _ _ _ _
  | pattern pattern width height patternAddr => exact sequence_pattern _ _ _ _ _
  | palette palette layerId paletteId => exact sequence_palette _ _ _ _
  | sprites sprites len spriteIdI => exact sequence_sprites noWrap ppuFd

end FPGame.Library
