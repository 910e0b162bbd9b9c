import FPGame.Foundation.Bytes
import FPGame.Ppu.FrameHandoff
import FPGame.Ppu.TileRow

/-!
# What the PPU holds of an image

The CPU sees the VRAM as bytes and the PPU sees it as 64-bit words of four
segments. `HandedOver` relates the two: word `w` of a segment is the eight bytes
of the image from the segment's offset on. It is so whenever a frame has been
synced (`handedOver_of_synced`). The layout of each segment is then a statement
about bytes.
-/

set_option autoImplicit false

namespace FPGame.Ppu

open FPGame.Foundation FPGame.Vram FPGame.Dma FPGame.FrameHandoff

/-- A 128-bit word of an image. -/
def quadword (image : ℕ → BitVec 8) (k : ℕ) : BitVec 128 :=
  BitVec.ofNat 128 (littleEndian image (16 * k) 16)

/-- The PPU-facing copy of the VRAM holds an image. -/
def HandedOver (image : ℕ → BitVec 8) (ppu : PpuFacing) : Prop :=
  ∀ segment w, w ≤ 2 * segment.maxAddr + 1 →
    ppu segment w = doubleword image (2 * startAddr segment + w)

/-- The PPU-facing copy that is all zero but for an image. -/
def facing (image : ℕ → BitVec 8) : PpuFacing := fun segment w =>
  if w ≤ 2 * segment.maxAddr + 1 then doubleword image (2 * startAddr segment + w) else 0

theorem handedOver_facing (image : ℕ → BitVec 8) : HandedOver image (facing image) :=
  fun _ _ within => if_pos within

section Image

variable {image : ℕ → BitVec 8} {cpu : CpuFacing} {ppu : PpuFacing}

/-- The halves of a 128-bit word are two 64-bit words. -/
theorem lane_quadword (k half : ℕ) (within : half < 2) :
    lane 64 half (quadword image k) = doubleword image (2 * k + half) := by
  have bound : littleEndian image (16 * k) 16 < 2 ^ 128 := littleEndian_lt image (16 * k) 16
  have place : 8 * (2 * k + half) = 16 * k + 8 * half := by ring
  apply BitVec.eq_of_toNat_eq
  rw [lane, BitVec.extractLsb'_toNat, quadword, BitVec.toNat_ofNat, Nat.mod_eq_of_lt bound,
    Nat.shiftRight_eq_div_pow, doubleword, BitVec.toNat_ofNat, place]
  have part : littleEndian image (16 * k + 8 * half) 8 < 2 ^ 64 :=
    littleEndian_lt image (16 * k + 8 * half) 8
  rw [Nat.mod_eq_of_lt part]
  interval_cases half
  · exact littleEndian_select image (16 * k) 0 8 8
  · exact littleEndian_select image (16 * k) 8 8 0

/-- A frame that is loaded and synced is handed over. -/
theorem handedOver_of_synced {frame : Frame} (synced : Synced cpu ppu) (loaded : frame.Loaded cpu)
    (holds : ∀ k, k < imageWords → imageWord frame.memory frame.src k = quadword image k) :
    HandedOver image ppu := by
  obtain ⟨before, rfl⟩ := loaded
  intro segment w within
  have word : w / 2 ≤ segment.maxAddr := by omega
  have half : w % 2 < 2 := Nat.mod_lt _ (by decide)
  have copied := synced segment (w / 2) word
  rw [landed, if_pos ⟨word, place_lt word⟩, holds _ (place_lt word), halves,
    lane_quadword _ 0 (by decide), lane_quadword _ 1 (by decide), pairs, Prod.mk.injEq] at copied
  have split : 2 * startAddr segment + w = 2 * place segment (w / 2) + w % 2 := by
    rw [place]
    omega
  rw [split]
  rcases Nat.mod_two_eq_zero_or_one w with even | odd
  · rw [even, ← copied.1]
    congr 1
    omega
  · rw [odd, ← copied.2]
    congr 1
    omega

end Image

/-! ## The segments -/

/-- Tile RAM. -/
def tilramOf (ppu : PpuFacing) : TileRam := fun w => ppu .tilram w.toNat

/-- Pattern RAM. -/
def patramOf (ppu : PpuFacing) : PatternRam := fun w => ppu .patram w.toNat

/-- The first byte of a tile entry. -/
def tileEntryAddr (fg : Bool) (column row : ℕ) : ℕ := 0x2000 * fg.toNat + 128 * row + 2 * column

/-- The first byte of a pattern. -/
def patternByteAddr (name : ℕ) : ℕ := 0x4000 + 32 * name

namespace HandedOver

variable {image : ℕ → BitVec 8} {ppu : PpuFacing}

/-- A tile entry is two bytes. -/
theorem tileEntry_eq (handed : HandedOver image ppu) {fg : Bool} {column row : ℕ}
    (x : column < 64) (y : row < 64) {tile : BitVec 16}
    (stored : ∀ k, k < 2 → image (tileEntryAddr fg column row + k) = lane 8 k tile) :
    tileEntry fg (tilramOf ppu) column row = tile := by
  have layer : fg.toNat < 2 := Bool.toNat_lt fg
  have word : (BitVec.ofNat 11 (1024 * fg.toNat + 16 * row + column / 4)).toNat =
      1024 * fg.toNat + 16 * row + column / 4 := by
    rw [BitVec.toNat_ofNat]
    exact Nat.mod_eq_of_lt (by omega)
  rw [tileEntry, tilramOf, word, handed .tilram _ (show _ ≤ 2 * 1023 + 1 by omega)]
  refine @lane_doubleword_eq image _ 2 (column % 4) (6 - 2 * (column % 4)) (by omega) tile ?_
  intro j within
  rw [← stored j within, startAddr, tileEntryAddr]
  congr 1
  omega

/-- The two pixel rows in a word of a pattern. -/
theorem patternWord_eq (handed : HandedOver image ppu) {name : ℕ} (bound : name < 1024)
    {pxrow : Fin 8 → BitVec 32}
    (stored : ∀ k, k < 32 →
      image (patternByteAddr name + k) = lane 8 (k % 4) (pxrow (Fin.ofNat 8 (k / 4))))
    {k half : ℕ} (rows : k < 4) (within : half < 2) :
    lane 32 half (patramOf ppu (BitVec.ofNat 12 (4 * name + k))) =
      pxrow (Fin.ofNat 8 (2 * k + half)) := by
  have word : (BitVec.ofNat 12 (4 * name + k)).toNat = 4 * name + k := by
    rw [BitVec.toNat_ofNat]
    exact Nat.mod_eq_of_lt (by omega)
  rw [patramOf, word, handed .patram _ (show _ ≤ 2 * 2047 + 1 by omega)]
  refine @lane_doubleword_eq image _ 4 half (4 - 4 * half) (by omega) _ ?_
  intro j inside
  have byte := stored (8 * k + 4 * half + j) (by omega)
  rw [show (8 * k + 4 * half + j) % 4 = j by omega,
    show (8 * k + 4 * half + j) / 4 = 2 * k + half by omega] at byte
  rw [← byte, startAddr, patternByteAddr, patramStartAddr]
  congr 1
  omega

/-- A 32-bit word of Palette RAM is four bytes. -/
theorem paletteWord_toNat (handed : HandedOver image ppu) {n : ℕ} (bound : n < 1024) :
    (lane 32 (n % 2) (ppu .palram (n / 2)) : BitVec 32).toNat =
      littleEndian image (0xC000 + 4 * n) 4 := by
  have place : 8 * (2 * startAddr .palram + n / 2) + 4 * (n % 2) = 0xC000 + 4 * n := by
    rw [startAddr, palramStartAddr]
    omega
  rw [handed .palram _ (show _ ≤ 2 * 255 + 1 by omega), ← place]
  exact lane_doubleword image _ 4 (n % 2) (4 - 4 * (n % 2)) (by omega)

end HandedOver

end FPGame.Ppu
