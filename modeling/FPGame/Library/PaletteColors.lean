import FPGame.Library.Pwrites
import FPGame.Ppu.HandedOver
import FPGame.Ppu.PixelMixer
import FPGame.Video.ScanOut

/-!
# Palettes from the library to the screen

A colour of a palette has three addresses: a byte offset in the library, a
source, a palette and a colour number in a word of the pixel mixer, and a half of
a 64-bit word in scan-out. A word of the mixer is the number of the 32-bit entry
that it names (`Shown.toNat_word`), the library writes the entries of one palette
but the first, and scan-out looks the entry of a word up, with word 0 taken for
the background.
-/

set_option autoImplicit false

namespace FPGame.Library

open FPGame.Foundation FPGame.Ppu FPGame.Vram FPGame.Linux FPGame.Video
open FPGame.PpuDriver (Config State Exclusive SoleUser driver owned_of_reachable vramSize)

/-! ## The words of the mixer -/

/-- The layer and the palette that a word of the row RAM names. -/
def namedPalette (word : BitVec 10) : BitVec 32 × ℕ :=
  if word.getLsbD 9 then (layerSpr, (word.extractLsb' 4 5).toNat)
  else if word.getLsbD 8 then (layerFg, (word.extractLsb' 4 4).toNat)
  else (layerBg, (word.extractLsb' 4 4).toNat)

/-- The pixel mixer produces a word for a pixel of a layer that is not
transparent, with a palette and a colour. -/
inductive Shown : BitVec 32 → ℕ → ℕ → BitVec 10 → Prop where
  | bg {bg fg : BitVec 8} {sp : BitVec 9} {spPrio : BitVec 2}
      (source : finalSource bg fg sp spPrio = .bg) (visible : bgColor bg ≠ 0) :
      Shown layerBg (bg.extractLsb' 4 4).toNat (bgColor bg).toNat
        (pmxrRowramWrdata bg fg sp spPrio)
  | fg {bg fg : BitVec 8} {sp : BitVec 9} {spPrio : BitVec 2}
      (source : finalSource bg fg sp spPrio = .fg) (visible : fgColor fg ≠ 0) :
      Shown layerFg (fg.extractLsb' 4 4).toNat (fgColor fg).toNat
        (pmxrRowramWrdata bg fg sp spPrio)
  | sp {bg fg : BitVec 8} {sp : BitVec 9} {spPrio : BitVec 2}
      (source : finalSource bg fg sp spPrio = .sp) (visible : spColor sp ≠ 0) :
      Shown layerSpr (sp.extractLsb' 4 5).toNat (spColor sp).toNat
        (pmxrRowramWrdata bg fg sp spPrio)

/-- The number of a palette among all of them. -/
def paletteIndex (layerId : BitVec 32) (paletteId : ℕ) : ℕ :=
  paletteLayerOffset layerId / palette16Bsize + paletteId

section Words

variable {layerId : BitVec 32} {paletteId k : ℕ} {word : BitVec 10}

/-- The fields of a pixel as a number. -/
theorem pixel_toNat {n : ℕ} (pixel : BitVec (4 + n)) :
    pixel.toNat = 16 * (pixel.extractLsb' 4 n).toNat + (pixel.extractLsb' 0 4).toNat := by
  have bound := pixel.isLt
  have high : pixel.toNat / 16 < 2 ^ n := by
    rw [Nat.div_lt_iff_lt_mul (by decide), Nat.mul_comm]
    rwa [Nat.pow_add] at bound
  rw [BitVec.extractLsb'_toNat, BitVec.extractLsb'_toNat, Nat.shiftRight_zero,
    Nat.shiftRight_eq_div_pow, Nat.mod_eq_of_lt (show pixel.toNat / 2 ^ 4 < 2 ^ n from high)]
  omega

/-- **A word is the number of the entry that it names.** -/
theorem Shown.toNat_word (shown : Shown layerId paletteId k word) :
    word.toNat = 16 * paletteIndex layerId paletteId + k ∧ 1 ≤ k ∧ k < 16 := by
  have positive : ∀ color : BitVec 4, color ≠ 0 → 1 ≤ color.toNat ∧ color.toNat < 16 := by
    intro color visible
    have some : color.toNat ≠ 0 := fun zero => visible (BitVec.eq_of_toNat_eq zero)
    exact ⟨by omega, color.isLt⟩
  cases shown with
  | @bg bg fg sp spPrio source visible =>
      refine ⟨?_, positive _ visible⟩
      have pixel := @pixel_toNat 4 bg
      rw [pmxrRowramWrdata, source]
      dsimp only
      rw [if_neg visible, toNat_append_add, pixel, paletteIndex, bgColor]
      show 0 * 2 ^ 8 + _ = 16 * (0 / 64 + _) + _
      omega
  | @fg bg fg sp spPrio source visible =>
      refine ⟨?_, positive _ visible⟩
      have pixel := @pixel_toNat 4 fg
      rw [pmxrRowramWrdata, source]
      dsimp only
      rw [toNat_append_add, pixel, paletteIndex, fgColor]
      show 1 * 2 ^ 8 + _ = 16 * (0x400 / 64 + _) + _
      omega
  | @sp bg fg sp spPrio source visible =>
      refine ⟨?_, positive _ visible⟩
      have pixel := @pixel_toNat 5 sp
      rw [pmxrRowramWrdata, source]
      dsimp only
      rw [toNat_append_add, pixel, paletteIndex, spColor]
      show 1 * 2 ^ 9 + _ = 16 * (0x800 / 64 + _) + _
      omega

/-- The named palette, as a number. -/
theorem namedPalette_index (word : BitVec 10) :
    paletteIndex (namedPalette word).1 (namedPalette word).2 = word.toNat / 16 := by
  have bound := word.isLt
  rw [namedPalette, BitVec.getLsbD, BitVec.getLsbD, Nat.testBit_eq_decide_div_mod_eq,
    Nat.testBit_eq_decide_div_mod_eq]
  split_ifs with sprite foreground
  · rw [decide_eq_true_eq] at sprite
    show 0x800 / 64 + (word.extractLsb' 4 5).toNat = _
    rw [BitVec.extractLsb'_toNat, Nat.shiftRight_eq_div_pow]
    omega
  · rw [decide_eq_true_eq] at sprite foreground
    show 0x400 / 64 + (word.extractLsb' 4 4).toNat = _
    rw [BitVec.extractLsb'_toNat, Nat.shiftRight_eq_div_pow]
    omega
  · rw [decide_eq_true_eq] at sprite foreground
    show 0 / 64 + (word.extractLsb' 4 4).toNat = _
    rw [BitVec.extractLsb'_toNat, Nat.shiftRight_eq_div_pow]
    omega

/-- The palettes that there are. -/
def InRange (layerId : BitVec 32) (paletteId : ℕ) : Prop :=
  layerId = layerBg ∧ paletteId < paletteramTilemax ∨
    layerId = layerFg ∧ paletteId < paletteramTilemax ∨
      layerId = layerSpr ∧ paletteId < paletteramSpritemax

/-- A palette is known by its number. -/
theorem InRange.ext {layerId layerId' : BitVec 32} {paletteId paletteId' : ℕ}
    (first : InRange layerId paletteId) (second : InRange layerId' paletteId')
    (same : paletteIndex layerId paletteId = paletteIndex layerId' paletteId') :
    (layerId, paletteId) = (layerId', paletteId') := by
  have bg : paletteIndex layerBg = fun id => 0 / 64 + id := rfl
  have fg : paletteIndex layerFg = fun id => 0x400 / 64 + id := rfl
  have sp : paletteIndex layerSpr = fun id => 0x800 / 64 + id := rfl
  simp only [InRange, paletteramTilemax, paletteramSpritemax] at first second
  rcases first with ⟨rfl, small⟩ | ⟨rfl, small⟩ | ⟨rfl, small⟩ <;>
    rcases second with ⟨rfl, small'⟩ | ⟨rfl, small'⟩ | ⟨rfl, small'⟩ <;>
      simp only [bg, fg, sp] at same <;>
        first
          | (obtain rfl : paletteId = paletteId' := by omega
             rfl)
          | omega

theorem inRange_namedPalette (word : BitVec 10) :
    InRange (namedPalette word).1 (namedPalette word).2 := by
  rw [namedPalette]
  split_ifs
  · exact .inr (.inr ⟨rfl, (word.extractLsb' 4 5).isLt⟩)
  · exact .inr (.inl ⟨rfl, (word.extractLsb' 4 4).isLt⟩)
  · exact .inl ⟨rfl, (word.extractLsb' 4 4).isLt⟩

end Words

/-! ## Scan-out -/

/-- Two clocks after a word was presented, scan-out returns a colour, whatever
happens meanwhile. -/
def Scans (palette : ℕ → BitVec 64) (bgcolor : BitVec 24) (word : BitVec 10)
    (color : BitVec 24) : Prop :=
  ∀ (s : ColorPipeline) (palette' : ℕ → BitVec 64) (palramAddr : ℕ) (word' : BitVec 10),
    ((s.next palette (ColorPipeline.palramAddr word) word).next palette' palramAddr
      word').hdmiColorRddata bgcolor = color

section Scan

variable {palette : ℕ → BitVec 64} {bgcolor : BitVec 24} {word : BitVec 10} {color : BitVec 24}

theorem scans_iff : Scans palette bgcolor word color ↔ colorOf bgcolor palette word = color := by
  have shows : ∀ (s : ColorPipeline) (palette' : ℕ → BitVec 64) (palramAddr : ℕ)
      (word' : BitVec 10),
      ((s.next palette (ColorPipeline.palramAddr word) word).next palette' palramAddr
        word').hdmiColorRddata bgcolor = colorOf bgcolor palette word := by
    intro s palette' palramAddr word'
    have second : ColorPipeline.Shows _ palette word :=
      (@ColorPipeline.fetched_next s palette word).shows palramAddr word'
    exact second.color bgcolor
  constructor
  · intro scans
    rw [← shows ⟨⟨0, 0⟩, false, false, false, false⟩ palette 0 0]
    exact scans _ _ _ _
  · rintro rfl s palette' palramAddr word'
    exact shows s palette' palramAddr word'

/-- A transparent pixel shows the background, whatever the Palette RAM holds. -/
theorem scans_transparent {bg fg : BitVec 8} {sp : BitVec 9} (spPrio : BitVec 2)
    (noBg : bgColor bg = 0) (noFg : fgColor fg = 0) (noSp : spColor sp = 0) :
    Scans palette bgcolor (pmxrRowramWrdata bg fg sp spPrio) bgcolor := by
  have clear : pmxrRowramWrdata bg fg sp spPrio = 0 := by
    simp [pmxrRowramWrdata, finalSource, noBg, noFg, noSp]
  rw [scans_iff, clear, colorOf, if_pos rfl]

end Scan

/-! ## The write -/

/-- The `pwrite` of the fifteen visible colours of a palette. -/
def paletteRun (color : Fin 15 → BitVec 32) (layerId : BitVec 32) (paletteId : ℕ) : Pwrite where
  buf := paletteBytes color
  count := BitVec.ofNat 32 palette15Bsize
  offset := BitVec.ofNat 32 (0xC000 + 64 * paletteIndex layerId paletteId + 4)

section Run

variable {color : Fin 15 → BitVec 32} {layerId : BitVec 32} {paletteId : ℕ}

theorem paletteIndex_lt (range : InRange layerId paletteId) :
    paletteIndex layerId paletteId < 64 := by
  simp only [InRange, paletteramTilemax, paletteramSpritemax] at range
  rcases range with ⟨rfl, small⟩ | ⟨rfl, small⟩ | ⟨rfl, small⟩
  · show 0 / 64 + paletteId < 64
    omega
  · show 0x400 / 64 + paletteId < 64
    omega
  · show 0x800 / 64 + paletteId < 64
    omega

theorem paletteRun_offset (range : InRange layerId paletteId) :
    (paletteRun color layerId paletteId).block.1 =
      0xC000 + 64 * paletteIndex layerId paletteId + 4 := by
  have bound := paletteIndex_lt range
  refine (BitVec.toNat_ofNat _ _).trans (Nat.mod_eq_of_lt ?_)
  omega

theorem paletteRun_length : (paletteRun color layerId paletteId).block.2.length = 60 :=
  Pwrite.length_block _

theorem paletteRun_inside (range : InRange layerId paletteId) :
    ∀ w ∈ [paletteRun color layerId paletteId], w.Inside := by
  have bound := paletteIndex_lt range
  intro w member
  obtain rfl := List.mem_singleton.mp member
  rw [Pwrite.Inside, ← Pwrite.block_fst, paletteRun_offset range, vramSize,
    show (paletteRun color layerId paletteId).count.toNat = 60 from rfl]
  omega

/-- What the `pwrite` leaves in the VRAM. -/
def paletteStored (color : Fin 15 → BitVec 32) (layerId : BitVec 32) (paletteId : ℕ)
    (image : ℕ → BitVec 8) : ℕ → BitVec 8 :=
  storeBlocks image ([paletteRun color layerId paletteId].map Pwrite.block)

/-- The entry of a colour. -/
theorem paletteStored_color (range : InRange layerId paletteId) (image : ℕ → BitVec 8)
    (i : Fin 15) {j : ℕ} (within : j < 4) :
    paletteStored color layerId paletteId image
        (0xC000 + 4 * (16 * paletteIndex layerId paletteId + (i + 1)) + j) =
      lane 8 j (color i) := by
  have small := i.isLt
  have here := @storeBlocks_last _ image [] [] (paletteRun color layerId paletteId).block
    (4 * i + j) (by rw [paletteRun_length]; omega) fun _ none => absurd none List.not_mem_nil
  have byte : paletteBytes color (4 * i + j) = lane 8 j (color i) := by
    rw [paletteBytes, show (4 * i.val + j) % 4 = j by omega,
      show (4 * i.val + j) / 4 = i.val by omega, Fin.ofNat_val_eq_self]
  rw [paletteRun_offset range, Pwrite.getElem_block] at here
  have place : 0xC000 + 4 * (16 * paletteIndex layerId paletteId + (i + 1)) + j =
      0xC000 + 64 * paletteIndex layerId paletteId + 4 + (4 * i + j) := by ring
  rw [← byte, place]
  exact here

/-- The entries of the other palettes, and the first entry of this one. -/
theorem paletteStored_other (range : InRange layerId paletteId) (image : ℕ → BitVec 8) {n j : ℕ}
    (other : n / 16 ≠ paletteIndex layerId paletteId) (within : j < 4) :
    paletteStored color layerId paletteId image (0xC000 + 4 * n + j) = image (0xC000 + 4 * n + j) := by
  apply storeBlocks_of_misses
  intro block member
  obtain rfl := List.mem_singleton.mp member
  rw [Misses, paletteRun_offset range, paletteRun_length]
  omega

end Run

section Palette

variable {Tid : Type} [DecidableEq Tid] {cfg : Config} {tid : Tid} {s s' : State Tid}
  {process : Process} {color : Fin 15 → BitVec 32} {layerId paletteId : BitVec 32}

theorem palette_eq (ppuFd : process.ppuFd = true) (range : InRange layerId paletteId.toNat) :
    ppuWritePalette process (some color) layerId paletteId =
      .pwrites [paletteRun color layerId paletteId.toNat] (.done 0) := by
  have bound := paletteIndex_lt range
  have passed : ¬ (if layerId = layerSpr then paletteramSpritemax else paletteramTilemax) ≤
      paletteId.toNat := by
    rcases range with ⟨rfl, small⟩ | ⟨rfl, small⟩ | ⟨rfl, small⟩
    · exact not_le.mpr small
    · exact not_le.mpr small
    · exact not_le.mpr small
  have address : BitVec.ofNat 32 vramPaletteoffset + BitVec.ofNat 32 (paletteLayerOffset layerId) +
      paletteId * BitVec.ofNat 32 palette16Bsize + 4 =
        BitVec.ofNat 32 (0xC000 + 64 * paletteIndex layerId paletteId.toNat + 4) := by
    have whole : paletteLayerOffset layerId = 64 * (paletteLayerOffset layerId / 64) := by
      rcases range with ⟨rfl, -⟩ | ⟨rfl, -⟩ | ⟨rfl, -⟩ <;> rfl
    apply eq_ofNat
    rw [paletteIndex, palette16Bsize] at bound ⊢
    simp only [BitVec.toNat_add, BitVec.toNat_mul, BitVec.toNat_ofNat, BitVec.ofNat_eq_ofNat,
      vramPaletteoffset]
    omega
  rw [ppuWritePalette, address]
  simp only [Program.nowaymsg, ppuFd, passed, Bool.not_true, Bool.false_eq_true, decide_false,
    if_false]
  rfl

theorem palette_passed (alone : Exclusive tid s)
    (layers : layerId = layerBg ∨ layerId = layerFg ∨ layerId = layerSpr) {ret : ℤ}
    (exec : Exec cfg tid s (ppuWritePalette process (some color) layerId paletteId) s'
      (.returned ret)) :
    process.ppuFd = true ∧ InRange layerId paletteId.toNat := by
  obtain ⟨isOpen, exec⟩ := exec.of_nowaymsg alone
  obtain ⟨small, -⟩ := exec.of_nowaymsg alone
  have bound := not_le.mp (of_decide_eq_false small)
  refine ⟨by simpa using isOpen, ?_⟩
  rcases layers with rfl | rfl | rfl
  · exact .inl ⟨rfl, bound⟩
  · exact .inr (.inl ⟨rfl, bound⟩)
  · exact .inr (.inr ⟨rfl, bound⟩)

/-- **Palettes.** If `ppu_write_palette` returns 0 and the frame is handed over,
scan-out returns colour `i` of the palette for each word of the mixer that shows
colour `i + 1` of it; for a word that names another palette or layer it returns
what it returned before; and a transparent pixel always shows the background. -/
theorem palette_colors (reachable : (driver Tid cfg).Reachable s) (sole : SoleUser tid s)
    (layers : layerId = layerBg ∨ layerId = layerFg ∨ layerId = layerSpr)
    (exec : Exec cfg tid s (ppuWritePalette process (some color) layerId paletteId) s'
      (.returned 0)) {ppu ppu' : PpuFacing} (before : HandedOver (kernelVram cfg s) ppu)
    (after : HandedOver (kernelVram cfg s') ppu') (bgcolor : BitVec 24) :
    (∀ (i : Fin 15) word, Shown layerId paletteId.toNat (i + 1) word →
      Scans (ppu' .palram) bgcolor word ((color i).setWidth 24)) ∧
    (∀ word, namedPalette word ≠ (layerId, paletteId.toNat) → ∀ shown,
      Scans (ppu' .palram) bgcolor word shown ↔ Scans (ppu .palram) bgcolor word shown) ∧
    ∀ bg fg sp spPrio, bgColor bg = 0 → fgColor fg = 0 → spColor sp = 0 → ∀ palette,
      Scans palette bgcolor (pmxrRowramWrdata bg fg sp spPrio) bgcolor := by
  have alone : Exclusive tid s := ⟨sole, owned_of_reachable reachable⟩
  obtain ⟨ppuFd, range⟩ := palette_passed alone layers exec
  have index := paletteIndex_lt range
  rw [palette_eq ppuFd range] at exec
  have stored : kernelVram cfg s' =
      paletteStored color layerId paletteId.toNat (kernelVram cfg s) :=
    exec.pwrites alone (paletteRun_inside range)
  refine ⟨fun i word shown => ?_, fun word other shown => ?_, ?_⟩
  · obtain ⟨number, some, small⟩ := shown.toNat_word
    have visible : word ≠ 0 := by
      rintro rfl
      rw [show (0 : BitVec 10).toNat = 0 from rfl] at number
      omega
    have entry : lane 32 (word.toNat % 2) (ppu' .palram (word.toNat / 2)) = color i := by
      apply BitVec.eq_of_toNat_eq
      rw [after.paletteWord_toNat word.isLt, number, stored, littleEndian_lanes fun j within =>
        paletteStored_color range (kernelVram cfg s) i within]
      exact Nat.mod_eq_of_lt (color i).isLt
    rw [scans_iff, colorOf, if_neg visible, entry]
  · have elsewhere : word.toNat / 16 ≠ paletteIndex layerId paletteId.toNat := fun same =>
      other ((inRange_namedPalette word).ext range ((namedPalette_index word).trans same))
    have entry : lane 32 (word.toNat % 2) (ppu' .palram (word.toNat / 2)) =
        lane 32 (word.toNat % 2) (ppu .palram (word.toNat / 2)) := by
      apply BitVec.eq_of_toNat_eq
      rw [after.paletteWord_toNat word.isLt, before.paletteWord_toNat word.isLt, stored]
      exact littleEndian_congr fun j within =>
        paletteStored_other range (kernelVram cfg s) elsewhere within
    rw [scans_iff, scans_iff, colorOf, colorOf, entry]
  · intro bg fg sp spPrio noBg noFg noSp palette
    exact scans_transparent spPrio noBg noFg noSp

end Palette

/-- Foreground palette 3 is overwritten; a foreground pixel of colour 5 shows the
fifth of its colours without the high byte. -/
theorem palette_colors_foreground :
    ∃ after : State Bool,
      Exec alignedConfig true PpuDriver.atRest
        (ppuWritePalette grayProcess (some fun i => BitVec.ofNat 32 (0xFF000000 + i)) layerFg 3)
        after (.returned 0) ∧
      ∀ bgcolor, Scans (facing (kernelVram alignedConfig after) .palram) bgcolor
        (pmxrRowramWrdata 0x12 0x35 0 0) 4 := by
  have range : InRange layerFg (3 : BitVec 32).toNat := .inr (.inl ⟨rfl, by decide⟩)
  obtain ⟨after, exec⟩ := exec_atRest (@palette_eq grayProcess
    (fun i => BitVec.ofNat 32 (0xFF000000 + i)) layerFg 3 rfl range) (paletteRun_inside range)
  have shown : Shown layerFg 3 5 (pmxrRowramWrdata 0x12 0x35 0 0) :=
    @Shown.fg 0x12 0x35 0 0 (by decide) (by decide)
  refine ⟨after, exec, fun bgcolor => ?_⟩
  exact (palette_colors reachable_atRest (fun _ _ => rfl) (.inr (.inl rfl)) exec
    (handedOver_facing _) (handedOver_facing _) bgcolor).1 4 _ shown

end FPGame.Library
