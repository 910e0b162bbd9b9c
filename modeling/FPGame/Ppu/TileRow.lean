import FPGame.Ppu.TileLayer

/-!
# The row of a tile layer

A tile layer is a map of 64 by 64 tiles, and the scroll value says which of its
pixels is the upper left one on the screen (`tilePixel`). A tile engine does not
look a pixel up in the map: it keeps 44 tile entries from a multiple of four
tiles on, and two pixel rows of each, already mirrored (`Prepared`). The layer
shows its map if the row buffers are prepared (`Prepared.pixel_eq`).
-/

set_option autoImplicit false

namespace FPGame.Ppu

open FPGame.Foundation

/-! ## The tile map -/

/-- Tile RAM, as the engines read it. -/
abbrev TileRam := BitVec 11 → BitVec 64

/-- Pattern RAM, as the engines read it. -/
abbrev PatternRam := BitVec 12 → BitVec 64

/-- The tile entry in a column and a row of the map of a layer. -/
def tileEntry (fg : Bool) (tileRam : TileRam) (column row : ℕ) : BitVec 16 :=
  lane 16 (column % 4) (tileRam (BitVec.ofNat 11 (1024 * fg.toNat + 16 * row + column / 4)))

/-- Nibble `u` of row `v` of a pattern of 8 by 8 pixels. -/
def patternPixel (patRam : PatternRam) (name u v : ℕ) : BitVec 4 :=
  lane 4 (8 * (v % 2) + u) (patRam (BitVec.ofNat 12 (4 * name + v / 2)))

/-- The fields of a tile entry. -/
def tileXMirror (entry : BitVec 16) : Bool := entry.getLsbD 0

def tileYMirror (entry : BitVec 16) : Bool := entry.getLsbD 1

def tilePalette (entry : BitVec 16) : BitVec 4 := entry.extractLsb' 2 4

def tilePattern (entry : BitVec 16) : BitVec 10 := entry.extractLsb' 6 10

/-- A coordinate within a tile, counted from the other side if mirrored. -/
def mirrored (mirror : Bool) (d : ℕ) : ℕ := if mirror then 7 - d else d

/-- The pixel at a position of a map of 512 by 512 pixels. -/
def mapPixel (fg : Bool) (tileRam : TileRam) (patRam : PatternRam) (x y : ℕ) : BitVec 8 :=
  let entry := tileEntry fg tileRam (x / 8) (y / 8)
  tilePalette entry ++
    patternPixel patRam (tilePattern entry).toNat (mirrored (tileXMirror entry) (x % 8))
      (mirrored (tileYMirror entry) (y % 8))

/-- The pixel of a layer in a column and a row of the screen. -/
def tilePixel (fg : Bool) (tileRam : TileRam) (patRam : PatternRam)
    (scrollX scrollY row column : ℕ) : BitVec 8 :=
  mapPixel fg tileRam patRam ((scrollX + column) % 512) ((scrollY + row) % 512)

/-! ## Mirrored pattern rows -/

/-- The pixels of a pattern row in the opposite order. -/
def reversed (row : BitVec 32) : BitVec 32 :=
  row.extractLsb' 0 4 ++ row.extractLsb' 4 4 ++ row.extractLsb' 8 4 ++ row.extractLsb' 12 4 ++
    row.extractLsb' 16 4 ++ row.extractLsb' 20 4 ++ row.extractLsb' 24 4 ++ row.extractLsb' 28 4

section Wrdata

variable (wrdata : BitVec 64)

/-- `patram_rbuf_fetcher_wrdata_mir_x` -/
def wrdataMirX : BitVec 64 :=
  reversed (wrdata.extractLsb' 32 32) ++ reversed (wrdata.extractLsb' 0 32)

/-- `patram_rbuf_fetcher_wrdata_mir_y` -/
def wrdataMirY : BitVec 64 := wrdata.extractLsb' 0 32 ++ wrdata.extractLsb' 32 32

/-- `patram_rbuf_fetcher_wrdata_mir_xy` -/
def wrdataMirXY : BitVec 64 :=
  reversed (wrdata.extractLsb' 0 32) ++ reversed (wrdata.extractLsb' 32 32)

/-- `patram_rbuf_fetcher_wrdata_final` -/
def wrdataFinal (yMirror xMirror : Bool) : BitVec 64 :=
  match yMirror, xMirror with
  | false, true => wrdataMirX wrdata
  | true, false => wrdataMirY wrdata
  | true, true => wrdataMirXY wrdata
  | false, false => wrdata

end Wrdata

section Mirror

variable {wrdata : BitVec 64} {row : BitVec 32} {u : ℕ}

theorem lane_half (half : ℕ) (within : u < 8) :
    lane 4 u (wrdata.extractLsb' (32 * half) 32) = lane 4 (8 * half + u) wrdata := by
  apply BitVec.eq_of_getLsbD_eq
  intro i inside
  have low : 4 * u + i < 32 := by omega
  simp only [lane, BitVec.getLsbD_extractLsb', inside, low, decide_true, Bool.true_and]
  exact congrArg wrdata.getLsbD (by omega)

theorem lane_append_low {high low : BitVec 32} (within : u < 8) :
    lane 4 u (high ++ low) = lane 4 u low := by
  apply BitVec.eq_of_getLsbD_eq
  intro i inside
  have early : 4 * u + i < 32 := by omega
  simp only [lane, BitVec.getLsbD_extractLsb', BitVec.getLsbD_append, inside, early, decide_true,
    Bool.true_and, if_true]

theorem lane_append_high {high low : BitVec 32} :
    lane 4 (8 + u) (high ++ low) = lane 4 u high := by
  apply BitVec.eq_of_getLsbD_eq
  intro i inside
  have late : ¬ 4 * (8 + u) + i < 32 := by omega
  simp only [lane, BitVec.getLsbD_extractLsb', BitVec.getLsbD_append, inside, late, decide_true,
    Bool.true_and, if_false]
  exact congrArg high.getLsbD (by omega)

theorem lane_zero_append {n : ℕ} (high : BitVec n) (nibble : BitVec 4) :
    lane 4 0 (high ++ nibble) = nibble := by
  apply BitVec.eq_of_getLsbD_eq
  intro i inside
  simp only [lane, BitVec.getLsbD_extractLsb', BitVec.getLsbD_append, inside, decide_true,
    Bool.true_and, Nat.mul_zero, Nat.zero_add, if_true]

theorem lane_succ_append {n k : ℕ} (high : BitVec n) (nibble : BitVec 4) :
    lane 4 (k + 1) (high ++ nibble) = lane 4 k high := by
  apply BitVec.eq_of_getLsbD_eq
  intro i inside
  have late : ¬ 4 * (k + 1) + i < 4 := by omega
  simp only [lane, BitVec.getLsbD_extractLsb', BitVec.getLsbD_append, inside, late, decide_true,
    Bool.true_and, if_false]
  exact congrArg high.getLsbD (by omega)

theorem lane_whole (nibble : BitVec 4) : lane 4 0 nibble = nibble :=
  BitVec.extractLsb'_eq_self

theorem lane_reversed (within : u < 8) : lane 4 u (reversed row) = lane 4 (7 - u) row := by
  unfold reversed
  interval_cases u <;> simp only [lane_zero_append, lane_succ_append, lane_whole] <;> rfl

theorem lane_mirror_row (mirror : Bool) (half : ℕ) (within : u < 8) :
    lane 4 u (if mirror then reversed (wrdata.extractLsb' (32 * half) 32)
      else wrdata.extractLsb' (32 * half) 32) = lane 4 (8 * half + mirrored mirror u) wrdata := by
  cases mirror with
  | false => exact lane_half half within
  | true => exact (lane_reversed within).trans (lane_half half (by omega))

/-- The word that is written, as two rows that are mirrored alike. -/
theorem wrdataFinal_eq (yMirror xMirror : Bool) :
    wrdataFinal wrdata yMirror xMirror =
      (if xMirror then reversed (wrdata.extractLsb' (32 * if yMirror then 0 else 1) 32)
        else wrdata.extractLsb' (32 * if yMirror then 0 else 1) 32) ++
      (if xMirror then reversed (wrdata.extractLsb' (32 * if yMirror then 1 else 0) 32)
        else wrdata.extractLsb' (32 * if yMirror then 1 else 0) 32) := by
  cases yMirror with
  | true => cases xMirror <;> rfl
  | false =>
      cases xMirror with
      | true => rfl
      | false => exact (@BitVec.extractLsb'_append_extractLsb' 32 32 wrdata).symm

/-- **Mirroring.** A nibble of the word that is written, in the word that was
read. -/
theorem lane_wrdataFinal (yMirror xMirror : Bool) {v : ℕ} (row : v < 8) (column : u < 8) :
    lane 4 (8 * (v % 2) + u) (wrdataFinal wrdata yMirror xMirror) =
      lane 4 (8 * (mirrored yMirror v % 2) + mirrored xMirror u) wrdata := by
  rw [wrdataFinal_eq]
  rcases Nat.mod_two_eq_zero_or_one v with even | odd
  · have other : mirrored yMirror v % 2 = if yMirror then 1 else 0 := by
      cases yMirror <;> simp only [mirrored, if_true, Bool.false_eq_true, if_false] <;> omega
    rw [even, other, Nat.mul_zero, Nat.zero_add, lane_append_low column]
    exact lane_mirror_row xMirror _ column
  · have other : mirrored yMirror v % 2 = if yMirror then 0 else 1 := by
      cases yMirror <;> simp only [mirrored, if_true, Bool.false_eq_true, if_false] <;> omega
    rw [odd, other, Nat.mul_one, lane_append_high]
    exact lane_mirror_row xMirror _ column

end Mirror

/-! ## What is fetched -/

section Addresses

variable (fg : Bool) (scroll : BitVec 32) (nextRow : BitVec 8)

/-- `tilram_addr`, for an address of the row buffer. -/
def tilramAddr (partaddr : ℕ) : BitVec 11 :=
  BitVec.ofBool fg ++ tilerow scroll nextRow ++
    ((tileScrollX scroll).extractLsb' 2 4 + BitVec.ofNat 4 partaddr)

/-- `rddata_abuf`, which is `patram_addr`, for a tile entry. -/
def patramAddr (entry : BitVec 16) : BitVec 12 :=
  tilePattern entry ++
    (if tileYMirror entry then ~~~ (pixelrow scroll nextRow).extractLsb' 1 2
      else (pixelrow scroll nextRow).extractLsb' 1 2)

/-- The row buffers are filled for a row. -/
structure Prepared (tileRam : TileRam) (patRam : PatternRam) (buffers : RowBuffers) : Prop where
  tilram : ∀ a, a ≤ 10 → buffers.tilram a = tileRam (tilramAddr fg scroll nextRow a)
  patram : ∀ n, n < 44 →
    buffers.patram n =
      wrdataFinal (patRam (patramAddr scroll nextRow (narrow 16 buffers.tilram n)))
        (tileYMirror (narrow 16 buffers.tilram n)) (tileXMirror (narrow 16 buffers.tilram n))

end Addresses

/-! ## The scrolled addresses as numbers -/

section Numbers

variable {scroll : BitVec 32} {nextRow : BitVec 8} {address : BitVec 9}

theorem tileScrollX_toNat : (tileScrollX scroll).toNat = (scrollX scroll).toNat / 8 := by
  have bound := (scrollX scroll).isLt
  rw [tileScrollX, BitVec.extractLsb'_toNat, Nat.shiftRight_eq_div_pow]
  omega

theorem pixelAddr_toNat (visible : address.toNat < 320) :
    (pixelAddr scroll address).toNat = address.toNat + (scrollX scroll).toNat % 8 := by
  have start : ((pixelScrollX scroll).zeroExtend 9).toNat = (scrollX scroll).toNat % 8 := by
    rw [BitVec.zeroExtend, BitVec.toNat_setWidth, pixelScrollX, BitVec.extractLsb'_toNat,
      Nat.shiftRight_zero]
    omega
  rw [pixelAddr, BitVec.toNat_add, start]
  omega

/-- The address in the row buffers of the tile at a pixel. -/
def tileIndex (scrollX column : ℕ) : ℕ := scrollX / 8 % 4 + (column + scrollX % 8) / 8

theorem tileIndex_lt {x column : ℕ} (visible : column < 320) : tileIndex x column < 44 := by
  rw [tileIndex]
  omega

theorem tileAddr_toNat (visible : address.toNat < 320) :
    (tileAddr scroll address).toNat = tileIndex (scrollX scroll).toNat address.toNat := by
  have room := tileIndex_lt (x := (scrollX scroll).toNat) visible
  have first : ((initialTile scroll).zeroExtend 6).toNat = (scrollX scroll).toNat / 8 % 4 := by
    rw [BitVec.zeroExtend, BitVec.toNat_setWidth, initialTile, BitVec.extractLsb'_toNat,
      tileScrollX_toNat, Nat.shiftRight_zero]
    omega
  rw [tileIndex] at room ⊢
  rw [tileAddr, BitVec.toNat_add, first, BitVec.extractLsb'_toNat, pixelAddr_toNat visible,
    Nat.shiftRight_eq_div_pow]
  omega

/-- The mixer's own calculation of the tile agrees. -/
theorem pmxrTileAddr_toNat (visible : address.toNat < 320) :
    (pmxrTileAddr scroll address).toNat = tileIndex (scrollX scroll).toNat address.toNat := by
  have low : (scrollX scroll &&& 0b11111).toNat = (scrollX scroll).toNat % 32 :=
    (BitVec.toNat_and _ _).trans (Nat.and_two_pow_sub_one_eq_mod _ 5)
  rw [pmxrTileAddr, BitVec.extractLsb'_toNat, pmxrPixelAddrScrolled, BitVec.toNat_add, low,
    Nat.shiftRight_eq_div_pow, tileIndex]
  omega

theorem pixelrow_toNat :
    (pixelrow scroll nextRow).toNat = ((scrollY scroll).toNat + nextRow.toNat) % 512 := by
  rw [pixelrow, BitVec.toNat_add, BitVec.zeroExtend, BitVec.toNat_setWidth,
    Nat.mod_eq_of_lt (show nextRow.toNat < 2 ^ 9 by omega)]

theorem tilerow_toNat :
    (tilerow scroll nextRow).toNat = (pixelrow scroll nextRow).toNat / 8 := by
  have bound := (pixelrow scroll nextRow).isLt
  rw [tilerow, BitVec.extractLsb'_toNat, Nat.shiftRight_eq_div_pow]
  omega

theorem patramRbufRdaddr_toNat (visible : address.toNat < 320) :
    (patramRbufRdaddr scroll nextRow address).toNat =
      16 * tileIndex (scrollX scroll).toNat address.toNat +
        (8 * ((pixelrow scroll nextRow).toNat % 2) +
          (address.toNat + (scrollX scroll).toNat % 8) % 8) := by
  rw [patramRbufRdaddr, toNat_append_add, toNat_append_add, tileAddr_toNat visible,
    BitVec.extractLsb'_toNat, BitVec.extractLsb'_toNat, pixelAddr_toNat visible]
  omega

theorem tilramAddr_eq (fg : Bool) (partaddr : ℕ) :
    tilramAddr fg scroll nextRow partaddr =
      BitVec.ofNat 11
        (1024 * fg.toNat + 16 * ((pixelrow scroll nextRow).toNat / 8) +
          ((scrollX scroll).toNat / 32 + partaddr) % 16) := by
  have bound := (pixelrow scroll nextRow).isLt
  have layer : fg.toNat < 2 := Bool.toNat_lt fg
  have chunk : ((tileScrollX scroll).extractLsb' 2 4).toNat = (scrollX scroll).toNat / 32 := by
    have within := (scrollX scroll).isLt
    rw [BitVec.extractLsb'_toNat, tileScrollX_toNat, Nat.shiftRight_eq_div_pow]
    omega
  apply BitVec.eq_of_toNat_eq
  rw [tilramAddr, toNat_append_add, toNat_append_add, tilerow_toNat, BitVec.toNat_add, chunk,
    BitVec.toNat_ofBool, BitVec.toNat_ofNat, BitVec.toNat_ofNat]
  omega

/-- A mirrored tile is read from the mirrored pair of rows. -/
theorem patramAddr_eq (entry : BitVec 16) :
    patramAddr scroll nextRow entry =
      BitVec.ofNat 12
        (4 * (tilePattern entry).toNat +
          mirrored (tileYMirror entry) ((pixelrow scroll nextRow).toNat % 8) / 2) := by
  have name := (tilePattern entry).isLt
  have pair : ((pixelrow scroll nextRow).extractLsb' 1 2).toNat =
      (pixelrow scroll nextRow).toNat % 8 / 2 := by
    rw [BitVec.extractLsb'_toNat, Nat.shiftRight_eq_div_pow]
    omega
  apply BitVec.eq_of_toNat_eq
  rw [patramAddr, toNat_append_add, BitVec.toNat_ofNat]
  cases tileYMirror entry with
  | false =>
      simp only [Bool.false_eq_true, if_false, mirrored, pair]
      omega
  | true =>
      simp only [if_true, mirrored, BitVec.toNat_not, pair]
      omega

end Numbers

/-! ## A prepared row -/

section Prepared

variable {fg : Bool} {scroll : BitVec 32} {nextRow : BitVec 8} {tileRam : TileRam}
  {patRam : PatternRam} {buffers : RowBuffers} {address : BitVec 9}

/-- The tile buffer holds the entry of the map at a pixel. -/
theorem Prepared.entry (prepared : Prepared fg scroll nextRow tileRam patRam buffers)
    (visible : address.toNat < 320) :
    narrow 16 buffers.tilram (tileIndex (scrollX scroll).toNat address.toNat) =
      tileEntry fg tileRam (((scrollX scroll).toNat + address.toNat) % 512 / 8)
        ((pixelrow scroll nextRow).toNat / 8) := by
  have room := tileIndex_lt (x := (scrollX scroll).toNat) visible
  have within := (scrollX scroll).isLt
  rw [narrow, tileEntry, prepared.tilram _ (by omega), tilramAddr_eq]
  -- four tiles to a word, and sixteen words to a row of the map
  have lanes : tileIndex (scrollX scroll).toNat address.toNat % (64 / 16) =
      ((scrollX scroll).toNat + address.toNat) % 512 / 8 % 4 := by
    rw [tileIndex]
    omega
  have words : ((scrollX scroll).toNat / 32 +
      tileIndex (scrollX scroll).toNat address.toNat / (64 / 16)) % 16 =
      ((scrollX scroll).toNat + address.toNat) % 512 / 8 / 4 := by
    rw [tileIndex]
    omega
  rw [lanes, words]

/-- The pattern buffer holds the nibble of the pattern at a pixel. -/
theorem Prepared.nibble (prepared : Prepared fg scroll nextRow tileRam patRam buffers)
    (visible : address.toNat < 320) {entry : BitVec 16}
    (named : narrow 16 buffers.tilram (tileIndex (scrollX scroll).toNat address.toNat) = entry) :
    narrow 4 buffers.patram (patramRbufRdaddr scroll nextRow address).toNat =
      patternPixel patRam (tilePattern entry).toNat
        (mirrored (tileXMirror entry) ((address.toNat + (scrollX scroll).toNat % 8) % 8))
        (mirrored (tileYMirror entry) ((pixelrow scroll nextRow).toNat % 8)) := by
  have room := tileIndex_lt (x := (scrollX scroll).toNat) visible
  have pairs : ∀ u, u < 8 →
      (16 * tileIndex (scrollX scroll).toNat address.toNat +
        (8 * ((pixelrow scroll nextRow).toNat % 2) + u)) / (64 / 4) =
          tileIndex (scrollX scroll).toNat address.toNat ∧
        (16 * tileIndex (scrollX scroll).toNat address.toNat +
          (8 * ((pixelrow scroll nextRow).toNat % 2) + u)) % (64 / 4) =
          8 * ((pixelrow scroll nextRow).toNat % 8 % 2) + u := by
    intro u column
    omega
  obtain ⟨word, nibble⟩ := pairs ((address.toNat + (scrollX scroll).toNat % 8) % 8) (by omega)
  rw [patramRbufRdaddr_toNat visible, narrow, word, nibble, prepared.patram _ room,
    lane_wrdataFinal _ _ (by omega) (by omega), patramAddr_eq, named]
  rfl

/-- **A prepared row shows the map.** -/
theorem Prepared.pixel_eq (prepared : Prepared fg scroll nextRow tileRam patRam buffers)
    (visible : address.toNat < 320) (enable : Bool) :
    TileLayer.pixel ⟨enable, scroll, nextRow, buffers⟩ address =
      if enable then
        tilePixel fg tileRam patRam (scrollX scroll).toNat (scrollY scroll).toNat nextRow.toNat
          address.toNat
      else 0 := by
  have entry := prepared.entry visible
  have nibble := prepared.nibble visible entry
  have column : (address.toNat + (scrollX scroll).toNat % 8) % 8 =
      ((scrollX scroll).toNat + address.toNat) % 512 % 8 := by
    omega
  simp only [TileLayer.pixel, TileLayer.pixelData]
  rw [pmxrTileAddr_toNat visible, nibble, entry, column, pixelrow_toNat]
  rfl

end Prepared

end FPGame.Ppu
