import FPGame.Ppu.TileEngine

/-!
# The position that a tile engine shows

The upper left pixel of the screen is some pixel of the map of a layer.
`ShowsFrom` says which: whatever the RAMs hold, the engine answers for every
pixel of the screen with the pixel of the map that lies as far from there. A map
with one lit pixel tells any two positions apart, so that the position is read off
the scroll register and is the only one (`showsFrom_iff`).
-/

set_option autoImplicit false

namespace FPGame.TileEngine

open FPGame.Foundation FPGame.Ppu

/-- With its scroll register held at a value, an engine that is enabled shows the
map of its layer from a position on. -/
def ShowsFrom (fg : Bool) (scroll : BitVec 32) (x y : ℕ) : Prop :=
  ∀ (powerUp : Memories) (inputs : ℕ → Input) (t u : ℕ),
    Accepts ((machine fg powerUp).run inputs t) (inputs t) → t + 66 ≤ u →
    (∀ v, t < v → v < u → ¬ Accepts ((machine fg powerUp).run inputs v) (inputs v)) →
    (∀ v, t ≤ v → v ≤ u → Held (inputs t) (inputs v)) →
    (inputs t).scroll = scroll → (inputs (u + 2)).enable = true →
    (inputs t).nextRow.toNat < 240 → (inputs u).pmxrPixelAddr.toNat < 320 →
    pmxrPixelData ((machine fg powerUp).run inputs (u + 2)) (inputs (u + 2)) =
      mapPixel fg (inputs t).tileRam (inputs t).patRam
        ((x + (inputs u).pmxrPixelAddr.toNat) % 512) ((y + (inputs t).nextRow.toNat) % 512)

/-! ## A map with one lit pixel -/

/-- A field of a word that is zero elsewhere. -/
theorem lane_placed {w j k : ℕ} (field : BitVec w) (inside : w * k + w ≤ 64) :
    lane w k (field.setWidth 64 <<< (w * j)) = if k = j then field else 0 := by
  apply BitVec.eq_of_getLsbD_eq
  intro i small
  have within : w * k + i < 64 := by omega
  simp only [lane, BitVec.getLsbD_extractLsb', BitVec.getLsbD_shiftLeft, BitVec.getLsbD_setWidth,
    small, within, decide_true, Bool.true_and]
  rcases Nat.lt_trichotomy k j with before | rfl | after
  · have room : w * (k + 1) ≤ w * j := Nat.mul_le_mul_left w before
    rw [Nat.mul_add] at room
    rw [if_neg (by omega), decide_eq_true (show w * k + i < w * j by omega), Bool.not_true,
      Bool.false_and]
    exact BitVec.getLsbD_zero.symm
  · rw [if_pos rfl, decide_eq_false (show ¬ w * k + i < w * k by omega),
      show w * k + i - w * k = i by omega, Bool.not_false, Bool.true_and,
      decide_eq_true (show i < 64 by omega), Bool.true_and]
  · have room : w * (j + 1) ≤ w * k := Nat.mul_le_mul_left w after
    rw [Nat.mul_add] at room
    rw [if_neg (by omega), BitVec.getLsbD_of_ge field _ (by omega), Bool.and_false, Bool.and_false]
    exact BitVec.getLsbD_zero.symm

/-- All tiles have pattern 0 but for the one at a pixel, which has pattern 1. -/
def litTiles (fg : Bool) (x y : ℕ) : TileRam := fun a =>
  if a = BitVec.ofNat 11 (1024 * fg.toNat + 16 * (y / 8) + x / 8 / 4) then
    (0x40 : BitVec 16).setWidth 64 <<< (16 * (x / 8 % 4))
  else 0

/-- One pixel of pattern 1 is lit. -/
def litPattern (x y : ℕ) : PatternRam := fun a =>
  if a = BitVec.ofNat 12 (4 + y % 8 / 2) then
    (15 : BitVec 4).setWidth 64 <<< (4 * (8 * (y % 8 % 2) + x % 8))
  else 0

section Lit

variable {fg : Bool} {x y x' y' : ℕ}

theorem ofNat_eq_iff {w a b : ℕ} (first : a < 2 ^ w) (second : b < 2 ^ w) :
    BitVec.ofNat w a = BitVec.ofNat w b ↔ a = b := by
  constructor
  · intro same
    have numbers := congrArg BitVec.toNat same
    rwa [BitVec.toNat_ofNat, BitVec.toNat_ofNat, Nat.mod_eq_of_lt first,
      Nat.mod_eq_of_lt second] at numbers
  · exact congrArg (BitVec.ofNat w)

theorem tileEntry_lit (row : y < 512) (column : x < 512) (row' : y' < 512)
    (column' : x' < 512) :
    tileEntry fg (litTiles fg x y) (x' / 8) (y' / 8) =
      if x' / 8 = x / 8 ∧ y' / 8 = y / 8 then 0x40 else 0 := by
  have layer : fg.toNat < 2 := Bool.toNat_lt fg
  have word : BitVec.ofNat 11 (1024 * fg.toNat + 16 * (y' / 8) + x' / 8 / 4) =
      BitVec.ofNat 11 (1024 * fg.toNat + 16 * (y / 8) + x / 8 / 4) ↔
        y' / 8 = y / 8 ∧ x' / 8 / 4 = x / 8 / 4 := by
    rw [ofNat_eq_iff (show _ < 2048 by omega) (show _ < 2048 by omega)]
    omega
  rw [tileEntry, litTiles]
  by_cases here : y' / 8 = y / 8 ∧ x' / 8 / 4 = x / 8 / 4
  · rw [if_pos (word.mpr here), lane_placed _ (by omega)]
    by_cases tile : x' / 8 % 4 = x / 8 % 4
    · rw [if_pos tile, if_pos (by omega)]
    · rw [if_neg tile, if_neg (by omega)]
  · rw [if_neg fun same => here (word.mp same), if_neg (by omega)]
    exact BitVec.extractLsb'_zero

/-- A pattern has a lit pixel only if it is pattern 1. -/
theorem patternPixel_lit {name u v : ℕ} (few : name < 2) (column : u < 8) (row : v < 8) :
    patternPixel (litPattern x y) name u v =
      if name = 1 ∧ u = x % 8 ∧ v = y % 8 then 15 else 0 := by
  have word : BitVec.ofNat 12 (4 * name + v / 2) = BitVec.ofNat 12 (4 + y % 8 / 2) ↔
      name = 1 ∧ v / 2 = y % 8 / 2 := by
    rw [ofNat_eq_iff (show _ < 4096 by omega) (show _ < 4096 by omega)]
    omega
  rw [patternPixel, litPattern]
  by_cases here : name = 1 ∧ v / 2 = y % 8 / 2
  · rw [if_pos (word.mpr here), lane_placed _ (by omega)]
    by_cases nibble : 8 * (v % 2) + u = 8 * (y % 8 % 2) + x % 8
    · rw [if_pos nibble, if_pos (by omega)]
    · rw [if_neg nibble, if_neg (by omega)]
  · rw [if_neg fun same => here (word.mp same), if_neg (by omega)]
    exact BitVec.extractLsb'_zero

/-- **One pixel of the map is lit.** -/
theorem mapPixel_lit (row : y < 512) (column : x < 512) (row' : y' < 512) (column' : x' < 512) :
    mapPixel fg (litTiles fg x y) (litPattern x y) x' y' = if x' = x ∧ y' = y then 15 else 0 := by
  rw [mapPixel, tileEntry_lit row column row' column']
  by_cases tile : x' / 8 = x / 8 ∧ y' / 8 = y / 8
  · rw [if_pos tile]
    show ((0 : BitVec 4) ++ patternPixel (litPattern x y) 1 (x' % 8) (y' % 8) : BitVec (4 + 4)) = _
    rw [patternPixel_lit (by decide) (by omega) (by omega)]
    by_cases pixel : x' % 8 = x % 8 ∧ y' % 8 = y % 8
    · rw [if_pos ⟨rfl, pixel⟩, if_pos (by omega)]
      rfl
    · rw [if_neg fun same => pixel same.2, if_neg (by omega)]
      rfl
  · rw [if_neg tile, if_neg (by omega)]
    show ((0 : BitVec 4) ++ patternPixel (litPattern x y) 0 (x' % 8) (y' % 8) : BitVec (4 + 4)) = _
    rw [patternPixel_lit (by decide) (by omega) (by omega), if_neg fun same => by cases same.1]
    rfl

end Lit

/-! ## The position -/

section Position

variable {fg : Bool} {scroll : BitVec 32} {x y : ℕ}

/-- All memories are zero. -/
def zeroMemories : Memories :=
  ⟨⟨fun _ => 0, fun _ => 0⟩, ⟨⟨0, 0⟩, ⟨0, 0⟩⟩, ⟨0, 0⟩, ⟨0, 0⟩⟩

/-- The upper row is prepared, for a map that is lit at the position. -/
def litRow (fg : Bool) (scroll : BitVec 32) (v : ℕ) : Input where
  prep := decide (v = 0)
  nextRow := 0
  scroll := scroll
  enable := true
  pmxrPixelAddr := 0
  tileRam := litTiles fg (scrollX scroll).toNat (scrollY scroll).toNat
  patRam := litPattern (scrollX scroll).toNat (scrollY scroll).toNat

/-- **The position is the one in the scroll register.** -/
theorem showsFrom_iff :
    ShowsFrom fg scroll x y ↔
      x % 512 = (scrollX scroll).toNat ∧ y % 512 = (scrollY scroll).toNat := by
  have column := (scrollX scroll).isLt
  have row := (scrollY scroll).isLt
  constructor
  · intro shows
    have accepted : Accepts ((machine fg zeroMemories).run (litRow fg scroll) 0)
        (litRow fg scroll 0) := ⟨rfl, rfl⟩
    have alone : ∀ v, 0 < v → v < 66 →
        ¬ Accepts ((machine fg zeroMemories).run (litRow fg scroll) v) (litRow fg scroll v) := by
      intro v after _ again
      have prep : decide (v = 0) = true := again.2
      exact absurd (of_decide_eq_true prep) (by omega)
    have shown := shows _ _ 0 66 accepted le_rfl alone (fun _ _ _ => ⟨rfl, rfl, rfl, rfl⟩) rfl rfl
      (show 0 < 240 by decide) (show 0 < 320 by decide)
    -- the engine answers with the pixel that is lit
    have answer := answered accepted le_rfl alone (fun _ _ _ => ⟨rfl, rfl, rfl, rfl⟩)
      (show 0 < 320 by decide)
    rw [shown] at answer
    have lit : mapPixel fg (litTiles fg (scrollX scroll).toNat (scrollY scroll).toNat)
        (litPattern (scrollX scroll).toNat (scrollY scroll).toNat) ((x + 0) % 512)
        ((y + 0) % 512) =
        mapPixel fg (litTiles fg (scrollX scroll).toNat (scrollY scroll).toNat)
        (litPattern (scrollX scroll).toNat (scrollY scroll).toNat)
        (((scrollX scroll).toNat + 0) % 512) (((scrollY scroll).toNat + 0) % 512) := answer
    rw [mapPixel_lit row column (by omega) (by omega), mapPixel_lit row column (by omega)
      (by omega)] at lit
    by_contra elsewhere
    rw [if_neg (by omega), if_pos (by omega)] at lit
    exact absurd lit (by decide)
  · rintro ⟨sameColumn, sameRow⟩ powerUp inputs t u accepted past alone held rfl enable _ visible
    have columns : ((scrollX (inputs t).scroll).toNat + (inputs u).pmxrPixelAddr.toNat) % 512 =
        (x + (inputs u).pmxrPixelAddr.toNat) % 512 := by
      omega
    have rows : ((scrollY (inputs t).scroll).toNat + (inputs t).nextRow.toNat) % 512 =
        (y + (inputs t).nextRow.toNat) % 512 := by
      omega
    rw [answered accepted past alone held visible, if_pos enable, tilePixel, columns, rows]

end Position

end FPGame.TileEngine
