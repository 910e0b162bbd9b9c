import FPGame.Ppu.SpriteScan
import FPGame.Ppu.TileRow

/-!
# The sprite layer

What the sprite engine is for is stated without its registers: `spritesOnRow`
are the first sixteen sprites that lie on a row, and `layerPixel` is the pixel
of the one among them that wins at a column. `Walks` says which data the engine
carries in each phase of its walk through OAM; at its end the sprite file holds
the pattern rows of `spritesOnRow`, so that its answers are `layerPixel`.
-/

set_option autoImplicit false

namespace FPGame.Ppu

open FPGame.Foundation

/-! ## The purpose of the engine -/

namespace SpriteConf

variable (s : SpriteConf)

/-- A sprite is up to four tiles wide and high. -/
def width : ℕ := 8 * (s.w.toNat + 1)

def height : ℕ := 8 * (s.h.toNat + 1)

def OnRow (row : ℕ) : Prop := s.y.toNat ≤ row ∧ row < s.y.toNat + s.height

def OnColumn (column : ℕ) : Prop := s.x.toNat ≤ column ∧ column < s.x.toNat + s.width

instance (row : ℕ) : Decidable (s.OnRow row) := inferInstanceAs (Decidable (_ ∧ _))

instance (column : ℕ) : Decidable (s.OnColumn column) := inferInstanceAs (Decidable (_ ∧ _))

/-- A coordinate within the picture, counted from the other side if mirrored. -/
def pictureX (dx : ℕ) : ℕ := if s.xMirror then s.width - 1 - dx else dx

def pictureY (dy : ℕ) : ℕ := if s.yMirror then s.height - 1 - dy else dy

/-- The pattern of a tile of the picture. The patterns form a map of 32 by 32
tiles, in which a picture wraps around. -/
def pictureTile (u v : ℕ) : ℕ :=
  32 * ((s.tile.toNat / 32 + v) % 32) + (s.tile.toNat % 32 + u) % 32

/-- The pixel of a sprite at an offset from its upper left corner. -/
def picturePixel (patRam : PatternRam) (dx dy : ℕ) : BitVec 4 :=
  patternPixel patRam (s.pictureTile (s.pictureX dx / 8) (s.pictureY dy / 8))
    (s.pictureX dx % 8) (s.pictureY dy % 8)

/-- The pixel of a sprite at a position of the screen. -/
def screenPixel (patRam : PatternRam) (row column : ℕ) : BitVec 4 :=
  s.picturePixel patRam (column - s.x.toNat) (row - s.y.toNat)

/-- The sprite shows something in a column of a row on which it lies. -/
def Shows (patRam : PatternRam) (row column : ℕ) : Prop :=
  s.OnColumn column ∧ s.screenPixel patRam row column ≠ 0

instance (patRam : PatternRam) (row column : ℕ) : Decidable (s.Shows patRam row column) :=
  inferInstanceAs (Decidable (_ ∧ _))

end SpriteConf

/-- The sprites of a row, in the order of OAM. -/
def spritesOnRow (oam : ℕ → SpriteConf) (row : ℕ) : List SpriteConf :=
  (((List.range 64).map oam).filter (SpriteConf.OnRow · row)).take 16

/-- The sprite that wins among those that show something. -/
def winner (shown : List SpriteConf) : Option SpriteConf :=
  if shown.any SpriteConf.fgPrio then shown.find? SpriteConf.fgPrio
  else if shown.any SpriteConf.bgPrio then shown.find? SpriteConf.bgPrio
  else shown.head?

/-- The palette, the pixel and the priority of the winner. -/
def layerPixel (oam : ℕ → SpriteConf) (patRam : PatternRam) (row column : ℕ) :
    BitVec 9 × BitVec 2 :=
  match winner ((spritesOnRow oam row).filter (SpriteConf.Shows · patRam row column)) with
  | some s =>
      (s.palette ++ s.screenPixel patRam row column,
        BitVec.ofBool s.fgPrio ++ BitVec.ofBool s.bgPrio)
  | none => (0, 0)

/-! ## Addresses and offsets as numbers -/

namespace SpriteConf

variable {s : SpriteConf} {row : BitVec 8}

theorem toNat_limit (offset : BitVec 2) :
    ((offset.zeroExtend 3 + 1) ++ 0#3 : BitVec 6).toNat = 8 * (offset.toNat + 1) := by
  have small := offset.isLt
  rw [toNat_append_add, BitVec.toNat_add, BitVec.toNat_setWidth]
  show (offset.toNat % 8 + 1) % 8 * 2 ^ 3 + 0 = _
  omega

/-- The comparators of the scanner compute no overflow. -/
theorem inRange_iff : s.inRange row = true ↔ s.OnRow row.toNat := by
  have small := s.h.isLt
  have rows := row.isLt
  have top := s.y.isLt
  have limit : s.hLimit.toNat = s.y.toNat + s.height := by
    rw [hLimit, BitVec.toNat_add, BitVec.toNat_setWidth, BitVec.toNat_setWidth, hOffset,
      toNat_limit, height]
    omega
  have wide : (row.zeroExtend 9).toNat = row.toNat := by
    rw [BitVec.toNat_setWidth]
    omega
  rw [inRange, Bool.and_eq_true, decide_eq_true_eq, decide_eq_true_eq, BitVec.le_def,
    BitVec.lt_def, limit, wide, OnRow]

/-- An offset within a size, mirrored in it, fits in five bits. -/
theorem mirror_eq_ofNat {size : BitVec 2} {offset : BitVec 5}
    (within : offset.toNat < 8 * (size.toNat + 1)) :
    (((size.zeroExtend 3 + 1) ++ 0#3 : BitVec 6) - 1 - offset.zeroExtend 6).setWidth 5 =
      BitVec.ofNat 5 (8 * (size.toNat + 1) - 1 - offset.toNat) := by
  have small := size.isLt
  have wide : (offset.zeroExtend 6).toNat = offset.toNat := by
    rw [BitVec.toNat_setWidth]
    omega
  apply BitVec.eq_of_toNat_eq
  rw [BitVec.toNat_setWidth, BitVec.toNat_sub, BitVec.toNat_sub, toNat_limit, wide,
    BitVec.toNat_ofNat, show (1 : BitVec 6).toNat = 1 from rfl]
  omega

theorem toNat_rowIndex (inside : s.OnRow row.toNat) :
    (s.rowIndex row).toNat = s.pictureY (row.toNat - s.y.toNat) := by
  obtain ⟨above, below⟩ := inside
  have small := s.h.isLt
  have rows := row.isLt
  have offset : (s.rowOffset row).toNat = row.toNat - s.y.toNat := by
    rw [rowOffset, BitVec.toNat_setWidth, BitVec.toNat_sub]
    simp only [height] at below
    omega
  simp only [height] at below
  rw [rowIndex, pictureY, height]
  split_ifs with mirror
  · rw [mirrorLimit, hOffset, mirror_eq_ofNat (by omega), BitVec.toNat_ofNat, offset]
    omega
  · exact offset

/-- The address of a pattern row of a sprite. -/
theorem toNat_patternAddr (inside : s.OnRow row.toNat) {k : ℕ} (within : k < 4) :
    (s.patternAddr row (BitVec.ofNat 2 k)).toNat =
      8 * s.pictureTile k (s.pictureY (row.toNat - s.y.toNat) / 8) +
        s.pictureY (row.toNat - s.y.toNat) % 8 := by
  have index := toNat_rowIndex inside
  have five := (s.rowIndex row).isLt
  have tile := s.tile.isLt
  have tileX : (s.tileX (BitVec.ofNat 2 k)).toNat = (s.tile.toNat % 32 + k) % 32 := by
    rw [SpriteConf.tileX, BitVec.toNat_add, BitVec.extractLsb'_toNat, BitVec.toNat_setWidth,
      BitVec.toNat_ofNat, Nat.shiftRight_zero]
    omega
  have tileY : (s.tileY row).toNat =
      (s.tile.toNat / 32 + s.pictureY (row.toNat - s.y.toNat) / 8) % 32 := by
    rw [SpriteConf.tileY, BitVec.toNat_add, BitVec.extractLsb'_toNat, BitVec.toNat_setWidth,
      BitVec.extractLsb'_toNat, Nat.shiftRight_eq_div_pow, Nat.shiftRight_eq_div_pow, index]
    omega
  have tileRow : (s.tileRow row).toNat = s.pictureY (row.toNat - s.y.toNat) % 8 := by
    rw [SpriteConf.tileRow, BitVec.extractLsb'_toNat, Nat.shiftRight_zero, index]
  rw [patternAddr, toNat_append_add, toNat_append_add, tileX, tileY, tileRow, pictureTile]
  omega

end SpriteConf

/-! ## A loaded sprite -/

/-- Row `k` of the pattern of a sprite, as `pattern_wrapper` reads it. -/
def patternRow (patram : ℕ → BitVec 64) (s : SpriteConf) (row : BitVec 8) (k : ℕ) : BitVec 32 :=
  lane 32 ((s.patternAddr row (BitVec.ofNat 2 k)).toNat % 2)
    (patram ((s.patternAddr row (BitVec.ofNat 2 k)).toNat / 2))

/-- What the manager offers for an entry of OAM. The rows past the width of the
sprite are those of another one. -/
structure Loaded (patram : ℕ → BitVec 64) (row : BitVec 8) (s : SpriteConf) (reg : SpriteReg) :
    Prop where
  onRow : s.OnRow row.toNat
  conf : reg.conf = s.stripped
  pat : ∀ k : Fin 4, k.val ≤ s.w.toNat → reg.pat k = patternRow patram s row k.val

section Loaded

variable {patram : ℕ → BitVec 64} {row : BitVec 8} {s : SpriteConf} {reg : SpriteReg}

/-- Pattern RAM, as the mixers of the tile layers see it. -/
abbrev patternRam (patram : ℕ → BitVec 64) : PatternRam := fun a => patram a.toNat

/-- A nibble of a row that has been read. -/
theorem lane_patternRow (inside : s.OnRow row.toNat) {k u : ℕ} (within : k < 4) (nibble : u < 8) :
    lane 4 u (patternRow patram s row k) =
      patternPixel (patternRam patram)
        (s.pictureTile k (s.pictureY (row.toNat - s.y.toNat) / 8)) u
        (s.pictureY (row.toNat - s.y.toNat) % 8) := by
  obtain ⟨y, y_eq⟩ : ∃ y, y = s.pictureY (row.toNat - s.y.toNat) := ⟨_, rfl⟩
  have address := SpriteConf.toNat_patternAddr inside within
  rw [← y_eq] at address ⊢
  have name : s.pictureTile k (y / 8) < 1024 := by
    rw [SpriteConf.pictureTile]
    omega
  have word : (BitVec.ofNat 12 (4 * s.pictureTile k (y / 8) + y % 8 / 2)).toNat =
      (s.patternAddr row (BitVec.ofNat 2 k)).toNat / 2 := by
    rw [BitVec.toNat_ofNat, address]
    omega
  have half : (s.patternAddr row (BitVec.ofNat 2 k)).toNat % 2 = y % 8 % 2 := by
    rw [address]
    omega
  rw [patternPixel, patternRam, word, patternRow, half]
  exact lane_half _ nibble

theorem Loaded.onColumn_iff (loaded : Loaded patram row s reg) (col : BitVec 9) :
    (reg.conf.x ≤ col ∧ col.zeroExtend 10 < reg.widthLimit) ↔ s.OnColumn col.toNat := by
  have small := s.w.isLt
  have columns := col.isLt
  have left := s.x.isLt
  have limit : reg.widthLimit.toNat = s.x.toNat + s.width := by
    rw [SpriteReg.widthLimit, BitVec.toNat_add, BitVec.toNat_setWidth, BitVec.toNat_setWidth,
      SpriteReg.wOffset, SpriteConf.toNat_limit, loaded.conf, SpriteConf.width]
    show (s.x.toNat % 2 ^ 10 + 8 * (s.w.toNat + 1) % 2 ^ 10) % 2 ^ 10 = _
    omega
  have wide : (col.zeroExtend 10).toNat = col.toNat := by
    rw [BitVec.toNat_setWidth]
    omega
  rw [BitVec.le_def, BitVec.lt_def, limit, wide, loaded.conf, SpriteConf.OnColumn]
  exact Iff.rfl

theorem Loaded.toNat_patIndex (loaded : Loaded patram row s reg) {col : BitVec 9}
    (inside : s.OnColumn col.toNat) :
    (reg.patIndex col).toNat = s.pictureX (col.toNat - s.x.toNat) := by
  obtain ⟨after, before⟩ := inside
  have small := s.w.isLt
  have columns := col.isLt
  simp only [SpriteConf.width] at before
  have offset : (reg.patOffset col).toNat = col.toNat - s.x.toNat := by
    rw [SpriteReg.patOffset, BitVec.toNat_setWidth, BitVec.toNat_sub, loaded.conf]
    show (2 ^ 9 - s.x.toNat + col.toNat) % 2 ^ 9 % 2 ^ 5 = _
    omega
  have width : reg.conf.w = s.w := by rw [loaded.conf]; rfl
  have mirror : reg.conf.xMirror = s.xMirror := by rw [loaded.conf]; rfl
  rw [SpriteReg.patIndex, SpriteConf.pictureX, mirror, SpriteConf.width]
  split_ifs
  · rw [SpriteReg.mirrorLimit, SpriteReg.wOffset, width,
      SpriteConf.mirror_eq_ofNat (by omega), BitVec.toNat_ofNat, offset]
    omega
  · exact offset

/-- **The pixel of a loaded sprite.** -/
theorem Loaded.patPixel_eq (loaded : Loaded patram row s reg) {col : BitVec 9}
    (inside : s.OnColumn col.toNat) :
    reg.patPixel (reg.patIndex col) =
      s.screenPixel (patternRam patram) row.toNat col.toNat := by
  have index := loaded.toNat_patIndex inside
  have within : s.pictureX (col.toNat - s.x.toNat) / 8 ≤ s.w.toNat := by
    have before := inside.2
    simp only [SpriteConf.width] at before
    simp only [SpriteConf.pictureX, SpriteConf.width]
    split_ifs <;> omega
  have small := s.w.isLt
  have stored : (reg.patIndex col).toNat / 8 ≤ s.w.toNat := index ▸ within
  rw [SpriteReg.patPixel, loaded.pat _ stored]
  show lane 4 ((reg.patIndex col).toNat % 8)
    (patternRow patram s row ((reg.patIndex col).toNat / 8)) = _
  rw [index, lane_patternRow loaded.onRow (by omega) (Nat.mod_lt _ (by decide))]
  rfl

/-- What a loaded sprite shows in a column. -/
theorem Loaded.visible_iff (loaded : Loaded patram row s reg) (col : BitVec 9) :
    (reg.pixel col).visible = true ↔ s.Shows (patternRam patram) row.toNat col.toNat := by
  have onColumn := loaded.onColumn_iff col
  simp only [SpriteReg.pixel, Bool.and_eq_true, decide_eq_true_eq, bne_iff_ne, and_assoc, onColumn]
  constructor
  · rintro ⟨nonzero, inside⟩
    rw [loaded.patPixel_eq inside] at nonzero
    exact ⟨inside, nonzero⟩
  · rintro ⟨inside, nonzero⟩
    rw [loaded.patPixel_eq inside]
    exact ⟨nonzero, inside⟩

end Loaded

/-! ## The answer of the sprite file -/

section Answer

variable {patram : ℕ → BitVec 64} {row : BitVec 8} {confs : List SpriteConf}
  {regs : List SpriteReg}

/-- What the tournament sees of a sprite that shows something. -/
def shownPixel (patRam : PatternRam) (row column : ℕ) (s : SpriteConf) : SpritePixel where
  palette := s.palette
  pixel := s.screenPixel patRam row column
  fgPrio := s.fgPrio
  bgPrio := s.bgPrio
  visible := true

/-- The visible units are those of the sprites that show something. -/
theorem filter_visible (loaded : List.Forall₂ (Loaded patram row) confs regs) (col : BitVec 9) :
    (regs.map (SpriteReg.pixel · col)).filter SpritePixel.visible =
      (confs.filter (SpriteConf.Shows · (patternRam patram) row.toNat col.toNat)).map
        (shownPixel (patternRam patram) row.toNat col.toNat) := by
  induction loaded with
  | nil => rfl
  | @cons s reg confs regs here rest ih =>
      by_cases shows : s.Shows (patternRam patram) row.toNat col.toNat
      · have visible := (here.visible_iff col).mpr shows
        have same : reg.pixel col = shownPixel (patternRam patram) row.toNat col.toNat s := by
          have seen : reg.pixel col = { reg.pixel col with visible := true } := by
            rw [← visible]
          rw [seen]
          simp only [SpriteReg.pixel, here.patPixel_eq shows.1, here.conf]
          rfl
        rw [List.map_cons, List.filter_cons_of_pos visible, ih, same]
        simp only [List.filter_cons, shows, decide_true, if_true, List.map_cons]
      · have invisible := mt (here.visible_iff col).mp shows
        rw [List.map_cons, List.filter_cons_of_neg invisible, ih]
        simp only [List.filter_cons, shows, decide_false, Bool.false_eq_true, if_false]

/-- The tournament selects the winner. -/
theorem tournament_shown (patRam : PatternRam) (row column : ℕ) (shown : List SpriteConf) :
    tournament (shown.map (shownPixel patRam row column)) =
      match winner shown with
      | some s =>
          (s.palette ++ s.screenPixel patRam row column,
            BitVec.ofBool s.fgPrio ++ BitVec.ofBool s.bgPrio)
      | none => (0, 0) := by
  have any : ∀ prio : SpritePixel → Bool,
      (shown.map (shownPixel patRam row column)).any (fun q => prio q && q.visible) =
        shown.any fun s => prio (shownPixel patRam row column s) := by
    intro prio
    rw [List.any_map]
    congr 1
    funext s
    exact Bool.and_true _
  have found : (shown.map (shownPixel patRam row column)).find?
        (selMask (shown.map (shownPixel patRam row column))) =
      (winner shown).map (shownPixel patRam row column) := by
    rw [List.find?_map]
    congr 1
    have mask : selMask (shown.map (shownPixel patRam row column)) ∘ shownPixel patRam row column =
        fun s => if shown.any SpriteConf.fgPrio then s.fgPrio
          else if shown.any SpriteConf.bgPrio then s.bgPrio else true := by
      funext s
      simp only [Function.comp, selMask, any SpritePixel.fgPrio, any SpritePixel.bgPrio, shownPixel,
        Bool.and_true]
    rw [mask, winner]
    split_ifs
    · rfl
    · rfl
    · cases shown <;> rfl
  rw [tournament, found]
  cases winner shown <;> rfl

end Answer

/-! ## What the walk carries -/

namespace SpriteEngine

/-- The sprites of the row among the first `k` entries of OAM. -/
def selected (sprram : ℕ → BitVec 64) (row : BitVec 8) (k : ℕ) : List SpriteConf :=
  ((List.range k).map (oamEntry sprram)).filter (SpriteConf.inRange · row)

theorem selected_succ (sprram : ℕ → BitVec 64) (row : BitVec 8) (k : ℕ) :
    selected sprram row (k + 1) =
      selected sprram row k ++
        if (oamEntry sprram k).inRange row then [oamEntry sprram k] else [] := by
  rw [selected, List.range_succ, List.map_append, List.filter_append, selected, List.map_singleton,
    List.filter_singleton]
  cases (oamEntry sprram k).inRange row <;> rfl

theorem selected_le (sprram : ℕ → BitVec 64) (row : BitVec 8) {k m : ℕ} (le : k ≤ m) :
    selected sprram row k <+: selected sprram row m := by
  induction m, le using Nat.le_induction with
  | base => exact List.prefix_refl _
  | succ m _ ih =>
      rw [selected_succ]
      exact ih.trans (List.prefix_append _ _)

/-- When all entries have been looked at or the line is full, the sprites found
are those of the row. -/
theorem selected_eq {sprram : ℕ → BitVec 64} {row : BitVec 8} {i : ℕ} (entries : i ≤ 64)
    (le : (selected sprram row i).length ≤ 16)
    (all : i = 64 ∨ (selected sprram row i).length = 16) :
    selected sprram row i = spritesOnRow (oamEntry sprram) row.toNat := by
  have whole : spritesOnRow (oamEntry sprram) row.toNat = (selected sprram row 64).take 16 := by
    have same : (fun s : SpriteConf => decide (s.OnRow row.toNat)) =
        fun s => s.inRange row := by
      funext s
      rw [Bool.eq_iff_iff, decide_eq_true_eq, SpriteConf.inRange_iff]
    rw [spritesOnRow, selected, same]
  rw [whole]
  rcases all with rfl | full
  · exact (List.take_of_length_le le).symm
  · obtain ⟨rest, split⟩ := selected_le sprram row entries
    rw [← split, ← full, List.take_left]

/-- The entries whose sprites are in the sprite file or out of range. -/
def Phase.handled (phase : Phase) (i : ℕ) : ℕ := if phase.busy then i - 1 else i

section Carries

variable (sprram patram : ℕ → BitVec 64) (row : BitVec 8) (i : ℕ) (s : State)

/-- The manager has taken the entry before `i`. -/
structure Taken : Prop where
  conf : s.manager.spriteConf = oamEntry sprram (i - 1)
  inRange : s.manager.spriteConf.inRange row = true

/-- The manager has stored the first `k` pattern rows. -/
def Stored (k : ℕ) : Prop :=
  ∀ l : Fin 4, l.val < k →
    s.manager.patBuf l = patternRow patram s.manager.spriteConf row l.val

/-- What has been read two clocks before, one clock before, and stored. -/
structure Reading (p : ℕ) : Prop where
  fetched : 1 ≤ p → p ≤ s.manager.spriteConf.w.toNat + 1 →
    lane 32 s.pat.selPipe.mid s.pat.patram.fetched =
      patternRow patram s.manager.spriteConf row (p - 1)
  arrived : 2 ≤ p → p ≤ s.manager.spriteConf.w.toNat + 2 →
    s.pat.patternData = patternRow patram s.manager.spriteConf row (p - 2)
  stored : Stored patram row s (min (p - 2) (s.manager.spriteConf.w.toNat + 1))

/-- The data that belongs to a phase. -/
def Carries : Phase → Prop
  | .fetch =>
      oamData s.oam.sprramA.fetched s.oam.sprramB.fetched (i - 1) = oamEntry sprram (i - 1) ∧
        s.oam.mainSel.mid = oamMainLane (i - 1) ∧ s.oam.extSel.mid = oamExtLane (i - 1)
  | .answer => s.oam.oamData = oamEntry sprram (i - 1)
  | .pattern p => Taken sprram row i s ∧ Reading patram row s p
  | .send => Taken sprram row i s ∧ Stored patram row s (s.manager.spriteConf.w.toNat + 1)
  | _ => True

/-- A walk with its data. -/
structure Walks (phase : Phase) (n : ℕ) : Prop where
  inPhase : InPhase phase i n s
  register : s.row = row
  carries : Carries sprram patram row i s phase
  file : List.Forall₂ (Loaded patram row) (selected sprram row (phase.handled i))
    (SpriteFile.contents s.chain)

end Carries

section Step

variable {sprram patram : ℕ → BitVec 64} {row : BitVec 8} {phase phase' : Phase}
  {i i' n n' : ℕ} {s : State} {x : Input}

/-- The rows that have arrived are stored one after the other. -/
theorem stored_next {p : ℕ} (here : InPhase (.pattern p) i n s) (quiet : clear s x = false)
    (reading : Reading patram row s p) :
    Stored patram row (next s x) (min (p - 1) (s.manager.spriteConf.w.toNat + 1)) := by
  obtain ⟨bound, -, ack⟩ := here.counters p rfl
  obtain ⟨-, conf, patBuf, -⟩ := pattern_manager here quiet
  have avail : (managerInput s x).patternAvail =
      decide (2 ≤ p ∧ p ≤ s.manager.spriteConf.w.toNat + 2) := congrArg Debounce.out here.patPipe
  intro l before
  rw [patBuf, conf, SpriteManager.nextPatBuf, here.manager, avail, ack]
  split_ifs with arrives
  · obtain ⟨-, inTime, this⟩ := arrives
    obtain ⟨late, early⟩ := of_decide_eq_true inTime
    rw [← this, Nat.min_eq_left (by omega)]
    exact reading.arrived late early
  · refine reading.stored l ?_
    have other : ¬ (2 ≤ p ∧ p ≤ s.manager.spriteConf.w.toNat + 2 ∧
        min (p - 2) (s.manager.spriteConf.w.toNat + 1) = l.val) := fun inside =>
      arrives ⟨rfl, decide_eq_true ⟨inside.1, inside.2.1⟩, inside.2.2⟩
    omega

/-- The walk goes from the lower entries to the higher ones. -/
theorem Follows.le (follows : Follows s phase i n phase' i' n') : i ≤ i' := by
  cases follows <;> omega

/-- Row `p` is being read. -/
theorem fetched_next {p : ℕ} (here : InPhase (.pattern p) i n s) (register : s.row = row)
    (reads : p ≤ s.manager.spriteConf.w.toNat) (same : x.patram = patram) :
    lane 32 (next s x).pat.selPipe.mid (next s x).pat.patram.fetched =
      patternRow patram s.manager.spriteConf row p := by
  obtain ⟨-, req, -⟩ := here.counters p rfl
  have small := s.manager.spriteConf.w.isLt
  have index : s.manager.readReqCount.setWidth 2 = BitVec.ofNat 2 p := by
    apply BitVec.eq_of_toNat_eq
    rw [BitVec.toNat_setWidth, req, BitVec.toNat_ofNat, Nat.min_eq_left (by omega)]
  show lane 32 ((s.manager.patternAddr s.row).toNat % 2)
    (x.patram ((s.manager.patternAddr s.row).toNat / 2)) = _
  rw [SpriteManager.patternAddr, index, same, register]
  rfl

theorem Follows.carries (follows : Follows s phase i n phase' i' n')
    (walks : Walks sprram patram row i s phase n) (quiet : clear s x = false)
    (rams : phase.ended = false →
      oamEntry x.sprram i = oamEntry sprram i ∧ x.patram = patram) :
    Carries sprram patram row i' (SpriteEngine.next s x) phase' := by
  have here := walks.inPhase
  have carries := walks.carries
  cases follows with
  | signal | skip | sent | rest => trivial
  | fetch more room =>
      show oamData (x.sprram (oamMainWord s.scanner.oamAddr.toNat))
          (x.sprram (oamExtWord s.scanner.oamAddr.toNat)) i = oamEntry sprram i ∧
        oamMainLane s.scanner.oamAddr.toNat = oamMainLane i ∧
        oamExtLane s.scanner.oamAddr.toNat = oamExtLane i
      rw [here.oamAddr]
      exact ⟨(rams rfl).1, rfl, rfl⟩
  | answer =>
      obtain ⟨entry, mainSel, extSel⟩ := carries
      show SpriteConf.ofBits (lane 32 s.oam.mainSel.mid s.oam.sprramA.fetched ++
        lane 8 s.oam.extSel.mid s.oam.sprramB.fetched) = _
      rw [mainSel, extSel]
      exact entry
  | take inside =>
      have conf : (SpriteEngine.next s x).manager.spriteConf = s.oam.oamData := by
        rw [answer_manager here quiet]
        exact if_pos inside
      refine ⟨⟨conf.trans carries, ?_⟩, nofun, nofun, fun l before => ?_⟩
      · rw [conf, ← walks.register]
        exact inside
      · rw [Nat.zero_sub, Nat.zero_min] at before
        exact absurd before (Nat.not_lt_zero _)
  | @row p _ _ more =>
      obtain ⟨taken, reading⟩ := carries
      have conf := (pattern_manager here quiet).2.1
      refine ⟨⟨conf ▸ taken.conf, conf ▸ taken.inRange⟩, fun after before => ?_,
        fun after before => ?_, conf ▸ stored_next here quiet reading⟩
      · rw [conf] at before ⊢
        exact fetched_next here walks.register (by omega) (rams rfl).2
      · rw [conf] at before ⊢
        exact reading.fetched (by omega) (by omega)
  | offer last =>
      obtain ⟨taken, reading⟩ := carries
      have conf := (pattern_manager here quiet).2.1
      have stored := stored_next here quiet reading
      rw [Nat.min_eq_right (by omega)] at stored
      exact ⟨⟨conf ▸ taken.conf, conf ▸ taken.inRange⟩, conf ▸ stored⟩
  | wait busy =>
      obtain ⟨taken, stored⟩ := carries
      have manager : (SpriteEngine.next s x).manager = _ :=
        SpriteManager.next_sendSprite (x := managerInput s x) here.manager quiet
      have conf : (SpriteEngine.next s x).manager.spriteConf = s.manager.spriteConf := by
        rw [manager]
      have patBuf : (SpriteEngine.next s x).manager.patBuf = s.manager.patBuf := by rw [manager]
      refine ⟨⟨conf ▸ taken.conf, conf ▸ taken.inRange⟩, fun l before => ?_⟩
      rw [conf, patBuf] at *
      exact stored l before

theorem Follows.file (follows : Follows s phase i n phase' i' n')
    (walks : Walks sprram patram row i s phase n) (quiet : clear s x = false) :
    List.Forall₂ (Loaded patram row) (selected sprram row (phase'.handled i'))
      (SpriteFile.contents (SpriteEngine.next s x).chain) := by
  have here := walks.inPhase
  have file := walks.file
  have still : phase.manager ≠ .sendSprite →
      SpriteFile.contents (SpriteEngine.next s x).chain = SpriteFile.contents s.chain :=
    fun rests => chain_next quiet (by rw [here.manager]; exact rests)
  cases follows with
  | fetch | signal | answer | take | row | offer =>
      rw [still (by simp [Phase.manager])]
      exact file
  | skip outside =>
      obtain ⟨k, rfl⟩ : ∃ k, i = k + 1 := ⟨i - 1, by have := (here.room rfl).2; omega⟩
      have entry : (oamEntry sprram k).inRange row = false := by
        rw [← walks.register, ← show s.oam.oamData = oamEntry sprram k from walks.carries]
        exact outside
      rw [still (by simp [Phase.manager])]
      show List.Forall₂ _ (selected sprram row (k + 1)) _
      rw [selected_succ, entry, if_neg Bool.false_ne_true, List.append_nil]
      exact file
  | wait busy =>
      have contents := (send_ack here quiet).2.1
      rw [if_neg busy, List.append_nil] at contents
      rw [contents]
      exact file
  | sent free =>
      obtain ⟨k, rfl⟩ : ∃ k, i = k + 1 := ⟨i - 1, by have := (here.room rfl).2; omega⟩
      obtain ⟨taken, stored⟩ := walks.carries
      have contents := (send_ack here quiet).2.1
      rw [if_pos free] at contents
      have conf : s.manager.spriteConf = oamEntry sprram k := taken.conf
      have inRange := taken.inRange
      have loaded : Loaded patram row (oamEntry sprram k) s.manager.sprite :=
        ⟨SpriteConf.inRange_iff.mp (conf ▸ inRange), congrArg SpriteConf.stripped conf,
          fun l bound => conf ▸ stored l (Nat.lt_succ_of_le (conf ▸ bound))⟩
      rw [contents]
      show List.Forall₂ _ (selected sprram row (k + 1)) _
      rw [selected_succ, ← conf, inRange, if_pos rfl, conf]
      exact List.rel_append file (.cons loaded .nil)
  | rest ended =>
      have handled : phase.handled i = Phase.handled .done i := by
        cases phase <;> first | rfl | cases ended
      rw [still (by cases phase <;> simp [Phase.ended, Phase.manager] at ended ⊢), ← handled]
      exact file

/-- **One clock of the walk with its data.** The RAMs matter until the signal, and of
the entries only the one that is next. -/
theorem Walks.next_entry (walks : Walks sprram patram row i s phase n) (quiet : clear s x = false)
    (rams : phase.ended = false →
      oamEntry x.sprram i = oamEntry sprram i ∧ x.patram = patram) :
    ∃ phase' i' n', Follows s phase i n phase' i' n' ∧
      Walks sprram patram row i' (next s x) phase' n' := by
  obtain ⟨phase', i', n', follows, following⟩ := walks.inPhase.next quiet
  have register : (SpriteEngine.next s x).row = row :=
    (if_neg (by rw [quiet]; exact Bool.false_ne_true)).trans walks.register
  exact ⟨phase', i', n', follows, following, register, follows.carries walks quiet rams,
    follows.file walks quiet⟩

/-- A preparation begins with an empty file, and with no entry looked at. -/
theorem Idle.walks (idle : Idle s) (begins : clear s x = true) :
    Walks sprram patram x.nextRow 0 (SpriteEngine.next s x) .scan 0 := by
  obtain ⟨inPhase, register⟩ := idle.start begins
  refine ⟨inPhase, register, trivial, ?_⟩
  rw [List.eq_nil_of_length_eq_zero inPhase.contents]
  exact .nil

/-- At the end of a walk the sprites of the row are held. -/
theorem Walks.held (walks : Walks sprram patram row i s phase n) (ended : phase.ended = true) :
    List.Forall₂ (Loaded patram row) (spritesOnRow (oamEntry sprram) row.toNat)
      (SpriteFile.contents s.chain) := by
  have handled : phase.handled i = i := by
    cases phase <;> first | rfl | cases ended
  have file := walks.file
  rw [handled] at file
  have here := walks.inPhase
  have length : (selected sprram row i).length = n := file.length_eq.trans here.contents
  rw [← selected_eq here.entries (by rw [length]; exact here.le)
    (by rw [length]; exact here.all ended)]
  exact file

/-- **At the end of the walk** the sprite file answers with the layer's pixel. -/
theorem Walks.pixelOut_eq (walks : Walks sprram patram row i s phase n)
    (ended : phase.ended = true) (col : BitVec 9) :
    pixelOut s.chain col =
      layerPixel (oamEntry sprram) (patternRam patram) row.toNat col.toNat := by
  rw [Ppu.pixelOut_eq, ← tournament_filter, filter_visible (walks.held ended), tournament_shown,
    layerPixel]

end Step

/-! ## Runs -/

section Runs

variable {ports : Ports} {inputs : ℕ → Input} {sprram patram : ℕ → BitVec 64} {row : BitVec 8}
  {t : ℕ}

/-- A walk goes on until the next preparation; the entries before it do not
matter any more. -/
theorem Walks.runFrom {s : State} {phase : Phase} {i n : ℕ}
    (walks : Walks sprram patram row i s phase n)
    (quiet : ∀ u, u < t → clear ((machine ports).runFrom s inputs u) (inputs u) = false)
    (rams : ∀ u, u < t → (∀ k, i ≤ k → oamEntry (inputs u).sprram k = oamEntry sprram k) ∧
      (inputs u).patram = patram) :
    ∃ phase' i' n', i ≤ i' ∧
      Walks sprram patram row i' ((machine ports).runFrom s inputs t) phase' n' := by
  induction t with
  | zero => exact ⟨phase, i, n, le_rfl, walks⟩
  | succ t ih =>
      obtain ⟨phase', i', n', later, walks'⟩ := ih
        (fun u before => quiet u (Nat.lt_succ_of_lt before))
        fun u before => rams u (Nat.lt_succ_of_lt before)
      obtain ⟨still, still'⟩ := rams t (Nat.lt_succ_self t)
      obtain ⟨phase'', i'', n'', follows, walks''⟩ :=
        walks'.next_entry (quiet t (Nat.lt_succ_self t)) fun _ => ⟨still i' later, still'⟩
      exact ⟨phase'', i'', n'', later.trans follows.le, walks''⟩

/-- After the signal the sprites stay, and the RAMs do not matter any more. -/
theorem Walks.runFrom_ended {s : State} {phase : Phase} {i n : ℕ}
    (walks : Walks sprram patram row i s phase n) (ended : phase.ended = true)
    (quiet : ∀ u, u < t → clear ((machine ports).runFrom s inputs u) (inputs u) = false) :
    ∃ phase', phase'.ended = true ∧
      Walks sprram patram row i ((machine ports).runFrom s inputs t) phase' n := by
  induction t with
  | zero => exact ⟨phase, ended, walks⟩
  | succ t ih =>
      obtain ⟨phase', ended', walks'⟩ := ih fun u before => quiet u (Nat.lt_succ_of_lt before)
      obtain ⟨phase'', i'', n'', follows, walks''⟩ :=
        walks'.next_entry (quiet t (Nat.lt_succ_self t)) fun going => by
          rw [ended'] at going
          cases going
      cases follows with
      | rest _ => exact ⟨.done, rfl, walks''⟩
      | _ => cases ended'

/-- **The sprite engine shows its sprites.** A preparation that begins at `t₀`
while the engine is idle ends after at most 834 clocks, unless another one
begins before, whatever the RAMs contain. If they hold still until then, the
engine answers every column with the pixel of the sprite layer from then on
until the next preparation. -/
theorem sprite_layer (ports : Ports) (inputs : ℕ → Input) (t₀ : ℕ)
    (idle : IdleAt ports inputs t₀)
    (begins : clear ((machine ports).run inputs t₀) (inputs t₀) = true) :
    let sys := (machine ports).run inputs
    ((∀ t, t₀ < t → t ≤ t₀ + 834 → clear (sys t) (inputs t) = false) →
      ∃ t₁, t₀ < t₁ ∧ t₁ ≤ t₀ + 834 ∧ done (sys t₁) = true) ∧
    ∀ (sprram patram : ℕ → BitVec 64) (t₁ t : ℕ), t₀ < t₁ → t₁ ≤ t → done (sys t₁) = true →
      (∀ u, t₀ < u → u < t → clear (sys u) (inputs u) = false) →
      (∀ u, t₀ < u → u < t₁ → (inputs u).sprram = sprram ∧ (inputs u).patram = patram) →
      ∀ enable : Bool, pixel (sys t) enable =
        (if enable then
            (layerPixel (oamEntry sprram) (patternRam patram) (inputs t₀).nextRow.toNat
              (sys t).col.toNat).1
          else 0,
          (layerPixel (oamEntry sprram) (patternRam patram) (inputs t₀).nextRow.toNat
            (sys t).col.toNat).2) := by
  intro sys
  constructor
  · intro quiet
    obtain ⟨t₁, after, bound, ⟨i, n, signal⟩, -⟩ := idle.ready begins quiet
    exact ⟨t₁, after, bound, beq_iff_eq.mpr signal.manager⟩
  · intro sprram patram t₁ t after later ready quiet rams enable
    have runs (u d : ℕ) :
        sys (u + d) = (machine ports).runFrom (sys u) (fun k => inputs (u + k)) d :=
      Machine.runFrom_add _ inputs u d
    obtain ⟨d, rfl⟩ := Nat.exists_eq_add_of_le (Nat.succ_le_of_lt after)
    obtain ⟨e, rfl⟩ := Nat.exists_eq_add_of_le later
    have begun : Walks sprram patram (inputs t₀).nextRow 0 (sys (t₀ + 1)) .scan 0 :=
      idle.idle.walks begins
    obtain ⟨phase, i, n, -, walks⟩ := begun.runFrom (t := d)
      (fun u before => by
        rw [← runs]
        exact quiet (t₀ + 1 + u) (by omega) (by omega)) fun u before => by
        obtain ⟨still, still'⟩ := rams (t₀ + 1 + u) (by omega) (Nat.add_lt_add_left before _)
        exact ⟨fun k _ => by rw [still], still'⟩
    rw [← runs] at walks
    have ended := walks.inPhase.ended_of_done ready
    obtain ⟨phase', ended', rests⟩ := walks.runFrom_ended (t := e) ended fun u before => by
      rw [← runs]
      exact quiet (t₀ + 1 + d + u) (by omega) (Nat.add_lt_add_left before _)
    rw [← runs] at rests
    rw [SpriteEngine.pixel, rests.pixelOut_eq ended']

end Runs

/-- Sprite RAM with two sprites on row 8. The second one is wide and mirrored, and is shown
in front of the background. -/
def overlapping (a : ℕ) : BitVec 64 :=
  if a = 0 then 0x00440A0600021004 else if a = 32 then 0x4500 else 0

/-- Pattern RAM with their tiles. -/
def pictures (a : ℕ) : BitVec 64 :=
  if a < 4 then 0x3333333333333333
  else if a < 8 then 0x5555555555555555
  else if a < 12 then 0x7654321076543210
  else 0

/-- The only preparation begins in the first clock. -/
def overlappingPrep (t : ℕ) : Input where
  prep := t == 0
  nextRow := 8
  sprram := overlapping
  patram := pictures
  pmxrPixelAddr := 10

/-- In column 10 the second sprite wins. -/
theorem sprite_layer_overlapping :
    let sys := (machine ⟨⟨0, 0⟩, ⟨0, 0⟩, ⟨0, 0⟩⟩).run overlappingPrep
    ∃ t₁, 0 < t₁ ∧ t₁ ≤ 834 ∧ done (sys t₁) = true ∧ pixel (sys t₁) true = (2#5 ++ 3#4, 1) := by
  intro sys
  have quiet : ∀ t, 0 < t → clear (sys t) (overlappingPrep t) = false := fun t later => by
    simp [clear, overlappingPrep, later.ne']
  obtain ⟨ready, shows⟩ :=
    sprite_layer ⟨⟨0, 0⟩, ⟨0, 0⟩, ⟨0, 0⟩⟩ overlappingPrep 0
      (.inl fun u before => absurd before u.not_lt_zero) rfl
  obtain ⟨t₁, later, bound, signal⟩ := ready fun t later _ => quiet t later
  have pixel := shows overlapping pictures t₁ t₁ later le_rfl signal
    (fun u after _ => quiet u after) (fun _ _ _ => ⟨rfl, rfl⟩) true
  have column : (sys t₁).col = 10 := by
    obtain ⟨u, rfl⟩ := Nat.exists_eq_succ_of_ne_zero later.ne'
    rfl
  have wins : layerPixel (oamEntry overlapping) (patternRam pictures) 8 10 = (2#5 ++ 3#4, 1) := by
    decide +kernel
  rw [column] at pixel
  exact ⟨t₁, later, by omega, signal, pixel.trans wins⟩

end SpriteEngine

end FPGame.Ppu
