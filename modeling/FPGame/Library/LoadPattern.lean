import FPGame.Foundation.Stdio
import FPGame.Foundation.Stores
import FPGame.Library.PatternWrites

/-!
# `ppu_load_pattern`

The picture in a pattern file is read row by row, eight pixels at a time, and each
eight pixels are reversed and stored into a row of a tile. The tile is looked up
with the height of the picture where its width belongs. So the tiles are where
`ppu_write_pattern` looks for them if the picture is a single row of tiles or
square; otherwise elements are missed, and those of a wide picture overlap while
those of a tall one go beyond the array (`load_pattern_iff`).
-/

set_option autoImplicit false

namespace FPGame.Library

open FPGame.Foundation FPGame.Ppu FPGame.Linux
open FPGame.PpuDriver (Config State SoleUser driver owned_of_reachable)

/-! ## The loader -/

/-- The three statements that reverse the nibbles of `row_pattern`. -/
def reverseNibbles (row : BitVec 32) : BitVec 32 :=
  let row := (row &&& 0x0F0F0F0F) <<< 4 ||| (row &&& 0xF0F0F0F0) >>> 4
  let row := (row &&& 0x00FF00FF) <<< 8 ||| (row &&& 0xFF00FF00) >>> 8
  (row &&& 0x0000FFFF) <<< 16 ||| (row &&& 0xFFFF0000) >>> 16

/-- Stores into the rows of tiles, by element and row. -/
abbrev RowStores := List ((ℕ × ℕ) × BitVec 32)

/-- The last `n` iterations of the loop over the pixel rows of a row of tiles. -/
def patternPxrows (files : FileCalls) (width height tile : BitVec 32) (row : ℕ) :
    ℕ → BitVec 32 → List Char → Except String (RowStores × List Char)
  | 0, _, input => .ok ([], input)
  | n + 1, pxrow, input => do
      -- the last one consumes the newline
      let scanned := fscanf (if pxrow = width - 1 then [.hex 8, .space] else [.hex 8]) input
      nowaymsg (decide (scanned.result ≠ 1)) files.readError
      let rowPattern := reverseNibbles (scanned.values.headD 0)
      let (stores, rest) ← patternPxrows files width height tile row n (pxrow + 1) scanned.rest
      return ((((pxrow + tile * height).toNat, row), rowPattern) :: stores, rest)

/-- The last `n` iterations of the loop over the rows of a tile. -/
def patternRows (files : FileCalls) (width height tile : BitVec 32) :
    ℕ → ℕ → List Char → Except String (RowStores × List Char)
  | 0, _, input => .ok ([], input)
  | n + 1, row, input => do
      let (first, input) ← patternPxrows files width height tile row width.toNat 0 input
      let (stores, rest) ← patternRows files width height tile n (row + 1) input
      return (first ++ stores, rest)

/-- The last `n` iterations of the loop over the tiles. -/
def patternTiles (files : FileCalls) (width height : BitVec 32) :
    ℕ → BitVec 32 → List Char → Except String (RowStores × List Char)
  | 0, _, input => .ok ([], input)
  | n + 1, tile, input => do
      let (first, input) ← patternRows files width height tile 8 0 input
      let (stores, rest) ← patternTiles files width height n (tile + 1) input
      return (first ++ stores, rest)

/-- `ppu_load_pattern`: its stores into `pattern`, or why it aborts. -/
def ppuLoadPattern (files : FileCalls) (patternNull : Bool) (width height : BitVec 32) :
    Except String RowStores := do
  nowaymsg patternNull "Tile array is NULL!"
  nowaymsg (decide (width = 0)) "Pattern width cannot be 0!"
  nowaymsg (decide (height = 0)) "Pattern height cannot be 0!"
  let input ← files.fopen
  let (stores, _) ← patternTiles files width height height.toNat 0 input
  return stores

/-! ## Eight pixels -/

theorem lane_reverseNibbles (row : BitVec 32) {x : ℕ} (within : x < 8) :
    lane 4 x (reverseNibbles row) = lane 4 (7 - x) row := by
  apply BitVec.eq_of_getLsbD_eq
  intro i small
  interval_cases x <;> interval_cases i <;> simp [lane, reverseNibbles]

/-- What is stored for eight digits. -/
def eightPixels (digits : List ℕ) : BitVec 32 :=
  reverseNibbles (BitVec.ofNat 32 (hexNumber digits))

/-- **The nibbles of a stored row are the digits from left to right.** -/
theorem lane_eightPixels {digits : List ℕ} (eight : digits.length = 8)
    (small : ∀ d ∈ digits, d < 16) {x : ℕ} (within : x < 8) :
    (lane 4 x (eightPixels digits)).toNat = digits.getD x 0 := by
  obtain ⟨a, b, c, d, e, f, g, h, rfl⟩ :
      ∃ a b c d e f g h, digits = [a, b, c, d, e, f, g, h] := by
    match digits, eight with
    | [a, b, c, d, e, f, g, h], _ => exact ⟨a, b, c, d, e, f, g, h, rfl⟩
  simp only [List.forall_mem_cons] at small
  have number : hexNumber [a, b, c, d, e, f, g, h] =
      268435456 * a + 16777216 * b + 1048576 * c + 65536 * d + 4096 * e + 256 * f + 16 * g + h := by
    simp only [hexNumber, List.foldl_cons, List.foldl_nil]
    ring
  rw [eightPixels, lane_reverseNibbles _ within, lane, BitVec.extractLsb'_toNat,
    BitVec.toNat_ofNat, number, Nat.shiftRight_eq_div_pow]
  interval_cases x <;> simp only [List.getD_cons_zero, List.getD_cons_succ] <;> omega

/-! ## What the loops store -/

/-- The element that a column of a row of tiles is stored into. -/
def elementIndex (height tile : BitVec 32) (c : ℕ) : ℕ :=
  (BitVec.ofNat 32 c + tile * height).toNat

/-- The store for the eight pixels of a line in a column of tiles. -/
def patternStore (height tile : BitVec 32) (row c : ℕ) (digits : List ℕ) :
    (ℕ × ℕ) × BitVec 32 :=
  ((elementIndex height tile c, row), eightPixels ((digits.drop (8 * c)).take 8))

section Loops

variable {files : FileCalls} {width height tile : BitVec 32} {digits : List ℕ}
  {lines : List (List ℕ)} {line gap text : List Char}

/-- **One read**: eight digits, and the white space after them if they are the last
of their line. -/
theorem fscanf_eight (last : Bool) {piece rest : List Char} {eight : List ℕ}
    (hex : HexText eight piece) (size : eight.length = 8) :
    fscanf (if last then [.hex 8, .space] else [.hex 8]) (piece ++ rest) =
      ⟨1, [BitVec.ofNat 32 (hexNumber eight)], if last then skipSpace rest else rest⟩ := by
  cases last with
  | true =>
      simp only [if_true, fscanf]
      rw [scanFrom_hex hex size (by decide), scanFrom, scanFrom]
      rfl
  | false =>
      simp only [Bool.false_eq_true, if_false, fscanf]
      rw [scanFrom_hex hex size (by decide), scanFrom]
      rfl

/-- **The step of the innermost loop.** -/
theorem patternPxrows_eight (hex : HexText digits line) (size : digits.length = 8 * width.toNat)
    (spaces : ∀ ch ∈ gap, isSpace ch = true) (kept : skipSpace text = text) (row : ℕ) {n c : ℕ}
    (columns : c + (n + 1) = width.toNat) :
    patternPxrows files width height tile row (n + 1) (BitVec.ofNat 32 c)
        (line.drop (8 * c) ++ (gap ++ text)) = (do
      let (stores, rest) ← patternPxrows files width height tile row n (BitVec.ofNat 32 (c + 1))
        (if n = 0 then text else line.drop (8 * (c + 1)) ++ (gap ++ text))
      return (patternStore height tile row c digits :: stores, rest)) := by
  have bound := width.isLt
  have piece : HexText ((digits.drop (8 * c)).take 8) ((line.drop (8 * c)).take 8) :=
    (hex.drop _).take _
  have eight : ((digits.drop (8 * c)).take 8).length = 8 := by
    rw [List.length_take, List.length_drop]
    omega
  have split : line.drop (8 * c) ++ (gap ++ text) =
      (line.drop (8 * c)).take 8 ++ (line.drop (8 * (c + 1)) ++ (gap ++ text)) := by
    rw [show 8 * (c + 1) = 8 * c + 8 by ring, ← List.drop_drop, ← List.append_assoc (List.take _ _),
      List.take_append_drop]
  have last : (BitVec.ofNat 32 c = width - 1) = (decide (n = 0) = true) := by
    rw [← BitVec.toNat_inj, BitVec.toNat_sub, BitVec.toNat_ofNat, decide_eq_true_eq]
    show (c % 2 ^ 32 = (2 ^ 32 - 1 + width.toNat) % 2 ^ 32) = (n = 0)
    exact propext ⟨fun same => by omega, fun same => by omega⟩
  have read := @fscanf_eight (decide (n = 0)) _ (line.drop (8 * (c + 1)) ++ (gap ++ text)) _
    piece eight
  have following : (if decide (n = 0) = true then
        skipSpace (line.drop (8 * (c + 1)) ++ (gap ++ text))
      else line.drop (8 * (c + 1)) ++ (gap ++ text)) =
      if n = 0 then text else line.drop (8 * (c + 1)) ++ (gap ++ text) := by
    by_cases ends : n = 0
    · have whole : line.drop (8 * (c + 1)) = [] :=
        List.drop_eq_nil_of_le (by rw [hex.length_eq, size]; omega)
      rw [if_pos (decide_eq_true ends), if_pos ends, whole, List.nil_append,
        skipSpace_append spaces, kept]
    · rw [if_neg (by simpa using ends), if_neg ends]
  have next : BitVec.ofNat 32 c + 1 = BitVec.ofNat 32 (c + 1) := (BitVec.ofNat_add c 1).symm
  rw [following] at read
  rw [patternPxrows, split]
  simp only [last, read, next]
  rfl

/-- The rest of a line. -/
theorem patternPxrows_line (hex : HexText digits line) (size : digits.length = 8 * width.toNat)
    (spaces : ∀ ch ∈ gap, isSpace ch = true) (kept : skipSpace text = text) (row : ℕ) (n c : ℕ)
    (columns : c + (n + 1) = width.toNat) :
    ∃ stores,
      patternPxrows files width height tile row (n + 1) (BitVec.ofNat 32 c)
        (line.drop (8 * c) ++ (gap ++ text)) = .ok (stores, text) ∧
      ∀ store, store ∈ stores ↔
        ∃ k, c ≤ k ∧ k < width.toNat ∧ store = patternStore height tile row k digits := by
  induction n generalizing c with
  | zero =>
      refine ⟨[patternStore height tile row c digits], ?_, fun store => ?_⟩
      · rw [patternPxrows_eight hex size spaces kept row columns]
        rfl
      · rw [List.mem_singleton]
        constructor
        · exact fun same => ⟨c, le_rfl, by omega, same⟩
        · rintro ⟨k, after, within, rfl⟩
          rw [show k = c by omega]
  | succ n ih =>
      obtain ⟨stores, loop, members⟩ := ih (c + 1) (by omega)
      refine ⟨patternStore height tile row c digits :: stores, ?_, fun store => ?_⟩
      · rw [patternPxrows_eight hex size spaces kept row columns, if_neg (Nat.succ_ne_zero n), loop]
        rfl
      · rw [List.mem_cons, members]
        constructor
        · rintro (rfl | ⟨k, after, within, same⟩)
          · exact ⟨c, le_rfl, by omega, rfl⟩
          · exact ⟨k, by omega, within, same⟩
        · rintro ⟨k, after, within, same⟩
          rcases Nat.eq_or_lt_of_le after with rfl | later
          · exact .inl same
          · exact .inr ⟨k, later, within, same⟩

/-- The rows of a row of tiles. -/
theorem patternRows_lines (positive : 0 < width.toNat)
    (file : HexLines (8 * width.toNat) lines text) (n row : ℕ) (enough : n ≤ lines.length) :
    ∃ stores text', HexLines (8 * width.toNat) (lines.drop n) text' ∧
      patternRows files width height tile n row text = .ok (stores, text') ∧
      ∀ store, store ∈ stores ↔ ∃ r k, r < n ∧ k < width.toNat ∧
        store = patternStore height tile (row + r) k (lines.getD r []) := by
  induction n generalizing lines text row with
  | zero =>
      refine ⟨[], text, file, rfl, fun store => ?_⟩
      exact iff_of_false List.not_mem_nil fun ⟨r, k, before, _⟩ => absurd before (Nat.not_lt_zero r)
  | succ n ih =>
      cases file with
      | nil => exact absurd enough (Nat.not_succ_le_zero n)
      | @cons digits lines line gap text size hex spaces rest =>
          obtain ⟨w, width'⟩ : ∃ w, width.toNat = w + 1 := ⟨width.toNat - 1, by omega⟩
          obtain ⟨first, loop, members⟩ := @patternPxrows_line files width height tile digits line
            gap text hex size spaces (rest.skipSpace_eq (by omega)) row w 0 (by omega)
          obtain ⟨others, text', remaining, loops, members'⟩ := ih rest (row + 1)
            (Nat.le_of_succ_le_succ enough)
          refine ⟨first ++ others, text', remaining, ?_, fun store => ?_⟩
          · rw [← width', Nat.mul_zero, List.drop_zero] at loop
            rw [patternRows, show (0 : BitVec 32) = BitVec.ofNat 32 0 from rfl, loop]
            show (patternRows files width height tile n (row + 1) text >>= _) = _
            rw [loops]
            rfl
          · rw [List.mem_append, members, members']
            constructor
            · rintro (⟨k, -, within, same⟩ | ⟨r, k, before, within, same⟩)
              · exact ⟨0, k, Nat.succ_pos n, within, same⟩
              · refine ⟨r + 1, k, Nat.succ_lt_succ before, within, ?_⟩
                rw [same, List.getD_cons_succ, Nat.add_assoc, Nat.add_comm 1 r]
            · rintro ⟨r, k, before, within, same⟩
              cases r with
              | zero => exact .inl ⟨k, Nat.zero_le k, within, same⟩
              | succ r =>
                  refine .inr ⟨r, k, Nat.lt_of_succ_lt_succ before, within, ?_⟩
                  rw [same, List.getD_cons_succ, Nat.add_assoc, Nat.add_comm 1 r]

/-- **What the loops store.** -/
theorem patternTiles_lines (positive : 0 < width.toNat)
    (file : HexLines (8 * width.toNat) lines text) (n t : ℕ) (enough : 8 * n ≤ lines.length) :
    ∃ stores text',
      patternTiles files width height n (BitVec.ofNat 32 t) text = .ok (stores, text') ∧
      ∀ store, store ∈ stores ↔ ∃ j r k, j < n ∧ r < 8 ∧ k < width.toNat ∧
        store = patternStore height (BitVec.ofNat 32 (t + j)) r k (lines.getD (8 * j + r) []) := by
  induction n generalizing lines text t with
  | zero =>
      refine ⟨[], text, rfl, fun store => ?_⟩
      exact iff_of_false List.not_mem_nil fun ⟨j, r, k, before, _⟩ =>
        absurd before (Nat.not_lt_zero j)
  | succ n ih =>
      obtain ⟨first, text₁, remaining, loop, members⟩ := @patternRows_lines files width height
        (BitVec.ofNat 32 t) lines text positive file 8 0 (by omega)
      obtain ⟨others, text', loops, members'⟩ := ih remaining (t + 1) (by
        rw [List.length_drop]
        omega)
      have next : BitVec.ofNat 32 t + 1 = BitVec.ofNat 32 (t + 1) := (BitVec.ofNat_add t 1).symm
      have dropped : ∀ j r,
          (lines.drop 8).getD (8 * j + r) [] = lines.getD (8 * (j + 1) + r) [] := by
        intro j r
        rw [List.getD_eq_getElem?_getD, List.getD_eq_getElem?_getD, List.getElem?_drop]
        congr 2
        ring
      refine ⟨first ++ others, text', ?_, fun store => ?_⟩
      · rw [patternTiles, loop]
        show (patternTiles files width height n (BitVec.ofNat 32 t + 1) text₁ >>= _) = _
        rw [next, loops]
        rfl
      · rw [List.mem_append, members, members']
        constructor
        · rintro (⟨r, k, before, within, same⟩ | ⟨j, r, k, inside, before, within, same⟩)
          · refine ⟨0, r, k, Nat.succ_pos n, before, within, ?_⟩
            rw [same, Nat.zero_add, Nat.add_zero]
          · refine ⟨j + 1, r, k, Nat.succ_lt_succ inside, before, within, ?_⟩
            rw [same, dropped, Nat.add_assoc, Nat.add_comm 1 j]
        · rintro ⟨j, r, k, inside, before, within, same⟩
          cases j with
          | zero =>
              refine .inl ⟨r, k, before, within, ?_⟩
              rw [same, Nat.zero_add, Nat.add_zero]
          | succ j =>
              refine .inr ⟨j, r, k, Nat.lt_of_succ_lt_succ inside, before, within, ?_⟩
              rw [same, dropped, Nat.add_assoc, Nat.add_comm 1 j]

end Loops

/-! ## The whole loader -/

/-- `ppu_write_pattern` draws the picture from the array: when a call returns 0, each
tile of the map shows the tile of the picture that came to it last. -/
def DrawsPicture (width height : BitVec 32) (lines : List (List ℕ))
    (pattern : ℕ → Fin 8 → BitVec 32) : Prop :=
  ∀ (Tid : Type) [DecidableEq Tid] (cfg : Config) (tid : Tid) (s s' : State Tid)
    (process : Process) (patternAddr : BitVec 32) (x0 y0 : ℕ),
    (driver Tid cfg).Reachable s → SoleUser tid s →
    x0 < 32 → patternAddr.toNat = 32 * y0 + x0 →
    Exec cfg tid s (ppuWritePattern process (some pattern) width height patternAddr) s'
      (.returned 0) →
    ∀ x y c t, x < 32 → y < 32 →
      PatternBlock.Last ⟨width.toNat, height.toNat, x0, y0⟩ x y c t →
      ∀ ppu, HandedOver (kernelVram cfg s') ppu → ∀ (r : Fin 8) (k : ℕ), k < 8 →
        (lane 4 k (lane 32 (r.val % 2)
          (patramOf ppu (BitVec.ofNat 12 ((32 * y + x) * 4 + r.val / 2))))).toNat =
          (lines.getD (8 * t + r.val) []).getD (8 * c + k) 0

/-- Exactly the elements of a picture of tiles are written, and the pixels of each
tile, which are the nibbles of its rows, are those of its place in the picture. The
tile in column `c` and row `t` is element `c + t * width`, as `ppu_write_pattern`
has it, so that it draws the picture. -/
structure LoadsPattern (width height : BitVec 32) (lines : List (List ℕ)) (stores : RowStores) :
    Prop where
  stored : ∀ i r, Stored stores (i, r) ↔ i < width.toNat * height.toNat ∧ r < 8
  pixels : ∀ (pattern : ℕ × ℕ → BitVec 32) (c t r x : ℕ),
    c < width.toNat → t < height.toNat → r < 8 → x < 8 →
    (lane 4 x (applyStores pattern stores (c + t * width.toNat, r))).toNat =
      (lines.getD (8 * t + r) []).getD (8 * c + x) 0
  drawn : ∀ pattern : ℕ × ℕ → BitVec 32,
    DrawsPicture width height lines fun j r => applyStores pattern stores (j, r.val)

section Places

variable {w h : ℕ}

theorem place_lt {c t : ℕ} (column : c < w) (row : t < h) : c + t * w < w * h := by
  have rows : (t + 1) * w ≤ h * w := Nat.mul_le_mul_right w row
  rw [Nat.add_mul, Nat.one_mul] at rows
  rw [Nat.mul_comm w h]
  omega

/-- Elements that are looked up with the height are those of the picture only if it
is a single row of tiles or square. -/
theorem square_of_covers (wide : 1 ≤ w) (high : 1 ≤ h)
    (covers : ∀ i, i < w * h ↔ ∃ t c, t < h ∧ c < w ∧ i = (c + t * h) % 2 ^ 32) :
    (h = 1 ∨ w = h) ∧ w * h ≤ 2 ^ 32 := by
  have fits : w * h ≤ 2 ^ 32 := by
    by_contra large
    obtain ⟨t, c, -, -, same⟩ := (covers (2 ^ 32)).mp (not_le.mp large)
    have bound : (c + t * h) % 2 ^ 32 < 2 ^ 32 := Nat.mod_lt _ (by decide)
    omega
  refine ⟨?_, fits⟩
  rcases Nat.lt_trichotomy w h with tall | square | broad
  · exfalso
    rcases Nat.lt_or_eq_of_le fits with small | whole
    · -- the first tile of row `w` goes beyond the array
      have outside := (covers (w * h)).mpr ⟨w, 0, tall, wide, by
        rw [Nat.zero_add, Nat.mod_eq_of_lt small]⟩
      exact lt_irrefl _ outside
    · -- the array has no element beyond it, and its last one is missed
      obtain ⟨t, c, row, column, same⟩ := (covers (w * h - 1)).mp (by omega)
      have lastColumn : (w * h - 1) % h = h - 1 := by
        rw [show w * h - 1 = h - 1 + (w - 1) * h by
          rw [Nat.sub_mul, Nat.one_mul]
          have one : h ≤ w * h := Nat.le_mul_of_pos_left h wide
          omega, Nat.add_mul_mod_self_right]
        exact Nat.mod_eq_of_lt (by omega)
      rw [same, ← whole, Nat.mod_mod_of_dvd _ (Nat.dvd_mul_left h w), Nat.add_mul_mod_self_right,
        Nat.mod_eq_of_lt (by omega)] at lastColumn
      omega
  · exact .inr square
  · left
    by_contra several
    -- the last element is missed
    obtain ⟨t, c, row, column, same⟩ := (covers (w * h - 1)).mp (by
      have some : 0 < w * h := Nat.mul_pos (by omega) (by omega)
      omega)
    have below : c + t * h + 1 < w * h := by
      obtain ⟨e, rfl⟩ : ∃ e, h = e + 2 := ⟨h - 2, by omega⟩
      obtain ⟨d, rfl⟩ : ∃ d, w = e + 3 + d := ⟨w - (e + 3), by omega⟩
      have rows : t * (e + 2) ≤ (e + 1) * (e + 2) := Nat.mul_le_mul_right _ (by omega)
      nlinarith [Nat.zero_le (d * e)]
    have least := Nat.mod_le (c + t * h) (2 ^ 32)
    omega

end Places

section Loader

variable {files : FileCalls} {width height : BitVec 32} {lines : List (List ℕ)}
  {text : List Char}

theorem elementIndex_eq (t c : ℕ) :
    elementIndex height (BitVec.ofNat 32 t) c = (c + t * height.toNat) % 2 ^ 32 := by
  rw [elementIndex, BitVec.toNat_add, BitVec.toNat_mul, BitVec.toNat_ofNat, BitVec.toNat_ofNat]
  simp only [Nat.add_mod, Nat.mul_mod, Nat.mod_mod]

/-- **A picture file is read to its end.** -/
theorem load_pattern_eq (content : files.fopen = .ok text) (wide : 1 ≤ width.toNat)
    (high : 1 ≤ height.toNat) (file : HexLines (8 * width.toNat) lines text)
    (rows : lines.length = 8 * height.toNat) :
    ∃ stores, ppuLoadPattern files false width height = .ok stores ∧
      ∀ store, store ∈ stores ↔ ∃ t r c, t < height.toNat ∧ r < 8 ∧ c < width.toNat ∧
        store = patternStore height (BitVec.ofNat 32 t) r c (lines.getD (8 * t + r) []) := by
  obtain ⟨stores, text', loop, members⟩ := @patternTiles_lines files width height lines text
    (by omega) file height.toNat 0 (by omega)
  have some : width ≠ 0 := by
    rintro rfl
    exact absurd wide (by decide)
  have some' : height ≠ 0 := by
    rintro rfl
    exact absurd high (by decide)
  refine ⟨stores, ?_, fun store => ?_⟩
  · rw [ppuLoadPattern]
    simp only [nowaymsg, Bool.false_eq_true, some, some', decide_false, if_false, content]
    show (patternTiles files width height height.toNat (BitVec.ofNat 32 0) text >>= _) = _
    rw [loop]
    rfl
  · simp only [members, Nat.zero_add]

/-- Eight digits of a line, as pixels. -/
theorem lane_patternStore {digits : List ℕ} (size : digits.length = 8 * width.toNat)
    (small : ∀ d ∈ digits, d < 16) {c x : ℕ} (column : c < width.toNat) (within : x < 8) :
    (lane 4 x (eightPixels ((digits.drop (8 * c)).take 8))).toNat = digits.getD (8 * c + x) 0 := by
  have eight : ((digits.drop (8 * c)).take 8).length = 8 := by
    rw [List.length_take, List.length_drop]
    omega
  rw [lane_eightPixels eight (fun d member =>
    small d (List.mem_of_mem_drop (List.mem_of_mem_take member))) within,
    List.getD_eq_getElem?_getD, List.getD_eq_getElem?_getD, List.getElem?_take_of_lt within,
    List.getElem?_drop]

/-- Patterns whose nibbles are the pixels of a picture draw it. -/
theorem drawsPicture_of_pixels (wide : 1 ≤ width.toNat) (high : 1 ≤ height.toNat)
    (fits : width.toNat * height.toNat ≤ 2 ^ 32) {pattern : ℕ → Fin 8 → BitVec 32}
    (pixels : ∀ c t (r : Fin 8) x, c < width.toNat → t < height.toNat → x < 8 →
      (lane 4 x (pattern (c + t * width.toNat) r)).toNat =
        (lines.getD (8 * t + r.val) []).getD (8 * c + x) 0) :
    DrawsPicture width height lines pattern := by
  intro Tid _ cfg tid s s' process patternAddr x0 y0 reachable sole startX start exec
    x y c t small below last ppu handed r k within
  have final := pattern_stored ⟨sole, owned_of_reachable reachable⟩ startX start wide high fits exec
  rw [final] at handed
  rw [patternStored_word small below last handed r, Nat.mul_comm]
  exact pixels c t r k last.1.1 last.1.2.1 within

/-- In a picture of one tile row or of a square each tile is stored where it belongs. -/
theorem elementIndex_place (shape : height.toNat = 1 ∨ width.toNat = height.toNat)
    (fits : width.toNat * height.toNat ≤ 2 ^ 32) {t c : ℕ} (row : t < height.toNat)
    (column : c < width.toNat) :
    elementIndex height (BitVec.ofNat 32 t) c = c + t * width.toNat := by
  have inside := place_lt column row
  rw [elementIndex_eq]
  rcases shape with single | square
  · obtain rfl : t = 0 := by omega
    rw [Nat.zero_mul, Nat.zero_mul]
    exact Nat.mod_eq_of_lt (by omega)
  · rw [← square] at inside ⊢
    rw [← square] at fits
    exact Nat.mod_eq_of_lt (by omega)

section Places

variable {stores : RowStores}
  (members : ∀ store, store ∈ stores ↔ ∃ t r c, t < height.toNat ∧ r < 8 ∧ c < width.toNat ∧
    store = patternStore height (BitVec.ofNat 32 t) r c (lines.getD (8 * t + r) []))
  (place : ∀ {t c : ℕ}, t < height.toNat → c < width.toNat →
    elementIndex height (BitVec.ofNat 32 t) c = c + t * width.toNat)

include members place

/-- Exactly the elements of the picture are stored. -/
theorem stored_iff_of_places (wide : 1 ≤ width.toNat) (i r : ℕ) :
    Stored stores (i, r) ↔ i < width.toNat * height.toNat ∧ r < 8 := by
  constructor
  · rintro ⟨value, member⟩
    obtain ⟨t, r', c, row, before, column, store⟩ := (members _).mp member
    obtain ⟨index, rfl⟩ := Prod.mk.inj (Prod.mk.inj store).1
    rw [index, place row column]
    exact ⟨place_lt column row, before⟩
  · rintro ⟨element, before⟩
    have row : i / width.toNat < height.toNat := Nat.div_lt_of_lt_mul element
    have column : i % width.toNat < width.toNat := Nat.mod_lt _ (by omega)
    refine ⟨eightPixels (((lines.getD (8 * (i / width.toNat) + r) []).drop
        (8 * (i % width.toNat))).take 8),
      (members _).mpr ⟨i / width.toNat, r, i % width.toNat, row, before, column, ?_⟩⟩
    rw [patternStore, place row column, Nat.mul_comm (i / width.toNat), Nat.mod_add_div]

/-- A row of a tile is stored with its own pixels only. -/
theorem applyStores_of_places (pattern : ℕ × ℕ → BitVec 32) {c t r : ℕ}
    (column : c < width.toNat) (row : t < height.toNat) (inside : r < 8) :
    applyStores pattern stores (c + t * width.toNat, r) =
      eightPixels (((lines.getD (8 * t + r) []).drop (8 * c)).take 8) := by
  refine applyStores_of_mem ((members _).mpr ⟨t, r, c, row, inside, column, ?_⟩) ?_
  · rw [patternStore, place row column]
  · intro other member
    obtain ⟨t', r', c', row', -, column', store⟩ := (members _).mp member
    obtain ⟨element, stored⟩ := Prod.mk.inj store
    obtain ⟨index, rfl⟩ := Prod.mk.inj element
    rw [place row' column'] at index
    -- the element determines the column and the row
    have columns := congrArg (· % width.toNat) index
    simp only [Nat.add_mul_mod_self_right, Nat.mod_eq_of_lt column,
      Nat.mod_eq_of_lt column'] at columns
    subst columns
    have sameRow : t = t' := Nat.eq_of_mul_eq_mul_right (by omega) (Nat.add_left_cancel index)
    rw [stored, sameRow]

/-- **If each tile is stored where it belongs, the picture is loaded.** -/
theorem loadsPattern_of_places (wide : 1 ≤ width.toNat) (high : 1 ≤ height.toNat)
    (fits : width.toNat * height.toNat ≤ 2 ^ 32) (file : HexLines (8 * width.toNat) lines text)
    (rows : lines.length = 8 * height.toNat) : LoadsPattern width height lines stores := by
  have pixels : ∀ (pattern : ℕ × ℕ → BitVec 32) (c t r x : ℕ),
      c < width.toNat → t < height.toNat → r < 8 → x < 8 →
      (lane 4 x (applyStores pattern stores (c + t * width.toNat, r))).toNat =
        (lines.getD (8 * t + r) []).getD (8 * c + x) 0 := by
    intro pattern c t r x column row inside within
    have line : lines.getD (8 * t + r) [] ∈ lines := by
      rw [List.getD_eq_getElem?_getD, List.getElem?_eq_getElem (by omega), Option.getD_some]
      exact List.getElem_mem _
    obtain ⟨size, small⟩ := file.line line
    rw [applyStores_of_places members place pattern column row inside]
    exact lane_patternStore size small column within
  exact ⟨stored_iff_of_places members place wide, pixels, fun pattern =>
    drawsPicture_of_pixels wide high fits fun c t r x column row within =>
      pixels pattern c t r x column row r.isLt within⟩

end Places

/-- **Pictures.** For a file of `8 * height` lines of `8 * width` digits the loader
loads the picture if and only if it is one tile high or as wide as high (and has no
more tiles than an index can count). -/
theorem load_pattern_iff (content : files.fopen = .ok text) (wide : 1 ≤ width.toNat)
    (high : 1 ≤ height.toNat) (file : HexLines (8 * width.toNat) lines text)
    (rows : lines.length = 8 * height.toNat) :
    (∃ stores, ppuLoadPattern files false width height = .ok stores ∧
      LoadsPattern width height lines stores) ↔
    (height.toNat = 1 ∨ width.toNat = height.toNat) ∧ width.toNat * height.toNat ≤ 2 ^ 32 := by
  obtain ⟨stores, loads, members⟩ := load_pattern_eq content wide high file rows
  constructor
  · rintro ⟨stores', same, loaded⟩
    obtain rfl := Except.ok.inj (loads.symm.trans same)
    refine square_of_covers wide high fun i => ?_
    have first : Stored stores (i, 0) ↔ i < width.toNat * height.toNat := by
      rw [loaded.stored]
      exact and_iff_left (by decide)
    rw [← first]
    constructor
    · rintro ⟨value, member⟩
      obtain ⟨t, r, c, row, -, column, store⟩ := (members _).mp member
      obtain ⟨index, -⟩ := Prod.mk.inj (Prod.mk.inj store).1
      exact ⟨t, c, row, column, by rw [index, elementIndex_eq]⟩
    · rintro ⟨t, c, row, column, rfl⟩
      refine ⟨eightPixels (((lines.getD (8 * t + 0) []).drop (8 * c)).take 8),
        (members _).mpr ⟨t, 0, c, row, by decide, column, ?_⟩⟩
      rw [patternStore, elementIndex_eq]
  · rintro ⟨shape, fits⟩
    exact ⟨stores, loads,
      loadsPattern_of_places members (elementIndex_place shape fits) wide high fits file rows⟩

end Loader

/-- A row of eight pixels. -/
def pixelRow : List Char := ['0', '1', '2', '3', '4', '5', '6', 'F']

/-- A picture of two tiles, one above the other. -/
theorem pixelRows :
    HexLines 8 (List.replicate 16 [0, 1, 2, 3, 4, 5, 6, 15])
      (List.replicate 16 (pixelRow ++ ['\n'])).flatten :=
  .replicate (by rfl) (by rfl) (List.forall_mem_singleton.mpr (by decide)) 16

/-- A row of two tiles. -/
def wideRow : List Char := pixelRow ++ ['8', '9', 'a', 'B', 'c', 'D', 'e', 'f']

/-- A picture of two rows of two tiles. -/
theorem wideRows :
    HexLines 16 (List.replicate 16 [0, 1, 2, 3, 4, 5, 6, 15, 8, 9, 10, 11, 12, 13, 14, 15])
      (List.replicate 16 (wideRow ++ ['\n'])).flatten :=
  .replicate (by rfl) (by rfl) (List.forall_mem_singleton.mpr (by decide)) 16

/-- It is loaded. -/
theorem load_pattern_square :
    ∃ stores,
      ppuLoadPattern ⟨.ok (List.replicate 16 (wideRow ++ ['\n'])).flatten, "", .ok ()⟩ false 2 2 =
        .ok stores ∧
      LoadsPattern 2 2
        (List.replicate 16 [0, 1, 2, 3, 4, 5, 6, 15, 8, 9, 10, 11, 12, 13, 14, 15]) stores :=
  (@load_pattern_iff ⟨.ok (List.replicate 16 (wideRow ++ ['\n'])).flatten, "", .ok ()⟩ 2 2 _ _ rfl
    (by decide) (by decide) wideRows rfl).mpr ⟨.inr rfl, by decide⟩

/-- In a picture of two tiles, one above the other, the second one is stored beyond
the array. -/
theorem load_pattern_beyond :
    HexLines 8 (List.replicate 16 [0, 1, 2, 3, 4, 5, 6, 15])
      (List.replicate 16 (pixelRow ++ ['\n'])).flatten ∧
    ∃ stores,
      ppuLoadPattern ⟨.ok (List.replicate 16 (pixelRow ++ ['\n'])).flatten, "", .ok ()⟩ false 1 2 =
        .ok stores ∧
      Stored stores (2, 0) ∧
      ¬ LoadsPattern 1 2 (List.replicate 16 [0, 1, 2, 3, 4, 5, 6, 15]) stores := by
  obtain ⟨stores, loads, members⟩ := @load_pattern_eq
    ⟨.ok (List.replicate 16 (pixelRow ++ ['\n'])).flatten, "", .ok ()⟩ 1 2 _ _ rfl (by decide)
    (by decide) pixelRows rfl
  have beyond : Stored stores (2, 0) :=
    ⟨_, (members _).mpr ⟨1, 0, 0, by decide, by decide, by decide, rfl⟩⟩
  refine ⟨pixelRows, stores, loads, beyond, fun loaded => ?_⟩
  obtain ⟨inside, -⟩ := (loaded.stored 2 0).mp beyond
  exact absurd inside (by decide)

end FPGame.Library
