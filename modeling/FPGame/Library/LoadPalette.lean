import FPGame.Foundation.Stdio
import FPGame.Foundation.Stores
import FPGame.Library.SpriteRoundTrip
import Mathlib.Data.List.GetD

/-!
# `ppu_load_palette`

The loop reads sixteen times and stores what it has read from the second time on,
before it looks for the end of the file. A file has a line for each of the fifteen
opaque colours, so the first line is lost, and the last one is stored again by the
read that meets the end of the file (`paletteLoop_file`). The palette is the one in
the file only if this makes no difference (`load_palette_iff`).
-/

set_option autoImplicit false

namespace FPGame.Library

open FPGame.Foundation

/-! ## The loader -/

/-- `"%06X\n"` -/
def paletteFormat : List Directive := [.hex 6, .space]

/-- The stores of the loop, while `left` more colours may be read. `color` is what the
variable holds. -/
def paletteLoop : ℕ → ℕ → BitVec 32 → List Char → List (ℕ × BitVec 32)
  | 0, _, _, _ => []
  | left + 1, count, color, input =>
      let scanned := fscanf paletteFormat input
      let color := scanned.values.headD color
      -- the first color is ignored
      (if 0 < count then [(count - 1, color)] else []) ++
        (if scanned.result = eof then [] else paletteLoop left (count + 1) color scanned.rest)

/-- `ppu_load_palette`: its stores into `color`, or why it aborts. `color` is what its
variable holds before it is assigned. -/
def ppuLoadPalette (files : FileCalls) (color : BitVec 32) (paletteNull : Bool) :
    Except String (List (ℕ × BitVec 32)) := do
  nowaymsg paletteNull "Palette is NULL!"
  let input ← files.fopen
  let stores := paletteLoop 16 0 color input
  files.fclose
  return stores

/-! ## What the loop stores -/

/-- The colour of a line. -/
def lineColor (digits : List ℕ) : BitVec 32 := BitVec.ofNat 32 (hexNumber digits)

theorem lineColor_toNat {digits : List ℕ} (size : digits.length = 6)
    (small : ∀ d ∈ digits, d < 16) : (lineColor digits).toNat = hexNumber digits := by
  have bound := hexNumber_lt small
  rw [size] at bound
  rw [lineColor, BitVec.toNat_ofNat]
  exact Nat.mod_eq_of_lt (by omega)

section Loop

variable {digits : List ℕ} {lines : List (List ℕ)} {line gap text : List Char}
  {color : BitVec 32} {left count : ℕ}

/-- An iteration that reads a line. -/
theorem paletteLoop_line (hex : HexText digits line) (size : digits.length = 6)
    (spaces : ∀ c ∈ gap, isSpace c = true) (kept : skipSpace text = text) :
    paletteLoop (left + 1) count color (line ++ (gap ++ text)) =
      (if 0 < count then [(count - 1, lineColor digits)] else []) ++
        paletteLoop left (count + 1) (lineColor digits) text := by
  have read : fscanf paletteFormat (line ++ (gap ++ text)) = ⟨1, [lineColor digits], text⟩ := by
    rw [fscanf, paletteFormat, scanFrom_hex hex size (by decide), scanFrom, scanFrom,
      skipSpace_append spaces, kept]
    rfl
  have more : (1 : ℤ) ≠ eof := by decide
  simp only [paletteLoop, read, if_neg more, List.headD_cons]

/-- The iteration that meets the end of the file. -/
theorem paletteLoop_end :
    paletteLoop (left + 1) (count + 1) color [] = [(count, color)] := by
  simp only [paletteLoop, Nat.succ_pos, if_true, Nat.add_sub_cancel]
  rfl

/-- **After the first colour** each line is stored, and then the last one again. -/
theorem paletteLoop_lines (file : HexLines 6 lines text) (short : lines.length < left) :
    paletteLoop left (count + 1) color text =
      storesFrom count (lines.map lineColor ++ [(lines.map lineColor).getLastD color]) := by
  obtain ⟨left, rfl⟩ : ∃ n, left = n + 1 := ⟨left - 1, by omega⟩
  induction file generalizing left count color with
  | nil => exact paletteLoop_end
  | @cons digits lines line gap text size hex spaces rest ih =>
      obtain ⟨left, rfl⟩ : ∃ n, left = n + 1 := ⟨left - 1, by
        rw [List.length_cons] at short
        omega⟩
      rw [paletteLoop_line hex size spaces (rest.skipSpace_eq (by decide)), if_pos (Nat.succ_pos _),
        ih left (Nat.lt_of_succ_lt_succ short), Nat.add_sub_cancel, List.map_cons,
        List.getLastD_cons]
      rfl

/-- **A file of lines**: the first one is skipped. -/
theorem paletteLoop_file (file : HexLines 6 (digits :: lines) text) (short : lines.length < left) :
    paletteLoop (left + 1) 0 color text =
      storesFrom 0 (lines.map lineColor ++ [(lines.map lineColor).getLastD (lineColor digits)]) := by
  cases file with
  | cons size hex spaces rest =>
      rw [paletteLoop_line hex size spaces (rest.skipSpace_eq (by decide)),
        if_neg (Nat.lt_irrefl 0), List.nil_append, Nat.zero_add, ← Nat.zero_add 1,
        paletteLoop_lines rest short]

end Loop

/-- **Element `i` holds line `i + 1`**, or the last line if there is none. -/
theorem storedColors_getElem (digits : List ℕ) (lines : List (List ℕ)) {i : ℕ}
    (inside : i < (lines.map lineColor ++
      [(lines.map lineColor).getLastD (lineColor digits)]).length) :
    (lines.map lineColor ++ [(lines.map lineColor).getLastD (lineColor digits)])[i] =
      lineColor ((digits :: lines).getD (min (i + 1) lines.length) []) := by
  rw [List.length_append, List.length_map, List.length_singleton] at inside
  rcases Nat.lt_or_eq_of_le (Nat.le_of_lt_succ inside) with line | last
  · rw [List.getElem_append_left (by rwa [List.length_map]), List.getElem_map,
      Nat.min_eq_left line, List.getD_cons_succ, List.getD_eq_getElem _ _ line]
  · subst last
    rw [List.getElem_append_right (by rw [List.length_map]), List.getElem_singleton,
      Nat.min_eq_right (Nat.le_succ _)]
    cases lines using List.reverseRecOn with
    | nil => rfl
    | append_singleton lines line ih => simp

/-! ## The whole loader -/

/-- The fifteen colours are written and no other element is, each with the number in
its line. -/
structure LoadsPalette (lines : List (List ℕ)) (stores : List (ℕ × BitVec 32)) : Prop where
  stored : ∀ i, Stored stores i ↔ i < 15
  colors : ∀ (palette : ℕ → BitVec 32) (i : ℕ), i < 15 →
    (applyStores palette stores i).toNat = hexNumber (lines.getD i [])

section Loader

variable {files : FileCalls} {color : BitVec 32} {lines : List (List ℕ)} {text : List Char}

/-- **What a palette file leaves.** Element `i` holds the colour of line `i + 1`, but the
last one that of the last line. -/
theorem load_palette_eq (content : files.fopen = .ok text) (closes : files.fclose = .ok ())
    (file : HexLines 6 lines text) (fifteen : lines.length = 15) :
    ∃ stores, ppuLoadPalette files color false = .ok stores ∧
      (∀ i, Stored stores i ↔ i < 15) ∧
      ∀ (palette : ℕ → BitVec 32) (i : ℕ), i < 15 →
        applyStores palette stores i = lineColor (lines.getD (min (i + 1) 14) []) := by
  obtain ⟨digits, lines, rfl⟩ : ∃ digits others, lines = digits :: others := by
    cases lines with
    | nil => cases fifteen
    | cons digits lines => exact ⟨digits, lines, rfl⟩
  have fourteen : lines.length = 14 := Nat.succ.inj fifteen
  have size : (lines.map lineColor ++
      [(lines.map lineColor).getLastD (lineColor digits)]).length = 15 := by
    rw [List.length_append, List.length_map, List.length_singleton, fourteen]
  refine ⟨_, ?_, fun i => stored_storesFrom.trans (by rw [size]), fun palette i inside => ?_⟩
  · rw [← paletteLoop_file file (show lines.length < 15 by omega), ppuLoadPalette]
    simp only [nowaymsg, Bool.false_eq_true, if_false, content, closes]
    rfl
  · rw [applyStores_storesFrom (by rwa [size]), storedColors_getElem, fourteen]

/-- **Palettes.** The loader loads a file of fifteen lines if and only if all of them
have the same colour. -/
theorem load_palette_iff (content : files.fopen = .ok text) (closes : files.fclose = .ok ())
    (file : HexLines 6 lines text) (fifteen : lines.length = 15) :
    (∃ stores, ppuLoadPalette files color false = .ok stores ∧ LoadsPalette lines stores) ↔
      ∀ i, i < 15 → hexNumber (lines.getD i []) = hexNumber (lines.getD 0 []) := by
  obtain ⟨stores, loads, stored, colors⟩ :=
    @load_palette_eq files color lines text content closes file fifteen
  have number : ∀ palette i, i < 15 → (applyStores palette stores i).toNat =
      hexNumber (lines.getD (min (i + 1) 14) []) := by
    intro palette i inside
    have line : lines.getD (min (i + 1) 14) [] ∈ lines := by
      rw [List.getD_eq_getElem _ _ (by omega)]
      exact List.getElem_mem _
    obtain ⟨size, small⟩ := file.line line
    rw [colors palette i inside, lineColor_toNat size small]
  constructor
  · rintro ⟨stores', same, loaded⟩
    obtain rfl := Except.ok.inj (loads.symm.trans same)
    intro i inside
    induction i with
    | zero => rfl
    | succ i ih =>
        -- the element before this line holds both lines
        have before := loaded.colors (fun _ => 0) i (by omega)
        rw [number _ i (by omega), Nat.min_eq_left (by omega)] at before
        exact before.trans (ih (by omega))
  · intro equal
    refine ⟨stores, loads, stored, fun palette i inside => ?_⟩
    rw [number palette i inside, equal _ (by omega), equal i inside]

end Loader

/-- A file of fifteen white lines. -/
theorem white_file :
    HexLines 6 (List.replicate 15 [15, 15, 15, 15, 15, 15])
      (List.replicate 15 (['F', 'F', 'F', 'F', 'F', 'F'] ++ ['\n'])).flatten :=
  .replicate (by rfl) (by rfl) (List.forall_mem_singleton.mpr (by decide)) 15

/-- White is loaded. -/
theorem load_palette_white :
    ∃ stores,
      ppuLoadPalette
        ⟨.ok (List.replicate 15 (['F', 'F', 'F', 'F', 'F', 'F'] ++ ['\n'])).flatten, "", .ok ()⟩
        0 false = .ok stores ∧
      LoadsPalette (List.replicate 15 [15, 15, 15, 15, 15, 15]) stores :=
  (load_palette_iff rfl rfl white_file (by decide)).mpr (by decide)

/-- A black line before fourteen white ones is lost. -/
theorem load_palette_skips :
    HexLines 6 ([0, 0, 0, 0, 0, 0] :: List.replicate 14 [15, 15, 15, 15, 15, 15])
      (['0', '0', '0', '0', '0', '0'] ++ (['\n'] ++
        (List.replicate 14 (['F', 'F', 'F', 'F', 'F', 'F'] ++ ['\n'])).flatten)) ∧
    ∃ stores,
      ppuLoadPalette
        ⟨.ok (['0', '0', '0', '0', '0', '0'] ++ (['\n'] ++
          (List.replicate 14 (['F', 'F', 'F', 'F', 'F', 'F'] ++ ['\n'])).flatten)), "", .ok ()⟩
        0 false = .ok stores ∧
      applyStores (fun _ => 0) stores 0 = 0xFFFFFF ∧
      ¬ LoadsPalette ([0, 0, 0, 0, 0, 0] :: List.replicate 14 [15, 15, 15, 15, 15, 15]) stores := by
  have newline : ∀ c ∈ ['\n'], isSpace c = true := List.forall_mem_singleton.mpr (by decide)
  have file : HexLines 6 ([0, 0, 0, 0, 0, 0] :: List.replicate 14 [15, 15, 15, 15, 15, 15])
      (['0', '0', '0', '0', '0', '0'] ++ (['\n'] ++
        (List.replicate 14 (['F', 'F', 'F', 'F', 'F', 'F'] ++ ['\n'])).flatten)) :=
    .cons (by rfl) (by rfl) newline (.replicate (by rfl) (by rfl) newline 14)
  obtain ⟨stores, loads, -, colors⟩ := @load_palette_eq
    ⟨.ok (['0', '0', '0', '0', '0', '0'] ++ (['\n'] ++
      (List.replicate 14 (['F', 'F', 'F', 'F', 'F', 'F'] ++ ['\n'])).flatten)), "", .ok ()⟩
    0 _ _ rfl rfl file (by decide)
  have first : applyStores (fun _ => 0) stores 0 = 0xFFFFFF := colors _ 0 (by decide)
  refine ⟨file, stores, loads, first, fun loaded => ?_⟩
  have black := loaded.colors (fun _ => 0) 0 (by decide)
  rw [first] at black
  exact absurd black (by decide)

end FPGame.Library
