import FPGame.Foundation.Stdio
import FPGame.Foundation.Stores
import FPGame.Library.SpriteRoundTrip

/-!
# `ppu_load_tilemap`

The loader reads an entry, makes a tile of its variables and stores the tile, and
only then looks at what `fscanf` has returned. So the read that meets the end of
the file stores a tile as well, made of what the variables still hold. A file
with as many entries as are asked for is loaded as it should be, and no other
file is (`load_tilemap_iff`).
-/

set_option autoImplicit false

namespace FPGame.Library

open FPGame.Foundation

/-! ## Tiles -/

def tilelayerMaxPalettes : ℕ := 16

/-- `ppu_make_tile`; an error is an abort. -/
def ppuMakeTile (patternAddr paletteId mirror : BitVec 32) : Except String (BitVec 16) := do
  nowaymsg (patternMaxaddr < patternAddr.toNat) "Pattern address malformed!"
  nowaymsg (tilelayerMaxPalettes ≤ paletteId.toNat) "Palette ID out of range!"
  nowaymsg (mirrorMaxval < mirror.toNat) "Mirror argument malformed!"
  return (patternAddr <<< 6 ||| paletteId <<< 2 ||| mirror).setWidth 16

/-- The variables that `fscanf` assigns, or an entry of the file. -/
structure TileEntry where
  patternAddr : BitVec 32
  paletteId : BitVec 32
  mirror : BitVec 32
deriving DecidableEq, Repr

namespace TileEntry

/-- The variables after as many of them have been assigned as were converted. -/
def assign (vars : TileEntry) : List (BitVec 32) → TileEntry
  | [] => vars
  | [patternAddr] => { vars with patternAddr := patternAddr }
  | [patternAddr, paletteId] => { vars with patternAddr := patternAddr, paletteId := paletteId }
  | patternAddr :: paletteId :: mirror :: _ => ⟨patternAddr, paletteId, mirror⟩

def make (e : TileEntry) : Except String (BitVec 16) :=
  ppuMakeTile e.patternAddr e.paletteId e.mirror

/-- The documented ranges. -/
structure InRange (e : TileEntry) : Prop where
  patternAddr : e.patternAddr.toNat ≤ 0x3FF
  paletteId : e.paletteId.toNat ≤ 0xF
  mirror : e.mirror.toNat ≤ 3

theorem InRange.make {e : TileEntry} (range : e.InRange) : ∃ tile, e.make = .ok tile := by
  have address : ¬ patternMaxaddr < e.patternAddr.toNat := not_lt.mpr range.patternAddr
  have palette : ¬ tilelayerMaxPalettes ≤ e.paletteId.toNat :=
    not_le.mpr (Nat.lt_succ_of_le range.paletteId)
  have mirror : ¬ mirrorMaxval < e.mirror.toNat := not_lt.mpr range.mirror
  refine ⟨(e.patternAddr <<< 6 ||| e.paletteId <<< 2 ||| e.mirror).setWidth 16, ?_⟩
  simp only [TileEntry.make, ppuMakeTile, nowaymsg, address, palette, mirror, decide_false,
    Bool.false_eq_true, if_false]
  rfl

end TileEntry

/-! ## The loader -/

/-- `"(%3X,%1X,%1X) "` -/
def tilemapFormat : List Directive :=
  [.literal '(', .hex 3, .literal ',', .hex 1, .literal ',', .hex 1, .literal ')', .space]

/-- The stores of the loop, while `left` more elements may be written. -/
def tilemapLoop : ℕ → ℕ → TileEntry → List Char → Except String (List (ℕ × BitVec 16))
  | 0, _, _, _ => .ok []
  | left + 1, count, vars, input => do
      let scanned := fscanf tilemapFormat input
      let vars := vars.assign scanned.values
      let tiledata ← vars.make
      -- the end of the file is noticed only after the store
      let stores ←
        (if scanned.result = eof then .ok []
          else tilemapLoop left (count + 1) vars scanned.rest)
      return (count, tiledata) :: stores

/-- `ppu_load_tilemap`: its stores into `tilemap`, or why it aborts. `vars` is what
its variables hold before they are assigned. -/
def ppuLoadTilemap (files : FileCalls) (vars : TileEntry) (tilemapNull : Bool) (len : BitVec 32) :
    Except String (List (ℕ × BitVec 16)) := do
  nowaymsg tilemapNull "Tile array is NULL!"
  if len = 0 then return []
  let input ← files.fopen
  let stores ← tilemapLoop len.toNat 0 vars input
  files.fclose
  return stores

/-! ## Files -/

/-- The text of an entry, `(XXX,X,X)`. -/
inductive EntryText (e : TileEntry) : List Char → Prop where
  | intro {a p m : List Char} {as ps ms : List ℕ} (address : HexText as a) (three : as.length = 3)
      (palette : HexText ps p) (one : ps.length = 1) (mirror : HexText ms m) (last : ms.length = 1)
      (addressEq : e.patternAddr = BitVec.ofNat 32 (hexNumber as))
      (paletteEq : e.paletteId = BitVec.ofNat 32 (hexNumber ps))
      (mirrorEq : e.mirror = BitVec.ofNat 32 (hexNumber ms)) :
      EntryText e ('(' :: (a ++ (',' :: (p ++ (',' :: (m ++ [')']))))))

/-- A file of entries, each followed by white space or not. -/
inductive TilemapFile : List TileEntry → List Char → Prop where
  | nil {text : List Char} (spaces : ∀ c ∈ text, isSpace c = true) : TilemapFile [] text
  | cons {e : TileEntry} {entries : List TileEntry} {entry gap text : List Char} (range : e.InRange)
      (first : EntryText e entry) (spaces : ∀ c ∈ gap, isSpace c = true)
      (rest : TilemapFile entries text) : TilemapFile (e :: entries) (entry ++ (gap ++ text))

section Files

variable {e vars : TileEntry} {entries : List TileEntry} {entry gap text rest : List Char}

/-- **An entry is read back**, and the white space after it is gone. -/
theorem fscanf_entry (first : EntryText e entry) :
    fscanf tilemapFormat (entry ++ rest) =
      ⟨3, [e.patternAddr, e.paletteId, e.mirror], skipSpace rest⟩ := by
  obtain @⟨a, p, m, as, ps, ms, address, three, palette, one, mirror, last, addressEq, paletteEq,
    mirrorEq⟩ := first
  rw [fscanf, tilemapFormat, List.cons_append, scanFrom_literal, List.append_assoc a,
    scanFrom_hex address three (by decide), List.cons_append, scanFrom_literal,
    List.append_assoc p, scanFrom_hex palette one (by decide), List.cons_append, scanFrom_literal,
    List.append_assoc m, scanFrom_hex mirror last (by decide), List.cons_append, scanFrom_literal,
    scanFrom, scanFrom, addressEq, paletteEq, mirrorEq]
  rfl

theorem TilemapFile.skipSpace (file : TilemapFile entries text)
    (spaces : ∀ c ∈ gap, isSpace c = true) :
    TilemapFile entries (Foundation.skipSpace (gap ++ text)) := by
  rw [skipSpace_append spaces]
  cases file with
  | nil blank =>
      have gone : Foundation.skipSpace text = [] := List.dropWhile_eq_nil_iff.mpr blank
      rw [gone]
      exact .nil fun c none => absurd none List.not_mem_nil
  | @cons e entries entry gap text range first blank rest =>
      have kept : Foundation.skipSpace (entry ++ (gap ++ text)) = entry ++ (gap ++ text) := by
        obtain ⟨address, three, palette, one, mirror, last, -, -, -⟩ := first
        rfl
      rw [kept]
      exact .cons range first blank rest

/-! ## What the loop stores -/

/-- The first iteration stores, whatever it reads. -/
theorem tilemapLoop_stored {left count : ℕ} {stores : List (ℕ × BitVec 16)}
    (loop : tilemapLoop (left + 1) count vars text = .ok stores) : Stored stores count := by
  rw [tilemapLoop] at loop
  obtain ⟨tile, -, loop⟩ := bind_eq_ok loop
  obtain ⟨others, -, loop⟩ := bind_eq_ok loop
  obtain rfl := Except.ok.inj loop
  exact ⟨tile, List.mem_cons_self⟩

/-- An iteration that reads an entry. -/
theorem tilemapLoop_entry {left count : ℕ} (first : EntryText e entry)
    {tile : BitVec 16} (made : e.make = .ok tile) :
    tilemapLoop (left + 1) count vars (entry ++ rest) = (do
      let stores ← tilemapLoop left (count + 1) e (skipSpace rest)
      return (count, tile) :: stores) := by
  rw [tilemapLoop, fscanf_entry first]
  have more : (3 : ℤ) ≠ eof := by decide
  have assigned : vars.assign [e.patternAddr, e.paletteId, e.mirror] = e := rfl
  simp only [assigned, made, if_neg more]
  rfl

/-- **Enough entries.** -/
theorem tilemapLoop_enough (file : TilemapFile entries text) {left : ℕ}
    (enough : left ≤ entries.length) (count : ℕ) :
    ∃ tiles : List (BitVec 16), (entries.take left).map TileEntry.make = tiles.map .ok ∧
      tilemapLoop left count vars text = .ok (storesFrom count tiles) := by
  induction left generalizing entries text count vars with
  | zero => exact ⟨[], rfl, rfl⟩
  | succ left ih =>
      cases file with
      | nil => exact absurd enough (Nat.not_succ_le_zero left)
      | cons range first blank following =>
          obtain ⟨tile, made⟩ := range.make
          obtain ⟨tiles, values, loop⟩ := ih (following.skipSpace blank)
            (Nat.le_of_succ_le_succ enough) (count + 1)
          refine ⟨tile :: tiles, ?_, ?_⟩
          · rw [List.take_succ_cons, List.map_cons, made, values, List.map_cons]
          · rw [tilemapLoop_entry first made, loop]
            rfl

/-- **Too few entries.** -/
theorem tilemapLoop_few (file : TilemapFile entries text) {left : ℕ} (few : entries.length < left)
    (count : ℕ) {stores : List (ℕ × BitVec 16)}
    (loop : tilemapLoop left count vars text = .ok stores) :
    Stored stores (count + entries.length) := by
  induction entries generalizing left text count vars stores with
  | nil =>
      cases left with
      | zero => exact absurd few (Nat.not_lt_zero _)
      | succ left => exact tilemapLoop_stored loop
  | cons e entries ih =>
      cases left with
      | zero => exact absurd few (Nat.not_lt_zero _)
      | succ left =>
          cases file with
          | cons range first blank following =>
              obtain ⟨tile, made⟩ := range.make
              rw [tilemapLoop_entry first made] at loop
              obtain ⟨others, later, loop⟩ := bind_eq_ok loop
              obtain rfl := Except.ok.inj loop
              obtain ⟨value, member⟩ := ih (following.skipSpace blank)
                (Nat.lt_of_succ_lt_succ few) (count + 1) later
              rw [List.length_cons, Nat.add_comm entries.length, ← Nat.add_assoc]
              exact ⟨value, List.mem_cons_of_mem _ member⟩

end Files

/-! ## The whole loader -/

/-- The first elements of `tilemap`, as many as there are entries and as are asked
for, hold the tiles of the entries; no other element is written. -/
structure LoadsTilemap (entries : List TileEntry) (len : ℕ) (stores : List (ℕ × BitVec 16)) :
    Prop where
  stored : ∀ i, Stored stores i ↔ i < min entries.length len
  tiles : ∀ (tilemap : ℕ → BitVec 16) (i : ℕ) (within : i < entries.length), i < len →
    entries[i].make = .ok (applyStores tilemap stores i)
  frame : ∀ (tilemap : ℕ → BitVec 16) (i : ℕ), min entries.length len ≤ i →
    applyStores tilemap stores i = tilemap i

section Loader

variable {files : FileCalls} {vars : TileEntry} {entries : List TileEntry} {text : List Char}
  {len : BitVec 32}

/-- With a file that can be read the loader does what its loop does. -/
theorem load_tilemap_eq (content : files.fopen = .ok text) (closes : files.fclose = .ok ()) :
    ppuLoadTilemap files vars false len = tilemapLoop len.toNat 0 vars text := by
  by_cases none : len = 0
  · subst none
    rfl
  · rw [ppuLoadTilemap]
    simp only [nowaymsg, Bool.false_eq_true, if_false, if_neg none, content, closes]
    show (tilemapLoop len.toNat 0 vars text >>= pure) = _
    exact bind_pure _

/-- **Tilemaps.** The loader loads a file of `k` entries into the first
`min k len` elements and touches no other if and only if there are as many entries
as are asked for. -/
theorem load_tilemap_iff (content : files.fopen = .ok text) (closes : files.fclose = .ok ())
    (file : TilemapFile entries text) :
    (∃ stores, ppuLoadTilemap files vars false len = .ok stores ∧
      LoadsTilemap entries len.toNat stores) ↔
    len.toNat ≤ entries.length := by
  rw [load_tilemap_eq content closes]
  constructor
  · rintro ⟨stores, loop, loads⟩
    by_contra few
    have extra := tilemapLoop_few file (not_le.mp few) 0 loop
    rw [Nat.zero_add, loads.stored] at extra
    omega
  · intro enough
    obtain ⟨tiles, values, loop⟩ := @tilemapLoop_enough vars _ _ file _ enough 0
    have size : tiles.length = len.toNat := by
      have lengths := congrArg List.length values
      rw [List.length_map, List.length_map, List.length_take] at lengths
      omega
    have stored : ∀ i, Stored (storesFrom 0 tiles) i ↔ i < min entries.length len.toNat := by
      intro i
      rw [stored_storesFrom, size, Nat.min_eq_right enough]
    refine ⟨_, loop, stored, fun tilemap i within inside => ?_, fun tilemap i outside => ?_⟩
    · have there : i < tiles.length := by omega
      have made := congrArg (·[i]?) values
      simp only [List.getElem?_map, List.getElem?_take_of_lt inside,
        List.getElem?_eq_getElem within, List.getElem?_eq_getElem there, Option.map_some] at made
      rw [applyStores_storesFrom there]
      exact Option.some.inj made
    · exact applyStores_of_not_stored fun inside => by
        rw [stored] at inside
        omega

end Loader

/-- A file of one entry. -/
def oneEntry : List Char := ['(', '0', '0', 'A', ',', '1', ',', '2', ')', ' ']

theorem oneEntry_text : EntryText ⟨10, 1, 2⟩ ['(', '0', '0', 'A', ',', '1', ',', '2', ')'] :=
  @EntryText.intro ⟨10, 1, 2⟩ ['0', '0', 'A'] ['1'] ['2'] [0, 0, 10] [1] [2] (by rfl) rfl (by rfl)
    rfl (by rfl) rfl rfl rfl rfl

theorem oneEntry_file : TilemapFile [⟨10, 1, 2⟩] oneEntry := by
  have blank : ∀ c ∈ [' '], isSpace c = true := List.forall_mem_singleton.mpr (by decide)
  exact .cons ⟨by decide, by decide, by decide⟩ oneEntry_text blank
    (.nil fun c none => absurd none List.not_mem_nil)

/-- A file of three entries. -/
def threeEntries : List Char :=
  oneEntry ++ ['(', '3', 'F', 'f', ',', 'F', ',', '3', ')', '\n'] ++
    ['(', '0', '1', '7', ',', '0', ',', '0', ')']

theorem threeEntries_file : TilemapFile [⟨10, 1, 2⟩, ⟨1023, 15, 3⟩, ⟨23, 0, 0⟩] threeEntries := by
  have second : EntryText ⟨1023, 15, 3⟩ ['(', '3', 'F', 'f', ',', 'F', ',', '3', ')'] :=
    @EntryText.intro ⟨1023, 15, 3⟩ ['3', 'F', 'f'] ['F'] ['3'] [3, 15, 15] [15] [3] (by rfl) rfl
      (by rfl) rfl (by rfl) rfl rfl rfl rfl
  have third : EntryText ⟨23, 0, 0⟩ ['(', '0', '1', '7', ',', '0', ',', '0', ')'] :=
    @EntryText.intro ⟨23, 0, 0⟩ ['0', '1', '7'] ['0'] ['0'] [0, 1, 7] [0] [0] (by rfl) rfl (by rfl)
      rfl (by rfl) rfl rfl rfl rfl
  have space : ∀ c ∈ [' '], isSpace c = true := List.forall_mem_singleton.mpr (by decide)
  have newline : ∀ c ∈ ['\n'], isSpace c = true := List.forall_mem_singleton.mpr (by decide)
  have none : ∀ c ∈ ([] : List Char), isSpace c = true := fun c none => absurd none List.not_mem_nil
  exact .cons ⟨by decide, by decide, by decide⟩ oneEntry_text space
    (.cons ⟨by decide, by decide, by decide⟩ second newline
      (.cons ⟨by decide, by decide, by decide⟩ third none (.nil none)))

/-- Two tiles of three entries. -/
theorem load_tilemap_two :
    ∃ stores, ppuLoadTilemap ⟨.ok threeEntries, "", .ok ()⟩ ⟨0, 0, 0⟩ false 2 = .ok stores ∧
      LoadsTilemap [⟨10, 1, 2⟩, ⟨1023, 15, 3⟩, ⟨23, 0, 0⟩] 2 stores :=
  (load_tilemap_iff rfl rfl threeEntries_file).mpr (by decide)

/-- Four tiles of one entry: the second element is overwritten. -/
theorem load_tilemap_overwrites :
    TilemapFile [⟨10, 1, 2⟩] oneEntry ∧
    ppuLoadTilemap ⟨.ok oneEntry, "", .ok ()⟩ ⟨0, 0, 0⟩ false 4 =
      .ok [(0, 0x286), (1, 0x286)] ∧
    ¬ ∃ stores, ppuLoadTilemap ⟨.ok oneEntry, "", .ok ()⟩ ⟨0, 0, 0⟩ false 4 = .ok stores ∧
      LoadsTilemap [⟨10, 1, 2⟩] 4 stores := by
  have loads : ppuLoadTilemap ⟨.ok oneEntry, "", .ok ()⟩ ⟨0, 0, 0⟩ false 4 =
      .ok [(0, 0x286), (1, 0x286)] := by rfl
  refine ⟨oneEntry_file, loads, ?_⟩
  rintro ⟨stores, same, loaded⟩
  obtain rfl := Except.ok.inj (loads.symm.trans same)
  have second := (loaded.stored 1).mp ⟨0x286, by decide⟩
  exact absurd second (by decide)

end FPGame.Library
