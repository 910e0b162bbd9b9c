import FPGame.Library.TileWrites

/-!
# Blocks of patterns

`ppu_write_pattern` writes a block of patterns row by row into a map of 32 by 32
of them. The map wraps around in both directions, so a block that is larger than
the map writes some tiles more than once. A tile then holds the last pattern in
row-major order that came to it (`Last`), because the `pwrite`s are numbered in
that order (`pattern_eq`).
-/

set_option autoImplicit false

namespace FPGame.Library

open FPGame.Foundation FPGame.Ppu FPGame.Vram FPGame.Linux
open FPGame.PpuDriver (Config State Exclusive SoleUser driver owned_of_reachable vramSize)

/-! ## The block on the map -/

/-- The number of a tile of the map, `{y, x}`. -/
def tileName (x y : ℕ) : ℕ := 32 * y + x

/-- A block of `width` by `height` patterns whose first one is put at `(x0, y0)`. -/
structure PatternBlock where
  width : ℕ
  height : ℕ
  x0 : ℕ
  y0 : ℕ

namespace PatternBlock

variable (b : PatternBlock)

/-- The tile that a pattern of the block comes to. -/
def target (col row : ℕ) : ℕ := tileName ((b.x0 + col) % 32) ((b.y0 + row) % 32)

/-- The pattern in a column and a row of the block comes to a tile. -/
def Comes (x y col row : ℕ) : Prop :=
  col < b.width ∧ row < b.height ∧ (b.x0 + col) % 32 = x ∧ (b.y0 + row) % 32 = y

/-- It is the last one that does, in row-major order. -/
def Last (x y col row : ℕ) : Prop :=
  b.Comes x y col row ∧
    ∀ col' row', b.Comes x y col' row' → row' < row ∨ row' = row ∧ col' ≤ col

variable {b}

theorem Comes.target_eq {x y col row : ℕ} (comes : b.Comes x y col row) :
    b.target col row = tileName x y := by
  obtain ⟨-, -, rfl, rfl⟩ := comes
  rfl

theorem target_lt (col row : ℕ) : b.target col row < 1024 := by
  rw [target, tileName]
  omega

/-- Tiles are told apart by their numbers. -/
theorem comes_of_target {x y col row : ℕ} (inside : col < b.width) (below : row < b.height)
    (small : x < 32) (same : b.target col row = tileName x y) : b.Comes x y col row := by
  rw [target, tileName, tileName] at same
  exact ⟨inside, below, by omega, by omega⟩

section Index

variable {col row col' row' : ℕ}

theorem index_lt (inside : col < b.width) (below : row < b.height) :
    col + b.width * row < b.width * b.height := by
  have rows : b.width * (row + 1) ≤ b.width * b.height := Nat.mul_le_mul_left _ below
  rw [Nat.mul_succ] at rows
  omega

theorem index_mod (inside : col < b.width) : (col + b.width * row) % b.width = col := by
  rw [Nat.add_mul_mod_self_left, Nat.mod_eq_of_lt inside]

theorem index_div (inside : col < b.width) : (col + b.width * row) / b.width = row := by
  rw [Nat.add_mul_div_left _ _ (Nat.zero_lt_of_lt inside), Nat.div_eq_of_lt inside, Nat.zero_add]

/-- An earlier place in row-major order has a smaller index. -/
theorem index_le (inside : col' < b.width)
    (earlier : row' < row ∨ row' = row ∧ col' ≤ col) :
    col' + b.width * row' ≤ col + b.width * row := by
  rcases earlier with above | ⟨rfl, left⟩
  · have rows : b.width * (row' + 1) ≤ b.width * row := Nat.mul_le_mul_left _ above
    rw [Nat.mul_succ] at rows
    omega
  · omega

theorem earlier_of_le (inside : col < b.width)
    (le : col' + b.width * row' ≤ col + b.width * row) :
    row' < row ∨ row' = row ∧ col' ≤ col := by
  rcases lt_trichotomy row' row with above | rfl | below
  · exact .inl above
  · exact .inr ⟨rfl, by omega⟩
  · have rows : b.width * (row + 1) ≤ b.width * row' := Nat.mul_le_mul_left _ below
    rw [Nat.mul_succ] at rows
    omega

end Index

/-- A tile to which some pattern comes has a last one. -/
theorem exists_last {x y col row : ℕ} (comes : b.Comes x y col row) :
    ∃ col row, b.Last x y col row := by
  classical
  have found : b.Comes x y ((col + b.width * row) % b.width) ((col + b.width * row) / b.width) := by
    rwa [index_mod comes.1, index_div comes.1]
  have bound : col + b.width * row ≤ b.width * b.height := (index_lt comes.1 comes.2.1).le
  have last := Nat.findGreatest_spec
    (P := fun j => b.Comes x y (j % b.width) (j / b.width)) bound found
  refine ⟨_, _, last, fun col' row' comes' => ?_⟩
  have greatest := Nat.le_findGreatest
    (P := fun j => b.Comes x y (j % b.width) (j / b.width))
    (index_lt comes'.1 comes'.2.1).le (by rwa [index_mod comes'.1, index_div comes'.1])
  apply earlier_of_le last.1
  rwa [Nat.mod_add_div]

end PatternBlock

/-! ## The `pwrite`s -/

/-- The `pwrite` of the pattern with index `j`. -/
def patternRun (pattern : ℕ → Fin 8 → BitVec 32) (b : PatternBlock) (j : ℕ) : Pwrite where
  buf := patternBytes (pattern j)
  count := BitVec.ofNat 32 tilepatternBsize
  offset := BitVec.ofNat 32 (patternByteAddr (b.target (j % b.width) (j / b.width)))

section Run

variable {pattern : ℕ → Fin 8 → BitVec 32} {b : PatternBlock}

theorem patternRun_offset (j : ℕ) :
    (patternRun pattern b j).block.1 = patternByteAddr (b.target (j % b.width) (j / b.width)) := by
  have bound := PatternBlock.target_lt (b := b) (j % b.width) (j / b.width)
  refine (BitVec.toNat_ofNat _ _).trans (Nat.mod_eq_of_lt ?_)
  rw [patternByteAddr]
  omega

theorem patternRun_length (j : ℕ) : (patternRun pattern b j).block.2.length = 32 :=
  Pwrite.length_block _

theorem patternRun_inside (j : ℕ) : (patternRun pattern b j).Inside := by
  have bound := PatternBlock.target_lt (b := b) (j % b.width) (j / b.width)
  rw [Pwrite.Inside, ← Pwrite.block_fst, patternRun_offset, patternByteAddr, vramSize,
    show (patternRun pattern b j).count.toNat = 32 from rfl]
  omega

end Run

section Loops

variable {pattern : ℕ → Fin 8 → BitVec 32} {b : PatternBlock} {width height xI yI : BitVec 32}

theorem toNat_and_31 (v : BitVec 32) : (v &&& 0x1F).toNat = v.toNat % 32 :=
  (BitVec.toNat_and _ _).trans (Nat.and_two_pow_sub_one_eq_mod _ 5)

theorem ppuPatternAddr_eq {x y : BitVec 32} (rest : BitVec 32 → Program) (column : x.toNat < 32)
    (row : y.toNat < 32) :
    ppuPatternAddr x y rest = rest (BitVec.ofNat 32 (tileName x.toNat y.toNat)) := by
  have passX : ¬ 31 < x.toNat := by omega
  have passY : ¬ 31 < y.toNat := by omega
  have address : y <<< 5 ||| x = BitVec.ofNat 32 (tileName x.toNat y.toNat) := by
    apply eq_ofNat
    rw [BitVec.toNat_or, BitVec.toNat_shiftLeft,
      Nat.mod_eq_of_lt (by rw [Nat.shiftLeft_eq]; omega), shiftLeft_or (by omega), tileName]
    ring
  rw [ppuPatternAddr, address]
  simp only [Program.nowaymsg, passX, passY, decide_false, Bool.false_eq_true, if_false]

/-- The dimensions and the place of the block that a call writes. -/
structure Describes (b : PatternBlock) (width height xI yI : BitVec 32) : Prop where
  width : width.toNat = b.width
  height : height.toNat = b.height
  x0 : xI.toNat = b.x0
  y0 : yI.toNat = b.y0
  /-- The array has an address for each of its patterns. -/
  array : b.width * b.height ≤ 2 ^ 32

/-- The loop over the columns of a row. -/
theorem writePatternRow_eq (describes : Describes b width height xI yI) {row : BitVec 32}
    (below : row.toNat < b.height) {rest : Program} {n : ℕ} {col : BitVec 32}
    (left : col.toNat + n = b.width) :
    writePatternRow pattern width xI yI row rest n col =
      .pwrites ((List.range' (col.toNat + b.width * row.toNat) n).map (patternRun pattern b))
        rest := by
  induction n generalizing col with
  | zero => rfl
  | succ n ih =>
      have one : (1 : BitVec 32).toNat = 1 := rfl
      have inside : col.toNat < b.width := by omega
      have room := width.isLt
      rw [describes.width] at room
      have next : (col + 1).toNat = col.toNat + 1 := by
        rw [BitVec.toNat_add, one]
        exact Nat.mod_eq_of_lt (by omega)
      have index : (col + width * row).toNat = col.toNat + b.width * row.toNat := by
        have bound := PatternBlock.index_lt inside below
        have array := describes.array
        rw [BitVec.toNat_add, BitVec.toNat_mul, describes.width, Nat.add_mod_mod]
        exact Nat.mod_eq_of_lt (by omega)
      have x : ((xI + col) &&& 0x1F).toNat = (b.x0 + col.toNat) % 32 := by
        rw [toNat_and_31, BitVec.toNat_add, describes.x0]
        omega
      have y : ((yI + row) &&& 0x1F).toNat = (b.y0 + row.toNat) % 32 := by
        rw [toNat_and_31, BitVec.toNat_add, describes.y0]
        omega
      have run : Pwrite.mk (patternBytes (pattern (col + width * row).toNat))
          (BitVec.ofNat 32 tilepatternBsize)
          (BitVec.ofNat 32 vramPatternoffset + BitVec.ofNat 32 tilepatternBsize *
            BitVec.ofNat 32 (tileName ((b.x0 + col.toNat) % 32) ((b.y0 + row.toNat) % 32))) =
          patternRun pattern b (col.toNat + b.width * row.toNat) := by
        rw [patternRun, index, PatternBlock.index_mod inside, PatternBlock.index_div inside,
          PatternBlock.target, patternByteAddr]
        congr 1
        apply eq_ofNat
        rw [BitVec.toNat_add, BitVec.toNat_mul, BitVec.toNat_ofNat, BitVec.toNat_ofNat,
          BitVec.toNat_ofNat, vramPatternoffset, tilepatternBsize, tileName]
        omega
      rw [writePatternRow, ppuPatternAddr_eq _ (by omega) (by omega), x, y, ih (by omega), next,
        List.range'_succ, List.map_cons, Program.pwrites_cons, ← run, Nat.add_right_comm]

/-- The loop over the rows. -/
theorem writePatternRows_eq (describes : Describes b width height xI yI) {n : ℕ}
    {row : BitVec 32} (left : row.toNat + n = b.height) :
    writePatternRows pattern width xI yI n row =
      .pwrites ((List.range' (b.width * row.toNat) (b.width * n)).map (patternRun pattern b))
        (.done 0) := by
  induction n generalizing row with
  | zero => rfl
  | succ n ih =>
      have one : (1 : BitVec 32).toNat = 1 := rfl
      have room := height.isLt
      rw [describes.height] at room
      have next : (row + 1).toNat = row.toNat + 1 := by
        rw [BitVec.toNat_add, one]
        exact Nat.mod_eq_of_lt (by omega)
      have zero : (0 : BitVec 32).toNat = 0 := rfl
      rw [writePatternRows, writePatternRow_eq describes (by omega)
        (by rw [zero, Nat.zero_add, describes.width]), ih (by omega), next, zero, Nat.zero_add,
        describes.width, ← Program.pwrites_append, ← List.map_append, Nat.mul_succ, Nat.mul_succ,
        List.range'_append_1, Nat.add_comm b.width (b.width * n)]

end Loops

/-! ## What the block leaves -/

section Stored

variable {pattern : ℕ → Fin 8 → BitVec 32} {b : PatternBlock} {image : ℕ → BitVec 8} {x y : ℕ}

/-- What the `pwrite`s of a block leave in the VRAM. -/
def patternStored (pattern : ℕ → Fin 8 → BitVec 32) (b : PatternBlock) (image : ℕ → BitVec 8) :
    ℕ → BitVec 8 :=
  storeBlocks image
    ((List.range (b.width * b.height)).map fun j => (patternRun pattern b j).block)

/-- A tile holds the last pattern that came to it. -/
theorem patternStored_last (small : x < 32) {col row : ℕ} (last : b.Last x y col row) {k : ℕ}
    (within : k < 32) :
    patternStored pattern b image (patternByteAddr (tileName x y) + k) =
      patternBytes (pattern (col + b.width * row)) k := by
  obtain ⟨comes, latest⟩ := last
  have offset := @patternRun_offset pattern b (col + b.width * row)
  rw [PatternBlock.index_mod comes.1, PatternBlock.index_div comes.1, comes.target_eq] at offset
  have stored := @storeBlocks_range _ image (fun j => (patternRun pattern b j).block) _ _ k
    (PatternBlock.index_lt comes.1 comes.2.1) (by rw [patternRun_length]; exact within)
    fun j after before => by
      -- a later pattern comes to another tile
      have inside : j % b.width < b.width := Nat.mod_lt _ (Nat.zero_lt_of_lt comes.1)
      have below : j / b.width < b.height := Nat.div_lt_of_lt_mul before
      have elsewhere : b.target (j % b.width) (j / b.width) ≠ tileName x y := fun same => by
        have le := PatternBlock.index_le inside
          (latest _ _ (PatternBlock.comes_of_target inside below small same))
        rw [Nat.mod_add_div] at le
        exact absurd after (not_lt.mpr le)
      rw [offset, Misses, patternRun_offset, patternRun_length, patternByteAddr, patternByteAddr]
      omega
  rw [offset, Pwrite.getElem_block] at stored
  exact stored

/-- Its pixel rows are the halves of its words in Pattern RAM. -/
theorem patternStored_word (small : x < 32) (below : y < 32) {col row : ℕ}
    (last : b.Last x y col row) {ppu : Segment → ℕ → BitVec 64}
    (handed : HandedOver (patternStored pattern b image) ppu) (r : Fin 8) :
    lane 32 (r.val % 2) (patramOf ppu (BitVec.ofNat 12 ((32 * y + x) * 4 + r.val / 2))) =
      pattern (col + b.width * row) r := by
  have word := handed.patternWord_eq (show tileName x y < 1024 by rw [tileName]; omega)
    (fun k within => patternStored_last small last within)
    (show r.val / 2 < 4 by omega) (show r.val % 2 < 2 by omega)
  rw [tileName, Nat.mul_comm 4, Nat.div_add_mod] at word
  rw [word]
  exact congrArg _ (Fin.ofNat_val_eq_self r)

/-- Bytes outside of all tiles that are written do not change. -/
theorem patternStored_frame {a : ℕ}
    (outside : ∀ col row k, col < b.width → row < b.height → k < 32 →
      a ≠ patternByteAddr (b.target col row) + k) :
    patternStored pattern b image a = image a := by
  apply storeBlocks_range_of_misses
  intro j inside
  by_contra meets
  obtain ⟨k, within, rfl⟩ := not_misses.mp meets
  rw [patternRun_length] at within
  have positive : 0 < b.width := Nat.pos_of_ne_zero fun zero => by
    rw [zero, Nat.zero_mul] at inside
    exact Nat.not_lt_zero j inside
  exact outside (j % b.width) (j / b.width) k (Nat.mod_lt _ positive)
    (Nat.div_lt_of_lt_mul inside) within (by rw [patternRun_offset])

end Stored

section Pattern

variable {Tid : Type} [DecidableEq Tid] {cfg : Config} {tid : Tid} {s s' : State Tid}
  {process : Process} {pattern : ℕ → Fin 8 → BitVec 32} {width height patternAddr : BitVec 32}

/-- The block of a call. -/
def blockOf (width height patternAddr : BitVec 32) : PatternBlock where
  width := width.toNat
  height := height.toNat
  x0 := patternAddr.toNat % 32
  y0 := patternAddr.toNat / 32

theorem describes_blockOf (array : width.toNat * height.toNat ≤ 2 ^ 32)
    (bound : patternAddr.toNat < 1024) :
    Describes (blockOf width height patternAddr) width height (patternAddr &&& 0x1F)
      (patternAddr >>> 5 &&& 0x1F) where
  width := rfl
  height := rfl
  x0 := toNat_and_31 patternAddr
  y0 := by
    show (patternAddr >>> 5 &&& 0x1F).toNat = patternAddr.toNat / 32
    rw [toNat_and_31, BitVec.toNat_ushiftRight, Nat.shiftRight_eq_div_pow]
    omega
  array := array

/-- With good arguments the call is its list of `pwrite`s. -/
theorem pattern_eq (ppuFd : process.ppuFd = true) (bound : patternAddr.toNat < 1024)
    (wide : width ≠ 0) (high : height ≠ 0) (array : width.toNat * height.toNat ≤ 2 ^ 32) :
    ppuWritePattern process (some pattern) width height patternAddr =
      .pwrites ((List.range (width.toNat * height.toNat)).map
        (patternRun pattern (blockOf width height patternAddr))) (.done 0) := by
  have address : ¬ patternMaxaddr < patternAddr.toNat := by
    rw [patternMaxaddr]
    omega
  have zero : (0 : BitVec 32).toNat = 0 := rfl
  have rows := @writePatternRows_eq pattern _ width height _ _ (describes_blockOf array bound)
    height.toNat 0 (Nat.zero_add _)
  rw [zero, Nat.mul_zero, ← List.range_eq_range'] at rows
  rw [ppuWritePattern]
  simp only [Program.nowaymsg, ppuFd, wide, high, address, Bool.not_true, Bool.false_eq_true,
    decide_false, if_false]
  exact rows

theorem pattern_passed (alone : Exclusive tid s) {ret : ℤ}
    (exec : Exec cfg tid s (ppuWritePattern process (some pattern) width height patternAddr) s'
      (.returned ret)) :
    process.ppuFd = true ∧ patternAddr.toNat < 1024 := by
  obtain ⟨isOpen, exec⟩ := exec.of_nowaymsg alone
  obtain ⟨address, -⟩ := exec.of_nowaymsg alone
  have bound := not_lt.mp (of_decide_eq_false address)
  rw [patternMaxaddr] at bound
  exact ⟨by simpa using isOpen, by omega⟩

/-- A call that returns 0 leaves its block. -/
theorem pattern_stored (alone : Exclusive tid s) {x0 y0 : ℕ} (startX : x0 < 32)
    (start : patternAddr.toNat = 32 * y0 + x0) (wide : 1 ≤ width.toNat) (high : 1 ≤ height.toNat)
    (array : width.toNat * height.toNat ≤ 2 ^ 32)
    (exec : Exec cfg tid s (ppuWritePattern process (some pattern) width height patternAddr) s'
      (.returned 0)) :
    kernelVram cfg s' =
      patternStored pattern ⟨width.toNat, height.toNat, x0, y0⟩ (kernelVram cfg s) := by
  obtain ⟨ppuFd, bound⟩ := pattern_passed alone exec
  rw [pattern_eq ppuFd bound (ne_zero_of_one_le wide) (ne_zero_of_one_le high) array] at exec
  have block : blockOf width height patternAddr = ⟨width.toNat, height.toNat, x0, y0⟩ := by
    rw [blockOf, start, PatternBlock.mk.injEq]
    exact ⟨rfl, rfl, by omega, by omega⟩
  have stored := exec.pwrites alone fun w member => by
    obtain ⟨j, -, rfl⟩ := List.mem_map.mp member
    exact patternRun_inside j
  rw [block, List.map_map] at stored
  exact stored

/-- **`ppu_write_pattern`.** If a call with an array of `width * height` patterns
returns 0, a tile of the map to which patterns of the block come holds the last
of them in row-major order, pixel row `r` in half `r % 2` of word
`(32 y + x) * 4 + r / 2` of Pattern RAM; the bytes of every other tile and all
bytes outside Pattern RAM are as before. -/
theorem pattern_block (reachable : (driver Tid cfg).Reachable s) (sole : SoleUser tid s)
    {x0 y0 : ℕ} (startX : x0 < 32) (start : patternAddr.toNat = 32 * y0 + x0)
    (wide : 1 ≤ width.toNat) (high : 1 ≤ height.toNat)
    (array : tilepatternBsize * (width.toNat * height.toNat) ≤ 2 ^ 32)
    (exec : Exec cfg tid s (ppuWritePattern process (some pattern) width height patternAddr) s'
      (.returned 0)) :
    (∀ x y, x < 32 → y < 32 →
      ((∃ col row, PatternBlock.Comes ⟨width.toNat, height.toNat, x0, y0⟩ x y col row) →
        ∃ col row, PatternBlock.Last ⟨width.toNat, height.toNat, x0, y0⟩ x y col row ∧
          ∀ ppu, HandedOver (kernelVram cfg s') ppu → ∀ r : Fin 8,
            lane 32 (r.val % 2)
                (patramOf ppu (BitVec.ofNat 12 ((32 * y + x) * 4 + r.val / 2))) =
              pattern (col + width.toNat * row) r) ∧
      ((¬ ∃ col row, PatternBlock.Comes ⟨width.toNat, height.toNat, x0, y0⟩ x y col row) →
        ∀ k, k < 32 → kernelVram cfg s' (patternByteAddr (tileName x y) + k) =
          kernelVram cfg s (patternByteAddr (tileName x y) + k))) ∧
    ∀ a, ¬ patternRegion a → kernelVram cfg s' a = kernelVram cfg s a := by
  have alone : Exclusive tid s := ⟨sole, owned_of_reachable reachable⟩
  rw [tilepatternBsize] at array
  have final := pattern_stored alone startX start wide high (by omega) exec
  refine ⟨fun x y small below => ⟨?_, ?_⟩, ?_⟩
  · rintro ⟨col, row, comes⟩
    obtain ⟨col, row, last⟩ := PatternBlock.exists_last comes
    refine ⟨col, row, last, fun ppu handed r => ?_⟩
    rw [final] at handed
    exact patternStored_word small below last handed r
  · intro none k within
    rw [final]
    refine patternStored_frame fun col row k' inside below' within' same => none ⟨col, row, ?_⟩
    refine PatternBlock.comes_of_target inside below' small ?_
    rw [patternByteAddr, patternByteAddr] at same
    omega
  · intro a outside
    rw [final]
    refine patternStored_frame fun col row k inside below within same => outside ?_
    have tile := PatternBlock.target_lt (b := ⟨width.toNat, height.toNat, x0, y0⟩) col row
    rw [patternByteAddr] at same
    rw [patternRegion, vramPatternoffset, vramPaletteoffset]
    omega

end Pattern

/-- A row of 33 patterns goes once around the map, so its last pattern lies over
its first. -/
theorem pattern_block_around :
    ∃ after : State Bool,
      Exec alignedConfig true PpuDriver.atRest
        (ppuWritePattern grayProcess (some fun j _ => BitVec.ofNat 32 j) 33 1 0xE5) after
        (.returned 0) ∧
      ∀ ppu, HandedOver (kernelVram alignedConfig after) ppu → ∀ r : Fin 8,
        lane 32 (r.val % 2) (patramOf ppu (BitVec.ofNat 12 ((32 * 7 + 5) * 4 + r.val / 2))) =
          (32 : BitVec 32) := by
  obtain ⟨after, exec⟩ := exec_atRest
    (@pattern_eq grayProcess (fun j _ => BitVec.ofNat 32 j) 33 1 0xE5 rfl (by decide) (by decide)
      (by decide) (by decide)) fun w member => by
        obtain ⟨j, -, rfl⟩ := List.mem_map.mp member
        exact patternRun_inside j
  obtain ⟨tiles, -⟩ := pattern_block reachable_atRest (fun _ _ => rfl) (show 5 < 32 by decide)
    (show (0xE5 : BitVec 32).toNat = 32 * 7 + 5 from rfl) (by decide) (by decide) (by decide) exec
  obtain ⟨col, row, ⟨⟨inside, below, -, -⟩, latest⟩, content⟩ :=
    (tiles 5 7 (by decide) (by decide)).1 ⟨0, 0, by decide, by decide, rfl, rfl⟩
  have last := latest 32 0 ⟨by decide, by decide, rfl, rfl⟩
  have width : (33 : BitVec 32).toNat = 33 := rfl
  have height : (1 : BitVec 32).toNat = 1 := rfl
  dsimp only at inside below
  rw [width] at inside content
  rw [height] at below
  obtain rfl : row = 0 := by omega
  obtain rfl : col = 32 := by omega
  exact ⟨after, exec, content⟩

end FPGame.Library
