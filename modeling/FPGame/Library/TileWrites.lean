import FPGame.Library.Pwrites
import FPGame.Ppu.HandedOver

/-!
# Rows and columns of tiles

`ppu_write_tiles_horizontal` writes a run of tiles in one or two pieces and
`ppu_write_tiles_vertical` writes it tile by tile. Both repeat a short array and
wrap around at the edge of the layer. The theorems say what either of them
leaves in the VRAM: tile `i` of the repeated array is in the `i`-th cell, and no
other byte has changed.
-/

set_option autoImplicit false

namespace FPGame.Library

open FPGame.Foundation FPGame.Ppu FPGame.Vram FPGame.Linux
open FPGame.PpuDriver (Config State Exclusive SoleUser driver owned_of_reachable vramSize)

/-! ## The buffer of tiles -/

section Buffer

variable {tiles : ℕ → BitVec 16} {len count : BitVec 32} {i k : ℕ}

theorem clamp_eq_min (count : BitVec 32) : (clamp 64 count).toNat = min count.toNat 64 := by
  rw [clamp]
  split_ifs with above
  · rw [BitVec.toNat_ofNat]
    omega
  · omega

/-- The repeated array, from any place in it. -/
theorem getD_repeatTiles {written : BitVec 32} {n : ℕ} (place : written.toNat < len.toNat)
    (inside : i < n) :
    (repeatTiles tiles len n written).getD i 0 = tiles ((written.toNat + i) % len.toNat) := by
  induction n generalizing written i with
  | zero => cases inside
  | succ n ih =>
      have one : (1 : BitVec 32).toNat = 1 := rfl
      have last : (len - 1).toNat = len.toNat - 1 := by
        rw [BitVec.toNat_sub, one]
        omega
      cases i with
      | zero =>
          rw [repeatTiles, List.getD_cons_zero, Nat.add_zero, Nat.mod_eq_of_lt place]
      | succ i =>
          rw [repeatTiles, List.getD_cons_succ]
          by_cases ends : written = len - 1
          · have around : written.toNat + (i + 1) = i + len.toNat := by
              rw [ends, last]
              omega
            have start : (0 : BitVec 32).toNat < len.toNat := Nat.zero_lt_of_lt place
            rw [if_pos ends, ih start (Nat.lt_of_succ_lt_succ inside), around, Nat.add_mod_right,
              show (0 : BitVec 32).toNat = 0 from rfl, Nat.zero_add]
          · have more : written.toNat + 1 < len.toNat := by
              have differ : written.toNat ≠ len.toNat - 1 := fun same =>
                ends (BitVec.eq_of_toNat_eq (same.trans last.symm))
              omega
            have next : (written + 1).toNat = written.toNat + 1 := by
              rw [BitVec.toNat_add, one]
              exact Nat.mod_eq_of_lt (lt_trans more len.isLt)
            rw [if_neg ends, ih (by rwa [next]) (Nat.lt_of_succ_lt_succ inside), next, Nat.add_assoc,
              Nat.add_comm 1 i]

/-- The buffer that both functions fill. -/
def tileBuffer (tiles : ℕ → BitVec 16) (len count : BitVec 32) : ℕ → BitVec 8 :=
  tileBytes (repeatTiles tiles (clamp 64 len) (clamp 64 count).toNat 0)

/-- A byte of a tile in the buffer. -/
theorem tileBuffer_at (some : len ≠ 0) (inside : i < (clamp 64 count).toNat) (within : k < 2) :
    tileBuffer tiles len count (2 * i + k) = lane 8 k (tiles (i % min len.toNat 64)) := by
  have positive := (clamp_toNat some).1
  rw [tileBuffer, tileBytes, show (2 * i + k) / 2 = i by omega, show (2 * i + k) % 2 = k by omega,
    getD_repeatTiles (show (0 : BitVec 32).toNat < _ from positive) inside, clamp_eq_min,
    show (0 : BitVec 32).toNat = 0 from rfl, Nat.zero_add]

end Buffer

/-! ## Runs of tiles -/

/-- `m` tiles of the buffer, from tile `first` on, written to an address. -/
def tileRun (buffer : ℕ → BitVec 8) (first m address : ℕ) : Pwrite where
  buf k := buffer (2 * first + k)
  count := BitVec.ofNat 32 (m * 2)
  offset := BitVec.ofNat 32 address

section Run

variable {buffer : ℕ → BitVec 8} {first m address : ℕ}

theorem tileRun_offset (bound : address < 2 ^ 32) :
    (tileRun buffer first m address).block.1 = address :=
  (BitVec.toNat_ofNat _ _).trans (Nat.mod_eq_of_lt bound)

theorem tileRun_length (bound : m ≤ 64) : (tileRun buffer first m address).block.2.length = 2 * m := by
  rw [Pwrite.length_block, tileRun, BitVec.toNat_ofNat]
  omega

theorem tileRun_getElem {k : ℕ} (within : k < (tileRun buffer first m address).block.2.length) :
    (tileRun buffer first m address).block.2[k] = buffer (2 * first + k) :=
  Pwrite.getElem_block _ within

theorem tileRun_inside (few : m ≤ 64) (bound : address + 2 * m ≤ vramSize) :
    (tileRun buffer first m address).Inside := by
  have small : vramSize < 2 ^ 32 := by decide
  have count : (tileRun buffer first m address).count.toNat = 2 * m :=
    (Pwrite.length_block _).symm.trans (tileRun_length few)
  rw [Pwrite.Inside, count, ← Pwrite.block_fst, tileRun_offset (by omega)]
  exact bound

end Run

theorem tileLayerBase_eq (fg : Bool) :
    tileLayerBase (if fg then layerFg else layerBg) = 0x2000 * fg.toNat := by
  cases fg <;> rfl

/-! ## Rows -/

section Row

variable {buffer : ℕ → BitVec 8} {image : ℕ → BitVec 8} {top x n : ℕ}

/-- The pieces of a row: up to its end, and the rest from its start. -/
def rowRuns (buffer : ℕ → BitVec 8) (top x n : ℕ) : List Pwrite :=
  tileRun buffer 0 (min (64 - x) n) (top + 2 * x) ::
    if 64 - x < n then [tileRun buffer (64 - x) (n - (64 - x)) top] else []

theorem rowRuns_inside (start : x < 64) (few : n ≤ 64) (bound : top + 128 ≤ vramSize) :
    ∀ w ∈ rowRuns buffer top x n, w.Inside := by
  intro w member
  rcases List.mem_cons.mp member with rfl | rest
  · exact tileRun_inside (by omega) (by omega)
  · split_ifs at rest with wraps
    · obtain rfl := List.mem_singleton.mp rest
      exact tileRun_inside (by omega) (by omega)
    · cases rest

/-- The pieces of a row hold its tiles. -/
theorem rowRuns_cells (start : x < 64) (few : n ≤ 64) (bound : top + 128 ≤ vramSize) {i k : ℕ}
    (inside : i < n) (within : k < 2) :
    storeBlocks image ((rowRuns buffer top x n).map Pwrite.block) (top + 2 * ((x + i) % 64) + k) =
      buffer (2 * i + k) := by
  have small : vramSize < 2 ^ 32 := by decide
  by_cases early : i < 64 - x
  · -- in the first piece, which the second one misses
    have address := @tileRun_offset buffer 0 (min (64 - x) n) (top + 2 * x) (by omega)
    have length := @tileRun_length buffer 0 (min (64 - x) n) (top + 2 * x) (by omega)
    have place : top + 2 * ((x + i) % 64) + k =
        (tileRun buffer 0 (min (64 - x) n) (top + 2 * x)).block.1 + (2 * i + k) := by
      rw [address, Nat.mod_eq_of_lt (by omega)]
      omega
    rw [place, rowRuns, List.map_cons, ← List.nil_append (_ :: _), storeBlocks_last image
      (by rw [length]; omega), tileRun_getElem]
    · exact congrArg buffer (by omega)
    · intro later member
      rw [address]
      split_ifs at member with wraps
      · obtain rfl := List.mem_singleton.mp member
        right
        rw [tileRun_offset (by omega), tileRun_length (by omega)]
        omega
      · cases member
  · have wraps : 64 - x < n := by omega
    have address := @tileRun_offset buffer (64 - x) (n - (64 - x)) top (by omega)
    have length := @tileRun_length buffer (64 - x) (n - (64 - x)) top (by omega)
    have place : top + 2 * ((x + i) % 64) + k =
        (tileRun buffer (64 - x) (n - (64 - x)) top).block.1 + (2 * (i - (64 - x)) + k) := by
      rw [address, show x + i = (i - (64 - x)) + 64 by omega, Nat.add_mod_right,
        Nat.mod_eq_of_lt (by omega)]
      omega
    rw [place, rowRuns, if_pos wraps, List.map_cons, List.map_singleton, ← List.singleton_append,
      storeBlocks_last image (by rw [length]; omega)
        fun _ none => absurd none List.not_mem_nil, tileRun_getElem]
    exact congrArg buffer (by omega)

/-- The pieces of a row touch nothing else. -/
theorem rowRuns_frame (start : x < 64) (few : n ≤ 64) (bound : top + 128 ≤ vramSize) {a : ℕ}
    (outside : ∀ i, i < n → ∀ k, k < 2 → a ≠ top + 2 * ((x + i) % 64) + k) :
    storeBlocks image ((rowRuns buffer top x n).map Pwrite.block) a = image a := by
  have small : vramSize < 2 ^ 32 := by decide
  apply storeBlocks_of_misses
  intro block member
  by_contra meets
  obtain ⟨d, within, rfl⟩ := not_misses.mp meets
  rw [rowRuns, List.map_cons] at member
  rcases List.mem_cons.mp member with rfl | rest
  · rw [tileRun_length (by omega)] at within
    refine outside (d / 2) (by omega) (d % 2) (Nat.mod_lt _ (by decide)) ?_
    rw [tileRun_offset (by omega), Nat.mod_eq_of_lt (by omega)]
    omega
  · split_ifs at rest with wraps
    · obtain rfl := List.mem_singleton.mp rest
      rw [tileRun_length (by omega)] at within
      refine outside (64 - x + d / 2) (by omega) (d % 2) (Nat.mod_lt _ (by decide)) ?_
      rw [tileRun_offset (by omega), show x + (64 - x + d / 2) = d / 2 + 64 by omega,
        Nat.add_mod_right, Nat.mod_eq_of_lt (by omega)]
      omega
    · cases rest

end Row

section Horizontal

variable {Tid : Type} [DecidableEq Tid] {cfg : Config} {tid : Tid} {s s' : State Tid}
  {process : Process} {tiles : ℕ → BitVec 16} {len layer xI yI count : BitVec 32}

/-- The `pwrite`s of a row, as they are made. -/
theorem pwrites_rowRuns (buffer : ℕ → BitVec 8) (x : xI.toNat < 64) (y : yI.toNat < 64) :
    Program.pwrite buffer
        (unsignedMin (BitVec.ofNat 32 64 - xI) (clamp 64 count) * BitVec.ofNat 32 2)
        (tileLayerOffset layer + (yI * BitVec.ofNat 32 64 + xI) * BitVec.ofNat 32 2)
        (if clamp 64 count - unsignedMin (BitVec.ofNat 32 64 - xI) (clamp 64 count) = 0 then
          .done 0
        else
          .pwrite
            (fun k => buffer
              (2 * (unsignedMin (BitVec.ofNat 32 64 - xI) (clamp 64 count)).toNat + k))
            ((clamp 64 count - unsignedMin (BitVec.ofNat 32 64 - xI) (clamp 64 count)) *
              BitVec.ofNat 32 2)
            (tileLayerOffset layer + yI * BitVec.ofNat 32 64 * BitVec.ofNat 32 2)
            (if clamp 64 count - (unsignedMin (BitVec.ofNat 32 64 - xI) (clamp 64 count) +
                (clamp 64 count - unsignedMin (BitVec.ofNat 32 64 - xI) (clamp 64 count))) = 0 then
              .done 0
            else .abort .assertion)) =
      .pwrites (rowRuns buffer (tileLayerBase layer + 128 * yI.toNat) xI.toNat
        (clamp 64 count).toNat) (.done 0) := by
  have first := @firstTiles_toNat xI count x
  have left := @leftTiles_toNat xI count x
  have few := clamp_eq_min count
  have address := eq_ofNat ((rowAddr_toNat layer x y).trans
    (show _ = tileLayerBase layer + 128 * yI.toNat + 2 * xI.toNat by ring))
  have top := eq_ofNat ((rowTop_toNat layer y).trans
    (show _ = tileLayerBase layer + 128 * yI.toNat by ring))
  generalize unsignedMin (BitVec.ofNat 32 64 - xI) (clamp 64 count) = written at first left ⊢
  generalize clamp 64 count = n at first left few ⊢
  have count₁ : written * BitVec.ofNat 32 2 = BitVec.ofNat 32 (min (64 - xI.toNat) n.toNat * 2) := by
    apply eq_ofNat
    rw [BitVec.toNat_mul, first, BitVec.toNat_ofNat]
    omega
  have complete : n - (written + (n - written)) = 0 := by
    apply BitVec.eq_of_toNat_eq
    rw [BitVec.toNat_sub, BitVec.toNat_add, first, left]
    simp only [BitVec.ofNat_eq_ofNat, BitVec.toNat_ofNat]
    omega
  rw [address, top, count₁, if_pos complete, rowRuns, Program.pwrites_cons]
  simp only [tileRun, Nat.mul_zero, Nat.zero_add]
  by_cases wraps : 64 - xI.toNat < n.toNat
  · have some : n - written ≠ 0 := fun none => by
      rw [none] at left
      simp at left
      omega
    have count₂ : (n - written) * BitVec.ofNat 32 2 =
        BitVec.ofNat 32 ((n.toNat - (64 - xI.toNat)) * 2) := by
      apply eq_ofNat
      rw [BitVec.toNat_mul, left, BitVec.toNat_ofNat]
      omega
    rw [if_neg some, if_pos wraps, Program.pwrites_cons, Program.pwrites_nil, count₂, first,
      Nat.min_eq_left wraps.le]
  · have none : n - written = 0 := by
      apply BitVec.eq_of_toNat_eq
      rw [left]
      simp
      omega
    rw [if_pos none, if_neg wraps, Program.pwrites_nil]

/-- The checks of a call that returns have passed. -/
structure Passed (process : Process) (xI yI : BitVec 32) : Prop where
  ppuFd : process.ppuFd = true
  malloc : process.writeTiles = true
  x : xI.toNat < 64
  y : yI.toNat < 64

theorem horizontal_eq (passed : Passed process xI yI) (fg : Bool) (someTiles : len ≠ 0)
    (someCells : count ≠ 0) :
    ppuWriteTilesHorizontal process (some tiles) len (if fg then layerFg else layerBg) xI yI count =
      .pwrites (rowRuns (tileBuffer tiles len count) (0x2000 * fg.toNat + 128 * yI.toNat) xI.toNat
        (min count.toNat 64)) (.done 0) := by
  have something : ¬ (count = 0 ∨ len = 0) := not_or.mpr ⟨someCells, someTiles⟩
  have layer : ¬ ((if fg then layerFg else layerBg) ≠ layerBg ∧
      (if fg then layerFg else layerBg) ≠ layerFg) := by
    cases fg <;> decide
  have x : ¬ tilelayerWidth ≤ xI.toNat := not_le.mpr passed.x
  have y : ¬ tilelayerHeight ≤ yI.toNat := not_le.mpr passed.y
  rw [← tileLayerBase_eq, ← clamp_eq_min, ← pwrites_rowRuns _ passed.x passed.y,
    ppuWriteTilesHorizontal]
  simp only [Program.nowaymsg, passed.ppuFd, passed.malloc, something, layer, x, y, Bool.not_true,
    Bool.false_eq_true, decide_false, if_false]
  rfl

theorem horizontal_passed (alone : Exclusive tid s) (someTiles : len ≠ 0) (someCells : count ≠ 0)
    {ret : ℤ} (exec : Exec cfg tid s
      (ppuWriteTilesHorizontal process (some tiles) len layer xI yI count) s' (.returned ret)) :
    Passed process xI yI := by
  obtain ⟨isOpen, exec⟩ := exec.of_nowaymsg alone
  obtain ⟨column, exec⟩ := exec.of_nowaymsg alone
  obtain ⟨row, exec⟩ := exec.of_nowaymsg alone
  obtain ⟨-, exec⟩ := exec.of_nowaymsg alone
  dsimp only at exec
  rw [if_neg (not_or.mpr ⟨someCells, someTiles⟩)] at exec
  obtain ⟨malloc, -⟩ := exec.of_nowaymsg alone
  exact ⟨by simpa using isOpen, by simpa using malloc,
    not_le.mp (of_decide_eq_false column), not_le.mp (of_decide_eq_false row)⟩

/-- A layer ends inside the VRAM. -/
theorem layerRow_inside (fg : Bool) {row : ℕ} (y : row < 64) :
    0x2000 * fg.toNat + 128 * row + 128 ≤ vramSize := by
  have layer : fg.toNat < 2 := Bool.toNat_lt fg
  rw [vramSize]
  omega

/-- **`ppu_write_tiles_horizontal`.** If the call returns 0, the hardware reads
tile `i` of the repeated array in column `x_i + i` of the row, modulo 64, for
each of the `min(count, 64)` cells, and no other byte of the VRAM has changed. -/
theorem tiles_horizontal (reachable : (driver Tid cfg).Reachable s) (sole : SoleUser tid s)
    (fg : Bool) (someTiles : 1 ≤ len.toNat) (someCells : 1 ≤ count.toNat)
    (exec : Exec cfg tid s
      (ppuWriteTilesHorizontal process (some tiles) len (if fg then layerFg else layerBg) xI yI
        count) s' (.returned 0)) :
    (∀ ppu, HandedOver (kernelVram cfg s') ppu → ∀ i, i < min count.toNat 64 →
      tileEntry fg (tilramOf ppu) ((xI.toNat + i) % 64) yI.toNat =
        tiles (i % min len.toNat 64)) ∧
    ∀ a, (∀ i, i < min count.toNat 64 → ∀ k, k < 2 →
        a ≠ tileEntryAddr fg ((xI.toNat + i) % 64) yI.toNat + k) →
      kernelVram cfg s' a = kernelVram cfg s a := by
  have alone : Exclusive tid s := ⟨sole, owned_of_reachable reachable⟩
  have filled := ne_zero_of_one_le someTiles
  have passed := horizontal_passed alone filled (ne_zero_of_one_le someCells) exec
  have x := passed.x
  have y := passed.y
  have few : min count.toNat 64 ≤ 64 := Nat.min_le_right _ _
  have bound := layerRow_inside fg y
  rw [horizontal_eq passed fg filled (ne_zero_of_one_le someCells)] at exec
  have stored := exec.pwrites alone (rowRuns_inside x few bound)
  refine ⟨fun ppu handed i inside => handed.tileEntry_eq (Nat.mod_lt _ (by decide)) y ?_, ?_⟩
  · intro k within
    rw [stored, tileEntryAddr, rowRuns_cells x few bound inside within]
    exact tileBuffer_at filled (by rwa [clamp_eq_min]) within
  · intro a outside
    rw [stored]
    exact rowRuns_frame x few bound outside

end Horizontal

/-- Three tiles, written to four cells of the foreground from the last column
but one on. -/
theorem tiles_horizontal_wrap :
    ∃ after : State Bool,
      Exec alignedConfig true PpuDriver.atRest
        (ppuWriteTilesHorizontal grayProcess (some fun i => BitVec.ofNat 16 (i + 7)) 3 layerFg 62 5 4)
        after (.returned 0) ∧
      ∀ ppu, HandedOver (kernelVram alignedConfig after) ppu →
        ∀ i, i < 4 → tileEntry true (tilramOf ppu) ((62 + i) % 64) 5 =
          BitVec.ofNat 16 (i % 3 + 7) := by
  have passed : Passed grayProcess 62 5 := ⟨rfl, rfl, by decide, by decide⟩
  have program := @horizontal_eq grayProcess (fun i => BitVec.ofNat 16 (i + 7)) 3 62 5 4 passed
    true (by decide) (by decide)
  obtain ⟨after, exec⟩ := exec_atRest program (rowRuns_inside (by decide) (by decide) (by decide))
  refine ⟨after, exec, fun ppu handed => ?_⟩
  exact (tiles_horizontal reachable_atRest (fun _ _ => rfl) true (by decide) (by decide) exec).1 ppu
    handed

/-! ## Columns -/

/-- The single tiles of a column. -/
def columnRuns (buffer : ℕ → BitVec 8) (top y n : ℕ) : List Pwrite :=
  (List.range n).map fun i => tileRun buffer i 1 (top + 128 * ((y + i) % 64))

section Column

variable {buffer : ℕ → BitVec 8} {image : ℕ → BitVec 8} {top y n : ℕ}

theorem columnRuns_inside (bound : top + 8066 ≤ vramSize) :
    ∀ w ∈ columnRuns buffer top y n, w.Inside := by
  intro w member
  obtain ⟨i, -, rfl⟩ := List.mem_map.mp member
  exact tileRun_inside (by decide) (by omega)

theorem columnRuns_cells (few : n ≤ 64) (bound : top + 8066 ≤ vramSize) {i k : ℕ}
    (inside : i < n) (within : k < 2) :
    storeBlocks image ((columnRuns buffer top y n).map Pwrite.block)
      (top + 128 * ((y + i) % 64) + k) = buffer (2 * i + k) := by
  have small : vramSize < 2 ^ 32 := by decide
  have address : ∀ i, (tileRun buffer i 1 (top + 128 * ((y + i) % 64))).block.1 =
      top + 128 * ((y + i) % 64) := fun i => tileRun_offset (by omega)
  have length : ∀ i, (tileRun buffer i 1 (top + 128 * ((y + i) % 64))).block.2.length = 2 * 1 :=
    fun i => tileRun_length (by decide)
  have here := @storeBlocks_range _ image
    (fun i => (tileRun buffer i 1 (top + 128 * ((y + i) % 64))).block) n i k inside
    (by rw [length]; omega) fun j after before => by
      -- no two tiles of a column have a row in common
      rw [address, Misses, address, length]
      omega
  rw [address, tileRun_getElem] at here
  rw [columnRuns, List.map_map]
  exact here

theorem columnRuns_frame (bound : top + 8066 ≤ vramSize) {a : ℕ}
    (outside : ∀ i, i < n → ∀ k, k < 2 → a ≠ top + 128 * ((y + i) % 64) + k) :
    storeBlocks image ((columnRuns buffer top y n).map Pwrite.block) a = image a := by
  have small : vramSize < 2 ^ 32 := by decide
  rw [columnRuns, List.map_map]
  apply storeBlocks_range_of_misses
  intro i inside
  by_contra meets
  obtain ⟨k, within, rfl⟩ := not_misses.mp meets
  rw [Function.comp_apply, tileRun_length (by decide)] at within
  refine outside i inside k within ?_
  rw [Function.comp_apply, tileRun_offset (by omega)]

end Column

section Vertical

variable {Tid : Type} [DecidableEq Tid] {cfg : Config} {tid : Tid} {s s' : State Tid}
  {process : Process} {tiles : ℕ → BitVec 16} {len layer xI yI count : BitVec 32}
  {buffer : ℕ → BitVec 8}

/-- The inner loop writes tile after tile, 128 bytes apart. -/
theorem writeColumn_eq {rest : BitVec 32 → Program} {cell : ℕ → ℕ} {n : ℕ}
    {written startAddr : BitVec 32} (most : written.toNat + n ≤ count.toNat)
    (small : startAddr.toNat + 128 * n < 2 ^ 32)
    (cells : ∀ i, i < n → startAddr.toNat + 128 * i = cell (written.toNat + i)) :
    writeColumn buffer count rest n written startAddr =
      .pwrites ((List.range' written.toNat n).map fun i => tileRun buffer i 1 (cell i))
        (rest (written + BitVec.ofNat 32 n)) := by
  induction n generalizing written startAddr with
  | zero =>
      rw [writeColumn, List.range'_zero, List.map_nil, Program.pwrites_nil]
      exact congrArg rest (BitVec.add_zero written).symm
  | succ n ih =>
      have room := count.isLt
      have one : (1 : BitVec 32).toNat = 1 := rfl
      have more : (written + 1).toNat = written.toNat + 1 := by
        rw [BitVec.toNat_add, one]
        exact Nat.mod_eq_of_lt (by omega)
      have below : (startAddr + BitVec.ofNat 32 (tilelayerWidth * tiledataBsize)).toNat =
          startAddr.toNat + 128 := by
        rw [BitVec.toNat_add, BitVec.toNat_ofNat, tilelayerWidth, tiledataBsize]
        omega
      have total : written + 1 + BitVec.ofNat 32 n = written + BitVec.ofNat 32 (n + 1) := by
        rw [BitVec.add_assoc]
        congr 1
        apply BitVec.eq_of_toNat_eq
        rw [BitVec.toNat_add, BitVec.toNat_ofNat, BitVec.toNat_ofNat, one]
        omega
      have here : startAddr = BitVec.ofNat 32 (cell written.toNat) := eq_ofNat (cells 0 n.succ_pos)
      have following := @ih (written + 1)
        (startAddr + BitVec.ofNat 32 (tilelayerWidth * tiledataBsize)) (by omega) (by omega)
        fun i inside => by
          rw [below, more, Nat.add_assoc, Nat.add_assoc, Nat.add_comm 1 i, ← cells (i + 1) (by omega)]
          ring
      rw [writeColumn, if_pos (by omega), following, total, more, List.range'_succ, List.map_cons,
        Program.pwrites_cons, tileRun, ← here]
      rfl

/-- **The nested loops write each tile of the column once.** -/
theorem writeColumns_eq {top fuel : ℕ} {topAddr startAddr : BitVec 32} (y : yI.toNat < 64)
    (some : 1 ≤ (clamp 64 count).toNat) (enough : (clamp 64 count).toNat + 1 ≤ fuel)
    (bound : top + 8066 ≤ vramSize) (topEq : topAddr.toNat = top)
    (startEq : startAddr.toNat = top + 128 * yI.toNat) :
    writeColumns buffer (clamp 64 count) topAddr fuel
        (unsignedMin (BitVec.ofNat 32 64 - yI) (clamp 64 count)) 0 startAddr =
      .pwrites (columnRuns buffer top yI.toNat (clamp 64 count).toNat) (.done 0) := by
  have small : vramSize + 8192 < 2 ^ 32 := by decide
  have zero : (0 : BitVec 32).toNat = 0 := rfl
  have empty : ∀ b : BitVec 32, 0 + b = b := BitVec.zero_add
  have first := @firstTiles_toNat yI count y
  have few : (clamp 64 count).toNat ≤ 64 := by
    rw [clamp_eq_min]
    exact Nat.min_le_right _ _
  generalize unsignedMin (BitVec.ofNat 32 64 - yI) (clamp 64 count) = towrite at first ⊢
  generalize clamp 64 count = n at some first few enough ⊢
  by_cases wraps : 64 - yI.toNat < n.toNat
  · -- up to the last row, and then from the first one
    rw [Nat.min_eq_left wraps.le] at first
    have written : (BitVec.ofNat 32 (64 - yI.toNat)).toNat = 64 - yI.toNat := by
      rw [BitVec.toNat_ofNat]
      omega
    have left : (n - BitVec.ofNat 32 (64 - yI.toNat)).toNat = n.toNat - (64 - yI.toNat) := by
      rw [BitVec.toNat_sub, written]
      omega
    have complete : (BitVec.ofNat 32 (64 - yI.toNat) +
        BitVec.ofNat 32 (n.toNat - (64 - yI.toNat))).toNat = n.toNat := by
      rw [BitVec.toNat_add, written, BitVec.toNat_ofNat]
      omega
    have append := @List.range'_append_1 0 (64 - yI.toNat) (n.toNat - (64 - yI.toNat))
    rw [Nat.zero_add, Nat.add_sub_cancel' wraps.le] at append
    obtain ⟨f, rfl⟩ := Nat.exists_eq_add_of_le' (show 3 ≤ fuel by omega)
    rw [writeColumns, if_pos (show (0 : BitVec 32).toNat < n.toNat from some), first,
      @writeColumn_eq n buffer _ (fun i => top + 128 * ((yI.toNat + i) % 64)) _ 0 startAddr
        (by omega) (by omega) fun i inside => by omega,
      zero, empty, writeColumns,
      if_pos (show (BitVec.ofNat 32 (64 - yI.toNat)).toNat < n.toNat by omega), left,
      @writeColumn_eq n buffer _ (fun i => top + 128 * ((yI.toNat + i) % 64)) _
        (BitVec.ofNat 32 (64 - yI.toNat)) topAddr (by omega) (by omega) fun i inside => by omega,
      written, writeColumns_ended complete.ge, ← Program.pwrites_append, ← List.map_append, append,
      ← List.range_eq_range']
    rfl
  · rw [Nat.min_eq_right (not_lt.mp wraps)] at first
    obtain ⟨f, rfl⟩ := Nat.exists_eq_add_of_le' (show 2 ≤ fuel by omega)
    rw [writeColumns, if_pos (show (0 : BitVec 32).toNat < n.toNat from some), first,
      @writeColumn_eq n buffer _ (fun i => top + 128 * ((yI.toNat + i) % 64)) _ 0 startAddr
        (by omega) (by omega) fun i inside => by omega,
      zero, empty, writeColumns_ended (by rw [BitVec.toNat_ofNat]; omega), ← List.range_eq_range']
    rfl

theorem vertical_eq (passed : Passed process xI yI) (fg : Bool) (someTiles : len ≠ 0)
    (someCells : count ≠ 0) :
    ppuWriteTilesVertical process (some tiles) len (if fg then layerFg else layerBg) xI yI count =
      .pwrites (columnRuns (tileBuffer tiles len count) (0x2000 * fg.toNat + 2 * xI.toNat)
        yI.toNat (min count.toNat 64)) (.done 0) := by
  have something : ¬ (count = 0 ∨ len = 0) := not_or.mpr ⟨someCells, someTiles⟩
  have x : ¬ tilelayerWidth ≤ xI.toNat := not_le.mpr passed.x
  have y : ¬ tilelayerHeight ≤ yI.toNat := not_le.mpr passed.y
  have layer : fg.toNat < 2 := Bool.toNat_lt fg
  have column := passed.x
  have top := columnTop_toNat (if fg then layerFg else layerBg) passed.x
  have start := columnAddr_toNat (if fg then layerFg else layerBg) passed.x passed.y
  rw [tileLayerBase_eq] at top start
  have loops := @writeColumns_eq yI count (tileBuffer tiles len count)
    (0x2000 * fg.toNat + 2 * xI.toNat) ((clamp 64 count).toNat + 1) _ _ passed.y
    (clamp_toNat someCells).1 le_rfl (by rw [vramSize]; omega) (top.trans (by ring))
    (start.trans (by ring))
  rw [← clamp_eq_min, ← loops, ppuWriteTilesVertical]
  simp only [Program.nowaymsg, passed.ppuFd, passed.malloc, something, x, y, Bool.not_true,
    Bool.false_eq_true, decide_false, if_false]
  rfl

theorem vertical_passed (alone : Exclusive tid s) (someTiles : len ≠ 0) (someCells : count ≠ 0)
    {ret : ℤ} (exec : Exec cfg tid s
      (ppuWriteTilesVertical process (some tiles) len layer xI yI count) s' (.returned ret)) :
    Passed process xI yI := by
  obtain ⟨isOpen, exec⟩ := exec.of_nowaymsg alone
  obtain ⟨column, exec⟩ := exec.of_nowaymsg alone
  obtain ⟨row, exec⟩ := exec.of_nowaymsg alone
  dsimp only at exec
  rw [if_neg (not_or.mpr ⟨someCells, someTiles⟩)] at exec
  obtain ⟨malloc, -⟩ := exec.of_nowaymsg alone
  exact ⟨by simpa using isOpen, by simpa using malloc,
    not_le.mp (of_decide_eq_false column), not_le.mp (of_decide_eq_false row)⟩

/-- **`ppu_write_tiles_vertical`.** If the call returns 0, its nested loops have
ended after `min(count, 64)` `pwrite`s, the hardware reads tile `i` of the
repeated array in row `y_i + i` of the column, modulo 64, for each of these
cells, and no other byte of the VRAM has changed. -/
theorem tiles_vertical (reachable : (driver Tid cfg).Reachable s) (sole : SoleUser tid s)
    (fg : Bool) (someTiles : 1 ≤ len.toNat) (someCells : 1 ≤ count.toNat)
    (exec : Exec cfg tid s
      (ppuWriteTilesVertical process (some tiles) len (if fg then layerFg else layerBg) xI yI
        count) s' (.returned 0)) :
    (∃ ws : List Pwrite, ws.length = min count.toNat 64 ∧
      ppuWriteTilesVertical process (some tiles) len (if fg then layerFg else layerBg) xI yI count =
        .pwrites ws (.done 0)) ∧
    (∀ ppu, HandedOver (kernelVram cfg s') ppu → ∀ i, i < min count.toNat 64 →
      tileEntry fg (tilramOf ppu) xI.toNat ((yI.toNat + i) % 64) =
        tiles (i % min len.toNat 64)) ∧
    ∀ a, (∀ i, i < min count.toNat 64 → ∀ k, k < 2 →
        a ≠ tileEntryAddr fg xI.toNat ((yI.toNat + i) % 64) + k) →
      kernelVram cfg s' a = kernelVram cfg s a := by
  have alone : Exclusive tid s := ⟨sole, owned_of_reachable reachable⟩
  have filled := ne_zero_of_one_le someTiles
  have passed := vertical_passed alone filled (ne_zero_of_one_le someCells) exec
  have x := passed.x
  have program := @vertical_eq process tiles len xI yI count passed fg filled
    (ne_zero_of_one_le someCells)
  have layer : fg.toNat < 2 := Bool.toNat_lt fg
  have few : min count.toNat 64 ≤ 64 := Nat.min_le_right _ _
  have bound : 0x2000 * fg.toNat + 2 * xI.toNat + 8066 ≤ vramSize := by
    rw [vramSize]
    omega
  have cell : ∀ row, tileEntryAddr fg xI.toNat row =
      0x2000 * fg.toNat + 2 * xI.toNat + 128 * row := fun row => Nat.add_right_comm _ _ _
  rw [program] at exec
  have stored := exec.pwrites alone (columnRuns_inside bound)
  refine ⟨⟨_, ?_, program⟩, fun ppu handed i inside => ?_, ?_⟩
  · rw [columnRuns, List.length_map, List.length_range]
  · refine handed.tileEntry_eq x (Nat.mod_lt _ (by decide)) fun k within => ?_
    rw [stored, cell, columnRuns_cells few bound inside within]
    exact tileBuffer_at filled (by rwa [clamp_eq_min]) within
  · intro a outside
    rw [stored]
    refine columnRuns_frame bound fun i inside k within => ?_
    rw [← cell]
    exact outside i inside k within

end Vertical

/-- Three tiles, written to four cells of the background from the last row but
one on. -/
theorem tiles_vertical_wrap :
    ∃ after : State Bool,
      Exec alignedConfig true PpuDriver.atRest
        (ppuWriteTilesVertical grayProcess (some fun i => BitVec.ofNat 16 (i + 7)) 3 layerBg 5 62 4)
        after (.returned 0) ∧
      ∀ ppu, HandedOver (kernelVram alignedConfig after) ppu →
        ∀ i, i < 4 → tileEntry false (tilramOf ppu) 5 ((62 + i) % 64) =
          BitVec.ofNat 16 (i % 3 + 7) := by
  have passed : Passed grayProcess 5 62 := ⟨rfl, rfl, by decide, by decide⟩
  have program := @vertical_eq grayProcess (fun i => BitVec.ofNat 16 (i + 7)) 3 5 62 4 passed
    false (by decide) (by decide)
  obtain ⟨after, exec⟩ := exec_atRest program (columnRuns_inside (by decide))
  refine ⟨after, exec, fun ppu handed => ?_⟩
  exact (tiles_vertical reachable_atRest (fun _ _ => rfl) false (by decide) (by decide) exec).2.1 ppu
    handed

end FPGame.Library
