import FPGame.Vram.Segments

/-!
# `vram_interconnect`

The interconnect demultiplexes the write bus of the DMA engine onto the four
CPU-facing segments, and gives the PPU-facing ports to the sync writer while a
sync is active and to the PPU otherwise.

The demultiplexer tests three address bits. On the addresses of a VRAM image it
selects the segment and the local address that the memory map names
(`cpuDemux_eq_locate`), so a word of the image has one place and no other
segment sees its write.
-/

set_option autoImplicit false

namespace FPGame.Vram

open FPGame.Foundation

/-- Number of 128-bit words of a VRAM image. -/
def imageWords : ℕ := 0xD140 / 16

def patramStartAddr : ℕ := 0x400
def palramStartAddr : ℕ := 0xC00
def sprramStartAddr : ℕ := 0xD00

/-- The segment that the address bits select. -/
def cpuChoose (wraddr : ℕ) : Segment :=
  if wraddr.testBit 11 then
    if wraddr.testBit 10 then
      if wraddr.testBit 8 then .sprram else .palram
    else .patram
  else if wraddr.testBit 10 then .patram
  else .tilram

/-- The start address that is subtracted from a 12-bit write address. -/
def startAddr : Segment → ℕ
  | .tilram => 0
  | .patram => patramStartAddr
  | .palram => palramStartAddr
  | .sprram => sprramStartAddr

/-- The local address: a 12-bit subtraction, truncated to the segment's width. -/
def translate (wraddr : ℕ) (segment : Segment) : ℕ :=
  (wraddr + 2 ^ 12 - startAddr segment) % 2 ^ 12 % 2 ^ segment.addrWidth

/-- CPU write bus demux: port b of each CPU-facing RAM. A segment that is not
chosen is given address 0 and no write enable. -/
def cpuDemux (wraddr : ℕ) (wren : Bool) (wrdata : BitVec 128) (segment : Segment) : Port 128 :=
  if cpuChoose wraddr = segment then
    { addr := translate wraddr segment, wrdata := wrdata, wren := wren }
  else { addr := 0, wrdata := wrdata, wren := false }

/-- CPU-facing assignments: port a belongs to the sync writer, with undriven
write data; port b belongs to the DMA engine. -/
def assignC (vsw : Segment → Port 128) (undriven : BitVec 128)
    (wraddr : ℕ) (wren : Bool) (wrdata : BitVec 128) (segment : Segment) : Ports 128 where
  a := { addr := (vsw segment).addr, wrdata := undriven, wren := (vsw segment).wren }
  b := cpuDemux wraddr wren wrdata segment

/-- PPU-facing assignments: address and write enable follow `sync_active`, the
write data always come from the sync writer. -/
def assignP (syncActive : Bool) (vsw ppu : Segment → Ports 64) (segment : Segment) :
    Ports 64 where
  a :=
    { addr := if syncActive then (vsw segment).a.addr else (ppu segment).a.addr
      wrdata := (vsw segment).a.wrdata
      wren := if syncActive then (vsw segment).a.wren else (ppu segment).a.wren }
  b :=
    { addr := if syncActive then (vsw segment).b.addr else (ppu segment).b.addr
      wrdata := (vsw segment).b.wrdata
      wren := if syncActive then (vsw segment).b.wren else (ppu segment).b.wren }

/-- What `ppu_logic` drives on the PPU-facing ports: addresses, never a write. -/
def ppuLogicPorts (addrA addrB : Segment → ℕ) (undriven : BitVec 64) (segment : Segment) :
    Ports 64 where
  a := { addr := addrA segment, wrdata := undriven, wren := false }
  b := { addr := addrB segment, wrdata := undriven, wren := false }

/-! ## The memory map -/

/-- The place of word `n` of a VRAM image. -/
def locate (n : ℕ) : Segment × ℕ :=
  if n < 1024 then (.tilram, n)
  else if n < 3072 then (.patram, n - 1024)
  else if n < 3328 then (.palram, n - 3072)
  else (.sprram, n - 3328)

/-- The image word that is held at a place. -/
def place (segment : Segment) (a : ℕ) : ℕ := startAddr segment + a

theorem locate_place {segment : Segment} {a : ℕ} (within : a ≤ segment.maxAddr) :
    locate (place segment a) = (segment, a) := by
  cases segment with
  | tilram =>
      have bound : a ≤ 1023 := within
      rw [show place .tilram a = a from Nat.zero_add a, locate, if_pos (by omega)]
  | patram =>
      have bound : a ≤ 2047 := within
      rw [show place .patram a = 1024 + a from rfl, locate, if_neg (by omega),
        if_pos (by omega), Nat.add_sub_cancel_left]
  | palram =>
      have bound : a ≤ 255 := within
      rw [show place .palram a = 3072 + a from rfl, locate, if_neg (by omega),
        if_neg (by omega), if_pos (by omega), Nat.add_sub_cancel_left]
  | sprram =>
      rw [show place .sprram a = 3328 + a from rfl, locate, if_neg (by omega),
        if_neg (by omega), if_neg (by omega), Nat.add_sub_cancel_left]

theorem place_lt {segment : Segment} {a : ℕ} (within : a ≤ segment.maxAddr) :
    place segment a < imageWords := by
  cases segment <;>
    simp only [Segment.maxAddr] at within <;>
    simp only [place, startAddr, patramStartAddr, palramStartAddr, sprramStartAddr, imageWords] <;>
    omega

theorem place_locate {n : ℕ} (within : n < imageWords) :
    place (locate n).1 (locate n).2 = n := by
  simp only [imageWords] at within
  simp only [locate]
  split_ifs <;>
    simp only [place, startAddr, patramStartAddr, palramStartAddr, sprramStartAddr] <;> omega

theorem locate_le_maxAddr {n : ℕ} (within : n < imageWords) :
    (locate n).2 ≤ (locate n).1.maxAddr := by
  simp only [imageWords] at within
  simp only [locate]
  split_ifs <;> simp only [Segment.maxAddr] <;> omega

/-- On the addresses of an image the demux follows the memory map. -/
theorem cpuDemux_eq_locate {n : ℕ} (within : n < imageWords) :
    cpuChoose n = (locate n).1 ∧ translate n (locate n).1 = (locate n).2 := by
  simp only [imageWords] at within
  simp only [cpuChoose, locate, Nat.testBit_eq_decide_div_mod_eq, decide_eq_true_eq]
  split_ifs <;>
    simp only [translate, startAddr, patramStartAddr, palramStartAddr, sprramStartAddr,
      Segment.addrWidth, true_and, false_and] <;>
    omega

/-- The CPU-facing contents after the DMA engine's port has written. -/
def h2fWrite (cpu : CpuFacing) (wraddr : ℕ) (wren : Bool) (wrdata : BitVec 128) : CpuFacing :=
  fun segment =>
    store (cpu segment) (cpuDemux wraddr wren wrdata segment).wren
      (cpuDemux wraddr wren wrdata segment).addr (cpuDemux wraddr wren wrdata segment).wrdata

@[simp] theorem h2fWrite_false (cpu : CpuFacing) (wraddr : ℕ) (wrdata : BitVec 128) :
    h2fWrite cpu wraddr false wrdata = cpu := by
  funext segment
  simp only [h2fWrite, cpuDemux]
  split_ifs <;> rfl

/-- A write of image word `n` lands in its place. -/
theorem h2fWrite_at {n : ℕ} (within : n < imageWords) (cpu : CpuFacing) (wrdata : BitVec 128) :
    h2fWrite cpu n true wrdata (locate n).1 (locate n).2 = wrdata := by
  obtain ⟨chosen, translated⟩ := cpuDemux_eq_locate within
  simp only [h2fWrite, cpuDemux, chosen, if_true, translated, store_true, Function.update_self]

/-- A write of image word `n` changes no other place. -/
theorem h2fWrite_of_ne {n : ℕ} (within : n < imageWords) (cpu : CpuFacing)
    (wrdata : BitVec 128) {segment : Segment} {a : ℕ} (different : (segment, a) ≠ locate n) :
    h2fWrite cpu n true wrdata segment a = cpu segment a := by
  obtain ⟨chosen, translated⟩ := cpuDemux_eq_locate within
  simp only [h2fWrite, cpuDemux, chosen]
  by_cases same : (locate n).1 = segment
  · subst same
    simp only [if_true, translated]
    exact store_of_ne _ _ _ _ fun equal => different (Prod.ext rfl equal)
  · simp only [if_neg same, store_false]

end FPGame.Vram
