import FPGame.Foundation.Memory

/-!
# The two copies of the VRAM

The VRAM has four segments and is held twice. The CPU-facing copy has 128-bit
words and is written by the DMA engine; the PPU-facing copy has 64-bit words
and is read by the PPU. A 128-bit word at address `a` of a segment and the two
64-bit words at addresses `2a` and `2a+1` are the same sixteen bytes.

The four segments differ in their size only, so they are one family indexed by
the segment.
-/

set_option autoImplicit false

namespace FPGame.Vram

open FPGame.Foundation

/-- The VRAM segments: Tile RAM, Pattern RAM, Palette RAM and Sprite RAM. -/
inductive Segment where
  | tilram
  | patram
  | palram
  | sprram
deriving DecidableEq, Repr

namespace Segment

/-- The last address of the CPU-facing RAM of a segment, in 128-bit words. -/
def maxAddr : Segment → ℕ
  | tilram => 1023
  | patram => 2047
  | palram => 255
  | sprram => 19

/-- The address width of the CPU-facing RAM of a segment. -/
def addrWidth : Segment → ℕ
  | tilram => 10
  | patram => 11
  | palram => 8
  | sprram => 5

theorem maxAddr_le (segment : Segment) : segment.maxAddr ≤ 2047 := by
  cases segment <;> decide

theorem maxAddr_pos (segment : Segment) : 0 < segment.maxAddr := by
  cases segment <;> decide

theorem maxAddr_lt (segment : Segment) : segment.maxAddr < 2 ^ segment.addrWidth := by
  cases segment <;> decide

end Segment

/-- What a user drives on one port of a RAM. -/
structure Port (width : ℕ) where
  addr : ℕ
  wrdata : BitVec width
  wren : Bool

/-- What a user drives on the two ports of a RAM. -/
structure Ports (width : ℕ) where
  a : Port width
  b : Port width

/-- The RAM contents after a clock edge: both ports may write. -/
def Ports.write {width : ℕ} (ports : Ports width) (memory : ℕ → BitVec width) :
    ℕ → BitVec width :=
  store (store memory ports.a.wren ports.a.addr ports.a.wrdata)
    ports.b.wren ports.b.addr ports.b.wrdata

/-- Contents of the CPU-facing copy. -/
abbrev CpuFacing := Segment → ℕ → BitVec 128

/-- Contents of the PPU-facing copy. -/
abbrev PpuFacing := Segment → ℕ → BitVec 64

/-- The two halves of a 128-bit word, the lower one first. -/
def halves (word : BitVec 128) : BitVec 64 × BitVec 64 := (lane 64 0 word, lane 64 1 word)

/-- The PPU-facing contents of a segment, two neighbouring words at a time. -/
def pairs (memory : ℕ → BitVec 64) (a : ℕ) : BitVec 64 × BitVec 64 :=
  (memory (2 * a), memory (2 * a + 1))

/-- The PPU-facing copy of a segment holds the bytes of the CPU-facing one. -/
def Synced (cpu : CpuFacing) (ppu : PpuFacing) : Prop :=
  ∀ segment a, a ≤ segment.maxAddr → pairs (ppu segment) a = halves (cpu segment a)

/-- Both copies: their contents, and the read port of each CPU-facing RAM that
the sync writer uses. -/
structure State where
  cpu : CpuFacing
  ppu : PpuFacing
  readA : Segment → ReadPort (BitVec 128)

/-- One clock of the eight RAMs. -/
def State.next (s : State) (ifC : Segment → Ports 128) (ifP : Segment → Ports 64) : State where
  cpu segment := (ifC segment).write (s.cpu segment)
  ppu segment := (ifP segment).write (s.ppu segment)
  readA segment := (s.readA segment).next (s.cpu segment) (ifC segment).a.addr

end FPGame.Vram
