import FPGame.Kernel.PpuCalls

/-!
# `ppu_probe` and the address of the kernel VRAM

The driver allocates eight bytes more than the VRAM needs, so that it can move
both of its addresses up by eight bytes when the DMA handle is not aligned to
sixteen. The virtual address is a `u64 *` and the DMA handle is an integer, so
the same `+1` moves one of them by eight bytes and the other by one.

The two addresses agree exactly when the branch is not taken.
-/

set_option autoImplicit false

namespace FPGame.PpuDriver

open FPGame.Foundation

/-- The size that is passed to `dma_alloc_coherent`. -/
def allocSize : ℕ := vramSize + 8

/-- Indexing a `u64 *`. -/
def u64Index (pointer n : ℕ) : ℕ := pointer + 8 * n

/-- The addresses that `ppu_probe` sets. -/
structure Addresses where
  vramAddrV : ℕ
  vramAddrP : ℕ
deriving DecidableEq, Repr

/-- The choice of the VRAM addresses in `ppu_probe`. -/
def probeAddresses (vramBaseV vramBaseP : ℕ) : Addresses :=
  if vramBaseP &&& 0xF ≠ 0 then
    { vramAddrV := u64Index vramBaseV 1, vramAddrP := vramBaseP + 1 }
  else { vramAddrV := vramBaseV, vramAddrP := vramBaseP }

/-- What the rest of the driver uses. -/
def probeConfig (vramBaseV vramBaseP : ℕ) : Config where
  shift := (probeAddresses vramBaseV vramBaseP).vramAddrV - vramBaseV
  vramAddrP := BitVec.ofNat 32 (probeAddresses vramBaseV vramBaseP).vramAddrP

/-- The byte that the DMA engine fetches: the allocation is coherent, so byte
`i` of it is the same for the CPU and for the device. -/
def dmaFetch (vramBaseP : ℕ) (vram : ℕ → BitVec 8) (address : ℕ) : BitVec 8 :=
  vram (address - vramBaseP)

/-- The kernel buffer and the DMA address agree. -/
structure BuffersAgree (vramBaseV vramBaseP : ℕ) : Prop where
  aligned : 16 ∣ (probeAddresses vramBaseV vramBaseP).vramAddrP
  insideP : vramBaseP ≤ (probeAddresses vramBaseV vramBaseP).vramAddrP ∧
    (probeAddresses vramBaseV vramBaseP).vramAddrP + vramSize ≤ vramBaseP + allocSize
  insideV : vramBaseV ≤ (probeAddresses vramBaseV vramBaseP).vramAddrV ∧
    (probeAddresses vramBaseV vramBaseP).vramAddrV + vramSize ≤ vramBaseV + allocSize
  displaced : (probeAddresses vramBaseV vramBaseP).vramAddrP - vramBaseP =
    (probeAddresses vramBaseV vramBaseP).vramAddrV - vramBaseV
  fetched : ∀ (sh : Shared) (offset : ℕ) (buf : List (BitVec 8)) (after : Return),
    ppuWrite (probeConfig vramBaseV vramBaseP) sh offset buf = some after → 0 ≤ after.ret →
    ∀ k (within : k < buf.length), dmaFetch vramBaseP after.shared.vram
      ((probeAddresses vramBaseV vramBaseP).vramAddrP + offset + k) = buf[k]

theorem and_fifteen_eq_zero_iff (n : ℕ) : n &&& 0xF = 0 ↔ 16 ∣ n := by
  rw [show 0xF = 2 ^ 4 - 1 from rfl, Nat.and_two_pow_sub_one_eq_mod, Nat.dvd_iff_mod_eq_zero]

section Probe

variable {vramBaseV vramBaseP : ℕ}

theorem probeAddresses_of_aligned (vramBaseV : ℕ) (aligned : 16 ∣ vramBaseP) :
    probeAddresses vramBaseV vramBaseP =
      { vramAddrV := vramBaseV, vramAddrP := vramBaseP } := by
  rw [probeAddresses, if_neg]
  exact not_not.mpr ((and_fifteen_eq_zero_iff vramBaseP).mpr aligned)

theorem probeAddresses_of_not_aligned (notAligned : ¬ 16 ∣ vramBaseP) :
    probeAddresses vramBaseV vramBaseP =
      { vramAddrV := vramBaseV + 8, vramAddrP := vramBaseP + 1 } := by
  rw [probeAddresses, if_pos]
  · rfl
  · exact fun zero => notAligned ((and_fifteen_eq_zero_iff vramBaseP).mp zero)

/-- **The buffers agree exactly when the handle needs no displacement.** -/
theorem buffersAgree_iff (handle : 8 ∣ vramBaseP) :
    BuffersAgree vramBaseV vramBaseP ↔ 16 ∣ vramBaseP := by
  constructor
  · intro agree
    by_contra notAligned
    have displaced := agree.aligned
    rw [probeAddresses_of_not_aligned notAligned] at displaced
    -- one more than a multiple of eight is not a multiple of sixteen
    simp only at displaced
    omega
  · intro aligned
    have addresses := probeAddresses_of_aligned vramBaseV aligned
    refine ⟨?_, ?_, ?_, ?_, ?_⟩
    · rw [addresses]
      exact aligned
    · rw [addresses]
      simp only [allocSize]
      omega
    · rw [addresses]
      simp only [allocSize]
      omega
    · rw [addresses]
      simp only [Nat.sub_self]
    · intro sh offset buf after returns accepted k within
      have shift : (probeConfig vramBaseV vramBaseP).shift = 0 := by
        rw [probeConfig, addresses]
        exact Nat.sub_self _
      rw [vram_of_accepted returns accepted, addresses, shift, dmaFetch,
        show vramBaseP + offset + k - vramBaseP = 0 + offset + k by omega]
      exact storeBlock_at sh.vram _ buf within

/-- A handle that is already aligned, at a page boundary. -/
theorem buffersAgree_page : BuffersAgree 0xF0000000 0x30000000 :=
  (buffersAgree_iff (by decide)).mpr (by decide)

/-- A handle at eight modulo sixteen, for which the address that is sent to the
engine is odd and the bytes are displaced by seven. -/
theorem not_buffersAgree_eight :
    8 ∣ 0x30000008 ∧ ¬ BuffersAgree 0xF0000008 0x30000008 ∧
      probeAddresses 0xF0000008 0x30000008 =
        { vramAddrV := 0xF0000010, vramAddrP := 0x30000009 } := by
  refine ⟨by decide, fun agree => ?_, by decide⟩
  have displaced := agree.aligned
  revert displaced
  decide

end Probe

end FPGame.PpuDriver
