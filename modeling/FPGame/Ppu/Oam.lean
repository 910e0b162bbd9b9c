import FPGame.Foundation.Bytes

/-!
# `oam_wrapper` and `sprite_conf_t`

Sprite RAM holds 64 sprites in two tables: 32-bit words, and single bytes that
start at byte 256. Both are read through ports of 64-bit words, so the wrapper
splits an OAM address into a word address and a lane for each table, and joins
the two lanes to the forty bits of a sprite configuration.
-/

set_option autoImplicit false

namespace FPGame.Ppu

open FPGame.Foundation

/-- `OAM_EXT_OFFSET` -/
def oamExtOffset : ℕ := 64 * 4

/-- `sprite_conf_t` -/
structure SpriteConf where
  tile : BitVec 10
  palette : BitVec 5
  y : BitVec 8
  x : BitVec 9
  yMirror : Bool
  xMirror : Bool
  h : BitVec 2
  w : BitVec 2
  fgPrio : Bool
  bgPrio : Bool
deriving DecidableEq, Repr

/-- The packed structure, its first field in the most significant bits. -/
def SpriteConf.ofBits (bits : BitVec 40) : SpriteConf where
  tile := bits.extractLsb' 30 10
  palette := bits.extractLsb' 25 5
  y := bits.extractLsb' 17 8
  x := bits.extractLsb' 8 9
  yMirror := bits.getLsbD 7
  xMirror := bits.getLsbD 6
  h := bits.extractLsb' 4 2
  w := bits.extractLsb' 2 2
  fgPrio := bits.getLsbD 1
  bgPrio := bits.getLsbD 0

/-! ## Addresses and lanes -/

def oamMainWord (oamAddr : ℕ) : ℕ := oamAddr / 2
def oamMainLane (oamAddr : ℕ) : ℕ := oamAddr % 2
def oamExtWord (oamAddr : ℕ) : ℕ := (oamExtOffset + oamAddr) / 8
def oamExtLane (oamAddr : ℕ) : ℕ := (oamExtOffset + oamAddr) % 8

/-- `oam_data`: a lane of the word read on each port. -/
def oamData (mainWord extWord : BitVec 64) (oamAddr : ℕ) : SpriteConf :=
  SpriteConf.ofBits
    ((lane 32 (oamMainLane oamAddr) mainWord : BitVec 32) ++
      (lane 8 (oamExtLane oamAddr) extWord : BitVec 8))

/-- What the wrapper assembles for an address from the contents of Sprite RAM. -/
def oamEntry (sprram : ℕ → BitVec 64) (oamAddr : ℕ) : SpriteConf :=
  oamData (sprram (oamMainWord oamAddr)) (sprram (oamExtWord oamAddr)) oamAddr

/-! ## Sprite RAM as bytes -/

/-- The 64-bit words of Sprite RAM, from its bytes. -/
def sprramOfBytes (bytes : ℕ → BitVec 8) : ℕ → BitVec 64 := doubleword bytes

/-- The main lane is the word at four times the address. -/
theorem oamMain_toNat (bytes : ℕ → BitVec 8) (oamAddr : ℕ) :
    (lane 32 (oamMainLane oamAddr) (sprramOfBytes bytes (oamMainWord oamAddr)) :
      BitVec 32).toNat = littleEndian bytes (4 * oamAddr) 4 := by
  have place : 8 * oamMainWord oamAddr + 4 * oamMainLane oamAddr = 4 * oamAddr := by
    simp only [oamMainWord, oamMainLane]
    omega
  rw [← place]
  rcases Nat.mod_two_eq_zero_or_one oamAddr with even | odd
  · rw [show oamMainLane oamAddr = 0 from even]
    exact lane_doubleword bytes _ 4 0 4 rfl
  · rw [show oamMainLane oamAddr = 1 from odd]
    exact lane_doubleword bytes _ 4 1 0 rfl

/-- The extra lane is the byte at the address past the main table. -/
theorem oamExt_toNat (bytes : ℕ → BitVec 8) (oamAddr : ℕ) :
    (lane 8 (oamExtLane oamAddr) (sprramOfBytes bytes (oamExtWord oamAddr)) :
      BitVec 8).toNat = (bytes (oamExtOffset + oamAddr)).toNat := by
  have place : 8 * oamExtWord oamAddr + 1 * oamExtLane oamAddr = oamExtOffset + oamAddr := by
    simp only [oamExtWord, oamExtLane]
    omega
  have within : oamExtLane oamAddr < 8 := Nat.mod_lt _ (by decide)
  rw [← place, Nat.one_mul]
  exact congrArg BitVec.toNat (byte_doubleword bytes (oamExtWord oamAddr) within)

end FPGame.Ppu
