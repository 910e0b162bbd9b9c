import FPGame.Kernel.PpuCalls
import FPGame.Ppu.Oam

/-!
# `ppu_write_sprites`

The library packs each sprite into a 32-bit word and a byte, collects both in
buffers on the heap and writes the buffers into the two tables of Sprite RAM.
The buffer of the bytes is declared as `uint32_t *`: it is allocated with one
byte for each sprite, indexed with a stride of four, and written out by its
first `len` bytes.

So every store into that buffer but none at all leaves its allocation, and byte
`j` of the second table is the byte of sprite `j / 4` or zero.
-/

set_option autoImplicit false

namespace FPGame.Library

open FPGame.Foundation FPGame.Ppu FPGame.Linux
open FPGame.PpuDriver (Config Shared Return ppuWrite ppuWrite_eq vramSize)

/-! ## Sprites -/

/-- `sprite_t` -/
structure Sprite where
  patternAddr : BitVec 32
  paletteId : BitVec 32
  mirror : BitVec 32
  prio : BitVec 32
  x : BitVec 16
  y : BitVec 16
  height : BitVec 8
  width : BitVec 8
deriving DecidableEq, Repr

def patternMaxaddr : ℕ := 1023
def mirrorMaxval : ℕ := 3
def spriteMaxcount : ℕ := 64
def spriteBsize : ℕ := 4
def spriteMaxPrio : ℕ := 2
def spriteMaxx : ℕ := 511
def spriteMaxy : ℕ := 255
def spriteMaxwidth : ℕ := 4
def spriteMaxheight : ℕ := 4
def sprlayerMaxPalettes : ℕ := 32
def vramSpritesoffset : ℕ := 0xD000
def sprramExtraoffset : ℕ := 0x100

/-- `nowaymsg`: abort with a message if the check is true. -/
def nowaymsg (check : Bool) (msg : String) : Except String Unit :=
  if check then .error msg else .ok ()

/-- The checks that are made for each sprite. -/
def checkSprite (s : Sprite) : Except String Unit := do
  nowaymsg (patternMaxaddr < s.patternAddr.toNat) "Pattern address malformed!"
  nowaymsg (sprlayerMaxPalettes ≤ s.paletteId.toNat) "Palette ID out of range!"
  nowaymsg (spriteMaxy < s.y.toNat) "Sprite y coord. out of range!"
  nowaymsg (spriteMaxx < s.x.toNat) "Sprite x coord. out of range!"
  nowaymsg (mirrorMaxval < s.mirror.toNat) "Mirror argument malformed!"
  nowaymsg (spriteMaxheight < s.height.toNat) "Sprite height exceeds maximum (4)!"
  nowaymsg (s.height.toNat == 0) "Sprite height cannot be 0!"
  nowaymsg (spriteMaxwidth < s.width.toNat) "Sprite width exceeds maximum (4)!"
  nowaymsg (s.width.toNat == 0) "Sprite width cannot be 0!"
  nowaymsg (spriteMaxPrio < s.prio.toNat) "Sprite Priority exceeds maximum (2)!"

/-- The word of a sprite in the main table. -/
def spriteWord (s : Sprite) : BitVec 32 :=
  s.patternAddr <<< 22 ||| s.paletteId <<< 17 ||| s.y.zeroExtend 32 <<< 9 ||| s.x.zeroExtend 32

/-- The byte of a sprite in the second table. -/
def spriteExtra (s : Sprite) : BitVec 8 :=
  (s.mirror <<< 6 ||| (s.height.zeroExtend 32 - 1) <<< 4 ||| (s.width.zeroExtend 32 - 1) <<< 2 |||
    s.prio).truncate 8

/-! ## The call -/

/-- A store into an allocated buffer. -/
structure Store where
  offset : ℕ
  width : ℕ
  size : ℕ
deriving DecidableEq, Repr

/-- The store lies inside the allocation of its buffer. -/
def Store.Inside (store : Store) : Prop := store.offset + store.width ≤ store.size

/-- The heap, and the stores made into the two buffers. -/
structure Buffers where
  heap : ℕ → BitVec 8
  stores : List Store

/-- `buf[index] = value`, for a `uint32_t *buf` that points to `size` bytes. -/
def storeWord (buf size index : ℕ) (value : BitVec 32) (b : Buffers) : Buffers where
  heap := storeBlock b.heap (buf + 4 * index) (bytesOf value.toNat 4)
  stores := b.stores ++ [{ offset := 4 * index, width := 4, size := size }]

/-- What the call finds: the driver, the heap, and the results of its two
`malloc`s. -/
structure Env where
  cfg : Config
  kernel : Shared
  heap : ℕ → BitVec 8
  spriteBuf : Option ℕ
  spriteExtraBuf : Option ℕ

/-- `i` iterations of the loop that fills the buffers. -/
def fillBuffers (sprites : ℕ → Sprite) (len : BitVec 32) (spriteBuf spriteExtraBuf : ℕ) :
    ℕ → Buffers → Except String Buffers
  | 0, b => .ok b
  | i + 1, b => do
      let b ← fillBuffers sprites len spriteBuf spriteExtraBuf i b
      checkSprite (sprites i)
      let b := storeWord spriteBuf (len * 4).toNat i (spriteWord (sprites i)) b
      return storeWord spriteExtraBuf len.toNat i ((spriteExtra (sprites i)).zeroExtend 32) b

/-- `pwrite` of `n` bytes of the heap to the PPU's descriptor. -/
def pwrite (cfg : Config) (kernel : Shared) (heap : ℕ → BitVec 8) (buf n offset : ℕ) :
    Except String Return :=
  match ppuWrite cfg kernel offset ((List.range n).map fun k => heap (buf + k)) with
  | some after => .ok after
  | none => .error "ppu_write does not return"

/-- What the call leaves. -/
structure Result where
  ret : ℤ
  kernel : Shared
  buffers : Buffers

/-- `ppu_write_sprites`; an error is an abort. -/
def ppuWriteSprites (env : Env) (sprites : ℕ → Sprite) (len spriteIdI : BitVec 32) :
    Except String Result := do
  nowaymsg (spriteMaxcount < (spriteIdI + len).toNat) "Sprite write would exceed Sprite RAM bounds!"
  match env.spriteBuf, env.spriteExtraBuf with
  | none, _ => .error "Sprite data malloc failed!"
  | some _, none => .error "Sprite extra data malloc failed!"
  | some spriteBuf, some spriteExtraBuf =>
      let wraddr : BitVec 32 := BitVec.ofNat 32 vramSpritesoffset + spriteIdI * 4
      let wraddrExtra : BitVec 32 :=
        BitVec.ofNat 32 (vramSpritesoffset + sprramExtraoffset) + spriteIdI
      let buffers ← fillBuffers sprites len spriteBuf spriteExtraBuf len.toNat
        { heap := env.heap, stores := [] }
      let first ← pwrite env.cfg env.kernel buffers.heap spriteBuf (len * 4).toNat wraddr.toNat
      if first.ret ≠ (len * 4).toInt then
        nowaymsg (first.ret ≠ -EBUSY) "errno == EBUSY"
        return { ret := -1, kernel := first.shared, buffers := buffers }
      let second ← pwrite env.cfg first.shared buffers.heap spriteExtraBuf len.toNat
        wraddrExtra.toNat
      if second.ret ≠ len.toInt then
        nowaymsg (second.ret ≠ -EBUSY) "errno == EBUSY"
        return { ret := -1, kernel := second.shared, buffers := buffers }
      return { ret := 0, kernel := second.shared, buffers := buffers }

/-! ## What the hardware reads back -/

/-- The bytes of Sprite RAM once the kernel's VRAM has been handed over. -/
def sprramBytes (cfg : Config) (kernel : Shared) (j : ℕ) : BitVec 8 :=
  kernel.vram (cfg.shift + vramSpritesoffset + j)

/-- The configuration that the hardware assembles for an OAM address. -/
def decoded (cfg : Config) (kernel : Shared) (oamAddr : ℕ) : SpriteConf :=
  oamEntry (sprramOfBytes (sprramBytes cfg kernel)) oamAddr

/-- The configuration is the sprite. -/
structure Matches (conf : SpriteConf) (s : Sprite) : Prop where
  tile : conf.tile.toNat = s.patternAddr.toNat
  palette : conf.palette.toNat = s.paletteId.toNat
  x : conf.x.toNat = s.x.toNat
  y : conf.y.toNat = s.y.toNat
  mirror : 2 * conf.yMirror.toNat + conf.xMirror.toNat = s.mirror.toNat
  h : conf.h.toNat + 1 = s.height.toNat
  w : conf.w.toNat + 1 = s.width.toNat
  prio : 2 * conf.fgPrio.toNat + conf.bgPrio.toNat = s.prio.toNat

/-- Every sprite is read back as it was given. -/
def Decodes (env : Env) (sprites : ℕ → Sprite) (len spriteIdI : BitVec 32) (result : Result) :
    Prop :=
  ∀ i, i < len.toNat →
    Matches (decoded env.cfg result.kernel (spriteIdI.toNat + i)) (sprites i)

/-- Every store made while the buffers are built lies inside its allocation. -/
def StoresInside (result : Result) : Prop := ∀ store ∈ result.buffers.stores, store.Inside

end FPGame.Library
