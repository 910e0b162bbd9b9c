import FPGame.Library.Sprites

/-!
# Which sprites come back

The packing of a single sprite is right: its word and its byte are split into
the sprite that was given (`matches_iff`). The main table is right for every
array. The second table is not, because of the stride of its buffer: the exact
condition for an array to be read back is `decodes_iff`, and no array with a
sprite in it is written without a store outside the buffer
(`sprite_encoding_iff`).
-/

set_option autoImplicit false

namespace FPGame.Library

open FPGame.Foundation FPGame.Ppu FPGame.Linux
open FPGame.PpuDriver (Config Shared Return ppuWrite ppuWrite_eq vramSize)

/-! ## Packing -/

/-- A sprite that passes the checks. -/
structure WellFormed (s : Sprite) : Prop where
  patternAddr : s.patternAddr.toNat < 1024
  paletteId : s.paletteId.toNat < 32
  y : s.y.toNat < 256
  x : s.x.toNat < 512
  mirror : s.mirror.toNat < 4
  height : 1 ≤ s.height.toNat ∧ s.height.toNat ≤ 4
  width : 1 ≤ s.width.toNat ∧ s.width.toNat ≤ 4
  prio : s.prio.toNat < 3

theorem bind_eq_ok {ε α β : Type} {x : Except ε α} {f : α → Except ε β} {b : β}
    (ok : (x >>= f) = .ok b) : ∃ a, x = .ok a ∧ f a = .ok b := by
  cases x with
  | error e => cases ok
  | ok a => exact ⟨a, rfl, ok⟩

theorem nowaymsg_eq_ok {check : Bool} {msg : String} {u : Unit}
    (ok : nowaymsg check msg = .ok u) : check = false := by
  cases check with
  | false => rfl
  | true => cases ok

theorem wellFormed_of_checkSprite {s : Sprite} {u : Unit} (ok : checkSprite s = .ok u) :
    WellFormed s := by
  obtain ⟨_, pattern, ok⟩ := bind_eq_ok ok
  obtain ⟨_, palette, ok⟩ := bind_eq_ok ok
  obtain ⟨_, y, ok⟩ := bind_eq_ok ok
  obtain ⟨_, x, ok⟩ := bind_eq_ok ok
  obtain ⟨_, mirror, ok⟩ := bind_eq_ok ok
  obtain ⟨_, height, ok⟩ := bind_eq_ok ok
  obtain ⟨_, height', ok⟩ := bind_eq_ok ok
  obtain ⟨_, width, ok⟩ := bind_eq_ok ok
  obtain ⟨_, width', ok⟩ := bind_eq_ok ok
  have checked := And.intro (nowaymsg_eq_ok pattern) (And.intro (nowaymsg_eq_ok palette)
    (And.intro (nowaymsg_eq_ok y) (And.intro (nowaymsg_eq_ok x) (And.intro
    (nowaymsg_eq_ok mirror) (And.intro (nowaymsg_eq_ok height) (And.intro
    (nowaymsg_eq_ok height') (And.intro (nowaymsg_eq_ok width) (And.intro
    (nowaymsg_eq_ok width') (nowaymsg_eq_ok ok)))))))))
  simp only [decide_eq_false_iff_not, beq_eq_false_iff_ne] at checked
  simp only [patternMaxaddr, sprlayerMaxPalettes, spriteMaxy, spriteMaxx, mirrorMaxval,
    spriteMaxheight, spriteMaxwidth, spriteMaxPrio] at checked
  constructor <;> omega

/-- Fields that do not overlap are added. -/
theorem shiftLeft_or {a b n : ℕ} (low : b < 2 ^ n) : a <<< n ||| b = a * 2 ^ n + b := by
  rw [← Nat.shiftLeft_add_eq_or_of_lt low, Nat.shiftLeft_eq]

theorem spriteWord_toNat {s : Sprite} (ok : WellFormed s) :
    (spriteWord s).toNat = s.patternAddr.toNat * 2 ^ 22 + s.paletteId.toNat * 2 ^ 17 +
      s.y.toNat * 2 ^ 9 + s.x.toNat := by
  obtain ⟨pattern, palette, y, x, -, -, -, -⟩ := ok
  have first : s.patternAddr.toNat <<< 22 ||| s.paletteId.toNat <<< 17 =
      (s.patternAddr.toNat * 2 ^ 5 + s.paletteId.toNat) <<< 17 := by
    rw [shiftLeft_or (by rw [Nat.shiftLeft_eq]; omega), Nat.shiftLeft_eq, Nat.shiftLeft_eq]
    ring
  have second : (s.patternAddr.toNat * 2 ^ 5 + s.paletteId.toNat) <<< 17 ||| s.y.toNat <<< 9 =
      ((s.patternAddr.toNat * 2 ^ 5 + s.paletteId.toNat) * 2 ^ 8 + s.y.toNat) <<< 9 := by
    rw [shiftLeft_or (by rw [Nat.shiftLeft_eq]; omega), Nat.shiftLeft_eq, Nat.shiftLeft_eq]
    ring
  have small : ∀ v n, v * 2 ^ n < 2 ^ 32 → v <<< n % 2 ^ 32 = v <<< n := fun v n bound => by
    rw [Nat.mod_eq_of_lt (by rwa [Nat.shiftLeft_eq])]
  have wide : ∀ v : BitVec 16, (v.zeroExtend 32).toNat = v.toNat := fun v => by
    rw [BitVec.toNat_setWidth, Nat.mod_eq_of_lt (by have := v.isLt; omega)]
  simp only [spriteWord, BitVec.toNat_or, BitVec.toNat_shiftLeft, wide]
  rw [small _ _ (by omega), small _ _ (by omega), small _ _ (by omega), first, second,
    shiftLeft_or (by omega)]
  ring

theorem spriteExtra_toNat {s : Sprite} (ok : WellFormed s) :
    (spriteExtra s).toNat = s.mirror.toNat * 2 ^ 6 + (s.height.toNat - 1) * 2 ^ 4 +
      (s.width.toNat - 1) * 2 ^ 2 + s.prio.toNat := by
  obtain ⟨-, -, -, -, mirror, height, width, prio⟩ := ok
  have first : s.mirror.toNat <<< 6 ||| (s.height.toNat - 1) <<< 4 =
      (s.mirror.toNat * 2 ^ 2 + (s.height.toNat - 1)) <<< 4 := by
    rw [shiftLeft_or (by rw [Nat.shiftLeft_eq]; omega), Nat.shiftLeft_eq, Nat.shiftLeft_eq]
    ring
  have second : (s.mirror.toNat * 2 ^ 2 + (s.height.toNat - 1)) <<< 4 |||
      (s.width.toNat - 1) <<< 2 = ((s.mirror.toNat * 2 ^ 2 + (s.height.toNat - 1)) * 2 ^ 2 +
        (s.width.toNat - 1)) <<< 2 := by
    rw [shiftLeft_or (by rw [Nat.shiftLeft_eq]; omega), Nat.shiftLeft_eq, Nat.shiftLeft_eq]
    ring
  have small : ∀ v n, v * 2 ^ n < 2 ^ 32 → v <<< n % 2 ^ 32 = v <<< n := fun v n bound => by
    rw [Nat.mod_eq_of_lt (by rwa [Nat.shiftLeft_eq])]
  have less : ∀ v : BitVec 8, 1 ≤ v.toNat → (v.zeroExtend 32 - 1).toNat = v.toNat - 1 := by
    intro v positive
    have bound := v.isLt
    rw [BitVec.toNat_sub, BitVec.toNat_setWidth]
    simp only [BitVec.toNat_ofNat, BitVec.ofNat_eq_ofNat]
    omega
  simp only [spriteExtra, BitVec.toNat_setWidth, BitVec.toNat_or, BitVec.toNat_shiftLeft,
    less _ height.1, less _ width.1]
  rw [small _ _ (by omega), small _ _ (by omega), small _ _ (by omega), first, second,
    shiftLeft_or (by omega), Nat.mod_eq_of_lt (by omega)]
  ring

/-- The fields of the second table's byte. -/
theorem extra_fields (e : BitVec 8) :
    e.toNat = (2 * (e.getLsbD 7).toNat + (e.getLsbD 6).toNat) * 2 ^ 6 +
      (e.extractLsb' 4 2).toNat * 2 ^ 4 + (e.extractLsb' 2 2).toNat * 2 ^ 2 +
      (2 * (e.getLsbD 1).toNat + (e.getLsbD 0).toNat) := by
  revert e
  decide

/-- **One sprite.** With the right word, the configuration is the sprite exactly
when the byte is right. -/
theorem matches_iff {s : Sprite} (ok : WellFormed s) (e : BitVec 8) :
    Matches (SpriteConf.ofBits (spriteWord s ++ e)) s ↔ e = spriteExtra s := by
  have word := spriteWord_toNat ok
  have byte := spriteExtra_toNat ok
  have fields := extra_fields e
  have low : ∀ i, i < 8 → (spriteWord s ++ e).getLsbD i = e.getLsbD i := fun i within => by
    rw [BitVec.getLsbD_append, if_pos within]
  obtain ⟨pattern, palette, y, x, mirror, height, width, prio⟩ := ok
  have tile : ((spriteWord s ++ e).extractLsb' 30 10).toNat = s.patternAddr.toNat := by
    rw [BitVec.extractLsb'_append_eq_of_le (by decide), BitVec.extractLsb'_toNat, word,
      Nat.shiftRight_eq_div_pow]
    omega
  have palette' : ((spriteWord s ++ e).extractLsb' 25 5).toNat = s.paletteId.toNat := by
    rw [BitVec.extractLsb'_append_eq_of_le (by decide), BitVec.extractLsb'_toNat, word,
      Nat.shiftRight_eq_div_pow]
    omega
  have y' : ((spriteWord s ++ e).extractLsb' 17 8).toNat = s.y.toNat := by
    rw [BitVec.extractLsb'_append_eq_of_le (by decide), BitVec.extractLsb'_toNat, word,
      Nat.shiftRight_eq_div_pow]
    omega
  have x' : ((spriteWord s ++ e).extractLsb' 8 9).toNat = s.x.toNat := by
    rw [BitVec.extractLsb'_append_eq_of_le (by decide), BitVec.extractLsb'_toNat, word,
      Nat.shiftRight_eq_div_pow]
    omega
  constructor
  · rintro ⟨-, -, -, -, mirrorEq, hEq, wEq, prioEq⟩
    simp only [SpriteConf.ofBits, low 7 (by decide), low 6 (by decide), low 1 (by decide),
      low 0 (by decide), BitVec.extractLsb'_append_eq_of_add_le (show 4 + 2 ≤ 8 by decide),
      BitVec.extractLsb'_append_eq_of_add_le (show 2 + 2 ≤ 8 by decide)]
      at mirrorEq hEq wEq prioEq
    apply BitVec.eq_of_toNat_eq
    omega
  · rintro rfl
    have bit : ∀ b : Bool, b.toNat < 2 := Bool.toNat_lt
    have b7 := bit ((spriteExtra s).getLsbD 7)
    have b6 := bit ((spriteExtra s).getLsbD 6)
    have b1 := bit ((spriteExtra s).getLsbD 1)
    have b0 := bit ((spriteExtra s).getLsbD 0)
    have h2 := ((spriteExtra s).extractLsb' 4 2).isLt
    have w2 := ((spriteExtra s).extractLsb' 2 2).isLt
    refine ⟨tile, palette', x', y', ?_, ?_, ?_, ?_⟩ <;>
      simp only [SpriteConf.ofBits, low 7 (by decide), low 6 (by decide), low 1 (by decide),
        low 0 (by decide), BitVec.extractLsb'_append_eq_of_add_le (show 4 + 2 ≤ 8 by decide),
        BitVec.extractLsb'_append_eq_of_add_le (show 2 + 2 ≤ 8 by decide)] <;>
      omega

/-! ## The buffers -/

section Buffers

variable {sprites : ℕ → Sprite} {len : BitVec 32} {spriteBuf spriteExtraBuf : ℕ}

/-- Every sprite passes the checks, and every iteration makes its stores. -/
theorem of_fillBuffers {n : ℕ} {before after : Buffers}
    (fills : fillBuffers sprites len spriteBuf spriteExtraBuf n before = .ok after) :
    ∀ i, i < n → WellFormed (sprites i) ∧
      { offset := 4 * i, width := 4, size := len.toNat } ∈ after.stores := by
  induction n generalizing after with
  | zero => exact fun i none => absurd none (Nat.not_lt_zero i)
  | succ n ih =>
      obtain ⟨middle, earlier, fills⟩ := bind_eq_ok fills
      obtain ⟨_, checked, fills⟩ := bind_eq_ok fills
      obtain rfl := Except.ok.inj fills
      intro i within
      rcases Nat.lt_succ_iff_lt_or_eq.mp within with before | rfl
      · obtain ⟨ok, stored⟩ := ih earlier i before
        exact ⟨ok, by simp [storeWord, stored]⟩
      · exact ⟨wellFormed_of_checkSprite checked, by simp [storeWord]⟩

/-- The buffers and what is stored past the end of the second one do not meet. -/
def Separate (spriteBuf spriteExtraBuf n : ℕ) : Prop :=
  spriteBuf + 4 * n ≤ spriteExtraBuf ∨ spriteExtraBuf + 4 * n ≤ spriteBuf

/-- The contents of the heap after the loop: both arrays have stride four. -/
theorem heap_of_fillBuffers {n : ℕ} {before after : Buffers}
    (separate : Separate spriteBuf spriteExtraBuf n)
    (fills : fillBuffers sprites len spriteBuf spriteExtraBuf n before = .ok after) :
    ∀ i, i < n → ∀ k (within : k < 4),
      after.heap (spriteBuf + 4 * i + k) =
        (bytesOf (spriteWord (sprites i)).toNat 4).get ⟨k, by simpa using within⟩ ∧
      after.heap (spriteExtraBuf + 4 * i + k) =
        (bytesOf ((spriteExtra (sprites i)).zeroExtend 32).toNat 4).get ⟨k, by simpa using within⟩ := by
  induction n generalizing after with
  | zero => exact fun i none => absurd none (Nat.not_lt_zero i)
  | succ n ih =>
      obtain ⟨middle, earlier, fills⟩ := bind_eq_ok fills
      obtain ⟨_, checked, fills⟩ := bind_eq_ok fills
      obtain rfl := Except.ok.inj fills
      simp only [Separate] at separate
      intro i within k small
      simp only [storeWord]
      rcases Nat.lt_succ_iff_lt_or_eq.mp within with before | rfl
      · obtain ⟨main, extra⟩ := ih (by simp only [Separate]; omega) earlier i before k small
        constructor
        · rw [storeBlock_of_outside _ _ _ (by rw [length_bytesOf]; omega),
            storeBlock_of_outside _ _ _ (by rw [length_bytesOf]; omega)]
          exact main
        · rw [storeBlock_of_outside _ _ _ (by rw [length_bytesOf]; omega),
            storeBlock_of_outside _ _ _ (by rw [length_bytesOf]; omega)]
          exact extra
      · constructor
        · rw [storeBlock_of_outside _ _ _ (by rw [length_bytesOf]; omega)]
          exact storeBlock_at _ _ _ (by rwa [length_bytesOf])
        · exact storeBlock_at _ _ _ (by rwa [length_bytesOf])

end Buffers

/-! ## The tables in Sprite RAM -/

/-- The byte that reaches entry `j` of the second table. -/
def packedExtra (sprites : ℕ → Sprite) (j : ℕ) : BitVec 8 :=
  if j % 4 = 0 then spriteExtra (sprites (j / 4)) else 0

/-- A byte that is stored as a word is followed by three zeros. -/
theorem bytesOf_extra (e : BitVec 8) {k : ℕ} (within : k < 4) :
    (bytesOf (e.zeroExtend 32).toNat 4).get ⟨k, by simpa using within⟩ = if k = 0 then e else 0 := by
  have wide : (e.zeroExtend 32).toNat = e.toNat := by
    rw [BitVec.toNat_setWidth, Nat.mod_eq_of_lt (by have := e.isLt; omega)]
  have small : e.toNat / 256 = 0 := Nat.div_eq_of_lt e.isLt
  simp only [wide, List.get_eq_getElem]
  rcases k with _ | _ | _ | _ | k
  · simp [bytesOf]
  all_goals simp [bytesOf, small]
  omega

section Call

variable {env : Env} {sprites : ℕ → Sprite} {len spriteIdI : BitVec 32} {result : Result}

/-- What a call that returns 0 has done. -/
structure Written (env : Env) (sprites : ℕ → Sprite) (len spriteIdI : BitVec 32)
    (spriteBuf spriteExtraBuf : ℕ) (first second : Return) (result : Result) : Prop where
  allocated : env.spriteBuf = some spriteBuf ∧ env.spriteExtraBuf = some spriteExtraBuf
  fills : fillBuffers sprites len spriteBuf spriteExtraBuf len.toNat
    { heap := env.heap, stores := [] } = .ok result.buffers
  firstWrite : pwrite env.cfg env.kernel result.buffers.heap spriteBuf (len * 4).toNat
    (BitVec.ofNat 32 vramSpritesoffset + spriteIdI * 4).toNat = .ok first
  firstRet : first.ret = (len * 4).toInt
  secondWrite : pwrite env.cfg first.shared result.buffers.heap spriteExtraBuf len.toNat
    (BitVec.ofNat 32 (vramSpritesoffset + sprramExtraoffset) + spriteIdI).toNat = .ok second
  secondRet : second.ret = len.toInt
  kernel : result.kernel = second.shared

theorem written_of_returns (returns : ppuWriteSprites env sprites len spriteIdI = .ok result)
    (success : result.ret = 0) :
    ∃ spriteBuf spriteExtraBuf first second,
      Written env sprites len spriteIdI spriteBuf spriteExtraBuf first second result := by
  obtain ⟨_, -, returns⟩ := bind_eq_ok returns
  cases allocMain : env.spriteBuf with
  | none => simp only [allocMain] at returns; cases returns
  | some spriteBuf =>
      cases allocExtra : env.spriteExtraBuf with
      | none => simp only [allocMain, allocExtra] at returns; cases returns
      | some spriteExtraBuf =>
          simp only [allocMain, allocExtra] at returns
          obtain ⟨buffers, fills, returns⟩ := bind_eq_ok returns
          obtain ⟨first, firstWrite, returns⟩ := bind_eq_ok returns
          by_cases firstRet : first.ret = (len * 4).toInt
          · rw [if_neg (not_not.mpr firstRet)] at returns
            obtain ⟨second, secondWrite, returns⟩ := bind_eq_ok returns
            by_cases secondRet : second.ret = len.toInt
            · rw [if_neg (not_not.mpr secondRet)] at returns
              obtain rfl := Except.ok.inj returns
              exact ⟨spriteBuf, spriteExtraBuf, first, second,
                ⟨allocMain, allocExtra⟩, fills, firstWrite, firstRet, secondWrite, secondRet, rfl⟩
            · rw [if_pos secondRet] at returns
              obtain ⟨_, -, returns⟩ := bind_eq_ok returns
              obtain rfl := Except.ok.inj returns
              cases success
          · rw [if_pos firstRet] at returns
            obtain ⟨_, -, returns⟩ := bind_eq_ok returns
            obtain rfl := Except.ok.inj returns
            cases success

/-- What an accepted `pwrite` leaves in the kernel VRAM. -/
theorem vram_of_pwrite {cfg : Config} {kernel : Shared} {heap : ℕ → BitVec 8} {buf n offset : ℕ}
    {after : Return} (writes : pwrite cfg kernel heap buf n offset = .ok after)
    (accepted : 0 ≤ after.ret) :
    after.shared.vram =
      storeBlock kernel.vram (cfg.shift + offset) ((List.range n).map fun k => heap (buf + k)) := by
  rw [pwrite] at writes
  split at writes
  · next returns =>
    obtain rfl := Except.ok.inj writes
    exact PpuDriver.vram_of_accepted returns accepted
  · cases writes

/-- **The two tables.** A call for sprites inside OAM that returns 0, and whose
stores do not run from one buffer into the other, leaves the words of the
sprites in the main table and the packed bytes in the second one. -/
theorem decoded_of_written {spriteBuf spriteExtraBuf : ℕ} {first second : Return}
    (written : Written env sprites len spriteIdI spriteBuf spriteExtraBuf first second result)
    (inside : spriteIdI.toNat + len.toNat ≤ 64)
    (separate : Separate spriteBuf spriteExtraBuf len.toNat) {i : ℕ} (within : i < len.toNat) :
    decoded env.cfg result.kernel (spriteIdI.toNat + i) =
      SpriteConf.ofBits (spriteWord (sprites i) ++ packedExtra sprites i) := by
  have heap := heap_of_fillBuffers separate written.fills
  have times : (len * 4).toNat = 4 * len.toNat := by
    rw [BitVec.toNat_mul]
    simp only [BitVec.ofNat_eq_ofNat, BitVec.toNat_ofNat]
    omega
  have mainAddress : (BitVec.ofNat 32 vramSpritesoffset + spriteIdI * 4).toNat =
      vramSpritesoffset + 4 * spriteIdI.toNat := by
    rw [BitVec.toNat_add, BitVec.toNat_mul]
    simp only [BitVec.ofNat_eq_ofNat, BitVec.toNat_ofNat, vramSpritesoffset]
    omega
  have extraAddress : (BitVec.ofNat 32 (vramSpritesoffset + sprramExtraoffset) +
      spriteIdI).toNat = vramSpritesoffset + oamExtOffset + spriteIdI.toNat := by
    rw [BitVec.toNat_add]
    simp only [BitVec.toNat_ofNat, vramSpritesoffset, sprramExtraoffset, oamExtOffset]
    omega
  have accepted : 0 ≤ first.ret := by
    rw [written.firstRet, BitVec.toInt_eq_toNat_of_lt (by omega)]
    exact Int.natCast_nonneg _
  have accepted' : 0 ≤ second.ret := by
    rw [written.secondRet, BitVec.toInt_eq_toNat_of_lt (by omega)]
    exact Int.natCast_nonneg _
  have vram := vram_of_pwrite written.secondWrite accepted'
  rw [vram_of_pwrite written.firstWrite accepted, times, mainAddress, extraAddress,
    ← written.kernel] at vram
  -- the bytes of the main table lie below the second one
  have main : ∀ k (small : k < (bytesOf (spriteWord (sprites i)).toNat 4).length),
      sprramBytes env.cfg result.kernel (4 * (spriteIdI.toNat + i) + k) =
        (bytesOf (spriteWord (sprites i)).toNat 4)[k] := by
    intro k small
    rw [length_bytesOf] at small
    rw [sprramBytes, vram, storeBlock_of_outside _ _ _ (by
        simp only [oamExtOffset, List.length_map, List.length_range]
        omega),
      show env.cfg.shift + vramSpritesoffset + (4 * (spriteIdI.toNat + i) + k) =
        env.cfg.shift + (vramSpritesoffset + 4 * spriteIdI.toNat) + (4 * i + k) by omega,
      storeBlock_at _ _ _ (by rw [List.length_map, List.length_range]; omega), List.getElem_map,
      List.getElem_range, ← Nat.add_assoc]
    exact (heap i within k small).1
  have extra : sprramBytes env.cfg result.kernel (oamExtOffset + (spriteIdI.toNat + i)) =
      packedExtra sprites i := by
    rw [sprramBytes, vram,
      show env.cfg.shift + vramSpritesoffset + (oamExtOffset + (spriteIdI.toNat + i)) =
        env.cfg.shift + (vramSpritesoffset + oamExtOffset + spriteIdI.toNat) + i by omega,
      storeBlock_at _ _ _ (by rw [List.length_map, List.length_range]; exact within),
      List.getElem_map, List.getElem_range]
    have lane : i % 4 < 4 := Nat.mod_lt _ (by decide)
    have stored := (heap (i / 4) (by omega) (i % 4) lane).2
    rw [show spriteExtraBuf + 4 * (i / 4) + i % 4 = spriteExtraBuf + i by omega,
      bytesOf_extra _ lane] at stored
    exact stored
  have word : littleEndian (sprramBytes env.cfg result.kernel) (4 * (spriteIdI.toNat + i)) 4 =
      (spriteWord (sprites i)).toNat := by
    rw [littleEndian_bytesOf main]
    exact Nat.mod_eq_of_lt (spriteWord (sprites i)).isLt
  rw [decoded, oamEntry, oamData]
  congr 1
  rw [BitVec.eq_of_toNat_eq ((oamMain_toNat _ _).trans word),
    BitVec.eq_of_toNat_eq ((oamExt_toNat _ _).trans (congrArg BitVec.toNat extra))]

/-- **Which arrays are read back.** Of the arrays that are written into OAM,
with buffers that do not meet, exactly those whose bytes are the packed ones. -/
theorem decodes_iff {spriteBuf spriteExtraBuf : ℕ} {first second : Return}
    (written : Written env sprites len spriteIdI spriteBuf spriteExtraBuf first second result)
    (inside : spriteIdI.toNat + len.toNat ≤ 64)
    (separate : Separate spriteBuf spriteExtraBuf len.toNat) :
    Decodes env sprites len spriteIdI result ↔
      ∀ i, i < len.toNat → packedExtra sprites i = spriteExtra (sprites i) := by
  refine forall_congr' fun i => forall_congr' fun within => ?_
  rw [decoded_of_written written inside separate within]
  exact matches_iff (of_fillBuffers written.fills i within).1 _

/-- **Sprite encoding.** A call that returns 0 has made all its stores inside
its buffers, and is read back, exactly when it was given no sprite. -/
theorem sprite_encoding_iff (returns : ppuWriteSprites env sprites len spriteIdI = .ok result)
    (success : result.ret = 0) :
    (Decodes env sprites len spriteIdI result ∧ StoresInside result) ↔ len = 0 := by
  obtain ⟨spriteBuf, spriteExtraBuf, first, second, written⟩ := written_of_returns returns success
  constructor
  · rintro ⟨-, inside⟩
    by_contra nonempty
    have positive : 0 < len.toNat := by
      rw [Nat.pos_iff_ne_zero]
      exact fun zero => nonempty (BitVec.eq_of_toNat_eq zero)
    -- the last store begins at four times its index
    have last := inside _ (of_fillBuffers written.fills (len.toNat - 1) (by omega)).2
    simp only [Store.Inside] at last
    omega
  · rintro rfl
    refine ⟨fun i within => absurd within (Nat.not_lt_zero i), ?_⟩
    have empty := Except.ok.inj written.fills
    rw [StoresInside, ← empty]
    simp

end Call

/-! ## Two sprites -/

/-- A driver whose lock is free, with a cleared VRAM and two disjoint buffers. -/
def freshEnv : Env where
  cfg := { shift := 0, vramAddrP := 0x30000000 }
  kernel := { ppuLock := 1, vramLock := 0, vram := fun _ => 0, mmio := fun _ => 0, pending := 0 }
  heap _ := 0
  spriteBuf := some 0x1000
  spriteExtraBuf := some 0x2000

/-- Sprites of one tile that are drawn in front. -/
def inFront (i : ℕ) : Sprite where
  patternAddr := BitVec.ofNat 32 i
  paletteId := 0
  mirror := 0
  prio := 2
  x := 16
  y := 16
  height := 1
  width := 1

theorem sprite_encoding_iff_inFront :
    ∃ result, ppuWriteSprites freshEnv inFront 0 5 = .ok result ∧ result.ret = 0 ∧
      Decodes freshEnv inFront 0 5 result ∧ StoresInside result :=
  ⟨_, rfl, rfl, (@sprite_encoding_iff freshEnv inFront 0 5 _ rfl rfl).mpr rfl⟩

/-- The second of two sprites loses its priority, and stores leave the buffer. -/
theorem not_decodes_inFront :
    ∃ result, ppuWriteSprites freshEnv inFront 2 0 = .ok result ∧ result.ret = 0 ∧
      ¬ Decodes freshEnv inFront 2 0 result ∧ ¬ StoresInside result := by
  refine ⟨_, rfl, rfl, ?_, ?_⟩
  · intro decodes
    have second := (decodes 1 (by decide)).prio
    revert second
    decide
  · intro inside
    have outside := inside { offset := 4, width := 4, size := 2 } (by decide)
    revert outside
    simp [Store.Inside]

end FPGame.Library
