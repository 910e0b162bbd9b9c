import FPGame.Library.AllOrNothing

/-!
# Library writes stay inside the object they name

A call is contained if, whatever it finds, it aborts or changes only bytes of
the object that its arguments name, and aborts if they name none. Three of the
write functions have no such guarantee for all arguments: a tile layer that is
neither background nor foreground passes `ppu_write_tiles_vertical`, a layer
that is none passes `ppu_write_palette`, and a sprite index near `2 ^ 32` wraps
past the check of `ppu_write_sprites` into Palette RAM. `contained_iff` says
exactly which calls are contained.
-/

set_option autoImplicit false

namespace FPGame.Library

open FPGame.Foundation
open FPGame.PpuDriver (Config State Exclusive Owner Owned vramSize)

/-- The layer, if the call takes one, is one that the call supports. -/
def WriteCall.Supported : WriteCall → Prop
  | .tilesHorizontal _ _ layer _ _ _ | .tilesVertical _ _ layer _ _ _ =>
      layer = layerBg ∨ layer = layerFg
  | .palette _ layerId _ => layerId = layerBg ∨ layerId = layerFg ∨ layerId = layerSpr
  | .pattern _ _ _ _ | .sprites _ _ _ => True

/-- The call aborts or changes only bytes of the object that it names, for any
state of the driver in which its process is the only holder of the descriptor,
any interrupts and any results of its `malloc`s. -/
def WriteCall.Contained (call : WriteCall) : Prop :=
  ∀ (cfg : Config) (process : Process) (tid : ℕ) (s s' : State ℕ) (o : Outcome),
    process.ppuFd = true → Exclusive tid s → Exec cfg tid s (call.program process) s' o →
    (∃ reason, o = .aborted reason) ∨
      (call.Supported ∧
        ∀ b, (∀ a, call.region a → b ≠ cfg.shift + a) → s'.shared.vram b = s.shared.vram b)

/-- The sum in the check of `ppu_write_sprites` wraps to one that passes, and
both tables are written below Sprite RAM. -/
structure WrapsBelow (array : ℕ → Sprite) (len spriteIdI : BitVec 32) : Prop where
  wraps : 2 ^ 32 ≤ spriteIdI.toNat + len.toNat
  passes : (spriteIdI + len).toNat ≤ spriteMaxcount
  near : 2 ^ 32 ≤ spriteIdI.toNat + 0x3400
  wellFormed : ∀ i, i < len.toNat → WellFormed (array i)

/-- The calls that are contained. -/
def WriteCall.HoldsWhen : WriteCall → Prop
  | .tilesHorizontal _ _ _ _ _ _ | .pattern _ _ _ _ => True
  | .tilesVertical tiles _ layer xI yI _ =>
      layer = layerBg ∨ layer = layerFg ∨ tiles = none ∨ tilelayerWidth ≤ xI.toNat ∨
        tilelayerHeight ≤ yI.toNat
  | .palette colors layerId paletteId =>
      layerId = layerBg ∨ layerId = layerFg ∨ layerId = layerSpr ∨ colors = none ∨
        paletteramTilemax ≤ paletteId.toNat
  | .sprites array len spriteIdI => ∀ given, array = some given → ¬ WrapsBelow given len spriteIdI

section Contained

variable {cfg : Config} {process : Process} {tid : ℕ} {s s' : State ℕ} {o : Outcome}
  {call : WriteCall}

/-- A call whose sums do not wrap is contained if its layer is supported. -/
theorem contained_of_supported (supported : call.Supported) (noWrap : call.NoWrap) :
    call.Contained := by
  intro cfg process tid s s' o ppuFd alone exec
  refine .inr ⟨supported, fun b outside => ?_⟩
  exact exec_frame ((call.sequence process ppuFd noWrap).mono fun _ _ fits => fits.2) exec alone
    outside

/-- A check of the call fails. -/
def Program.Aborts (p : Program) : Prop := ∃ msg, p = .abort (.check msg)

theorem Program.Aborts.check {err : Bool} {msg : String} {rest : Program} (fails : err = true) :
    (Program.nowaymsg err msg rest).Aborts := ⟨msg, if_pos fails⟩

theorem Program.Aborts.nowaymsg {err : Bool} {msg : String} {rest : Program}
    (aborts : rest.Aborts) : (Program.nowaymsg err msg rest).Aborts := by
  cases err with
  | true => exact ⟨msg, rfl⟩
  | false => exact aborts

theorem Program.nowaymsg_of_not {c : Prop} [Decidable c] {msg : String} {rest : Program}
    (passes : ¬ c) : Program.nowaymsg (decide c) msg rest = rest :=
  if_neg fun fails => passes (of_decide_eq_true fails)

/-- A call with a check that fails is contained. -/
theorem contained_of_aborts (aborts : ∀ process, (call.program process).Aborts) :
    call.Contained := by
  intro cfg process tid s s' o ppuFd alone exec
  obtain ⟨msg, program⟩ := aborts process
  exact .inl ⟨_, ((exec.of_over alone).2 _ program).1⟩

/-! ## Calls with a layer -/

theorem contained_tilesHorizontal (tiles : Option (ℕ → BitVec 16))
    (len layer xI yI count : BitVec 32) :
    (WriteCall.tilesHorizontal tiles len layer xI yI count).Contained := by
  by_cases supported : layer = layerBg ∨ layer = layerFg
  · exact contained_of_supported supported trivial
  · rw [not_or] at supported
    exact contained_of_aborts fun process => .nowaymsg (.nowaymsg
      (.nowaymsg (.check (decide_eq_true supported))))

theorem contained_tilesVertical {tiles : Option (ℕ → BitVec 16)}
    {len layer xI yI count : BitVec 32}
    (holds : (WriteCall.tilesVertical tiles len layer xI yI count).HoldsWhen) :
    (WriteCall.tilesVertical tiles len layer xI yI count).Contained := by
  rcases holds with bg | fg | null | x | y
  · exact contained_of_supported (.inl bg) trivial
  · exact contained_of_supported (.inr fg) trivial
  · subst null
    exact contained_of_aborts fun process =>
      .nowaymsg (.nowaymsg (.nowaymsg ⟨_, rfl⟩))
  · exact contained_of_aborts fun process =>
      .nowaymsg (.check (decide_eq_true x))
  · exact contained_of_aborts fun process =>
      .nowaymsg (.nowaymsg (.check (decide_eq_true y)))

theorem contained_palette {colors : Option (Fin 15 → BitVec 32)} {layerId paletteId : BitVec 32}
    (holds : (WriteCall.palette colors layerId paletteId).HoldsWhen) :
    (WriteCall.palette colors layerId paletteId).Contained := by
  by_cases supported : (WriteCall.palette colors layerId paletteId).Supported
  · exact contained_of_supported supported trivial
  · have unsupported := supported
    simp only [WriteCall.Supported, not_or] at unsupported
    rcases holds with bg | fg | spr | null | bound
    · exact absurd bg unsupported.1
    · exact absurd fg unsupported.2.1
    · exact absurd spr unsupported.2.2
    · subst null
      exact contained_of_aborts fun process => .nowaymsg ⟨_, rfl⟩
    · cases colors with
      | none => exact contained_of_aborts fun process => .nowaymsg ⟨_, rfl⟩
      | some colors =>
          refine contained_of_aborts fun process => .nowaymsg (.check ?_)
          rw [if_neg unsupported.2.2]
          exact decide_eq_true bound

/-! ## Calls that are not contained -/

/-- Threads outside the driver, and a lock that is free or held by a transfer. -/
def stateWith (transfer : Bool) (vram : ℕ → BitVec 8) : State ℕ where
  shared :=
    { ppuLock := 1, vramLock := transfer.toNat, vram := vram, mmio := fun _ => 0
      pending := transfer.toNat }
  threads _ := PpuDriver.outside

theorem exclusive_stateWith (transfer : Bool) (vram : ℕ → BitVec 8) :
    Exclusive tid (stateWith transfer vram) := by
  refine ⟨fun _ _ => rfl, if transfer then .transfer else .nobody, ?_, ?_, ?_⟩
  · cases transfer <;> rfl
  · intro other
    cases transfer <;> exact ⟨nofun, nofun⟩
  · cases transfer <;> rfl

/-- A process whose `malloc`s succeed. -/
def ampleProcess : Process where
  ppuFd := true
  heap _ := 0
  writeTiles := true
  spriteBuf := some 0x1000
  spriteExtraBuf := some 0x100000

/-- A sequence that passes its checks returns from a busy driver. -/
theorem returns_of_sequence {region : ℕ → Prop} {p : Program} (sequence : Sequence (Within region) p)
    (passes : ¬ p.Aborts) (cfg : Config) (vram : ℕ → BitVec 8) :
    ∃ s' ret, Exec cfg 0 (stateWith true vram) p s' (.returned ret) := by
  cases sequence with
  | done => exact ⟨_, _, .done⟩
  | check msg => exact absurd ⟨msg, rfl⟩ passes
  | pwrite proper fit following =>
      obtain ⟨s', -, exec⟩ := exec_pwrite_busy (s := stateWith true vram) rfl rfl fit.1
      exact ⟨s', -1, exec⟩

/-- So a call with an unsupported layer that passes its checks is not contained. -/
theorem not_contained_of_passes (noWrap : call.NoWrap) (unsupported : ¬ call.Supported)
    (passes : ¬ (call.program ampleProcess).Aborts) : ¬ call.Contained := by
  intro contained
  obtain ⟨s', ret, exec⟩ := returns_of_sequence (call.sequence ampleProcess rfl noWrap) passes
    { shift := 0, vramAddrP := 0 } fun _ => 0
  rcases contained _ _ 0 _ _ _ rfl (exclusive_stateWith true _) exec with
    ⟨reason, aborted⟩ | ⟨supported, -⟩
  · cases aborted
  · exact unsupported supported

/-- The loop over the columns is no failing check. -/
theorem not_aborts_writeColumns {writeTiles : ℕ → BitVec 8}
    {count topAddr towrite startAddr : BitVec 32} {fuel : ℕ} (some : 1 ≤ towrite.toNat) :
    ¬ (writeColumns writeTiles count topAddr (fuel + 1) towrite 0 startAddr).Aborts := by
  rintro ⟨msg, aborts⟩
  obtain ⟨n, more⟩ := Nat.exists_eq_add_of_le' some
  rw [writeColumns] at aborts
  split_ifs at aborts with left
  rw [more, writeColumn, if_pos left] at aborts
  cases aborts

theorem holdsWhen_tilesVertical {tiles : Option (ℕ → BitVec 16)}
    {len layer xI yI count : BitVec 32}
    (contained : (WriteCall.tilesVertical tiles len layer xI yI count).Contained) :
    (WriteCall.tilesVertical tiles len layer xI yI count).HoldsWhen := by
  by_contra fails
  simp only [WriteCall.HoldsWhen, not_or, not_le] at fails
  obtain ⟨bg, fg, given, x, y⟩ := fails
  obtain ⟨array, rfl⟩ := Option.ne_none_iff_exists'.mp given
  refine @not_contained_of_passes (.tilesVertical (some array) len layer xI yI count) trivial
    (not_or.mpr ⟨bg, fg⟩) ?_ contained
  intro aborts
  have opened : ¬ (!ampleProcess.ppuFd) = true := Bool.false_ne_true
  have allocated : ¬ (!ampleProcess.writeTiles) = true := Bool.false_ne_true
  rw [WriteCall.program, ppuWriteTilesVertical, Program.nowaymsg, if_neg opened,
    Program.nowaymsg_of_not (not_le.mpr x), Program.nowaymsg_of_not (not_le.mpr y)] at aborts
  dsimp only at aborts
  split_ifs at aborts with nothing
  · obtain ⟨msg, aborts⟩ := aborts
    cases aborts
  · rw [not_or] at nothing
    have positive := (clamp_toNat nothing.1).1
    rw [Program.nowaymsg, if_neg allocated] at aborts
    refine not_aborts_writeColumns ?_ aborts
    rw [unsignedMin_toNat, BitVec.toNat_sub, BitVec.toNat_ofNat, tilelayerHeight] at *
    omega

theorem holdsWhen_palette {colors : Option (Fin 15 → BitVec 32)} {layerId paletteId : BitVec 32}
    (contained : (WriteCall.palette colors layerId paletteId).Contained) :
    (WriteCall.palette colors layerId paletteId).HoldsWhen := by
  by_contra fails
  simp only [WriteCall.HoldsWhen, not_or, not_le] at fails
  obtain ⟨bg, fg, spr, given, bound⟩ := fails
  obtain ⟨array, rfl⟩ := Option.ne_none_iff_exists'.mp given
  refine @not_contained_of_passes (.palette (some array) layerId paletteId) trivial
    (by simp only [WriteCall.Supported, not_or]; exact ⟨bg, fg, spr⟩) ?_ contained
  rintro ⟨msg, aborts⟩
  have within : ¬ (if layerId = layerSpr then paletteramSpritemax else paletteramTilemax) ≤
      paletteId.toNat := by
    rw [if_neg spr]
    exact not_le.mpr bound
  have opened : ¬ (!ampleProcess.ppuFd) = true := Bool.false_ne_true
  rw [WriteCall.program, ppuWritePalette, Program.nowaymsg, if_neg opened] at aborts
  dsimp only at aborts
  rw [Program.nowaymsg_of_not within] at aborts
  cases aborts

/-! ## Sprites -/

theorem contained_sprites {array : Option (ℕ → Sprite)} {len spriteIdI : BitVec 32}
    (holds : (WriteCall.sprites array len spriteIdI).HoldsWhen) :
    (WriteCall.sprites array len spriteIdI).Contained := by
  by_cases noWrap : spriteIdI.toNat + len.toNat < 2 ^ 32
  · exact contained_of_supported trivial noWrap
  · intro cfg process tid s s' o ppuFd alone exec
    cases spriteCalls process ppuFd array len spriteIdI with
    | check msg program =>
        rw [WriteCall.program, program] at exec
        exact .inl ⟨_, ((exec.of_over alone).2 _ rfl).1⟩
    | writes given spriteBuf spriteExtraBuf buffers isGiven bound fills program =>
        have wellFormed : ∀ i, i < len.toNat → WellFormed (given i) := fun i within =>
          (of_fillBuffers fills i within).1
        have far : spriteIdI.toNat + 0x3400 < 2 ^ 32 := by
          by_contra near
          exact holds given isGiven ⟨not_lt.mp noWrap, bound, not_lt.mp near, wellFormed⟩
        rw [WriteCall.program, program] at exec
        cases exec.pwrite alone (times_four_toInt len) with
        | refused beyond outcome => exact .inl ⟨_, outcome⟩
        | busy inside held outcome vram => exact .inr ⟨trivial, fun b _ => by rw [vram]⟩
        | stored s₁ inside alone' free vram exec' =>
            -- the main table would fit, so the second one does not
            have index := spriteIdI.isLt
            have length := len.isLt
            simp only [BitVec.toNat_add, BitVec.toNat_mul, BitVec.toNat_ofNat,
              BitVec.ofNat_eq_ofNat, vramSpritesoffset, vramSize] at inside
            have proper : len.toInt ≠ -1 := by
              intro minusOne
              have all := congrArg BitVec.toNat
                (BitVec.eq_of_toInt_eq (y := BitVec.allOnes 32) minusOne)
              rw [BitVec.toNat_allOnes] at all
              omega
            cases exec'.pwrite alone' proper with
            | refused beyond outcome => exact .inl ⟨_, outcome⟩
            | busy inside' held => exact absurd free held
            | stored s₂ inside' =>
                simp only [BitVec.toNat_add, BitVec.toNat_ofNat, vramSpritesoffset,
                  sprramExtraoffset, vramSize] at inside'
                omega

/-- A sprite in range passes its checks. -/
theorem checkSprite_of_wellFormed {sprite : Sprite} (ok : WellFormed sprite) :
    checkSprite sprite = .ok () := by
  obtain ⟨pattern, palette, y, x, mirror, height, width, prio⟩ := ok
  have passes : ∀ {c : Prop} [Decidable c] (msg : String), ¬ c →
      Library.nowaymsg (decide c) msg = .ok () := fun msg holds => by
    rw [decide_eq_false holds]
    rfl
  have nonzero : ∀ {n : ℕ} (msg : String), n ≠ 0 → Library.nowaymsg (n == 0) msg = .ok () :=
    fun msg positive => by
      rw [beq_eq_false_iff_ne.mpr positive]
      rfl
  have pattern' : ¬ patternMaxaddr < sprite.patternAddr.toNat := by rw [patternMaxaddr]; omega
  have palette' : ¬ sprlayerMaxPalettes ≤ sprite.paletteId.toNat := by
    rw [sprlayerMaxPalettes]
    omega
  have y' : ¬ spriteMaxy < sprite.y.toNat := by rw [spriteMaxy]; omega
  have x' : ¬ spriteMaxx < sprite.x.toNat := by rw [spriteMaxx]; omega
  have mirror' : ¬ mirrorMaxval < sprite.mirror.toNat := by rw [mirrorMaxval]; omega
  have height' : ¬ spriteMaxheight < sprite.height.toNat := by rw [spriteMaxheight]; omega
  have width' : ¬ spriteMaxwidth < sprite.width.toNat := by rw [spriteMaxwidth]; omega
  have prio' : ¬ spriteMaxPrio < sprite.prio.toNat := by rw [spriteMaxPrio]; omega
  rw [checkSprite, passes _ pattern', passes _ palette', passes _ y', passes _ x',
    passes _ mirror', passes _ height', nonzero _ (by omega), passes _ width',
    nonzero _ (by omega), passes _ prio']
  rfl

/-- So the buffers of sprites in range are filled. -/
theorem fillBuffers_of_wellFormed {array : ℕ → Sprite} {len : BitVec 32}
    {spriteBuf spriteExtraBuf n : ℕ} {before : Buffers}
    (wellFormed : ∀ i, i < n → WellFormed (array i)) :
    ∃ after, fillBuffers array len spriteBuf spriteExtraBuf n before = .ok after := by
  induction n with
  | zero => exact ⟨before, rfl⟩
  | succ n ih =>
      obtain ⟨middle, earlier⟩ := ih fun i within => wellFormed i (Nat.lt_succ_of_lt within)
      have passes := checkSprite_of_wellFormed (wellFormed n (Nat.lt_succ_self n))
      simp only [fillBuffers, earlier, passes, bind, Except.bind]
      exact ⟨_, rfl⟩

/-- **The wrapped sum.** Both tables are written, the main one from below Sprite
RAM on, and no entry was named. -/
theorem not_contained_sprites {array : ℕ → Sprite} {len spriteIdI : BitVec 32}
    (below : WrapsBelow array len spriteIdI) :
    ¬ (WriteCall.sprites (some array) len spriteIdI).Contained := by
  intro contained
  obtain ⟨wraps, passes, near, wellFormed⟩ := below
  obtain ⟨buffers, fills⟩ := @fillBuffers_of_wellFormed array len 0x1000 0x100000 len.toNat
    { heap := fun _ => 0, stores := [] } wellFormed
  have index := spriteIdI.isLt
  have length := len.isLt
  have sum : (spriteIdI + len).toNat = spriteIdI.toNat + len.toNat - 2 ^ 32 := by
    rw [BitVec.toNat_add]
    omega
  rw [sum, spriteMaxcount] at passes
  have count : (len * 4).toNat = 4 * len.toNat := by
    simp only [BitVec.toNat_mul, BitVec.toNat_ofNat, BitVec.ofNat_eq_ofNat]
    omega
  have main : (BitVec.ofNat 32 vramSpritesoffset + spriteIdI * 4).toNat =
      vramSpritesoffset + 4 * spriteIdI.toNat - 4 * 2 ^ 32 := by
    simp only [BitVec.toNat_add, BitVec.toNat_mul, BitVec.toNat_ofNat, BitVec.ofNat_eq_ofNat,
      vramSpritesoffset]
    omega
  have extra : (BitVec.ofNat 32 (vramSpritesoffset + sprramExtraoffset) + spriteIdI).toNat =
      vramSpritesoffset + sprramExtraoffset + spriteIdI.toNat - 2 ^ 32 := by
    simp only [BitVec.toNat_add, BitVec.toNat_ofNat, vramSpritesoffset, sprramExtraoffset]
    omega
  -- a VRAM that holds another value than the first byte that is written
  have bytes : ∀ b : BitVec 8, b + 1 ≠ b := by decide
  obtain ⟨s₁, outside₁, free₁, vram₁, continues₁⟩ := @exec_pwrite_free ℕ _
    { shift := 0, vramAddrP := 0 } 0 (stateWith false fun _ => buffers.heap 0x1000 + 1)
    (fun k => buffers.heap (0x1000 + k)) (len * 4)
    (BitVec.ofNat 32 vramSpritesoffset + spriteIdI * 4)
    (.pwrite (fun k => buffers.heap (0x100000 + k)) len
      (BitVec.ofNat 32 (vramSpritesoffset + sprramExtraoffset) + spriteIdI) (.done 0)) rfl
    Nat.zero_ne_one (by
      rw [main, count, vramSpritesoffset, vramSize]
      omega)
  obtain ⟨s₂, -, -, vram₂, continues₂⟩ := @exec_pwrite_free ℕ _ { shift := 0, vramAddrP := 0 } 0
    s₁ (fun k => buffers.heap (0x100000 + k)) len
    (BitVec.ofNat 32 (vramSpritesoffset + sprramExtraoffset) + spriteIdI) (.done 0) outside₁
    (by rw [free₁]; decide) (by
      rw [extra, vramSpritesoffset, sprramExtraoffset, vramSize]
      omega)
  have exec := continues₁ s₂ (.returned 0) (continues₂ s₂ (.returned 0) .done)
  have program : (WriteCall.sprites (some array) len spriteIdI).program ampleProcess =
      .pwrite (fun k => buffers.heap (0x1000 + k)) (len * 4)
        (BitVec.ofNat 32 vramSpritesoffset + spriteIdI * 4)
        (.pwrite (fun k => buffers.heap (0x100000 + k)) len
          (BitVec.ofNat 32 (vramSpritesoffset + sprramExtraoffset) + spriteIdI) (.done 0)) := by
    have passed : ¬ spriteMaxcount < (spriteIdI + len).toNat := by
      rw [sum, spriteMaxcount]
      omega
    rw [WriteCall.program, ppuWriteSpritesCalls, Program.nowaymsg_of_not passed]
    dsimp only [ampleProcess]
    rw [fills]
    rfl
  rw [← program] at exec
  rcases contained _ _ 0 _ _ _ rfl (exclusive_stateWith false _) exec with
    ⟨reason, aborted⟩ | ⟨-, same⟩
  · cases aborted
  · have kept := same (vramSpritesoffset + 4 * spriteIdI.toNat - 4 * 2 ^ 32) (by
      intro a region
      have named := region.1
      rw [spriteMaxcount] at named
      omega)
    rw [vram₂, extra, storeBlock_of_outside _ _ _ (by
        rw [vramSpritesoffset, sprramExtraoffset]
        omega), vram₁, main, count] at kept
    have first := storeBlock_at (stateWith false fun _ => buffers.heap 0x1000 + 1).shared.vram
      (0 + (vramSpritesoffset + 4 * spriteIdI.toNat - 4 * 2 ^ 32))
      ((List.range (4 * len.toNat)).map fun k => buffers.heap (0x1000 + k)) (k := 0) (by
        rw [List.length_map, List.length_range]
        omega)
    rw [Nat.zero_add, Nat.add_zero] at first
    rw [Nat.zero_add, first, List.getElem_map, List.getElem_range] at kept
    exact bytes _ kept.symm

/-- **Containment.** A write call is contained exactly if it is not one of the
three kinds: a column of tiles with an unsupported layer, a palette with an
unsupported layer, or sprites whose index wraps past the check and writes below
Sprite RAM. -/
theorem contained_iff (call : WriteCall) : call.Contained ↔ call.HoldsWhen := by
  constructor
  · intro contained
    cases call with
    | tilesHorizontal | pattern => trivial
    | tilesVertical => exact holdsWhen_tilesVertical contained
    | palette => exact holdsWhen_palette contained
    | sprites array len spriteIdI =>
        rintro given rfl below
        exact not_contained_sprites below contained
  · intro holds
    cases call with
    | tilesHorizontal => exact contained_tilesHorizontal _ _ _ _ _ _
    | tilesVertical => exact contained_tilesVertical holds
    | pattern => exact contained_of_supported trivial trivial
    | palette => exact contained_palette holds
    | sprites => exact contained_sprites holds

/-- A column of tiles for the sprite layer is written into the background, a
palette for no layer into the background palettes, and a sprite at the last
unsigned index into the last word of Palette RAM. -/
theorem not_contained_kinds :
    ¬ (WriteCall.tilesVertical (some fun _ => 0) 1 layerSpr 0 0 1).Contained ∧
      ¬ (WriteCall.palette (some fun _ => 0) 0 0).Contained ∧
      ¬ (WriteCall.sprites (some inFront) 1 0xFFFFFFFF).Contained := by
  refine ⟨fun contained => ?_, fun contained => ?_, not_contained_sprites ⟨?_, ?_, ?_, ?_⟩⟩
  · rcases holdsWhen_tilesVertical contained with bg | fg | null | x | y
    · exact absurd bg (by decide)
    · exact absurd fg (by decide)
    · cases null
    · exact absurd x (by decide)
    · exact absurd y (by decide)
  · rcases holdsWhen_palette contained with bg | fg | spr | null | bound
    · exact absurd bg (by decide)
    · exact absurd fg (by decide)
    · exact absurd spr (by decide)
    · cases null
    · exact absurd bound (by decide)
  · decide
  · decide
  · decide
  · intro i within
    obtain rfl : i = 0 := Nat.lt_one_iff.mp within
    constructor <;> decide

end Contained

end FPGame.Library
