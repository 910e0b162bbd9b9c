import FPGame.Foundation.Machine
import FPGame.Ppu.PixelMixer
import FPGame.Ppu.SpriteFile
import FPGame.Ppu.TileLayer

/-!
# Composing a row

The mixer, the ports of both tile engines, the column register of the sprite
engine and the row RAM that is written. A tile engine answers two clocks after
a column was presented and the sprite engine after one, while the write address
runs two clocks behind. So the word that is stored for a column is mixed from
the tile pixels of this column and the sprite pixel of the next one
(`Pass.stored`), and the row is composed correctly exactly if that makes no
difference (`composes_iff`).
-/

set_option autoImplicit false

namespace FPGame.Ppu

open FPGame.Foundation

/-! ## What a sprite contributes -/

section Shows

variable (bg fg : BitVec 8) (sp : BitVec 9) (spPrio : BitVec 2)

/-- The sprite pixel, if it shows between the pixels of the tile layers. -/
def spriteShows : Option (BitVec 9) :=
  if spColor sp = 0 then none
  else if spPrio.getLsbD 1 then some sp
  else if fgColor fg ≠ 0 then none
  else if spPrio.getLsbD 0 then some sp
  else if bgColor bg ≠ 0 then none
  else some sp

/-- What shows where no sprite does. -/
def tilesShow : BitVec 10 :=
  if fgColor fg ≠ 0 then 0b01#2 ++ fg else if bgColor bg ≠ 0 then 0b00#2 ++ bg else 0

theorem priorityMix_eq :
    priorityMix bg fg sp spPrio =
      (spriteShows bg fg sp spPrio).elim (tilesShow bg fg) (0b1#1 ++ ·) := by
  by_cases bgClear : bgColor bg = 0#4 <;> by_cases fgClear : fgColor fg = 0#4 <;>
    by_cases spClear : spColor sp = 0#4 <;> cases high : spPrio[1] <;>
      cases low : spPrio[0] <;>
        simp [priorityMix, spriteShows, tilesShow, bgClear, fgClear, spClear, high, low]

/-- The words of the tile layers are not words of sprites. -/
theorem tilesShow_ne : tilesShow bg fg ≠ 0b1#1 ++ sp := by
  have top : ∀ (source : BitVec 2) (data : BitVec 8),
      (source ++ data).getLsbD 9 = source.getLsbD 1 := by
    intro source data
    rw [BitVec.getLsbD_append]
    rfl
  have low : (tilesShow bg fg).getLsbD 9 = false := by
    rw [tilesShow]
    split_ifs
    · exact top 0b01 fg
    · exact top 0b00 bg
    · rfl
  have high : (0b1#1 ++ sp).getLsbD 9 = true := by
    rw [BitVec.getLsbD_append]
    rfl
  intro same
  rw [same] at low
  exact Bool.false_ne_true (low.symm.trans high)

/-- Two sprite pixels give the same word exactly if the same of them shows. -/
theorem priorityMix_eq_iff (sp' : BitVec 9) (spPrio' : BitVec 2) :
    priorityMix bg fg sp spPrio = priorityMix bg fg sp' spPrio' ↔
      spriteShows bg fg sp spPrio = spriteShows bg fg sp' spPrio' := by
  rw [priorityMix_eq, priorityMix_eq]
  constructor
  · intro same
    cases shows : spriteShows bg fg sp spPrio with
    | none =>
        cases shows' : spriteShows bg fg sp' spPrio' with
        | none => rfl
        | some q =>
            rw [shows, shows'] at same
            exact absurd same (tilesShow_ne bg fg q)
    | some p =>
        cases shows' : spriteShows bg fg sp' spPrio' with
        | none =>
            rw [shows, shows'] at same
            exact absurd same.symm (tilesShow_ne bg fg p)
        | some q =>
            rw [shows, shows'] at same
            rw [(BitVec.append_right_inj 0b1#1).mp same]
  · intro same
    rw [same]

end Shows

/-! ## The machine -/

/-- What does not change while a row is composed. -/
structure Layers where
  bg : TileLayer
  fg : TileLayer
  spriteEnable : Bool

namespace RowComposition

structure State where
  mixer : PixelMixer.State
  bgPorts : RowPorts
  fgPorts : RowPorts
  col : BitVec 9
  chain : List SpriteUnit
  rowRam : ℕ → BitVec 10

/-- The outputs of the sprite engine for what the sprite file answers. -/
def spriteOut (enable : Bool) (answer : BitVec 9 × BitVec 2) : BitVec 9 × BitVec 2 :=
  (if enable then answer.1 else 0, answer.2)

/-- The word that the mixer puts on the write port. -/
def wrdata (layers : Layers) (s : State) : BitVec 10 :=
  let sp := spriteOut layers.spriteEnable (pixelOut s.chain s.col)
  pmxrRowramWrdata (layers.bg.pmxrPixelData s.bgPorts) (layers.fg.pmxrPixelData s.fgPorts) sp.1 sp.2

/-- One clock, while the engines are idle. -/
def next (layers : Layers) (offer : SpriteReg) (s : State) (x : PixelMixer.Input) : State where
  mixer := PixelMixer.next s.mixer x
  bgPorts := layers.bg.nextPorts s.bgPorts s.mixer.pixelAddr
  fgPorts := layers.fg.nextPorts s.fgPorts s.mixer.pixelAddr
  col := s.mixer.pixelAddr
  chain := SpriteFile.next false offer false false s.chain
  rowRam :=
    store s.rowRam (PixelMixer.pmxrRowramWren s.mixer) s.mixer.pmxrRowramWraddr.toNat
      (wrdata layers s)

/-- The machine; its registers are those of a pass that begins. -/
def machine (layers : Layers) (offer : SpriteReg) (start : State) :
    Machine State PixelMixer.Input where
  reset := start
  next := next layers offer

/-! ## A pass -/

/-- The first clock of a pass. -/
structure PassStart (mixer : PixelMixer.State) : Prop where
  state : mixer.state = .fetch
  pixelAddr : mixer.pixelAddr = 0
  pixelAddrBuffer : mixer.pixelAddrBuffer = 0
  pmxrRowramWraddr : mixer.pmxrRowramWraddr = 0

/-- A mixer that has waited for three clocks starts so. -/
theorem passStart_of_wait {mixer : PixelMixer.State} {x y z : PixelMixer.Input}
    (first : mixer.state = .wait) (second : (PixelMixer.next mixer x).state = .wait)
    (third : (PixelMixer.next (PixelMixer.next mixer x) y).state = .wait)
    (starts : (PixelMixer.next (PixelMixer.next (PixelMixer.next mixer x) y) z).state = .fetch) :
    PassStart (PixelMixer.next (PixelMixer.next (PixelMixer.next mixer x) y) z) := by
  have cleared : ∀ (m : PixelMixer.State) (i : PixelMixer.Input), m.state = .wait →
      (PixelMixer.next m i).pixelAddr = 0 ∧ (PixelMixer.next m i).pixelAddrBuffer = m.pixelAddr ∧
        (PixelMixer.next m i).pmxrRowramWraddr = m.pixelAddrBuffer := by
    intro m i waits
    simp [PixelMixer.next, waits]
  obtain ⟨address, buffer, write⟩ := cleared _ z third
  obtain ⟨address', buffer', -⟩ := cleared _ y second
  obtain ⟨address'', -, -⟩ := cleared _ x first
  exact ⟨starts, address, buffer.trans address', (write.trans buffer').trans address''⟩

/-- The number of clocks of a pass. -/
def passClocks : ℕ := 322

/-- The column that is presented in clock `u` of a pass. -/
def column (u : ℕ) : BitVec 9 := BitVec.ofNat 9 (min u 319)

theorem column_toNat (u : ℕ) : (column u).toNat = min u 319 := by
  rw [column, BitVec.toNat_ofNat]
  omega

/-- The counter saturates. -/
theorem column_succ (u : ℕ) :
    (if column u = PixelMixer.maxPixelAddr then column u else column u + 1) = column (u + 1) := by
  apply BitVec.eq_of_toNat_eq
  split_ifs with last
  · have value := congrArg BitVec.toNat last
    rw [column_toNat] at value ⊢
    rw [column_toNat, value]
    simp only [PixelMixer.maxPixelAddr_toNat] at value ⊢
    omega
  · have below : min u 319 ≠ 319 := by
      intro value
      exact last (BitVec.eq_of_toNat_eq (by rw [column_toNat, value]; rfl))
    rw [BitVec.toNat_add, column_toNat, column_toNat]
    simp only [BitVec.ofNat_eq_ofNat, BitVec.toNat_ofNat]
    omega

/-- The mixer in clock `u` of a pass. -/
structure Sweep (u : ℕ) (mixer : PixelMixer.State) : Prop where
  state : mixer.state = if u < passClocks then .fetch else .wait
  pixelAddr : mixer.pixelAddr = column u
  pixelAddrBuffer : mixer.pixelAddrBuffer = column (u - 1)
  pmxrRowramWraddr : mixer.pmxrRowramWraddr = column (u - 2)

theorem PassStart.sweep {mixer : PixelMixer.State} (start : PassStart mixer) : Sweep 0 mixer :=
  ⟨start.state, start.pixelAddr, start.pixelAddrBuffer, start.pmxrRowramWraddr⟩

/-- The columns come one after the other, and the last write ends the pass. -/
theorem Sweep.next {u : ℕ} {mixer : PixelMixer.State} (sweep : Sweep u mixer)
    (busy : u < passClocks) (x : PixelMixer.Input) : Sweep (u + 1) (PixelMixer.next mixer x) := by
  have fetches : mixer.state = .fetch := by rw [sweep.state, if_pos busy]
  have next : PixelMixer.next mixer x =
      { state := if mixer.pmxrRowramWraddr = PixelMixer.maxPixelAddr then .wait else .fetch
        bgteDoneRec := false
        fgteDoneRec := false
        spreDoneRec := false
        pixelAddr := column (u + 1)
        pixelAddrBuffer := column u
        pmxrRowramWraddr := column (u - 1) } := by
    rw [← column_succ, ← sweep.pixelAddr, ← sweep.pixelAddrBuffer]
    simp only [PixelMixer.next, fetches]
  have last : mixer.pmxrRowramWraddr = PixelMixer.maxPixelAddr ↔ u = 321 := by
    simp only [passClocks] at busy
    rw [← BitVec.toNat_inj, sweep.pmxrRowramWraddr, column_toNat, PixelMixer.maxPixelAddr_toNat]
    omega
  refine ⟨?_, by rw [next], by rw [next]; rfl, by rw [next]; rfl⟩
  have bound : u < 322 := busy
  simp only [next, last]
  by_cases ends : u = 321
  · rw [if_pos ends, if_neg (by simp only [passClocks]; omega)]
  · rw [if_neg ends, if_pos (by simp only [passClocks]; omega)]

/-- The sprite engine's answer for a column. -/
def spritePixel (layers : Layers) (sprites : List SpriteReg) (c : BitVec 9) :
    BitVec 9 × BitVec 2 :=
  spriteOut layers.spriteEnable (tournament (sprites.map (SpriteReg.pixel · c)))

/-- The mix of the tile pixels of one column and the sprite pixel of another. -/
def mixAt (layers : Layers) (sprites : List SpriteReg) (c c' : BitVec 9) : BitVec 10 :=
  priorityMix (layers.bg.pixel c) (layers.fg.pixel c) (spritePixel layers sprites c').1
    (spritePixel layers sprites c').2

/-- What a port has looked up is the pixel of a column. -/
def Fetched (layer : TileLayer) (ports : RowPorts) (c : BitVec 9) : Prop :=
  layer.pixelData ports.tilram.fetched ports.patram.fetched = layer.pixel c

/-- Clock `u` of a pass. -/
structure Pass (layers : Layers) (sprites : List SpriteReg) (before : ℕ → BitVec 10) (u : ℕ)
    (s : State) : Prop where
  state : s.mixer.state = if u < passClocks then .fetch else .wait
  pixelAddr : s.mixer.pixelAddr = column u
  pixelAddrBuffer : s.mixer.pixelAddrBuffer = column (u - 1)
  pmxrRowramWraddr : s.mixer.pmxrRowramWraddr = column (u - 2)
  col : 1 ≤ u → s.col = column (u - 1)
  bgFetched : 1 ≤ u → Fetched layers.bg s.bgPorts (column (u - 1))
  fgFetched : 1 ≤ u → Fetched layers.fg s.fgPorts (column (u - 1))
  bgOut : 2 ≤ u → layers.bg.pmxrPixelData s.bgPorts = layers.bg.pixel (column (u - 2))
  fgOut : 2 ≤ u → layers.fg.pmxrPixelData s.fgPorts = layers.fg.pixel (column (u - 2))
  contents : SpriteFile.contents s.chain = sprites
  stored : ∀ c, c < 320 → c + 3 ≤ u →
    s.rowRam c = mixAt layers sprites (column c) (column (c + 1))
  outside : ∀ a, 320 ≤ a → s.rowRam a = before a

section Pass

variable {layers : Layers} {offer : SpriteReg} {sprites : List SpriteReg}
  {before : ℕ → BitVec 10} {u : ℕ} {s : State} {x : PixelMixer.Input}

theorem Pass.start (start : PassStart s.mixer) :
    Pass layers (SpriteFile.contents s.chain) s.rowRam 0 s where
  state := start.state
  pixelAddr := start.pixelAddr
  pixelAddrBuffer := start.pixelAddrBuffer
  pmxrRowramWraddr := start.pmxrRowramWraddr
  col := nofun
  bgFetched := nofun
  fgFetched := nofun
  bgOut := nofun
  fgOut := nofun
  contents := rfl
  stored _ _ early := absurd early (by omega)
  outside _ _ := rfl

/-- The word on the write port, once the pipelines are full. -/
theorem Pass.wrdata_eq (pass : Pass layers sprites before u s) (full : 2 ≤ u) :
    wrdata layers s = mixAt layers sprites (column (u - 2)) (column (u - 1)) := by
  rw [wrdata, pmxrRowramWrdata_eq, pass.bgOut full, pass.fgOut full, pass.col (by omega),
    pixelOut_eq, pass.contents]
  rfl

/-- **One clock of a pass.** -/
theorem Pass.next (pass : Pass layers sprites before u s) (busy : u < passClocks) :
    Pass layers sprites before (u + 1) (next layers offer s x) := by
  have fetches : s.mixer.state = .fetch := by rw [pass.state, if_pos busy]
  have bound : u < 322 := busy
  have sweep : Sweep u s.mixer :=
    ⟨pass.state, pass.pixelAddr, pass.pixelAddrBuffer, pass.pmxrRowramWraddr⟩
  have following := sweep.next busy x
  have address : s.mixer.pmxrRowramWraddr.toNat = u - 2 := by
    rw [pass.pmxrRowramWraddr, column_toNat]
    omega
  have wren : PixelMixer.pmxrRowramWren s.mixer = true := by
    rw [PixelMixer.pmxrRowramWren, fetches]
    rfl
  have ram : (RowComposition.next layers offer s x).rowRam =
      Function.update s.rowRam (u - 2) (wrdata layers s) := by
    rw [RowComposition.next, wren, address, store_true]
  refine
    { state := following.state
      pixelAddr := following.pixelAddr
      pixelAddrBuffer := following.pixelAddrBuffer
      pmxrRowramWraddr := following.pmxrRowramWraddr
      col := fun _ => pass.pixelAddr
      bgFetched := fun _ => ?_
      fgFetched := fun _ => ?_
      bgOut := fun later => pass.bgFetched (by omega)
      fgOut := fun later => pass.fgFetched (by omega)
      contents := ?_
      stored := ?_
      outside := ?_ }
  · rw [Nat.add_sub_cancel, ← pass.pixelAddr]
    rfl
  · rw [Nat.add_sub_cancel, ← pass.pixelAddr]
    rfl
  · show SpriteFile.contents (SpriteFile.next false offer false false s.chain) = sprites
    rw [(SpriteFile.next_contents s.chain).1, SpriteFile.inAck_quiet]
    exact (List.append_nil _).trans pass.contents
  · intro c within done
    rw [ram]
    by_cases now : c = u - 2
    · rw [now, Function.update_self, pass.wrdata_eq (by omega),
        show u - 2 + 1 = u - 1 by omega]
    · rw [Function.update_of_ne now]
      exact pass.stored c within (by omega)
  · intro a large
    rw [ram, Function.update_of_ne (by omega)]
    exact pass.outside a large

/-- A pass goes on until its last clock. -/
theorem Pass.run (start : PassStart s.mixer) (inputs : ℕ → PixelMixer.Input) :
    ∀ u, u ≤ passClocks →
      Pass layers (SpriteFile.contents s.chain) s.rowRam u
        ((machine layers offer s).run inputs u) := by
  intro u
  induction u with
  | zero => exact fun _ => .start start
  | succ u ih => exact fun bound => (ih (by omega)).next (by omega)

/-! ## The main result -/

/-- The row is composed: the pass ends, every column of the row RAM has the mix
of the three pixels of this column, and nothing else has been written. -/
def Composes (layers : Layers) (offer : SpriteReg) (s : State)
    (inputs : ℕ → PixelMixer.Input) : Prop :=
  (∀ u, u < passClocks → ((machine layers offer s).run inputs u).mixer.state = .fetch) ∧
  ((machine layers offer s).run inputs passClocks).mixer.state = .wait ∧
  (∀ c, c < 320 → ((machine layers offer s).run inputs passClocks).rowRam c =
    mixAt layers (SpriteFile.contents s.chain) (BitVec.ofNat 9 c) (BitVec.ofNat 9 c)) ∧
  ∀ a, 320 ≤ a → ((machine layers offer s).run inputs passClocks).rowRam a = s.rowRam a

/-- What the sprite layer shows between the tile pixels of column `c`, with its
own pixel taken from column `c'`. -/
def showsAt (layers : Layers) (sprites : List SpriteReg) (c c' : BitVec 9) :
    Option (BitVec 9) :=
  spriteShows (layers.bg.pixel c) (layers.fg.pixel c) (spritePixel layers sprites c').1
    (spritePixel layers sprites c').2

theorem column_of_lt {c : ℕ} (within : c < 320) : column c = BitVec.ofNat 9 c := by
  rw [column, Nat.min_eq_left (by omega)]

/-- What a pass stores, whatever the layers are. -/
theorem stored_of_pass (start : PassStart s.mixer) (inputs : ℕ → PixelMixer.Input) {c : ℕ}
    (within : c < 320) :
    ((machine layers offer s).run inputs passClocks).rowRam c =
      mixAt layers (SpriteFile.contents s.chain) (BitVec.ofNat 9 c) (column (c + 1)) := by
  rw [(Pass.run start inputs passClocks le_rfl).stored c within (by simp only [passClocks]; omega),
    column_of_lt within]

/-- **Row composition.** For all layers, all sprites and every pass, the row is
composed exactly if in every column but the last the sprite layer shows the
same with the pixel of this column and with that of the next one. -/
theorem composes_iff (start : PassStart s.mixer) (inputs : ℕ → PixelMixer.Input) :
    Composes layers offer s inputs ↔
      ∀ c, c < 319 →
        showsAt layers (SpriteFile.contents s.chain) (BitVec.ofNat 9 c) (BitVec.ofNat 9 c) =
          showsAt layers (SpriteFile.contents s.chain) (BitVec.ofNat 9 c)
            (BitVec.ofNat 9 (c + 1)) := by
  have pass := fun u => @Pass.run layers offer s start inputs u
  constructor
  · rintro ⟨-, -, composed, -⟩ c within
    have stored := composed c (by omega)
    rw [stored_of_pass start inputs (by omega), column_of_lt (by omega)] at stored
    exact ((priorityMix_eq_iff _ _ _ _ _ _).mp stored).symm
  · intro agrees
    refine ⟨fun u busy => ?_, ?_, fun c within => ?_, (pass passClocks le_rfl).outside⟩
    · rw [(pass u busy.le).state, if_pos busy]
    · rw [(pass passClocks le_rfl).state, if_neg (lt_irrefl _)]
    · rw [stored_of_pass start inputs within]
      by_cases last : c = 319
      · rw [last]
        rfl
      · rw [column_of_lt (by omega)]
        exact ((priorityMix_eq_iff _ _ _ _ _ _).mpr (agrees c (by omega))).symm

end Pass

/-! ## One sprite on an empty background -/

/-- A layer of transparent tiles. -/
def clearLayer : TileLayer where
  enable := true
  scroll := 0
  nextRow := 0
  buffers := { tilram := fun _ => 0, patram := fun _ => 0 }

/-- Eight opaque pixels from column 10 on, in front of the tiles. -/
def bar : SpriteReg where
  pat _ := 0x11111111
  conf := { palette := 0, x := 10, w := 0, xMirror := false, fgPrio := true, bgPrio := false }

/-- The first clock of a pass, with the bar in unit 0. -/
def barPass : State where
  mixer :=
    { state := .fetch, bgteDoneRec := true, fgteDoneRec := true, spreDoneRec := true,
      pixelAddr := 0, pixelAddrBuffer := 0, pmxrRowramWraddr := 0 }
  bgPorts := { tilram := { fetched := 0, q := 0 }, patram := { fetched := 0, q := 0 } }
  fgPorts := { tilram := { fetched := 0, q := 0 }, patram := { fetched := 0, q := 0 } }
  col := 0
  chain := { out := bar, outValid := true } :: List.replicate 15 { out := bar, outValid := false }
  rowRam _ := 0

def noneDone (_ : ℕ) : PixelMixer.Input :=
  { bgteDone := false, fgteDone := false, spreDone := false }

/-- With the sprite layer disabled there is nothing to displace. -/
theorem composes_iff_disabled :
    Composes { bg := clearLayer, fg := clearLayer, spriteEnable := false } bar barPass noneDone :=
  (composes_iff ⟨rfl, rfl, rfl, rfl⟩ noneDone).mpr fun _ _ => rfl

/-- Column 9 is stored with the first pixel of the bar, which begins at column 10. -/
theorem not_composes_bar :
    ¬ Composes { bg := clearLayer, fg := clearLayer, spriteEnable := true } bar barPass
      noneDone := by
  rintro ⟨-, -, composed, -⟩
  have stored := composed 9 (by decide)
  rw [stored_of_pass ⟨rfl, rfl, rfl, rfl⟩ noneDone (by decide)] at stored
  revert stored
  decide

end RowComposition

end FPGame.Ppu
