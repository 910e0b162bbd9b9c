import FPGame.Ppu.SpriteLayer
import FPGame.Video.RowPreparation

/-!
# The picture

`Scene` is what the PPU is given, and `Scene.color` is what it is to show: every
position of the screen has the colour of the pixel that wins there among the two
tile maps and the sprites. The sprite layer is shown one column further to the
left than it says, as the mixer composes it.

The hardware computes a row of this in pieces. Port a of Pattern RAM belongs to
the tile engine of BG until the tile engines are done and to the sprite engine
afterwards (`mux_of_slot`), so each of them reads what it asked for. The word
that the mixer writes for a column is then the word of the scene (`written_word`),
nothing overwrites it before the buffers are swapped (`shown_of_slot`), and the
output path shows it at its place (`picture_of_steady`).
-/

set_option autoImplicit false

namespace FPGame

open FPGame.Foundation FPGame.Ppu FPGame.Video

/-! ## What is to be shown -/

/-- The contents of the RAMs and the control registers. -/
structure Scene where
  tilram : TileRam
  patram : PatternRam
  sprram : ℕ → BitVec 64
  palette : ℕ → BitVec 64
  regs : CtrlRegs

namespace Scene

variable (scene : Scene)

/-- The scroll register of a tile layer. -/
def scroll (fg : Bool) : BitVec 32 := if fg then scene.regs.fgscroll else scene.regs.bgscroll

/-- The pixel of a tile layer. -/
def tile (fg : Bool) (row column : ℕ) : BitVec 8 :=
  if scene.regs.enable.getLsbD fg.toNat then
    tilePixel fg scene.tilram scene.patram (scrollX (scene.scroll fg)).toNat
      (scrollY (scene.scroll fg)).toNat row column
  else 0

/-- The pixel of the sprite layer and its priority. -/
def sprite (row column : ℕ) : BitVec 9 × BitVec 2 :=
  RowComposition.spriteOut (scene.regs.enable.getLsbD 2)
    (layerPixel (oamEntry scene.sprram) scene.patram row column)

/-- The word of a row RAM for a column; the sprites come one column early. -/
def word (row column : ℕ) : BitVec 10 :=
  priorityMix (scene.tile false row column) (scene.tile true row column)
    (scene.sprite row (min (column + 1) 319)).1 (scene.sprite row (min (column + 1) 319)).2

/-- The colour at a position of the screen. -/
def color (row column : ℕ) : BitVec 24 :=
  colorOf scene.regs.bgcolor scene.palette (scene.word row column)

variable {scene}

/-- With all layers off there is the background colour. -/
theorem color_of_disabled (disabled : scene.regs.enable = 0) (row column : ℕ) :
    scene.color row column = scene.regs.bgcolor := by
  have tile : ∀ fg, scene.tile fg row column = 0 := fun fg => by
    rw [Scene.tile, disabled, if_neg]
    cases fg <;> decide
  have sprite : (scene.sprite row (min (column + 1) 319)).1 = 0 := by
    rw [Scene.sprite, disabled]
    rfl
  have word : scene.word row column = 0 := by
    rw [Scene.word, tile, tile, sprite, priorityMix_eq]
    rfl
  rw [Scene.color, word, colorOf, if_pos rfl]

end Scene

/-! ## A tile engine that shares its port -/

namespace TileEngine

/-- The row that a tile engine shows, for any inputs that explain its steps. -/
theorem shows_row {fg : Bool} {powerUp : Memories} {inputs inputs' : ℕ → Input} {data z : Input}
    {t u : ℕ} (accepted : Accepts ((machine fg powerUp).run inputs t) (inputs t))
    (steps : ∀ v, (machine fg powerUp).run inputs (v + 1) =
      next fg ((machine fg powerUp).run inputs v) (inputs' v))
    (held : ∀ v, t < v → v < t + 64 → Held data (inputs' v)) (past : t + 65 ≤ u)
    (alone : ∀ v, t < v → v < u → ¬ Accepts ((machine fg powerUp).run inputs v) (inputs v))
    (scroll : (inputs u).scroll = data.scroll) (nextRow : (inputs u).nextRow = data.nextRow)
    (visible : (inputs u).pmxrPixelAddr.toNat < 320) :
    pmxrPixelData ((machine fg powerUp).run inputs (u + 2)) z =
      if z.enable then
        tilePixel fg data.tileRam data.patRam (scrollX data.scroll).toNat
          (scrollY data.scroll).toNat data.nextRow.toNat (inputs u).pmxrPixelAddr.toNat
      else 0 := by
  obtain ⟨ready, kept⟩ := keeps_row accepted past alone
  have row := @prepared fg ((machine fg powerUp).run inputs) inputs' data t steps
    (fun j began bound => underway_of_accepts accepted began bound) held
  rw [← kept] at row
  rw [Machine.run_succ, Machine.run_succ]
  refine (ready.pmxrPixelData_next z).trans ?_
  rw [scroll, nextRow]
  exact row.pixel_eq visible _

end TileEngine

namespace Display

variable {powerUp : PowerUp} {inputs : ℕ → Input} {scene : Scene} {s t u : ℕ}

/-! ## A slot -/

/-- While a row is prepared the RAMs and the registers hold the scene. -/
structure Steady (powerUp : PowerUp) (inputs : ℕ → Input) (scene : Scene) (s : ℕ) : Prop where
  regs : ((machine powerUp).run inputs s).screen.dbuf = scene.regs
  tilram : ∀ u, s ≤ u → u ≤ s + 1224 → (inputs u).tilram = scene.tilram
  patram : ∀ u, s ≤ u → u ≤ s + 1224 → (inputs u).patram = scene.patram
  sprram : ∀ u, s ≤ u → u ≤ s + 1224 → (inputs u).sprram = scene.sprram

/-- The row number and the registers of a slot. -/
theorem slot_regs (swaps : Swaps powerUp inputs s) (since : s ≤ u) (within : u ≤ s + 1224) :
    ((machine powerUp).run inputs u).nextRow = ((machine powerUp).run inputs s).nextRow ∧
      ((machine powerUp).run inputs u).screen.dbuf =
        ((machine powerUp).run inputs s).screen.dbuf := by
  obtain ⟨k, rfl⟩ := Nat.exists_eq_add_of_le since
  obtain ⟨nextRow, dbuf⟩ := slot_held ((swaps_iff s).mp swaps) (k := k) (by omega)
  rw [run_screen, run_screen] at nextRow dbuf
  exact ⟨nextRow, dbuf⟩

/-- There is no other swap in a slot. -/
theorem slot_alone (swaps : Swaps powerUp inputs s) (within : u ≤ s + 3200) :
    ∀ v, s < v → v < u → ¬ Swaps powerUp inputs v := fun v after before again => by
  have := swaps_apart s v swaps again after
  omega

/-- **Port a of Pattern RAM** changes hands when the tile engines are done, and
back with the next swap. -/
theorem mux_of_slot (swaps : Swaps powerUp inputs s) (later : s < u)
    (alone : ∀ v, s < v → v < u → ¬ Swaps powerUp inputs v) :
    ((machine powerUp).run inputs u).swapPatramMux = decide (s + 66 < u) := by
  have mux : ∀ v, ((machine powerUp).run inputs (v + 1)).swapPatramMux =
      if ((machine powerUp).run inputs v).fgte.done then true
      else if ((machine powerUp).run inputs v).rowramSwap then false
      else ((machine powerUp).run inputs v).swapPatramMux := fun _ => rfl
  obtain ⟨t₁, -, -, signals⟩ := slot_done swaps
  induction u, later using Nat.le_induction with
  | base =>
      have first : ((machine powerUp).run inputs s).rowramSwap = true :=
        (rowramSwap_iff s).mpr (.inl swaps)
      have notDone := (signals s le_rfl fun v after earlier => alone v after (by omega)).2.1
      rw [decide_eq_false (by omega)] at notDone
      rw [mux, notDone, first, decide_eq_false (by omega)]
      rfl
  | succ u later ih =>
      have before := ih fun v after earlier => alone v after (by omega)
      have done := (signals u (by omega) fun v after earlier => alone v after (by omega)).2.1
      rw [mux, done, before]
      by_cases last : u = s + 66
      · rw [decide_eq_true last, if_pos rfl, decide_eq_true (by omega)]
      · rw [decide_eq_false last, if_neg Bool.false_ne_true]
        have same : decide (s + 66 < u + 1) = decide (s + 66 < u) :=
          decide_eq_decide.mpr (by omega)
        rw [same]
        split_ifs with swap
        · -- the second clock of the pulse
          rcases (rowramSwap_iff u).mp swap with again | ⟨v, rfl, again⟩
          · exact absurd again (alone u (by omega) (by omega))
          · have here : v = s := by
              by_contra other
              exact alone v (by omega) (by omega) again
            rw [decide_eq_false (by omega)]
        · rfl

/-! ## The tile layers of a row -/

/-- While port a of Pattern RAM belongs to it, the tile engine of BG reads what it
asks for. -/
theorem bgte_next (sys : System) (x : Input) (mux : sys.swapPatramMux = false) :
    TileEngine.next false sys.bgte (sys.bgteInput x) =
      TileEngine.next false sys.bgte { sys.bgteInput x with patRam := x.patram } := by
  have address : sys.patramAddrA =
      patramAddr sys.screen.dbuf.bgscroll sys.nextRow sys.bgte.ports.tilram.q := by
    rw [System.patramAddrA, mux, if_neg Bool.false_ne_true]
  simp only [TileEngine.next, TileEngine.nextMemories, System.bgteInput, address]
  rfl

/-- A tile engine of the run that is given what the scene holds. -/
theorem tile_pixel {fg : Bool} {memories : TileEngine.Memories}
    {x x' : ℕ → TileEngine.Input} (swaps : Swaps powerUp inputs s)
    (steady : Steady powerUp inputs scene s)
    (prep : ∀ v, (x v).prep = ((machine powerUp).run inputs v).rowramSwap)
    (nextRow : ∀ v, (x v).nextRow = ((machine powerUp).run inputs v).nextRow)
    (scroll : ∀ v, (x v).scroll = if fg then ((machine powerUp).run inputs v).screen.dbuf.fgscroll
      else ((machine powerUp).run inputs v).screen.dbuf.bgscroll)
    (enable : ∀ v, (x v).enable =
      ((machine powerUp).run inputs v).screen.dbuf.enable.getLsbD fg.toNat)
    (steps : ∀ v, (TileEngine.machine fg memories).run x (v + 1) =
      TileEngine.next fg ((TileEngine.machine fg memories).run x v) (x' v))
    (reads : ∀ v, s < v → v < s + 64 → x' v = { x v with
      tileRam := (inputs v).tilram
      patRam := (inputs v).patram })
    (past : s + 65 ≤ u) (bound : u + 2 ≤ s + 1224) (visible : (x u).pmxrPixelAddr.toNat < 320) :
    TileEngine.pmxrPixelData ((TileEngine.machine fg memories).run x (u + 2)) (x (u + 2)) =
      scene.tile fg ((machine powerUp).run inputs s).nextRow.toNat (x u).pmxrPixelAddr.toNat := by
  have pulses : ∀ v, (x v).prep = true ↔
      Swaps powerUp inputs v ∨ ∃ w, v = w + 1 ∧ Swaps powerUp inputs w := fun v => by
    rw [prep]
    exact rowramSwap_iff v
  have regs : ∀ v, s ≤ v → v ≤ s + 1224 → (x v).scroll = scene.scroll fg ∧
      (x v).enable = scene.regs.enable.getLsbD fg.toNat ∧
      (x v).nextRow = ((machine powerUp).run inputs s).nextRow := by
    intro v since within
    obtain ⟨row, dbuf⟩ := slot_regs swaps since within
    rw [scroll, enable, nextRow, row, dbuf, steady.regs]
    exact ⟨rfl, rfl, rfl⟩
  have shows := @TileEngine.shows_row fg memories x x'
    { x s with tileRam := scene.tilram, patRam := scene.patram } (x (u + 2)) s u
    ((TileEngine.accepts_iff pulses swaps_apart s).mpr swaps) steps
  obtain ⟨scroll₀, -, nextRow₀⟩ := regs s le_rfl (by omega)
  obtain ⟨scroll₁, -, nextRow₁⟩ := regs u (by omega) (by omega)
  refine (shows ?_ past ?_ (scroll₁.trans scroll₀.symm) (nextRow₁.trans nextRow₀.symm)
    visible).trans ?_
  · intro v after before
    obtain ⟨scroll', -, nextRow'⟩ := regs v after.le (by omega)
    rw [reads v after before]
    exact ⟨nextRow'.trans nextRow₀.symm, scroll'.trans scroll₀.symm,
      steady.tilram v after.le (by omega), steady.patram v after.le (by omega)⟩
  · intro v after before again
    exact slot_alone swaps (by omega) v after before
      ((TileEngine.accepts_iff pulses swaps_apart v).mp again)
  · rw [(regs (u + 2) (by omega) bound).2.1, scroll₀, nextRow₀]
    rfl

/-- The pixel of BG for a column that the mixer presents at `u`. -/
theorem bgte_pixel (swaps : Swaps powerUp inputs s) (steady : Steady powerUp inputs scene s)
    (past : s + 65 ≤ u) (bound : u + 2 ≤ s + 1224)
    (visible : ((machine powerUp).run inputs u).pmxr.pixelAddr.toNat < 320) :
    TileEngine.pmxrPixelData ((machine powerUp).run inputs (u + 2)).bgte
        (((machine powerUp).run inputs (u + 2)).bgteInput (inputs (u + 2))) =
      scene.tile false ((machine powerUp).run inputs s).nextRow.toNat
        ((machine powerUp).run inputs u).pmxr.pixelAddr.toNat := by
  rw [← run_bgte]
  refine @tile_pixel powerUp inputs scene s u false powerUp.bgte
    (fun v => ((machine powerUp).run inputs v).bgteInput (inputs v))
    (fun v => if ((machine powerUp).run inputs v).swapPatramMux then
        ((machine powerUp).run inputs v).bgteInput (inputs v)
      else { ((machine powerUp).run inputs v).bgteInput (inputs v) with
        patRam := (inputs v).patram })
    swaps steady (fun _ => rfl) (fun _ => rfl) (fun _ => rfl) (fun _ => rfl) (fun v => ?_)
    (fun v after before => ?_) past bound visible
  · rw [Machine.run_succ, run_bgte]
    cases mux : ((machine powerUp).run inputs v).swapPatramMux with
    | true => rfl
    | false => exact bgte_next _ _ mux
  · have mux := mux_of_slot swaps after (slot_alone swaps (by omega))
    rw [decide_eq_false (by omega)] at mux
    simp only [mux, Bool.false_eq_true, if_false]
    rfl

/-- The pixel of FG for a column that the mixer presents at `u`. -/
theorem fgte_pixel (swaps : Swaps powerUp inputs s) (steady : Steady powerUp inputs scene s)
    (past : s + 65 ≤ u) (bound : u + 2 ≤ s + 1224)
    (visible : ((machine powerUp).run inputs u).pmxr.pixelAddr.toNat < 320) :
    TileEngine.pmxrPixelData ((machine powerUp).run inputs (u + 2)).fgte
        (((machine powerUp).run inputs (u + 2)).fgteInput (inputs (u + 2))) =
      scene.tile true ((machine powerUp).run inputs s).nextRow.toNat
        ((machine powerUp).run inputs u).pmxr.pixelAddr.toNat := by
  rw [← run_fgte]
  exact @tile_pixel powerUp inputs scene s u true powerUp.fgte
    (fun v => ((machine powerUp).run inputs v).fgteInput (inputs v)) _ swaps steady
    (fun _ => rfl) (fun _ => rfl) (fun _ => rfl) (fun _ => rfl) (fun v => Machine.run_succ _ v)
    (fun _ _ _ => rfl) past bound visible

/-! ## The sprites of a row -/

/-- While port a of Pattern RAM belongs to it, the sprite engine reads what it asks
for. -/
theorem spre_next (sys : System) (x : Input) (mux : sys.swapPatramMux = true) :
    SpriteEngine.next sys.spre (sys.spreInput x) =
      SpriteEngine.next sys.spre
        { sys.spreInput x with patram := fun a => x.patram (BitVec.ofNat 12 a) } := by
  have address : sys.patramAddrA =
      BitVec.ofNat 12 ((sys.spre.manager.patternAddr sys.spre.row).toNat / 2) := by
    apply BitVec.eq_of_toNat_eq
    rw [System.patramAddrA, mux, if_pos rfl, BitVec.extractLsb'_toNat, BitVec.toNat_ofNat,
      Nat.shiftRight_eq_div_pow]
  simp only [SpriteEngine.next, System.spreInput, address]
  rfl

/-- The sprite engine begins a preparation with every start, and with no other
clock. -/
theorem spre_clear_iff (t : ℕ) :
    SpriteEngine.clear ((machine powerUp).run inputs t).spre
        (((machine powerUp).run inputs t).spreInput (inputs t)) = true ↔
      Starts powerUp inputs t := by
  rw [← run_spre]
  exact SpriteEngine.clear_iff spreInput_prep starts_apart t

/-- **The walk of a row** ends with the sprites of the scene. -/
theorem spre_walks (swaps : Swaps powerUp inputs s) (steady : Steady powerUp inputs scene s)
    {t₁ : ℕ} (order : s + 66 < t₁) (bound : t₁ ≤ s + 900)
    (ready : SpriteEngine.done ((machine powerUp).run inputs t₁).spre = true)
    (since : s + 67 ≤ u) (alone : ∀ v, s < v → v < u → ¬ Swaps powerUp inputs v) :
    ∃ phase i n, SpriteEngine.Walks scene.sprram (fun a => scene.patram (BitVec.ofNat 12 a))
        ((machine powerUp).run inputs s).nextRow i ((machine powerUp).run inputs u).spre phase n ∧
      (t₁ < u → phase.ended = true) := by
  induction u, since using Nat.le_induction with
  | base =>
      have starts : Starts powerUp inputs (s + 66) := ⟨s, rfl, swaps⟩
      have idle := @SpriteEngine.idleAt powerUp.spre _ _ spreInput_prep starts_apart (s + 66)
        fun r before earlier => by
          have := starts_apart r (s + 66) before starts earlier
          omega
      have begins := (spre_clear_iff (s + 66)).mpr starts
      have row : (((machine powerUp).run inputs (s + 66)).spreInput (inputs (s + 66))).nextRow =
          ((machine powerUp).run inputs s).nextRow := (slot_regs swaps (by omega) (by omega)).1
      have rests := idle.idle
      rw [run_spre] at rests
      rw [← row]
      exact ⟨.scan, 0, 0, rests.walks begins, fun past => by omega⟩
  | succ u since ih =>
      obtain ⟨phase, i, n, walks, ends⟩ := ih fun v after before => alone v after (by omega)
      have quiet : SpriteEngine.clear ((machine powerUp).run inputs u).spre
          (((machine powerUp).run inputs u).spreInput (inputs u)) = false := by
        rw [Bool.eq_false_iff, ne_eq, spre_clear_iff]
        rintro ⟨r, rfl, again⟩
        exact alone r (by omega) (by omega) again
      have mux := mux_of_slot swaps (u := u) (by omega) fun v after before =>
        alone v after (by omega)
      rw [decide_eq_true (by omega)] at mux
      have step : ((machine powerUp).run inputs (u + 1)).spre =
          SpriteEngine.next ((machine powerUp).run inputs u).spre
            (((machine powerUp).run inputs u).spreInput (inputs u)) := rfl
      have ended : t₁ ≤ u → phase.ended = true := fun past => by
        rcases Nat.eq_or_lt_of_le past with rfl | later
        · exact walks.inPhase.ended_of_done ready
        · exact ends later
      obtain ⟨phase', i', n', follows, walks'⟩ := walks.next_entry
        (x := { ((machine powerUp).run inputs u).spreInput (inputs u) with
          patram := fun a => (inputs u).patram (BitVec.ofNat 12 a) }) quiet fun going => by
          have early : u < t₁ := by
            by_contra past
            exact Bool.false_ne_true (going.symm.trans (ended (by omega)))
          have sprram : (((machine powerUp).run inputs u).spreInput (inputs u)).sprram =
              scene.sprram := steady.sprram u (by omega) (by omega)
          refine ⟨by rw [sprram], ?_⟩
          funext a
          rw [steady.patram u (by omega) (by omega)]
      rw [step, spre_next _ _ mux]
      refine ⟨phase', i', n', walks', fun past => ?_⟩
      have finished := ended (by omega)
      cases follows with
      | rest _ => rfl
      | _ => cases finished

/-- The pixel of the sprite layer, once the walk has ended. -/
theorem spre_pixel (swaps : Swaps powerUp inputs s) (steady : Steady powerUp inputs scene s)
    {t₁ : ℕ} (order : s + 66 < t₁) (bound : t₁ ≤ s + 900)
    (ready : SpriteEngine.done ((machine powerUp).run inputs t₁).spre = true) (later : t₁ < u)
    (within : u ≤ s + 1224) :
    SpriteEngine.pixel ((machine powerUp).run inputs u).spre
        (((machine powerUp).run inputs u).screen.dbuf.enable.getLsbD 2) =
      scene.sprite ((machine powerUp).run inputs s).nextRow.toNat
        ((machine powerUp).run inputs u).spre.col.toNat := by
  obtain ⟨phase, i, n, walks, ended⟩ := spre_walks swaps steady order bound ready
    (u := u) (by omega) (slot_alone swaps (by omega))
  have patRam : patternRam (fun a => scene.patram (BitVec.ofNat 12 a)) = scene.patram := by
    funext a
    rw [patternRam, BitVec.ofNat_toNat, BitVec.setWidth_eq]
  have regs := (slot_regs swaps (u := u) (by omega) within).2
  rw [SpriteEngine.pixel, walks.pixelOut_eq (ended later), patRam, regs, steady.regs]
  rfl

/-! ## The row buffer -/

/-- **The word that is written** for a column is the word of the scene. -/
theorem written_word (swaps : Swaps powerUp inputs s) (steady : Steady powerUp inputs scene s)
    {t₁ : ℕ} (order : s + 66 < t₁) (bound : t₁ ≤ s + 900)
    (ready : SpriteEngine.done ((machine powerUp).run inputs t₁).spre = true)
    (sweeps : ∀ k, k ≤ RowComposition.passClocks →
      RowComposition.Sweep k ((machine powerUp).run inputs (t₁ + 2 + k)).pmxr)
    {c : ℕ} (within : c < 320) :
    (((machine powerUp).run inputs (t₁ + 2 + (c + 2))).rowWrite
        (inputs (t₁ + 2 + (c + 2)))).wrdata =
      scene.word ((machine powerUp).run inputs s).nextRow.toNat c := by
  have presented : ∀ k, k ≤ 322 →
      ((machine powerUp).run inputs (t₁ + 2 + k)).pmxr.pixelAddr.toNat = min k 319 :=
    fun k inside => by rw [(sweeps k inside).pixelAddr, RowComposition.column_toNat]
  have here := presented c (by omega)
  rw [Nat.min_eq_left (by omega)] at here
  have col : ((machine powerUp).run inputs (t₁ + 2 + (c + 2))).spre.col.toNat =
      min (c + 1) 319 := presented (c + 1) (by omega)
  have bg := bgte_pixel swaps steady (u := t₁ + 2 + c) (by omega) (by omega) (by omega)
  have fg := fgte_pixel swaps steady (u := t₁ + 2 + c) (by omega) (by omega) (by omega)
  have sp := spre_pixel swaps steady order bound ready (u := t₁ + 2 + (c + 2)) (by omega)
    (by omega)
  rw [here] at bg fg
  rw [col] at sp
  rw [System.rowWrite, pmxrRowramWrdata_eq]
  dsimp only
  rw [sp]
  exact congrArg₂ (fun b f => priorityMix b f _ _) bg fg

/-- A clock in which the mixer does not write a column leaves it alone in the
buffer that is not shown. -/
theorem unwritten_next (sys : System) (x : Input) {c : ℕ}
    (other : PixelMixer.pmxrRowramWren sys.pmxr = true → sys.pmxr.pmxrRowramWraddr.toNat ≠ c) :
    ((sys.next x).screen.rows.buffer (!sys.screen.rows.swapped)).mem c =
      (sys.screen.rows.buffer (!sys.screen.rows.swapped)).mem c := by
  show ((sys.screen.rows.next _ _ (sys.rowWrite x)).buffer _).mem c = _
  have address : (sys.rowWrite x).wraddr = sys.pmxr.pmxrRowramWraddr := rfl
  have enable : (sys.rowWrite x).wren = PixelMixer.pmxrRowramWren sys.pmxr := rfl
  cases wren : PixelMixer.pmxrRowramWren sys.pmxr with
  | false =>
      rw [wren] at enable
      cases swapped : sys.screen.rows.swapped <;>
        simp [RowRamSwap.next, RowRamSwap.buffer, RowRam.next, swapped, enable]
  | true =>
      have different : c ≠ sys.pmxr.pmxrRowramWraddr.toNat := fun same => other wren same.symm
      cases swapped : sys.screen.rows.swapped <;>
        simp [RowRamSwap.next, RowRamSwap.buffer, RowRam.next, swapped, address,
          store_of_ne _ _ _ _ different]

/-- Between two swaps the buffers stay what they are. -/
theorem slot_swapped (later : s < u) (upTo : u ≤ t)
    (alone : ∀ v, s < v → v < t → ¬ Swaps powerUp inputs v) :
    ((machine powerUp).run inputs t).screen.rows.swapped =
      ((machine powerUp).run inputs u).screen.rows.swapped := by
  rw [← run_screen, ← run_screen]
  refine (displayed_of_quiet upTo fun v since before again => ?_).1
  exact alone v (by omega) before ((swaps_iff v).mpr again)

/-- **The row of a slot** is complete when the next swap comes. -/
theorem written_of_slot (swaps : Swaps powerUp inputs s) (steady : Steady powerUp inputs scene s)
    (far : s + 1224 ≤ t) (alone : ∀ v, s < v → v < t → ¬ Swaps powerUp inputs v) {c : ℕ}
    (within : c < 320) :
    (((machine powerUp).run inputs t).screen.rows.buffer
        (!((machine powerUp).run inputs t).screen.rows.swapped)).mem c =
      scene.word ((machine powerUp).run inputs s).nextRow.toNat c := by
  have rests := mixer_rests powerUp inputs s fun r before earlier => by
    have := swaps_apart r s before swaps earlier
    omega
  obtain ⟨t₁, order, bound, signals⟩ := slot_done swaps
  obtain ⟨sweeps, afterwards⟩ := mixer_of_done swaps rests order bound signals
  have ready := (signals t₁ (by omega) (slot_alone swaps (by omega))).2.2
  rw [decide_eq_true rfl] at ready
  have sweep := sweeps (c + 2) (by simp only [RowComposition.passClocks]; omega)
  have wren : PixelMixer.pmxrRowramWren
      ((machine powerUp).run inputs (t₁ + 2 + (c + 2))).pmxr = true := by
    rw [PixelMixer.pmxrRowramWren, sweep.state,
      if_pos (by simp only [RowComposition.passClocks]; omega)]
    rfl
  have address : ((machine powerUp).run inputs
      (t₁ + 2 + (c + 2))).pmxr.pmxrRowramWraddr.toNat = c := by
    rw [sweep.pmxrRowramWraddr, RowComposition.column_toNat]
    omega
  have stored := written_next (inputs (t₁ + 2 + (c + 2))) _ wren
  rw [address, written_word swaps steady order bound ready sweeps within] at stored
  -- and no later clock writes this column
  suffices kept : ∀ u, t₁ + 5 + c ≤ u → u ≤ t →
      (((machine powerUp).run inputs u).screen.rows.buffer
        (!((machine powerUp).run inputs t).screen.rows.swapped)).mem c =
      scene.word ((machine powerUp).run inputs s).nextRow.toNat c from
    kept t (by omega) le_rfl
  intro u since upTo
  induction u, since using Nat.le_induction with
  | base =>
      rw [slot_swapped (u := t₁ + 2 + (c + 2)) (by omega) (by omega) alone,
        show t₁ + 5 + c = t₁ + 2 + (c + 2) + 1 by omega, Machine.run_succ]
      exact stored
  | succ u since ih =>
      have still := unwritten_next ((machine powerUp).run inputs u) (inputs u) (c := c) ?_
      · rw [← slot_swapped (by omega) (show u ≤ t by omega) alone] at still
        rw [← ih (by omega), Machine.run_succ]
        exact still
      · intro writes
        by_cases sweeping : u < t₁ + 2 + 322
        · have now := sweeps (u - (t₁ + 2)) (by simp only [RowComposition.passClocks]; omega)
          rw [show t₁ + 2 + (u - (t₁ + 2)) = u by omega] at now
          rw [now.pmxrRowramWraddr, RowComposition.column_toNat]
          omega
        · have waits := afterwards u (by omega) fun v after before => alone v after (by omega)
          rw [PixelMixer.pmxrRowramWren, waits.state] at writes
          cases writes

/-- The row of a slot is shown after the next swap. -/
theorem shown_of_slot (swaps : Swaps powerUp inputs s) (steady : Steady powerUp inputs scene s)
    (again : Swaps powerUp inputs t) (later : s < t)
    (alone : ∀ v, s < v → v < t → ¬ Swaps powerUp inputs v) {c : ℕ} (within : c < 320) :
    ((machine powerUp).run inputs (t + 1)).screen.shown c =
      scene.word ((machine powerUp).run inputs s).nextRow.toNat c := by
  have far := swaps_apart s t swaps again later
  have rests := mixer_rests powerUp inputs t fun r before earlier => by
    have := swaps_apart r t before again earlier
    omega
  have toggles : ((machine powerUp).run inputs (t + 1)).screen.rows.swapped =
      !((machine powerUp).run inputs t).screen.rows.swapped := by
    rw [← run_screen, ← run_screen]
    exact swapped_of_begins ((swaps_iff t).mp again)
  have still := unwritten_next ((machine powerUp).run inputs t) (inputs t) (c := c) fun writes => by
    rw [PixelMixer.pmxrRowramWren, rests.state] at writes
    cases writes
  rw [Video.System.shown, toggles, Machine.run_succ, ← written_of_slot swaps steady (by omega) alone
    within]
  exact still

end Display

/-! ## The screen -/

namespace Video

variable {phase : Bool} {rams : Rams} {inputs : ℕ → Video.Input} {row t₀ t₁ t : ℕ}

/-- The display period of a frame begins after this many ticks. -/
def blankTicks : ℕ := 2 * (800 * 33)

/-- At a visible position the output is the colour of its column of the buffer
that is shown. -/
theorem vgaRgb_of_visible (visible : ((machine phase rams).run inputs t).video.out.vgaDe = true) :
    ((machine phase rams).run inputs t).video.out.vgaRgb =
      ((machine phase rams).run inputs t).colorAt
        ((((machine phase rams).run inputs t).video.out.hCount - 144) / 2) := by
  have now : Holds ((machine phase rams).run inputs t) := holds t
  have bit := ((machine phase rams).run inputs t).video.half.toNat_le
  rw [VideoOutput.vgaDe_iff] at visible
  have disp : ((machine phase rams).run inputs t).fsm.state = .disp := by
    rw [now.timed.disp, InDisplay, Generator.tick]
    omega
  rw [(now.piped disp (by omega)).vgaRgb (by omega), VideoOutput.column]
  congr 1
  omega

/-- **The row that is shown was prepared in the same display period.** Otherwise
both swaps of lines 33 and 35 would lie between its preparation and now. -/
theorem Prepared.same_period
    (prepared : Prepared ((machine phase rams).run inputs) row t₀ t₁ t)
    (visible : ((machine phase rams).run inputs t).video.out.vgaDe = true) :
    t + blankTicks < t₀ + ((machine phase rams).run inputs t).video.tick := by
  have bit := ((machine phase rams).run inputs t).video.half.toNat_le
  have ticks : ∀ d, d < ((machine phase rams).run inputs t).video.tick → d ≤ t ∧
      ((machine phase rams).run inputs (t - d)).video.tick =
        ((machine phase rams).run inputs t).video.tick - d := fun _ => tick_sub
  have late : 1600 * 35 + 288 ≤ ((machine phase rams).run inputs t).video.tick ∧
      ((machine phase rams).run inputs t).video.tick < 1600 * 515 := by
    rw [VideoOutput.vgaDe_iff] at visible
    rw [Generator.tick]
    omega
  by_contra before
  rw [blankTicks] at before
  have pulse : ∀ k, k = 1600 * 33 + 278 ∨ k = 1600 * 35 + 278 →
      PulseBegins ((machine phase rams).run inputs)
        (t - (((machine phase rams).run inputs t).video.tick - k)) := by
    intro k line
    rw [pulseBegins_iff, (ticks _ (by omega)).2, InDisplay]
    omega
  obtain ⟨inside, -⟩ := ticks (((machine phase rams).run inputs t).video.tick - 53078) (by omega)
  have first := prepared.between _ (by omega) (by omega) (pulse (1600 * 33 + 278) (.inl rfl))
  have second := prepared.between _ (by omega) (by omega) (pulse (1600 * 35 + 278) (.inr rfl))
  omega

end Video

namespace Display

variable {powerUp : PowerUp} {inputs : ℕ → Input} {scene : Scene} {t : ℕ}

/-- **The picture.** A visible position has the colour of the scene there, if the
RAMs and the registers have held the scene since the display period began. -/
theorem picture_of_steady
    (visible : ((machine powerUp).run inputs t).screen.video.out.vgaDe = true)
    (palette : ((machine powerUp).run inputs t).screen.palette = scene.palette)
    (regs : ∀ u, u ≤ t → t + blankTicks < u + ((machine powerUp).run inputs t).screen.video.tick →
      ((machine powerUp).run inputs u).screen.dbuf = scene.regs)
    (rams : ∀ u, u ≤ t → t + blankTicks < u + ((machine powerUp).run inputs t).screen.video.tick →
      (inputs u).tilram = scene.tilram ∧ (inputs u).patram = scene.patram ∧
        (inputs u).sprram = scene.sprram) :
    ((machine powerUp).run inputs t).screen.video.out.vgaRgb =
      scene.color ((((machine powerUp).run inputs t).screen.video.out.vCount - 35) / 2)
        ((((machine powerUp).run inputs t).screen.video.out.hCount - 144) / 2) := by
  have video := run_screen powerUp inputs t
  have seen := visible
  rw [← video] at seen
  obtain ⟨s, t₁, prepared⟩ := prepared_of_visible seen
  have period := prepared.same_period seen
  have row := prepared.nextRow
  have displayed := prepared.displayed (t₁ + 1) (by omega) (by have := prepared.order; omega)
  have color := vgaRgb_of_visible seen
  rw [video] at period row displayed color
  rw [run_screen] at row displayed
  have swaps : Swaps powerUp inputs s := (swaps_iff s).mpr prepared.begins
  have again : Swaps powerUp inputs t₁ := (swaps_iff t₁).mpr prepared.ends
  obtain ⟨later, before⟩ := prepared.order
  have apart := swaps_apart s t₁ swaps again later
  have alone : ∀ v, s < v → v < t₁ → ¬ Swaps powerUp inputs v := fun v after earlier swap =>
    earlier.ne (prepared.between v after (by omega) ((swaps_iff v).mp swap))
  have steady : Steady powerUp inputs scene s :=
    { regs := regs s (by omega) period
      tilram := fun u since _ => (rams u (by omega) (by omega)).1
      patram := fun u since _ => (rams u (by omega) (by omega)).2.1
      sprram := fun u since _ => (rams u (by omega) (by omega)).2.2 }
  have columns := (VideoOutput.vgaDe_iff _).mp visible
  rw [color, System.colorAt, palette, regs t le_rfl (by omega), ← displayed.2,
    shown_of_slot swaps steady again later alone (by omega)]
  rw [show ((machine powerUp).run inputs s).nextRow.toNat = _ from row]
  rfl

end Display

end FPGame
