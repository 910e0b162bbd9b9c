import FPGame.Video.Display

/-!
# Row preparation completes in its slot

Swap pulses are at least 3200 clocks apart. A pulse that finds everything at
rest starts the tile engines, which are done 66 clocks later; the sprite engine
needs at most 834 clocks more, whatever OAM contains, and the mixer 324. So all
of them rest again 1224 clocks after the pulse (`Slot`), which is still in the
same line and long before the sync writer gets the RAMs. By the slot rule every
pulse finds them at rest (`row_preparation`).
-/

set_option autoImplicit false

namespace FPGame

open FPGame.Foundation FPGame.Ppu FPGame.Video

/-! ## The pulses -/

namespace Video

variable {phase : Bool} {rams : Rams} {inputs : ℕ → Video.Input} {s t : ℕ}

/-- The swap signal is high in the two clocks of a pulse. -/
theorem rowramSwapDisp_iff_begins (t : ℕ) :
    ((machine phase rams).run inputs t).rowramSwapDisp = true ↔
      PulseBegins ((machine phase rams).run inputs) t ∨
        ∃ u, t = u + 1 ∧ PulseBegins ((machine phase rams).run inputs) u := by
  have now : ((machine phase rams).run inputs t).rowramSwapDisp = true ↔ SwapTick _ :=
    (holds t).rowramSwapDisp_iff
  constructor
  · intro swaps
    have tick := now.mp swaps
    simp only [SwapTick, InDisplay] at tick
    by_cases first : ((machine phase rams).run inputs t).video.tick % 1600 = 278
    · exact .inl ((pulseBegins_iff t).mpr ⟨tick.1, first, tick.2.2⟩)
    · have within : 1 < ((machine phase rams).run inputs t).video.tick := by omega
      obtain ⟨later, before⟩ := tick_sub within
      refine .inr ⟨t - 1, by omega, (pulseBegins_iff (t - 1)).mpr ?_⟩
      rw [before, InDisplay]
      omega
  · rintro (begins | ⟨u, rfl, begins⟩)
    · exact begins.1
    · exact (rowramSwapDisp_of_begins begins).1

/-- Two lines lie between two pulses. -/
theorem pulse_apart (first : PulseBegins ((machine phase rams).run inputs) s)
    (second : PulseBegins ((machine phase rams).run inputs) t) (later : s < t) : s + 3200 ≤ t := by
  obtain ⟨display, hereColumn, hereLine⟩ := (pulseBegins_iff s).mp first
  obtain ⟨-, thereColumn, thereLine⟩ := (pulseBegins_iff t).mp second
  by_contra near
  -- no frame ends between them, and they stand at the same place of two lines
  have moves : ((machine phase rams).run inputs t).video.tick =
      ((machine phase rams).run inputs s).video.tick + (t - s) := by
    have start : ((machine phase rams).run inputs s).video.tick = _ := tick_run s
    simp only [InDisplay, Generator.frameTicks] at display start
    rw [tick_run t, Generator.frameTicks]
    omega
  have here : ((machine phase rams).run inputs s).video.tick % 3200 = 1878 := by omega
  have there : ((machine phase rams).run inputs t).video.tick % 3200 = 1878 := by omega
  omega

/-- The slot of a pulse lies in its line, in the display period. -/
theorem slot_tick (begins : PulseBegins ((machine phase rams).run inputs) s) {k : ℕ}
    (within : k ≤ 1224) :
    ((machine phase rams).run inputs (s + k)).video.out.vCount =
        ((machine phase rams).run inputs s).video.out.vCount ∧
      InDisplay ((machine phase rams).run inputs (s + k)).video.tick ∧
      ((machine phase rams).run inputs (s + k)).video.tick < 2 * (800 * 515) := by
  have here := (pulseBegins_iff s).mp begins
  have start : ((machine phase rams).run inputs s).video.tick = _ := tick_run s
  have later : ((machine phase rams).run inputs (s + k)).video.tick = _ := tick_run (s + k)
  have moves : ((machine phase rams).run inputs (s + k)).video.tick =
      ((machine phase rams).run inputs s).video.tick + k := by
    simp only [InDisplay, Generator.frameTicks] at here start later
    omega
  have inLine : ((machine phase rams).run inputs s).video.out.InLine := (holds s).timed.inLine
  have inLine' : ((machine phase rams).run inputs (s + k)).video.out.InLine :=
    (holds (s + k)).timed.inLine
  rw [Generator.vCount_eq inLine', Generator.vCount_eq inLine, moves]
  simp only [InDisplay] at here ⊢
  omega

/-- In its slot a row is prepared for the same row number and scroll values. -/
theorem slot_held (begins : PulseBegins ((machine phase rams).run inputs) s) {k : ℕ}
    (within : k ≤ 1224) :
    ((machine phase rams).run inputs (s + k)).video.out.nextRow =
        ((machine phase rams).run inputs s).video.out.nextRow ∧
      ((machine phase rams).run inputs (s + k)).dbuf =
        ((machine phase rams).run inputs s).dbuf := by
  constructor
  · rw [VideoOutput.nextRow, VideoOutput.nextRow, (slot_tick begins within).1]
  · induction k with
    | zero => rfl
    | succ k ih =>
        have noSync : ((machine phase rams).run inputs (s + k)).fsm.vramSync = false := by
          rw [Bool.eq_false_iff]
          intro sync
          have late : ((machine phase rams).run inputs (s + k)).video.tick = _ :=
            (holds (s + k)).timed.vramSync sync
          have early := (slot_tick begins (k := k) (by omega)).2.2
          omega
        rw [← ih (by omega)]
        show CtrlRegs.next _ ((machine phase rams).run inputs (s + k)).fsm.vramSync _ = _
        rw [noSync, CtrlRegs.next_false]
        rfl

/-- No slot reaches into the period of the sync writer. -/
theorem slot_ended_of_sync (sync : ((machine phase rams).run inputs t).fsm.state = .sync)
    (begins : PulseBegins ((machine phase rams).run inputs) s) (later : s < t) :
    s + 1224 ≤ t := by
  by_contra within
  have display := (slot_tick begins (k := t - s) (by omega)).2.1
  rw [show s + (t - s) = t by omega] at display
  have disp : ((machine phase rams).run inputs t).fsm.state = .disp :=
    (holds t).timed.disp.mpr display
  rw [sync] at disp
  cases disp

end Video

/-! ## The tile engines -/

namespace TileEngine

variable {fg : Bool} {powerUp : Memories} {inputs : ℕ → Input} {pulse : ℕ → Prop}
  (prep : ∀ t, (inputs t).prep = true ↔ pulse t ∨ ∃ u, t = u + 1 ∧ pulse u)
  (apart : ∀ s t, pulse s → pulse t → s < t → s + 3200 ≤ t)

include prep apart

/-- A tile engine takes every pulse, and only once. -/
theorem accepts_iff (t : ℕ) :
    Accepts ((machine fg powerUp).run inputs t) (inputs t) ↔ pulse t := by
  have takes : ∀ t, pulse t → Accepts ((machine fg powerUp).run inputs t) (inputs t) := by
    intro t begins
    refine ⟨?_, (prep t).mpr (.inl begins)⟩
    rcases phases fg powerUp inputs t with ready | ⟨s, j, clock, began, bound, accepted, -⟩
    · exact ready.state
    · rcases (prep s).mp accepted.2 with first | ⟨u, next, first⟩
      · have := apart s t first begins (by omega)
        omega
      · have := apart u t first begins (by omega)
        omega
  refine ⟨fun accepted => ?_, takes t⟩
  rcases (prep t).mp accepted.2 with first | ⟨u, rfl, first⟩
  · exact first
  · have busy := (underway_of_accepts (takes u first) le_rfl (by decide)).state
    rw [accepted.1] at busy
    cases busy

/-- It is ready unless the last pulse was less than 65 clocks ago. -/
theorem ready_of_far {t : ℕ} (far : ∀ s, pulse s → s < t → s + 65 ≤ t) :
    Ready ((machine fg powerUp).run inputs t) := by
  rcases phases fg powerUp inputs t with ready | ⟨s, j, clock, began, bound, accepted, -⟩
  · exact ready
  · have := far s ((accepts_iff prep apart s).mp accepted) (by omega)
    omega

theorem done_iff_pulse (t : ℕ) :
    ((machine fg powerUp).run inputs t).done = true ↔ ∃ s, t = s + 66 ∧ pulse s := by
  simp only [done_iff, accepts_iff prep apart]

end TileEngine

/-! ## The sprite engine -/

namespace Ppu.SpriteEngine

variable {ports : Ports} {inputs : ℕ → Input} {start : ℕ → Prop}
  (prep : ∀ t, (inputs t).prep = true ↔ start t)
  (apart : ∀ s t, start s → start t → s < t → s + 3200 ≤ t)

/-- A walk that has ended rests. -/
theorem InPhase.rests {phase : Phase} {i n s t : ℕ}
    (here : InPhase phase i n ((machine ports).run inputs s)) (ended : phase.ended = true)
    (later : s < t)
    (quiet : ∀ u, s ≤ u → u < t → clear ((machine ports).run inputs u) (inputs u) = false) :
    ((machine ports).run inputs t).manager.state = .done := by
  suffices rests : InPhase .done i n ((machine ports).run inputs t) from rests.manager
  induction t, later using Nat.le_induction with
  | base => exact here.ended_next (quiet s le_rfl (Nat.lt_succ_self s)) ended
  | succ t later ih =>
      exact (ih fun u after before => quiet u after (by omega)).ended_next
        (quiet t (by omega) (Nat.lt_succ_self t)) rfl

/-- An idle engine does not signal. -/
theorem IdleAt.not_done {t : ℕ} (idle : IdleAt ports inputs t) :
    done ((machine ports).run inputs t) = false := by
  rcases idle.idle.state with state | state <;> simp [done, SpriteManager.ready, state]

include prep apart

/-- Every start begins a preparation. -/
theorem clear_iff (t : ℕ) :
    clear ((machine ports).run inputs t) (inputs t) = true ↔ start t := by
  rw [clear, Bool.and_eq_true, Bool.not_eq_true', prep t, and_iff_left_iff_imp]
  intro starts
  cases t with
  | zero => rfl
  | succ t =>
      rw [Bool.eq_false_iff]
      intro again
      have before : start t := (prep t).mp again
      have := apart t (t + 1) before starts (Nat.lt_succ_self t)
      omega

theorem quiet_of_alone {s t : ℕ} (alone : ∀ u, s < u → u < t → ¬ start u) {u : ℕ} (after : s < u)
    (before : u < t) : clear ((machine ports).run inputs u) (inputs u) = false := by
  rw [Bool.eq_false_iff, ne_eq, clear_iff prep apart]
  exact alone u after before

/-- **The sprite engine is idle** unless it was started less than 835 clocks ago. -/
theorem idleAt : ∀ t, (∀ s, start s → s < t → s + 835 ≤ t) → IdleAt ports inputs t := by
  refine slot_rule (fun s t first second later => ?_) (fun t none => ?_)
    fun s t starts idle far alone => ?_
  · have := apart s t first second later
    omega
  · refine .inl fun u before => ?_
    rw [Bool.eq_false_iff, ne_eq, clear_iff prep apart]
    exact none u before
  · have quiet : ∀ u, s < u → u < t →
        clear ((machine ports).run inputs u) (inputs u) = false := fun _ =>
      quiet_of_alone prep apart alone
    obtain ⟨t₁, after, bound, ⟨i, n, signal⟩, -⟩ :=
      idle.ready ((clear_iff prep apart s).mpr starts) fun u past within =>
        quiet u past (by omega)
    exact .inr (signal.rests rfl (by omega) fun u past before => quiet u (by omega) before)

/-- Every start is answered by one clock of `done`, at most 834 clocks later. -/
theorem done_of_start {s : ℕ} (starts : start s) :
    ∃ t₁, s < t₁ ∧ t₁ ≤ s + 834 ∧ ∀ u, s ≤ u → (∀ v, s < v → v < u → ¬ start v) →
      done ((machine ports).run inputs u) = decide (u = t₁) := by
  have idle : IdleAt ports inputs s := idleAt prep apart s fun r before earlier => by
    have := apart r s before starts earlier
    omega
  have soon : ∀ v, s < v → v < s + 835 → ¬ start v := fun v after within again => by
    have := apart s v starts again after
    omega
  obtain ⟨t₁, after, bound, ⟨i, n, signal⟩, going⟩ :=
    idle.ready ((clear_iff prep apart s).mpr starts) fun u past within =>
      quiet_of_alone prep apart soon past (by omega)
  refine ⟨t₁, after, bound, fun u since alone => ?_⟩
  rcases Nat.lt_trichotomy u t₁ with before | rfl | later
  · rw [decide_eq_false before.ne]
    rcases Nat.eq_or_lt_of_le since with rfl | past
    · exact idle.not_done
    · obtain ⟨phase, i, n, walks, goes⟩ := going u past before
      rw [done, SpriteManager.ready, walks.manager]
      cases phase <;> first | rfl | cases goes
  · rw [decide_eq_true rfl]
    exact beq_iff_eq.mpr signal.manager
  · rw [decide_eq_false later.ne']
    have state := signal.rests rfl later fun v past before =>
      quiet_of_alone prep apart alone (by omega) before
    rw [done, SpriteManager.ready, state]
    rfl

end Ppu.SpriteEngine

/-! ## The mixer -/

namespace Ppu.PixelMixer

open FPGame.Ppu.RowComposition (Sweep passClocks passStart_of_wait)

/-- The mixer waits, and has recorded these engines as done. -/
structure Waits (bgte fgte spre : Bool) (m : State) : Prop where
  state : m.state = .wait
  bgteDoneRec : m.bgteDoneRec = bgte
  fgteDoneRec : m.fgteDoneRec = fgte
  spreDoneRec : m.spreDoneRec = spre

variable {bgte fgte spre : Bool} {m : State}

theorem Waits.next (waits : Waits bgte fgte spre m) (x : Input)
    (missing : (bgte && fgte && spre) = false) :
    Waits (bgte || x.bgteDone) (fgte || x.fgteDone) (spre || x.spreDone)
      (PixelMixer.next m x) := by
  obtain ⟨state, rfl, rfl, rfl⟩ := waits
  refine ⟨?_, ?_, ?_, ?_⟩ <;> simp only [PixelMixer.next, state]
  rw [missing, if_neg Bool.false_ne_true]

section Slot

variable {run : ℕ → State} {inputs : ℕ → Input} {s t₁ : ℕ}
  (steps : ∀ t, run (t + 1) = next (run t) (inputs t))
  (rests : Waits false false false (run s)) (order : s + 66 < t₁)
  (tiles : ∀ u, s ≤ u → u ≤ t₁ →
    (inputs u).bgteDone = decide (u = s + 66) ∧ (inputs u).fgteDone = decide (u = s + 66))
  (sprites : ∀ u, s ≤ u → u ≤ t₁ → (inputs u).spreDone = decide (u = t₁))

include steps rests order tiles sprites

/-- The mixer waits until all engines are done. -/
theorem waits_run {u : ℕ} (since : s ≤ u) (upTo : u ≤ t₁ + 1) :
    Waits (decide (s + 66 < u)) (decide (s + 66 < u)) (decide (t₁ < u)) (run u) := by
  induction u, since using Nat.le_induction with
  | base =>
      rw [decide_eq_false (by omega), decide_eq_false (by omega)]
      exact rests
  | succ u since ih =>
      have following := (ih (by omega)).next (inputs u) (by
        rw [decide_eq_false (by omega : ¬ t₁ < u), Bool.and_false])
      obtain ⟨bgteDone, fgteDone⟩ := tiles u since (by omega)
      rw [bgteDone, fgteDone, sprites u since (by omega), ← steps, ← Bool.decide_or,
        ← Bool.decide_or] at following
      have tile : (s + 66 < u ∨ u = s + 66) ↔ s + 66 < u + 1 := by omega
      have sprite : (t₁ < u ∨ u = t₁) ↔ t₁ < u + 1 := by omega
      rwa [decide_eq_decide.mpr tile, decide_eq_decide.mpr sprite] at following

/-- The pass of the mixer. -/
theorem sweep_run {k : ℕ} (within : k ≤ passClocks) : Sweep k (run (t₁ + 2 + k)) := by
  induction k with
  | zero =>
      obtain ⟨r, rfl⟩ : ∃ r, t₁ = r + 1 := ⟨t₁ - 1, by omega⟩
      have waits : ∀ u, s ≤ u → u ≤ r + 2 → (run u).state = .wait := fun u since upTo =>
        (waits_run steps rests order tiles sprites since upTo).state
      have all := waits_run steps rests order tiles sprites (u := r + 2) (by omega) le_rfl
      rw [decide_eq_true (by omega), decide_eq_true (by omega)] at all
      have fetches : (run (r + 3)).state = .fetch := by
        rw [steps]
        simp only [next, all.state, all.bgteDoneRec, all.fgteDoneRec, all.spreDoneRec,
          Bool.and_self, if_true]
      have start := @passStart_of_wait (run r) (inputs r) (inputs (r + 1)) (inputs (r + 2))
      simp only [← steps] at start
      exact (start (waits r (by omega) (by omega)) (waits (r + 1) (by omega) (by omega))
        (waits (r + 2) (by omega) le_rfl) fetches).sweep
  | succ k ih =>
      have following := (ih (by omega)).next within (inputs (t₁ + 2 + k))
      rwa [← steps] at following

/-- After the pass it waits again, with nothing recorded. -/
theorem rests_run : Waits false false false (run (t₁ + 324)) := by
  have ends := sweep_run steps rests order tiles sprites (k := 322) le_rfl
  have last := sweep_run steps rests order tiles sprites (k := 321) (by decide)
  have fetches : (run (t₁ + 2 + 321)).state = .fetch := last.state
  have step : run (t₁ + 324) = next (run (t₁ + 2 + 321)) (inputs (t₁ + 2 + 321)) := steps _
  refine ⟨ends.state, ?_, ?_, ?_⟩ <;> simp only [step, next, fetches]

end Slot

end Ppu.PixelMixer

/-! ## The composition -/

namespace Display

variable {powerUp : PowerUp} {inputs : ℕ → Input} {s t : ℕ}

/-- A swap pulse begins. -/
def Swaps (powerUp : PowerUp) (inputs : ℕ → Input) (t : ℕ) : Prop :=
  PulseBegins (fun u => ((machine powerUp).run inputs u).screen) t

/-- The output path has its own run. -/
theorem screens (powerUp : PowerUp) (inputs : ℕ → Input) :
    (fun u => ((machine powerUp).run inputs u).screen) =
      (Video.machine powerUp.phase powerUp.rams).run
        fun u => ((machine powerUp).run inputs u).screenInput (inputs u) :=
  (funext (run_screen powerUp inputs)).symm

theorem swaps_iff (t : ℕ) :
    Swaps powerUp inputs t ↔
      PulseBegins ((Video.machine powerUp.phase powerUp.rams).run
        fun u => ((machine powerUp).run inputs u).screenInput (inputs u)) t := by
  rw [Swaps, screens]

theorem rowramSwap_iff (t : ℕ) :
    ((machine powerUp).run inputs t).rowramSwap = true ↔
      Swaps powerUp inputs t ∨ ∃ u, t = u + 1 ∧ Swaps powerUp inputs u := by
  simp only [swaps_iff, System.rowramSwap, ← run_screen]
  exact rowramSwapDisp_iff_begins t

theorem swaps_apart (s t : ℕ) (first : Swaps powerUp inputs s) (second : Swaps powerUp inputs t)
    (later : s < t) : s + 3200 ≤ t :=
  pulse_apart ((swaps_iff s).mp first) ((swaps_iff t).mp second) later

variable (powerUp inputs) in
/-- The tile engines are ready unless the last swap was less than 65 clocks ago. -/
theorem tiles_ready (far : ∀ s, Swaps powerUp inputs s → s < t → s + 65 ≤ t) :
    TileEngine.Ready ((machine powerUp).run inputs t).bgte ∧
      TileEngine.Ready ((machine powerUp).run inputs t).fgte := by
  rw [← run_bgte, ← run_fgte]
  exact ⟨TileEngine.ready_of_far rowramSwap_iff swaps_apart far,
    TileEngine.ready_of_far rowramSwap_iff swaps_apart far⟩

variable (powerUp inputs) in
theorem tiles_done (t : ℕ) :
    (((machine powerUp).run inputs t).bgte.done = true ↔
        ∃ s, t = s + 66 ∧ Swaps powerUp inputs s) ∧
      (((machine powerUp).run inputs t).fgte.done = true ↔
        ∃ s, t = s + 66 ∧ Swaps powerUp inputs s) := by
  rw [← run_bgte, ← run_fgte]
  exact ⟨TileEngine.done_iff_pulse rowramSwap_iff swaps_apart t,
    TileEngine.done_iff_pulse rowramSwap_iff swaps_apart t⟩

/-- The clocks in which the sprite engine is started. -/
def Starts (powerUp : PowerUp) (inputs : ℕ → Input) (t : ℕ) : Prop :=
  ∃ s, t = s + 66 ∧ Swaps powerUp inputs s

theorem spreInput_prep (t : ℕ) :
    (((machine powerUp).run inputs t).spreInput (inputs t)).prep = true ↔
      Starts powerUp inputs t := (tiles_done powerUp inputs t).2

theorem starts_apart (s t : ℕ) (first : Starts powerUp inputs s) (second : Starts powerUp inputs t)
    (later : s < t) : s + 3200 ≤ t := by
  obtain ⟨r, rfl, swaps⟩ := first
  obtain ⟨u, rfl, swaps'⟩ := second
  have := swaps_apart r u swaps swaps' (by omega)
  omega

/-- The sprite engine was never started, or it is done. -/
def SpriteRests (powerUp : PowerUp) (inputs : ℕ → Input) (t : ℕ) : Prop :=
  (∀ u, u < t → SpriteEngine.clear ((machine powerUp).run inputs u).spre
      (((machine powerUp).run inputs u).spreInput (inputs u)) = false) ∨
    ((machine powerUp).run inputs t).spre.manager.state = .done

theorem spriteRests_iff (t : ℕ) :
    SpriteRests powerUp inputs t ↔
      SpriteEngine.IdleAt powerUp.spre
        (fun u => ((machine powerUp).run inputs u).spreInput (inputs u)) t := by
  simp only [SpriteRests, SpriteEngine.IdleAt, run_spre]

theorem spriteRests_of_far (far : ∀ s, Starts powerUp inputs s → s < t → s + 835 ≤ t) :
    SpriteRests powerUp inputs t :=
  (spriteRests_iff t).mpr (SpriteEngine.idleAt spreInput_prep starts_apart t far)

theorem spre_done (starts : Starts powerUp inputs s) :
    ∃ t₁, s < t₁ ∧ t₁ ≤ s + 834 ∧
      ∀ u, s ≤ u → (∀ v, s < v → v < u → ¬ Starts powerUp inputs v) →
        SpriteEngine.done ((machine powerUp).run inputs u).spre = decide (u = t₁) := by
  simp only [← run_spre]
  exact SpriteEngine.done_of_start spreInput_prep starts_apart starts

/-- **The done pulses of a slot.** -/
theorem slot_done (swaps : Swaps powerUp inputs s) :
    ∃ t₁, s + 66 < t₁ ∧ t₁ ≤ s + 900 ∧
      ∀ u, s ≤ u → (∀ v, s < v → v < u → ¬ Swaps powerUp inputs v) →
        ((machine powerUp).run inputs u).bgte.done = decide (u = s + 66) ∧
        ((machine powerUp).run inputs u).fgte.done = decide (u = s + 66) ∧
        SpriteEngine.done ((machine powerUp).run inputs u).spre = decide (u = t₁) := by
  have starts : Starts powerUp inputs (s + 66) := ⟨s, rfl, swaps⟩
  obtain ⟨t₁, after, bound, signals⟩ := spre_done starts
  refine ⟨t₁, after, by omega, fun u since alone => ?_⟩
  have only : (∃ r, u = r + 66 ∧ Swaps powerUp inputs r) ↔ u = s + 66 := by
    constructor
    · rintro ⟨r, rfl, again⟩
      rcases Nat.lt_trichotomy r s with before | same | later
      · have := swaps_apart r s again swaps before
        omega
      · rw [same]
      · exact absurd again (alone r later (by omega))
    · rintro rfl
      exact starts
  obtain ⟨bgte, fgte⟩ := tiles_done powerUp inputs u
  refine ⟨Bool.eq_iff_iff.mpr ?_, Bool.eq_iff_iff.mpr ?_, ?_⟩
  · rw [bgte, only, decide_eq_true_eq]
  · rw [fgte, only, decide_eq_true_eq]
  · by_cases early : u < s + 66
    · rw [decide_eq_false (by omega), ← run_spre]
      refine ((spriteRests_iff u).mp (spriteRests_of_far ?_)).not_done
      rintro _ ⟨r, rfl, again⟩ earlier
      have := swaps_apart r s again swaps (by omega)
      omega
    · refine signals u (by omega) ?_
      rintro _ past before ⟨r, rfl, again⟩
      exact alone r (by omega) (by omega) again

/-- The engines are silent as long as nothing has been swapped. -/
theorem done_of_none (none : ∀ s, s < t → ¬ Swaps powerUp inputs s) :
    ((machine powerUp).run inputs t).pmxrInput = ⟨false, false, false⟩ := by
  obtain ⟨bgte, fgte⟩ := tiles_done powerUp inputs t
  have never : ¬ ∃ s, t = s + 66 ∧ Swaps powerUp inputs s := by
    rintro ⟨s, rfl, swaps⟩
    exact none s (by omega) swaps
  have spre : SpriteEngine.done ((machine powerUp).run inputs t).spre = false := by
    rw [← run_spre]
    refine ((spriteRests_iff t).mp (spriteRests_of_far ?_)).not_done
    rintro _ ⟨s, rfl, swaps⟩ earlier
    exact absurd swaps (none s (by omega))
  rw [System.pmxrInput, Bool.eq_false_iff.mpr (mt bgte.mp never),
    Bool.eq_false_iff.mpr (mt fgte.mp never), spre]

/-- The mixer in a slot whose engines are done in these clocks. -/
theorem mixer_of_done (swaps : Swaps powerUp inputs s)
    (rests : PixelMixer.Waits false false false ((machine powerUp).run inputs s).pmxr)
    {t₁ : ℕ} (order : s + 66 < t₁) (bound : t₁ ≤ s + 900)
    (signals : ∀ u, s ≤ u → (∀ v, s < v → v < u → ¬ Swaps powerUp inputs v) →
      ((machine powerUp).run inputs u).bgte.done = decide (u = s + 66) ∧
      ((machine powerUp).run inputs u).fgte.done = decide (u = s + 66) ∧
      SpriteEngine.done ((machine powerUp).run inputs u).spre = decide (u = t₁)) :
    (∀ k, k ≤ RowComposition.passClocks →
      RowComposition.Sweep k ((machine powerUp).run inputs (t₁ + 2 + k)).pmxr) ∧
    ∀ t, t₁ + 324 ≤ t → (∀ v, s < v → v < t → ¬ Swaps powerUp inputs v) →
      PixelMixer.Waits false false false ((machine powerUp).run inputs t).pmxr := by
  have soon : ∀ v, s < v → v < s + 3200 → ¬ Swaps powerUp inputs v := fun v after within again => by
    have := swaps_apart s v swaps again after
    omega
  have dones : ∀ u, s ≤ u → u ≤ t₁ →
      ((machine powerUp).run inputs u).bgte.done = decide (u = s + 66) ∧
      ((machine powerUp).run inputs u).fgte.done = decide (u = s + 66) ∧
      SpriteEngine.done ((machine powerUp).run inputs u).spre = decide (u = t₁) :=
    fun u since upTo => signals u since fun v after before => soon v after (by omega)
  have tiles : ∀ u, s ≤ u → u ≤ t₁ →
      ((machine powerUp).run inputs u).pmxrInput.bgteDone = decide (u = s + 66) ∧
      ((machine powerUp).run inputs u).pmxrInput.fgteDone = decide (u = s + 66) :=
    fun u since upTo => ⟨(dones u since upTo).1, (dones u since upTo).2.1⟩
  have sprites : ∀ u, s ≤ u → u ≤ t₁ →
      ((machine powerUp).run inputs u).pmxrInput.spreDone = decide (u = t₁) :=
    fun u since upTo => (dones u since upTo).2.2
  have steps : ∀ u, ((machine powerUp).run inputs (u + 1)).pmxr =
      PixelMixer.next ((machine powerUp).run inputs u).pmxr
        ((machine powerUp).run inputs u).pmxrInput := fun _ => rfl
  refine ⟨fun k within =>
    @PixelMixer.sweep_run (fun u => ((machine powerUp).run inputs u).pmxr) _ s t₁ steps rests order
      tiles sprites k within, fun t past alone => ?_⟩
  induction t, past using Nat.le_induction with
  | base =>
      exact @PixelMixer.rests_run (fun u => ((machine powerUp).run inputs u).pmxr) _ s t₁ steps
        rests order tiles sprites
  | succ t past ih =>
      obtain ⟨bgte, fgte, spre⟩ :=
        signals t (by omega) fun v after before => alone v after (by omega)
      have following := (ih fun v after before => alone v after (by omega)).next
        ((machine powerUp).run inputs t).pmxrInput rfl
      rw [← steps] at following
      have quiet : ((machine powerUp).run inputs t).pmxrInput = ⟨false, false, false⟩ := by
        rw [System.pmxrInput, bgte, fgte, spre, decide_eq_false (by omega),
          decide_eq_false (by omega)]
      rwa [quiet] at following

/-- The mixer in a slot. -/
theorem slot_mixer (swaps : Swaps powerUp inputs s)
    (rests : PixelMixer.Waits false false false ((machine powerUp).run inputs s).pmxr) :
    ∃ t₁, s + 66 < t₁ ∧ t₁ ≤ s + 900 ∧
      (∀ k, k ≤ RowComposition.passClocks →
        RowComposition.Sweep k ((machine powerUp).run inputs (t₁ + 2 + k)).pmxr) ∧
      ∀ t, t₁ + 324 ≤ t → (∀ v, s < v → v < t → ¬ Swaps powerUp inputs v) →
        PixelMixer.Waits false false false ((machine powerUp).run inputs t).pmxr := by
  obtain ⟨t₁, order, bound, signals⟩ := slot_done swaps
  exact ⟨t₁, order, bound, mixer_of_done swaps rests order bound signals⟩

variable (powerUp inputs) in
/-- **The mixer rests** unless the last swap was less than 1224 clocks ago. -/
theorem mixer_rests : ∀ t, (∀ s, Swaps powerUp inputs s → s < t → s + 1224 ≤ t) →
    PixelMixer.Waits false false false ((machine powerUp).run inputs t).pmxr := by
  refine slot_rule (fun s t first second later => ?_) (fun t none => ?_)
    fun s t swaps rests far alone => ?_
  · have := swaps_apart s t first second later
    omega
  · induction t with
    | zero => exact ⟨rfl, rfl, rfl, rfl⟩
    | succ t ih =>
        have earlier := fun s (before : s < t) => none s (Nat.lt_succ_of_lt before)
        have following := (ih earlier).next ((machine powerUp).run inputs t).pmxrInput rfl
        rw [done_of_none earlier] at following
        have step : ((machine powerUp).run inputs (t + 1)).pmxr =
            PixelMixer.next ((machine powerUp).run inputs t).pmxr
              ((machine powerUp).run inputs t).pmxrInput := rfl
        rw [step, done_of_none earlier]
        exact following
  · obtain ⟨t₁, -, bound, -, afterwards⟩ := slot_mixer swaps rests
    exact afterwards t (by omega) alone

/-! ## The theorem -/

/-- No row is being prepared. -/
structure AtRest (powerUp : PowerUp) (inputs : ℕ → Input) (t : ℕ) : Prop where
  bgte : ((machine powerUp).run inputs t).bgte.state = .idle
  fgte : ((machine powerUp).run inputs t).fgte.state = .idle
  spre : SpriteRests powerUp inputs t
  pmxr : PixelMixer.Waits false false false ((machine powerUp).run inputs t).pmxr

/-- The row that a swap at `s` asked for is complete at `e`, for one row number
and one scroll value of each layer: every column has been written to the buffer
that is not shown at `t`. -/
structure RowWritten (sys : ℕ → System) (inputs : ℕ → Input) (s e t : ℕ) : Prop where
  order : s < e ∧ e ≤ t
  held : ∀ u, s ≤ u → u ≤ e → (sys u).nextRow = (sys s).nextRow ∧
    (sys u).screen.dbuf.bgscroll = (sys s).screen.dbuf.bgscroll ∧
    (sys u).screen.dbuf.fgscroll = (sys s).screen.dbuf.fgscroll
  written : ∀ c, c < 320 → ∃ u, s < u ∧ u < e ∧
    PixelMixer.pmxrRowramWren (sys u).pmxr = true ∧ (sys u).pmxr.pmxrRowramWraddr.toNat = c ∧
    ((sys (u + 1)).screen.rows.buffer (!(sys t).screen.rows.swapped)).mem c =
      ((sys u).rowWrite (inputs u)).wrdata

/-- The mixer writes to the buffer that is not shown. -/
theorem written_next (x : Input) (sys : System)
    (wren : PixelMixer.pmxrRowramWren sys.pmxr = true) :
    ((sys.next x).screen.rows.buffer (!sys.screen.rows.swapped)).mem
        sys.pmxr.pmxrRowramWraddr.toNat = (sys.rowWrite x).wrdata := by
  show ((sys.screen.rows.next _ _ (sys.rowWrite x)).buffer (!sys.screen.rows.swapped)).mem _ = _
  have enabled : (sys.rowWrite x).wren = true := wren
  have address : (sys.rowWrite x).wraddr = sys.pmxr.pmxrRowramWraddr := rfl
  cases swapped : sys.screen.rows.swapped <;>
    simp [RowRamSwap.next, RowRamSwap.buffer, RowRam.next, swapped, enabled, address]

/-- The row of a slot is written in it. -/
theorem rowWritten (swaps : Swaps powerUp inputs s) (far : s + 1224 ≤ t)
    (alone : ∀ u, s < u → u < t → ¬ Swaps powerUp inputs u) :
    ∃ e, RowWritten ((machine powerUp).run inputs) inputs s e t := by
  have begins := (swaps_iff s).mp swaps
  have rests := mixer_rests powerUp inputs s fun r before earlier => by
    have := swaps_apart r s before swaps earlier
    omega
  obtain ⟨t₁, order, bound, sweeps, -⟩ := slot_mixer swaps rests
  refine ⟨t₁ + 324, by omega, fun u since upTo => ?_, fun c within => ?_⟩
  · obtain ⟨k, rfl⟩ := Nat.exists_eq_add_of_le since
    obtain ⟨nextRow, dbuf⟩ := slot_held begins (k := k) (by omega)
    rw [run_screen, run_screen] at nextRow dbuf
    exact ⟨nextRow, congrArg CtrlRegs.bgscroll dbuf, congrArg CtrlRegs.fgscroll dbuf⟩
  · have sweep := sweeps (c + 2) (by simp only [RowComposition.passClocks]; omega)
    have wren : PixelMixer.pmxrRowramWren
        ((machine powerUp).run inputs (t₁ + 2 + (c + 2))).pmxr = true := by
      rw [PixelMixer.pmxrRowramWren, sweep.state,
        if_pos (by simp only [RowComposition.passClocks]; omega)]
      rfl
    have address : ((machine powerUp).run inputs
        (t₁ + 2 + (c + 2))).pmxr.pmxrRowramWraddr.toNat = c := by
      rw [sweep.pmxrRowramWraddr, RowComposition.column_toNat]
      omega
    have swapped : ((machine powerUp).run inputs t).screen.rows.swapped =
        ((machine powerUp).run inputs (t₁ + 2 + (c + 2))).screen.rows.swapped := by
      rw [← run_screen, ← run_screen]
      refine (displayed_of_quiet (by omega) fun v after before again => ?_).1
      exact alone v (by omega) before ((swaps_iff v).mpr again)
    refine ⟨t₁ + 2 + (c + 2), by omega, by omega, wren, address, ?_⟩
    have stored := written_next (inputs (t₁ + 2 + (c + 2))) _ wren
    rw [address] at stored
    rw [swapped]
    exact stored

/-- **Row preparation completes in its slot.** In every run, for all contents of
the RAMs and all register values: whenever a swap pulse begins, and as long as
the sync writer has the RAMs, no row is being prepared; and the row that the swap
before asked for has been written completely, with its row number and the scroll
values held. A preparation of the sprites never begins before the last one has
ended. -/
theorem row_preparation (powerUp : PowerUp) (inputs : ℕ → Input) :
    let sys := (machine powerUp).run inputs
    (∀ t, Swaps powerUp inputs t ∨ (sys t).screen.fsm.state = .sync →
      AtRest powerUp inputs t ∧
      ∀ s, s < t → Swaps powerUp inputs s →
        (∀ u, s < u → u < t → ¬ Swaps powerUp inputs u) →
        ∃ e, RowWritten sys inputs s e t) ∧
    ∀ t, SpriteEngine.clear (sys t).spre ((sys t).spreInput (inputs t)) = true →
      SpriteRests powerUp inputs t := by
  intro sys
  constructor
  · intro t moment
    have far : ∀ s, Swaps powerUp inputs s → s < t → s + 1224 ≤ t := by
      intro s swaps earlier
      rcases moment with again | sync
      · have := swaps_apart s t swaps again earlier
        omega
      · rw [← run_screen] at sync
        exact slot_ended_of_sync sync ((swaps_iff s).mp swaps) earlier
    obtain ⟨bgte, fgte⟩ := tiles_ready powerUp inputs
      fun s swaps earlier => by have := far s swaps earlier; omega
    refine ⟨⟨bgte.state, fgte.state, spriteRests_of_far ?_, mixer_rests powerUp inputs t far⟩,
      fun s earlier swaps alone => rowWritten swaps (far s swaps earlier) alone⟩
    rintro _ ⟨s, rfl, swaps⟩ earlier
    have := far s swaps (by omega)
    omega
  · intro t begins
    rw [SpriteEngine.clear, Bool.and_eq_true] at begins
    have starts := (spreInput_prep t).mp begins.1
    refine spriteRests_of_far fun s first earlier => ?_
    have := starts_apart s t first starts earlier
    omega

end Display

end FPGame
