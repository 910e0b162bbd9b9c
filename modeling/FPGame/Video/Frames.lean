import FPGame.Ppu.DmaRequests
import FPGame.Video.VideoSystem

/-!
# Whole frames

What the CPU hands over and what the screen shows, end to end. The vertical blank
of the video output is long enough for a copy, so the assumption that the frame
handoff makes about it holds by itself (`CpuGuarantee.callers`), and only the CPU
has to keep its promises.

The PPU changes the scene only while it copies, and a copy ends with the
interrupt. So the screen always shows the frame whose interrupt came last, whole
(`screen_shows_frame`), and under fair buses each frame that is handed over gets
its interrupt (`irq_of_write`).
-/

set_option autoImplicit false

/-! ## The frame handoff moves on -/

namespace FPGame.FrameHandoff

open FPGame.Foundation FPGame.Vram FPGame.Dma
open FPGame.VramSyncWriter (copyClocks)

variable {memArray : ℕ → BitVec 128} {vram : Vram.State} {inputs : ℕ → Input} {frame : Frame}
  {w t : ℕ}

/-- A frame is being moved three clocks after it was handed over. -/
theorem CallersGuarantee.moving_of_written (given : CallersGuarantee memArray vram inputs)
    (written : Tracks ((machine memArray vram).run inputs) inputs (w + 1) .written frame w) :
    Tracks ((machine memArray vram).run inputs) inputs (w + 3) .moving frame w := by
  rcases given.tracks_next written (by simp) with ⟨_, follows, requested⟩ | ⟨⟨_, none, -⟩, -⟩
  · cases follows
    rcases given.tracks_next requested (by simp) with ⟨_, follows, moving⟩ | ⟨⟨_, none, -⟩, -⟩
    · cases follows
      exact moving
    · cases none
  · cases none

/-- It is being moved until the engine reports. -/
theorem CallersGuarantee.moving_until (given : CallersGuarantee memArray vram inputs) {s : ℕ}
    (moving : Tracks ((machine memArray vram).run inputs) inputs s .moving frame w) (later : s ≤ t)
    (unfinished : ∀ u, s < u → u ≤ t →
      ((machine memArray vram).run inputs u).bus.engine.done = false) :
    Tracks ((machine memArray vram).run inputs) inputs t .moving frame w := by
  induction t, later using Nat.le_induction with
  | base => exact moving
  | succ t later ih =>
      have now := ih fun u after upTo => unfinished u after (by omega)
      rcases given.tracks_next now (by simp) with ⟨_, follows, following⟩ | ⟨⟨_, none, -⟩, -⟩
      · cases follows with
        | moves => exact following
        | finishes =>
            have low := unfinished (t + 1) (by omega) le_rfl
            rw [following.holds.done] at low
            cases low
      · cases none

/-- **Under fair buses every frame is transferred.** -/
theorem CallersGuarantee.finished_of_write (given : CallersGuarantee memArray vram inputs)
    (fair : Fair fun u => ((machine memArray vram).run inputs u).busInput (inputs u))
    {src : BitVec 32} (write : (inputs w).write = some src) :
    ∃ f, w < f ∧ Tracks ((machine memArray vram).run inputs) inputs f .finished
      { src := src, memory := (inputs w).memory, regs := (inputs w).regs } w := by
  have bus := run_bus memArray vram inputs fun _ _ => 0
  have moving := given.moving_of_written (given.tracks_written write)
  obtain ⟨begins, -⟩ := given.begins_of_write write
  rw [begins_eq, Bool.and_eq_true, Bool.not_eq_true'] at begins
  have starts : Starts memArray (fun _ _ => 0)
      (fun u => ((machine memArray vram).run inputs u).busInput (inputs u)) (w + 2) :=
    ⟨by rw [bus]; exact begins.2, begins.1⟩
  have still : HoldsStill (inputs w).memory memArray (fun _ _ => 0)
      (fun u => ((machine memArray vram).run inputs u).busInput (inputs u)) (w + 2) := by
    rintro t ⟨after, unfinished⟩
    have now := given.moving_until moving after fun u above upTo => by
      have low := unfinished u (by omega) upTo
      rw [Dma.System.finish, bus] at low
      exact low
    exact given.memory w t (now.outstanding (by simp))
  obtain ⟨f, after, raised, first⟩ := starts.finishes still fair
  simp only [Dma.System.finish, bus] at raised first
  have raised' : ((machine memArray vram).run inputs f).bus.engine.done = true := raised
  obtain ⟨t, rfl⟩ : ∃ t, f = t + 1 := ⟨f - 1, by omega⟩
  have late : w + 3 ≤ t := by
    by_contra early
    obtain rfl : t = w + 2 := by omega
    rw [moving.holds.done] at raised'
    cases raised'
  have now := given.moving_until moving late fun u above upTo => first u (by omega) (by omega)
  rcases given.tracks_next now (by simp) with ⟨_, follows, following⟩ | ⟨⟨_, none, -⟩, -⟩
  · cases follows with
    | moves =>
        rw [following.holds.done] at raised'
        cases raised'
    | finishes => exact ⟨t + 1, by omega, following⟩
  · cases none

/-- A copy that has been asked for ends with the interrupt. -/
theorem CallersGuarantee.irq_of_pulse (given : CallersGuarantee memArray vram inputs)
    (pulse : Tracks ((machine memArray vram).run inputs) inputs t .pulse frame w) :
    ((machine memArray vram).run inputs (t + 1 + copyClocks)).irq = true ∧
      ∀ u, w < u → u < t + 1 + copyClocks → ((machine memArray vram).run inputs u).irq = false := by
  have copying : ∀ k, k < copyClocks →
      Tracks ((machine memArray vram).run inputs) inputs (t + 1 + k) (.copying k) frame w := by
    intro k bound
    induction k with
    | zero =>
        rcases given.tracks_next pulse (by simp) with ⟨_, follows, following⟩ | ⟨⟨_, none, -⟩, -⟩
        · cases follows
          exact following
        · cases none
    | succ k ih =>
        rcases given.tracks_next (ih (by omega)) (by simp) with
          ⟨_, follows, following⟩ | ⟨⟨_, same, last⟩, -⟩
        · cases follows
          exact following
        · cases same
          omega
  have last := copying (copyClocks - 1) (by decide)
  have silent := (last.outstanding (by simp)).2.2
  rcases given.tracks_next last (by simp) with ⟨_, follows, -⟩ | ⟨-, -, irq⟩
  · cases follows with
    | goesOn _ more => exact absurd more (by decide)
  · exact ⟨irq, fun u after before => silent u after (by simp only [copyClocks] at *; omega)⟩

end FPGame.FrameHandoff

namespace FPGame.VideoSystem

open FPGame.Foundation FPGame.Vram FPGame.Dma FPGame.Ppu FPGame.Video
open FPGame.FrameHandoff (Stage Frame Tracks Holds)
open FPGame.VramSyncWriter (copyClocks)

/-- `ppu_dma_rdy_irq` -/
def System.irq (s : System) : Bool := s.handoff.irq

/-- A frame was handed over at `w`, and its interrupt has not come up to `t`. -/
def Outstanding (powerUp : PowerUp) (inputs : ℕ → Input) (w t : ℕ) : Prop :=
  (inputs w).write.isSome = true ∧ w < t ∧
    ∀ u, w < u → u ≤ t → ((machine powerUp).run inputs u).irq = false

/-- What the CPU promises: while a frame is outstanding it writes no new address,
and changes neither the registers nor the memory of the frame. -/
structure CpuGuarantee (powerUp : PowerUp) (inputs : ℕ → Input) : Prop where
  write : ∀ w t, Outstanding powerUp inputs w t → (inputs t).write = none
  regs : ∀ w t, Outstanding powerUp inputs w t → (inputs t).regs = (inputs w).regs
  memory : ∀ w t, Outstanding powerUp inputs w t → (inputs t).memory = (inputs w).memory

section Runs

variable {powerUp : PowerUp} {inputs : ℕ → Input} {t u w : ℕ}

/-- A copy fits into the vertical blank. -/
theorem blank_lasts (starts : (handoffInputs powerUp inputs t).vblankStart = true) (later : t < u)
    (within : u ≤ t + copyClocks) : (handoffInputs powerUp inputs u).vblankEndSoon = false := by
  have bit := powerUp.phase.toNat_le
  have start : ((machine powerUp).run inputs t).video.tick / 2 = 800 * 515 :=
    (Generator.vblankStart_iff (timed powerUp inputs t).inLine).mp starts
  rw [Bool.eq_false_iff]
  intro ends
  have soon : ((machine powerUp).run inputs u).video.tick / 2 = 800 * 33 :=
    (Generator.vblankEndSoon_iff (timed powerUp inputs u).inLine).mp ends
  rw [tick_run, Generator.frameTicks] at start soon
  rw [copyClocks] at within
  omega

theorem outstanding_iff : Outstanding powerUp inputs w t ↔
    FrameHandoff.Outstanding
      ((FrameHandoff.machine powerUp.memArray powerUp.vram).run (handoffInputs powerUp inputs))
      (handoffInputs powerUp inputs) w t := by
  simp only [Outstanding, FrameHandoff.Outstanding, run_handoff]
  rfl

/-- **The promises of the CPU suffice** for the frame handoff. -/
theorem CpuGuarantee.callers (given : CpuGuarantee powerUp inputs) :
    FrameHandoff.CallersGuarantee powerUp.memArray powerUp.vram (handoffInputs powerUp inputs) where
  write w t outstanding := given.write w t (outstanding_iff.mpr outstanding)
  regs w t outstanding := given.regs w t (outstanding_iff.mpr outstanding)
  memory w t outstanding := given.memory w t (outstanding_iff.mpr outstanding)
  window _ _ starts later within := blank_lasts starts later within

/-! ## The scene changes in a copy -/

/-- A copy is under way in two stages of a frame. -/
theorem copyActive_iff {frame : Frame} {stage : Stage} {s : FrameHandoff.System}
    (holds : Holds frame stage s) : s.copyActive ↔ stage.syncing = true := by
  have pulse := holds.vramSync
  cases stage with
  | pulse => exact ⟨fun _ => rfl, fun _ => .inl pulse⟩
  | copying k =>
      obtain ⟨_, busy⟩ := holds.busy k rfl
      exact ⟨fun _ => rfl, fun _ => .inr busy.state⟩
  | waiting | written | requested | moving | finished | ready =>
      refine ⟨?_, nofun⟩
      rintro (sync | copying)
      · exact absurd (pulse.symm.trans sync) Bool.false_ne_true
      · rw [(holds.idle (by simp)).state] at copying
        cases copying

/-- In the other stages the scene stays. -/
theorem next_scene_of_stage {frame : Frame} {stage : Stage} {s : System} {x : Input}
    (holds : Holds frame stage s.handoff) (quiet : stage.syncing = false) :
    (s.next x).scene = s.scene := by
  have noCopy : ∀ k, stage ≠ .copying k := by
    rintro k rfl
    cases quiet
  have noSync : s.handoff.fsm.vramSync = false := by
    rw [holds.vramSync]
    refine decide_eq_false ?_
    rintro rfl
    cases quiet
  have ppu : (s.next x).ppu = s.ppu :=
    ((holds.idle noCopy).next_quiet (x := s.handoff.videoInput (s.handoffInput x)) noSync).2
  have regs : (s.next x).handoff.dbuf = s.handoff.dbuf := by
    show CtrlRegs.next _ s.handoff.fsm.vramSync _ = _
    rw [noSync, CtrlRegs.next_false]
  rw [System.scene, System.scene, ppu, regs]

/-- Outside of a copy the scene stays. -/
theorem next_scene_of_quiet (given : CpuGuarantee powerUp inputs)
    (quiet : ¬ ((machine powerUp).run inputs t).handoff.copyActive) :
    ((machine powerUp).run inputs (t + 1)).scene = ((machine powerUp).run inputs t).scene := by
  obtain ⟨stage, frame, w, tracks⟩ := given.callers.tracks t
  have holds := tracks.holds
  rw [run_handoff] at holds
  refine next_scene_of_stage holds ?_
  rw [Bool.eq_false_iff]
  exact fun syncing => quiet ((copyActive_iff holds).mpr syncing)

/-- A copy ends with the interrupt. -/
theorem irq_of_copied (given : CpuGuarantee powerUp inputs)
    (copying : ((machine powerUp).run inputs t).handoff.copyActive)
    (ended : ¬ ((machine powerUp).run inputs (t + 1)).handoff.copyActive) :
    ((machine powerUp).run inputs (t + 1)).irq = true := by
  obtain ⟨stage, frame, w, tracks⟩ := given.callers.tracks t
  have holds := tracks.holds
  rw [run_handoff] at holds
  have syncing := (copyActive_iff holds).mp copying
  have busy : stage ≠ .waiting := by
    rintro rfl
    cases syncing
  rcases given.callers.tracks_next tracks busy with ⟨stage', follows, tracks'⟩ | ⟨-, -, irq⟩
  · have holds' := tracks'.holds
    rw [run_handoff] at holds'
    refine absurd ((copyActive_iff holds').mpr ?_) ended
    cases follows with
    | copies | goesOn => rfl
    | taken | begins | moves | finishes | recorded | waits | pulses => cases syncing
  · rwa [run_handoff] at irq

/-- **Between two interrupts the scene stays**, but for a copy that has begun. -/
theorem scene_since (given : CpuGuarantee powerUp inputs) (later : u ≤ t)
    (silent : ∀ v, u < v → v ≤ t → ((machine powerUp).run inputs v).irq = false)
    (quiet : ¬ ((machine powerUp).run inputs t).handoff.copyActive) :
    ((machine powerUp).run inputs t).scene = ((machine powerUp).run inputs u).scene := by
  induction t, later using Nat.le_induction with
  | base => rfl
  | succ t later ih =>
      have before : ¬ ((machine powerUp).run inputs t).handoff.copyActive := fun copying => by
        have irq := irq_of_copied given copying quiet
        rw [silent (t + 1) (by omega) le_rfl] at irq
        cases irq
      rw [next_scene_of_quiet given before]
      exact ih (fun v after upTo => silent v after (by omega)) before

/-- Nothing is copied at a visible position. -/
theorem quiet_of_visible (given : CpuGuarantee powerUp inputs)
    (visible : ((machine powerUp).run inputs t).video.out.vgaDe = true) :
    ¬ ((machine powerUp).run inputs t).handoff.copyActive := by
  obtain ⟨stage, frame, w, tracks⟩ := given.callers.tracks t
  have holds := tracks.holds
  rw [run_handoff] at holds
  intro copying
  have sync := holds.state ((copyActive_iff holds).mp copying)
  rw [disp_of_visible visible] at sync
  cases sync

/-! ## The picture of an image -/

/-- Two copies of the VRAM that agree within the segments show the same. -/
theorem color_congr {ppu ppu' : PpuFacing}
    (same : ∀ segment a, a ≤ 2 * segment.maxAddr + 1 → ppu segment a = ppu' segment a)
    (regs : CtrlRegs) (row column : ℕ) :
    (sceneOf ppu regs).color row column = (sceneOf ppu' regs).color row column := by
  have tilram : tilramOf ppu = tilramOf ppu' := by
    funext a
    have bound := a.isLt
    exact same .tilram _ (show _ ≤ 2 * 1023 + 1 by omega)
  have patram : patramOf ppu = patramOf ppu' := by
    funext a
    have bound := a.isLt
    exact same .patram _ (show _ ≤ 2 * 2047 + 1 by omega)
  have sprites : spritesOnRow (oamEntry (ppu .sprram)) row =
      spritesOnRow (oamEntry (ppu' .sprram)) row := by
    have entries : (List.range 64).map (oamEntry (ppu .sprram)) =
        (List.range 64).map (oamEntry (ppu' .sprram)) := by
      refine List.map_congr_left fun k inside => ?_
      have bound := List.mem_range.mp inside
      have main : oamMainWord k ≤ 2 * 19 + 1 := by rw [oamMainWord]; omega
      have ext : oamExtWord k ≤ 2 * 19 + 1 := by rw [oamExtWord, oamExtOffset]; omega
      rw [oamEntry, oamEntry, same .sprram _ main, same .sprram _ ext]
    rw [spritesOnRow, spritesOnRow, entries]
  have layer : ∀ c, layerPixel (oamEntry (ppu .sprram)) (patramOf ppu') row c =
      layerPixel (oamEntry (ppu' .sprram)) (patramOf ppu') row c := fun c => by
    rw [layerPixel, layerPixel, sprites]
  have word : (sceneOf ppu regs).word row column = (sceneOf ppu' regs).word row column := by
    simp only [Scene.word, Scene.tile, Scene.scroll, Scene.sprite, sceneOf, layer, tilram, patram]
    rfl
  have bound := ((sceneOf ppu' regs).word row column).isLt
  rw [Scene.color, Scene.color, word, colorOf, colorOf]
  have palette : (sceneOf ppu regs).palette (((sceneOf ppu' regs).word row column).toNat / 2) =
      (sceneOf ppu' regs).palette (((sceneOf ppu' regs).word row column).toNat / 2) :=
    same .palram _ (show _ ≤ 2 * 255 + 1 by omega)
  rw [palette]
  rfl

/-- The bytes of a VRAM image at an address of the memory. -/
def ImageAt (image : ℕ → BitVec 8) (memory : BitVec 32 → BitVec 128) (src : BitVec 32) : Prop :=
  ∀ k, k < imageWords → imageWord memory src k = quadword image k

/-- After an interrupt the PPU shows the frame that it is of. -/
theorem shown_since (given : CpuGuarantee powerUp inputs) {i t : ℕ} (upTo : i ≤ t)
    (irq : ((machine powerUp).run inputs i).irq = true)
    (silent : ∀ u, i < u → u ≤ t → ((machine powerUp).run inputs u).irq = false)
    (quiet : ¬ ((machine powerUp).run inputs t).handoff.copyActive) :
    ∃ w src, w < i ∧ (inputs w).write = some src ∧
      (∀ u, w < u → u < i → (inputs u).write = none ∧
        ((machine powerUp).run inputs u).irq = false) ∧
      ∀ image, ImageAt image (inputs w).memory src → ∃ ppu, HandedOver image ppu ∧
        ((machine powerUp).run inputs t).scene = sceneOf ppu (inputs w).regs := by
  have same := scene_since given upTo silent quiet
  have raised := irq
  rw [show ((machine powerUp).run inputs i).irq = ((machine powerUp).run inputs i).handoff.irq
      from rfl, ← run_handoff powerUp inputs i] at raised
  obtain ⟨w, frame, before, write, memory, regs, between, synced, loaded, dbuf⟩ :=
    given.callers.copied_of_irq raised
  rw [run_handoff] at synced loaded dbuf
  simp only [run_handoff] at between
  refine ⟨w, frame.src, before, write, between, fun image holds =>
    ⟨((machine powerUp).run inputs i).ppu, ?_, ?_⟩⟩
  · refine handedOver_of_synced synced loaded fun k within => ?_
    rw [← memory]
    exact holds k within
  · have dbuf' : ((machine powerUp).run inputs i).handoff.dbuf = (inputs w).regs :=
      dbuf.trans regs.symm
    rw [same, System.scene, dbuf']

/-- **The screen shows whole frames.** In every run in which the CPU keeps its
promises, a visible position has the colour that it has in the frame whose
interrupt came last: in the image that lay at the address that was written, with
the control registers of that frame. Before the first interrupt it is what the
VRAM held at power-up. -/
theorem screen_shows_frame (given : CpuGuarantee powerUp inputs) (t : ℕ) :
    let sys : ℕ → System := (machine powerUp).run inputs
    (sys t).video.out.vgaDe = true →
      (∀ i, i ≤ t → (sys i).irq = true → (∀ u, i < u → u ≤ t → (sys u).irq = false) →
        ∃ w src, w < i ∧ (inputs w).write = some src ∧
          (∀ u, w < u → u < i → (inputs u).write = none ∧ (sys u).irq = false) ∧
          ∀ image, ImageAt image (inputs w).memory src →
            (sys t).video.out.vgaRgb = (sceneOf (facing image) (inputs w).regs).color
              (((sys t).video.out.vCount - 35) / 2) (((sys t).video.out.hCount - 144) / 2)) ∧
      ((∀ u, u ≤ t → (sys u).irq = false) →
        (sys t).video.out.vgaRgb = (sceneOf powerUp.vram.ppu CtrlRegs.reset).color
          (((sys t).video.out.vCount - 35) / 2) (((sys t).video.out.hCount - 144) / 2)) := by
  intro sys visible
  have quiet := quiet_of_visible given visible
  have shows := color_of_visible visible
  refine ⟨fun i upTo irq silent => ?_, fun silent => ?_⟩
  · obtain ⟨w, src, before, write, between, frame⟩ := shown_since given upTo irq silent quiet
    refine ⟨w, src, before, write, between, fun image holds => ?_⟩
    obtain ⟨ppu, handed, scene⟩ := frame image holds
    rw [shows, scene]
    exact color_congr (fun segment a within => (handed segment a within).trans
      (handedOver_facing image segment a within).symm) _ _ _
  · rw [shows, scene_since given (Nat.zero_le t) (fun u _ upTo => silent u upTo) quiet]
    rfl

/-! ## Every frame is shown -/

/-- A frame that is ready is copied in the next vertical blank. -/
theorem pulse_of_ready (given : CpuGuarantee powerUp inputs) {frame : Frame} {r : ℕ}
    (ready : Tracks ((FrameHandoff.machine powerUp.memArray powerUp.vram).run
      (handoffInputs powerUp inputs)) (handoffInputs powerUp inputs) r .ready frame w) :
    ∃ p, r < p ∧ p ≤ r + Generator.frameTicks ∧
      Tracks ((FrameHandoff.machine powerUp.memArray powerUp.vram).run
        (handoffInputs powerUp inputs)) (handoffInputs powerUp inputs) p .pulse frame w := by
  have bit := powerUp.phase.toNat_le
  obtain ⟨v, since, soon, blank⟩ : ∃ v, r ≤ v ∧ v < r + Generator.frameTicks ∧
      ((machine powerUp).run inputs v).video.tick = 2 * (800 * 515) := by
    refine ⟨r + (2 * (800 * 515) + Generator.frameTicks -
      (r + powerUp.phase.toNat) % Generator.frameTicks) % Generator.frameTicks, ?_⟩
    rw [tick_run]
    simp only [Generator.frameTicks]
    omega
  have waits : ∀ u, r ≤ u → u ≤ v →
      Tracks ((FrameHandoff.machine powerUp.memArray powerUp.vram).run
        (handoffInputs powerUp inputs)) (handoffInputs powerUp inputs) u .ready frame w ∨
      ∃ p, r < p ∧ p ≤ u ∧ Tracks ((FrameHandoff.machine powerUp.memArray powerUp.vram).run
        (handoffInputs powerUp inputs)) (handoffInputs powerUp inputs) p .pulse frame w := by
    intro u later upTo
    induction u, later using Nat.le_induction with
    | base => exact .inl ready
    | succ u later ih =>
        rcases ih (by omega) with now | ⟨p, after, before, pulse⟩
        · rcases given.callers.tracks_next now (by simp) with
            ⟨_, follows, following⟩ | ⟨⟨_, none, -⟩, -⟩
          · cases follows with
            | waits => exact .inl following
            | pulses => exact .inr ⟨u + 1, by omega, le_rfl, following⟩
          · cases none
        · exact .inr ⟨p, after, by omega, pulse⟩
  rcases waits v since le_rfl with now | ⟨p, after, before, pulse⟩
  · rcases given.callers.tracks_next now (by simp) with ⟨_, follows, following⟩ | ⟨⟨_, none, -⟩, -⟩
    · cases follows with
      | waits =>
          -- the vertical blank begins in `PPU_DISP`
          have disp : ((machine powerUp).run inputs v).handoff.fsm.state = .disp := by
            rw [(timed powerUp inputs v).disp, blank, InDisplay]
            omega
          have starts : (handoffInputs powerUp inputs v).vblankStart = true := by
            refine (Generator.vblankStart_iff (timed powerUp inputs v).inLine).mpr ?_
            rw [blank]
          have rdy := now.holds.rdy
          have sync := following.holds.vramSync
          rw [run_handoff] at rdy sync
          have step : ((machine powerUp).run inputs (v + 1)).handoff.fsm.vramSync =
              (((machine powerUp).run inputs v).handoff.fsm.state == .disp &&
                (handoffInputs powerUp inputs v).vblankStart &&
                ((machine powerUp).run inputs v).handoff.fsm.dmaRdyForSync) := rfl
          rw [step, disp, starts, rdy] at sync
          cases sync
      | pulses => exact ⟨v + 1, by omega, by omega, following⟩
    · cases none
  · exact ⟨p, after, by omega, pulse⟩

/-- What the buses of the DMA engine see in a run. -/
def busInputs (powerUp : PowerUp) (inputs : ℕ → Input) (t : ℕ) : Bus.Input :=
  ((machine powerUp).run inputs t).handoff.busInput (handoffInputs powerUp inputs t)

/-- **Every frame is acknowledged.** If the CPU keeps its promises and the buses
are fair, each address that it writes is answered: the DMA engine finishes at some
`f`, and the interrupt of the frame comes within a frame and a copy of that. There
is no other interrupt before it. -/
theorem irq_of_write (given : CpuGuarantee powerUp inputs)
    (fair : Fair (busInputs powerUp inputs)) {src : BitVec 32}
    (write : (inputs w).write = some src) :
    ∃ f t, w < f ∧ ((machine powerUp).run inputs f).handoff.bus.engine.dmaEngineFinish = true ∧
      f < t ∧ t ≤ f + Generator.frameTicks + copyClocks + 2 ∧
      ((machine powerUp).run inputs t).irq = true ∧
      ∀ u, w < u → u < t → ((machine powerUp).run inputs u).irq = false := by
  have fair' : Fair fun u => ((FrameHandoff.machine powerUp.memArray powerUp.vram).run
      (handoffInputs powerUp inputs) u).busInput (handoffInputs powerUp inputs u) := by
    simp only [run_handoff]
    exact fair
  obtain ⟨f, after, finished⟩ := given.callers.finished_of_write fair' (w := w) write
  have done := finished.holds.done
  rcases given.callers.tracks_next finished (by simp) with ⟨_, follows, ready⟩ | ⟨⟨_, none, -⟩, -⟩
  · cases follows
    obtain ⟨p, later, soon, pulse⟩ := pulse_of_ready given ready
    obtain ⟨irq, silent⟩ := given.callers.irq_of_pulse pulse
    simp only [run_handoff] at done irq silent
    exact ⟨f, p + 1 + copyClocks, after, done, by omega, by omega, irq, silent⟩
  · cases none

end Runs

/-! ## A frame after its interrupt -/

theorem cpuGuarantee_oneFrame (powerUp : PowerUp) : CpuGuarantee powerUp oneFrame where
  write _ _ outstanding := if_neg (by have := outstanding.2.1; omega)
  regs _ _ _ := rfl
  memory _ _ _ := rfl

theorem fair_oneFrame : Fair (busInputs blankPowerUp oneFrame) where
  read t := ⟨t, le_rfl, rfl⟩
  write t := ⟨t, le_rfl, rfl⟩
  respond t := ⟨t, le_rfl, rfl⟩

/-- The image of the frame. -/
def countedImage (a : ℕ) : BitVec 8 := BitVec.ofNat 8 (a % 16)

theorem imageAt_countedImage (w : ℕ) (src : BitVec 32) :
    ImageAt countedImage (oneFrame w).memory src := by
  intro k _
  have bytes : littleEndian countedImage (16 * k) 16 = littleEndian countedImage 0 16 :=
    littleEndian_congr fun j _ => by rw [countedImage, countedImage, Nat.mul_add_mod, Nat.zero_add]
  rw [quadword, bytes]
  rfl

theorem color_countedImage (w : ℕ) :
    (sceneOf (facing countedImage) (oneFrame w).regs).color 100 52 = 0x0A0908 := by
  show (sceneOf (facing countedImage) ⟨0, 0, 7, 0x123456⟩).color 100 52 = 0x0A0908
  decide +kernel

/-- The frame has been acknowledged, and row 100 is being shown. -/
theorem acknowledged_oneFrame : ∃ i t, i ≤ t ∧
    ((machine blankPowerUp).run oneFrame i).irq = true ∧
    (∀ u, i < u → u ≤ t → ((machine blankPowerUp).run oneFrame u).irq = false) ∧
    ((machine blankPowerUp).run oneFrame t).video.tick = 2 * (800 * 235 + 248) := by
  obtain ⟨f, n, -, -, -, -, irq, -⟩ := irq_of_write (cpuGuarantee_oneFrame blankPowerUp)
    fair_oneFrame (w := 0) rfl
  obtain ⟨t, t_eq⟩ : ∃ t, t = Generator.frameTicks * n + 2 * (800 * 235 + 248) := ⟨_, rfl⟩
  have later : n ≤ t := by
    rw [t_eq, Generator.frameTicks]
    omega
  refine ⟨Nat.findGreatest (fun u => ((machine blankPowerUp).run oneFrame u).irq = true) t, t,
    Nat.findGreatest_le t, ?_, fun u after upTo => ?_, ?_⟩
  · exact @Nat.findGreatest_spec _ (fun u => ((machine blankPowerUp).run oneFrame u).irq = true) _ _
      later irq
  · exact Bool.eq_false_iff.mpr (Nat.findGreatest_is_greatest after upTo)
  · rw [tick_run, t_eq, show blankPowerUp.phase.toNat = 0 from rfl, Nat.add_zero,
      Nat.mul_add_mod]
    rfl

/-- The position in row 100 and column 52. -/
theorem position_oneFrame {t : ℕ}
    (tick : ((machine blankPowerUp).run oneFrame t).video.tick = 2 * (800 * 235 + 248)) :
    ((machine blankPowerUp).run oneFrame t).video.out.vgaDe = true ∧
      (((machine blankPowerUp).run oneFrame t).video.out.vCount - 35) / 2 = 100 ∧
      (((machine blankPowerUp).run oneFrame t).video.out.hCount - 144) / 2 = 52 := by
  have inLine := (timed blankPowerUp oneFrame t).inLine
  have h := Generator.hCount_eq inLine
  have v := Generator.vCount_eq inLine
  rw [tick] at h v
  rw [VideoOutput.vgaDe_iff, h, v]
  decide

/-- After the interrupt of a frame its colours are shown. -/
theorem screen_shows_frame_counted : ∃ i t, i ≤ t ∧
    ((machine blankPowerUp).run oneFrame i).irq = true ∧
    ((machine blankPowerUp).run oneFrame t).video.out.vgaRgb = 0x0A0908 := by
  obtain ⟨i, t, upTo, irq, silent, tick⟩ := acknowledged_oneFrame
  obtain ⟨visible, row, column⟩ := position_oneFrame tick
  obtain ⟨w, src, -, -, -, shows⟩ := (screen_shows_frame (cpuGuarantee_oneFrame blankPowerUp) t
    visible).1 i upTo irq silent
  have color := shows countedImage (imageAt_countedImage w src)
  rw [row, column] at color
  exact ⟨i, t, upTo, irq, color.trans (color_countedImage w)⟩

/-- They are those of the scene, which has not changed for 200 lines. -/
theorem screen_shows_scene_counted : ∃ t,
    ((machine blankPowerUp).run oneFrame t).video.out.vgaRgb =
      ((machine blankPowerUp).run oneFrame t).scene.color 100 52 ∧
    ((machine blankPowerUp).run oneFrame t).scene.color 100 52 = 0x0A0908 ∧
    ∀ u, u ≤ t → t ≤ u + 320000 → ((machine blankPowerUp).run oneFrame u).scene =
      ((machine blankPowerUp).run oneFrame t).scene := by
  have given := cpuGuarantee_oneFrame blankPowerUp
  obtain ⟨i, t, upTo, irq, silent, tick⟩ := acknowledged_oneFrame
  obtain ⟨visible, row, column⟩ := position_oneFrame tick
  obtain ⟨shows, still⟩ := screen_shows_scene blankPowerUp oneFrame t visible
  rw [row, column] at shows
  rw [tick] at still
  obtain ⟨w, src, -, -, -, frame⟩ := shown_since given upTo irq silent
    (quiet_of_visible given visible)
  obtain ⟨ppu, handed, scene⟩ := frame countedImage (imageAt_countedImage w src)
  refine ⟨t, shows, ?_, fun u before since => still u before (by rw [blankTicks]; omega)⟩
  rw [scene]
  exact (color_congr (fun segment a within => (handed segment a within).trans
    (handedOver_facing countedImage segment a within).symm) _ _ _).trans (color_countedImage w)

end FPGame.VideoSystem
