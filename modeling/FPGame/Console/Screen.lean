import FPGame.Console.Linked

/-!
# What the screen shows of the kernel's buffer

The screen shows the frame whose interrupt was raised last, as the buffer and the
registers of the kernel were when that update was called (`screen_shows_update`).
What threads write into the buffer afterwards is not seen before the next update.
-/

set_option autoImplicit false

namespace FPGame.Console

open FPGame.Foundation FPGame.Ppu FPGame.PpuDriver

section Screen

variable {Tid : Type} [DecidableEq Tid] {alloc : Allocation} {powerUp : VideoSystem.PowerUp}
  {s : State Tid} {stage : FrameHandoff.Stage}

/-- What the screen is to show: the frame whose interrupt was raised last. -/
def State.displayed (alloc : Allocation) (powerUp : VideoSystem.PowerUp) (s : State Tid) : Scene :=
  match s.shown with
  | none => VideoSystem.sceneOf powerUp.vram.ppu CtrlRegs.reset
  | some snapshot => VideoSystem.sceneOf (facing (snapshot.image alloc)) (ctrlRegsOf snapshot.mmio)

/-- A visible position shows it. -/
theorem Linked.color_of_visible (linked : Linked alloc powerUp stage s)
    (visible : s.video.video.out.vgaDe = true) :
    s.video.video.out.vgaRgb = (s.displayed alloc powerUp).color
      ((s.video.video.out.vCount - 35) / 2) ((s.video.video.out.hCount - 144) / 2) := by
  have quiet : stage.syncing = false := by
    obtain ⟨inputs, t, run⟩ := linked.reached.exists_run
    rw [← run] at visible
    have disp := VideoSystem.disp_of_visible visible
    rw [run] at disp
    rw [Bool.eq_false_iff]
    intro syncing
    cases disp.symm.trans (linked.holds.state syncing)
  have color : s.video.video.out.vgaRgb = s.video.scene.color
      ((s.video.video.out.vCount - 35) / 2) ((s.video.video.out.hCount - 144) / 2) := by
    obtain ⟨inputs, t, run⟩ := linked.reached.exists_run
    rw [← run] at visible ⊢
    exact VideoSystem.color_of_visible visible
  have shows := linked.shows quiet
  rw [State.Shows] at shows
  rw [color, State.displayed]
  cases shown : s.shown with
  | none =>
      rw [shown] at shows
      rw [shows]
  | some snapshot =>
      rw [shown] at shows
      obtain ⟨ppu, handed, scene⟩ := shows
      rw [scene]
      exact VideoSystem.color_congr (fun segment a within => (handed segment a within).trans
        (handedOver_facing _ segment a within).symm) _ _ _

/-- **The screen shows what was sent.** For any number of threads, any order of
their steps, the interrupt and the clocks, and any latency of the bus:

1. the device behaves as the driver assumes: the kernel's state is reachable in the
   driver's own model, where an interrupt is due and comes after the whole buffer
   was read;
2. an interrupt is latched only for the one update in flight;
3. while an update is in flight the kernel's buffer and registers are those that it
   sent;
4. every visible position has the colour of the frame whose interrupt was raised
   last, as the buffer and the registers were when that update was called. -/
theorem screen_shows_update (aligned : 16 ∣ alloc.vramBaseP)
    (reachable : (console Tid alloc powerUp).Reachable s) :
    (fileSystem Tid alloc).Reachable s.kernel ∧
    (s.raised = true → s.kernel.shared.pending = 1) ∧
    (0 < s.kernel.shared.pending →
      s.sent = some { vram := s.kernel.shared.vram, mmio := s.kernel.shared.mmio }) ∧
    (s.video.video.out.vgaDe = true →
      s.video.video.out.vgaRgb = (s.displayed alloc powerUp).color
        ((s.video.video.out.vCount - 35) / 2) ((s.video.video.out.hCount - 144) / 2)) := by
  obtain ⟨stage, linked⟩ := linked_of_reachable aligned reachable
  obtain ⟨single, -⟩ := linked.discipline
  refine ⟨linked.session, fun raised => ?_, linked.sent, linked.color_of_visible⟩
  have parts := linked.pending
  rw [raised, Bool.toNat_true] at parts
  omega

end Screen

/-! ## Out of reset -/

/-- Nothing stalls, and nothing is posted. -/
def idleClock : Clock where
  arrives := false
  readWaitrequest := false
  writeWaitrequest := false
  respond := true
  undriven := 0
  undrivenP := 0
  palramAddrB := 0
  tilram _ := 0
  patram _ := 0
  sprram _ := 0

/-- One process that has not called the driver, out of reset. -/
def quiet : State Unit where
  kernel := solo quietShared outside 0 (fun _ => none) []
  posted := []
  mmio _ := 0
  video := (VideoSystem.machine VideoSystem.blankPowerUp).reset
  raised := false
  sent := none
  shown := none

/-- A process opens the PPU, sends an update and closes it. -/
def choiceOf (s : State Unit) : Choice :=
  match (s.kernel.threads ()).pc with
  | .user =>
      if s.kernel.files = 0 then if s.kernel.history = [] then .call .open else .advance
      else if s.kernel.shared.mmio ppuDmaAddrOffset = 0 then .call (.ioctl ioctlPpuUpdate 0)
      else .call .release
  | _ => .advance

/-- The process and the hardware take turns, once the process has called the release. -/
def turn (n : ℕ) (s : State Unit) : Label Unit :=
  if n < 8 ∨ n % 2 = 0 then .thread () (choiceOf s)
  else if s.raised then .irq
  else .clock { idleClock with arrives := true }

/-- The state after a step. -/
def perform (s : State Unit) : Label Unit → State Unit
  | .thread tid choice => s.threadStep pageAlloc tid choice
  | .irq => s.irqStep
  | .clock c => s.clockStep pageAlloc c

def session : ℕ → State Unit
  | 0 => quiet
  | n + 1 => perform (session n) (turn n (session n))

theorem allows_choiceOf (s : State Unit) (outside : (s.kernel.threads ()).pc = .user) :
    s.kernel.Allows (choiceOf s) := by
  simp only [choiceOf, outside]
  split_ifs with none
  · trivial
  · trivial
  · exact Nat.pos_of_ne_zero none
  · exact ⟨Nat.pos_of_ne_zero none, fun _ _ => by rw [outside]; rfl⟩

theorem step_session (n : ℕ) :
    Step pageAlloc (session n) (turn n (session n)) (session (n + 1)) := by
  rw [session]
  simp only [turn]
  split_ifs with threads raised
  · exact .thread _ () _ (allows_choiceOf _)
  · exact .irq _ raised
  · exact .clock _ _

theorem initial_session : Initial VideoSystem.blankPowerUp (session 0) where
  kernel :=
    { ppuLock := rfl, vramLock := rfl, pending := rfl, threads := fun _ => rfl, files := rfl,
      history := rfl }
  posted := rfl
  mmio := rfl
  video := rfl
  raised := rfl
  sent := rfl
  shown := rfl

theorem reachable_session (n : ℕ) :
    (console Unit pageAlloc VideoSystem.blankPowerUp).Reachable (session n) := by
  induction n with
  | zero => exact .start initial_session
  | succ n ih => exact ih.next (step_session n)

/-- In the sixth state the update is in flight. -/
theorem screen_shows_update_session :
    ((session 6).kernel.shared.pending = 1 ∧ (session 6).sent =
      some { vram := (session 6).kernel.shared.vram, mmio := (session 6).kernel.shared.mmio }) ∧
    ∀ n, (session n).video.video.out.vgaDe = true →
      (session n).video.video.out.vgaRgb = ((session n).displayed pageAlloc
        VideoSystem.blankPowerUp).color (((session n).video.video.out.vCount - 35) / 2)
          (((session n).video.video.out.hCount - 144) / 2) := by
  have flight : (session 6).kernel.shared.pending = 1 := by decide
  obtain ⟨-, -, sent, -⟩ := screen_shows_update (by decide) (reachable_session 6)
  refine ⟨⟨flight, sent (by rw [flight]; decide)⟩, fun n visible => ?_⟩
  exact (screen_shows_update (by decide) (reachable_session n)).2.2.2 visible

end FPGame.Console
