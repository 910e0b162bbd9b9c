import FPGame.Console.Updates
import FPGame.Kernel.PpuRelease

/-!
# What a release leaves behind

`ppu_release` spins twice on `vram_lock`. Both times only a transfer can hold it,
and every transfer ends, so each release returns (`release_returns`).

The last update that a release sends is blank, and nobody sends another before the
next owner has the PPU. So the next owner starts with a black screen
(`screen_black_after_release`).
-/

set_option autoImplicit false

namespace FPGame.Console

open FPGame.Foundation FPGame.Ppu FPGame.PpuDriver

section Settled

variable {Tid : Type} [DecidableEq Tid] {alloc : Allocation} {powerUp : VideoSystem.PowerUp}
  {s : State Tid}

/-- A buffer and registers of zeros. -/
structure Snapshot.Blank (snapshot : Snapshot) : Prop where
  vram : ∀ a, a < allocSize → snapshot.vram a = 0
  mmio : ∀ offset ∈ resetOffsets, snapshot.mmio offset = 0

/-- Its registers are those of reset. -/
theorem Snapshot.Blank.regs {snapshot : Snapshot} (isBlank : snapshot.Blank) :
    ctrlRegsOf snapshot.mmio = CtrlRegs.reset := by
  simp only [ctrlRegsOf, isBlank.mmio ppuBgscrollOffset (by decide),
    isBlank.mmio ppuFgscrollOffset (by decide), isBlank.mmio ppuEnableOffset (by decide),
    isBlank.mmio ppuBgcolorOffset (by decide)]
  rfl

/-- **What was sent last is blank** from the update of a release to the next open. -/
theorem sent_of_settled (aligned : 16 ∣ alloc.vramBaseP)
    (reachable : (console Tid alloc powerUp).Reachable s) (settled : Settled s.kernel) :
    ∃ snapshot, s.sent = some snapshot ∧ snapshot.Blank := by
  induction reachable with
  | start initial =>
      rcases settled.since with ⟨tid, listed⟩ | ⟨tid, ending⟩
      · rw [initial.kernel.history] at listed
        cases listed
      · rw [initial.kernel.threads tid] at ending
        cases ending
  | @next s s' label reachable step ih =>
      cases step with
      | thread tid choice allowed =>
          obtain ⟨stage, linked⟩ := linked_of_reachable aligned reachable
          have session := session_of_reachable linked.session
          rcases settled.of_threadStep session allowed with sends | before
          · obtain ⟨-, -, -, progress, -⟩ := session.releasing tid (by rw [sends]; rfl)
            rw [sends] at progress
            obtain ⟨cleared, reset⟩ := progress
            have stores : mmioStore alloc.config (s.kernel.threads tid) =
                some (ppuDmaAddrOffset, alloc.config.vramAddrP) := by
              rw [mmioStore, sends]
            have shared : (s.kernel.threadStep alloc.config tid choice).shared =
                mmioWrite s.kernel.shared ppuDmaAddrOffset alloc.config.vramAddrP := by
              simp only [FileState.threadStep, act, sends]
            refine ⟨{ vram := (s.kernel.threadStep alloc.config tid choice).shared.vram
                      mmio := (s.kernel.threadStep alloc.config tid choice).shared.mmio }, ?_, ?_⟩
            · simp [State.threadStep, stores, isUpdate]
            · rw [shared]
              exact ⟨cleared, reset.update⟩
          · obtain ⟨snapshot, sent, isBlank⟩ := ih before
            refine ⟨snapshot, ?_, isBlank⟩
            simp [State.threadStep, mmioStore_of_outside (before.resting tid).outside, sent]
      | irq raised => exact ih ⟨settled.files, settled.resting, settled.since⟩
      | clock c =>
          refine ih ?_
          simp only [State.clockStep] at settled
          split_ifs at settled
          · exact ⟨settled.files, settled.resting, settled.since⟩
          · exact settled

end Settled

/-! ## Every release returns -/

section Returns

variable {Tid : Type} [DecidableEq Tid] {alloc : Allocation} {powerUp : VideoSystem.PowerUp}
  {run : (console Tid alloc powerUp).Run} {tid : Tid} {n m : ℕ}

/-- Step `n` is one of the thread. -/
def Moves (run : (console Tid alloc powerUp).Run) (tid : Tid) (n : ℕ) : Prop :=
  ∃ choice, run.label n = .thread tid choice

/-- Where the thread is. -/
def pcAt (run : (console Tid alloc powerUp).Run) (tid : Tid) (n : ℕ) : Pc :=
  ((run.state n).kernel.threads tid).pc

/-- Whatever else happens, a release stays where it is, and a lock that is free stays
free. -/
theorem release_waits (aligned : 16 ∣ alloc.vramBaseP) (inside : (pcAt run tid n).inRelease = true)
    (other : ¬ Moves run tid n) :
    pcAt run tid (n + 1) = pcAt run tid n ∧
      ((run.state n).kernel.shared.vramLock = 0 → (run.state (n + 1)).kernel.shared.vramLock = 0) := by
  obtain ⟨stage, linked⟩ := linked_of_reachable aligned (run.reachable n)
  obtain ⟨lock, files, -, -, waiting⟩ := (session_of_reachable linked.session).releasing tid inside
  have step := run.step n
  cases label : run.label n with
  | thread who choice =>
      rw [label] at step
      obtain ⟨next, allowed⟩ := step.of_thread
      have distinct : who ≠ tid := by
        rintro rfl
        exact other ⟨choice, label⟩
      rw [pcAt, next]
      refine ⟨?_, ?_⟩
      · simp only [State.threadStep, FileState.threadStep, Function.update_of_ne distinct.symm]
        rfl
      · rcases (waiting who distinct).effect Tid alloc.config
          (fun outside => (allowed outside).opens files) (.inr lock) with
          ⟨same, -, -⟩ | ⟨free, -, -, -⟩
        · simp only [State.threadStep, FileState.threadStep, same]
          exact id
        · exact absurd (free.symm.trans lock) (by decide)
  | irq =>
      rw [label] at step
      rw [pcAt, step.of_irq.1]
      exact ⟨rfl, fun _ => rfl⟩
  | clock c =>
      rw [label] at step
      rw [pcAt, step.of_clock, State.clockStep_shared]
      refine ⟨?_, id⟩
      simp only [State.clockStep]
      split_ifs <;> rfl

/-- A step of the thread in its release. -/
theorem release_moves (aligned : 16 ∣ alloc.vramBaseP) (inside : (pcAt run tid n).inRelease = true)
    (moves : Moves run tid n) :
    (spins (pcAt run tid n) ∧ (run.state n).kernel.shared.vramLock = 1 ∧
      pcAt run tid (n + 1) = pcAt run tid n) ∨
    ((pcAt run tid (n + 1)).inRelease = true ∧ toGo (pcAt run tid (n + 1)) < toGo (pcAt run tid n)) ∨
    pcAt run tid n = .releasePpu := by
  obtain ⟨stage, linked⟩ := linked_of_reachable aligned (run.reachable n)
  obtain ⟨lock, -⟩ := (session_of_reachable linked.session).releasing tid inside
  obtain ⟨choice, label⟩ := moves
  have step := run.step n
  rw [label] at step
  have next : pcAt run tid (n + 1) =
      (act alloc.config (run.state n).kernel.shared ((run.state n).kernel.threads tid) choice).2.pc := by
    rw [pcAt, step.of_thread.1]
    simp only [State.threadStep, FileState.threadStep, Function.update_self]
  rw [next]
  exact act_release lock inside

theorem pcAt_of_spins (moves : Moves run tid n) (spinning : spins (pcAt run tid n))
    (held : (run.state n).kernel.shared.vramLock = 1) :
    pcAt run tid (n + 1) = pcAt run tid n := by
  obtain ⟨choice, label⟩ := moves
  have step := run.step n
  rw [label] at step
  rw [pcAt, step.of_thread.1]
  simp only [State.threadStep, FileState.threadStep, Function.update_self]
  exact act_spins spinning held

/-- Up to the next step of the thread. -/
theorem release_until (aligned : 16 ∣ alloc.vramBaseP) (inside : (pcAt run tid n).inRelease = true)
    (scheduled : ∀ n, ∃ m, n ≤ m ∧ Moves run tid m) :
    ∃ m, n ≤ m ∧ Moves run tid m ∧ pcAt run tid m = pcAt run tid n ∧
      ((run.state n).kernel.shared.vramLock = 0 → (run.state m).kernel.shared.vramLock = 0) := by
  classical
  obtain ⟨later, moves⟩ := Nat.find_spec (scheduled n)
  have waits : ∀ k, n ≤ k → k ≤ Nat.find (scheduled n) → pcAt run tid k = pcAt run tid n ∧
      ((run.state n).kernel.shared.vramLock = 0 → (run.state k).kernel.shared.vramLock = 0) := by
    intro k since upTo
    induction k, since using Nat.le_induction with
    | base => exact ⟨rfl, id⟩
    | succ k since ih =>
        obtain ⟨pc, free⟩ := ih (by omega)
        have other : ¬ Moves run tid k := fun moves => Nat.find_min (scheduled n) upTo ⟨since, moves⟩
        obtain ⟨pc', free'⟩ := release_waits aligned (by rw [pc]; exact inside) other
        exact ⟨pc'.trans pc, free' ∘ free⟩
  exact ⟨_, later, moves, waits _ later le_rfl⟩

/-- A spin waits for a transfer. -/
theorem inFlight_of_spins (aligned : 16 ∣ alloc.vramBaseP) (spinning : spins (pcAt run tid n))
    (held : (run.state n).kernel.shared.vramLock = 1) :
    0 < (run.state n).kernel.shared.pending := by
  obtain ⟨stage, linked⟩ := linked_of_reachable aligned (run.reachable n)
  have session := session_of_reachable linked.session
  have inside : (pcAt run tid n).inRelease = true := by
    rcases spinning with pc | pc <;> rw [pc] <;> rfl
  obtain ⟨-, -, -, -, waiting⟩ := session.releasing tid inside
  obtain ⟨owner, owned⟩ := session.owned
  rw [owned.pending]
  rw [owned.lock] at held
  cases owner with
  | nobody => cases held
  | transfer => exact Nat.one_pos
  | thread who =>
      have locked : ((run.state n).kernel.threads who).pc.locked = true :=
        (owned.sections who).mpr rfl
      by_cases here : who = tid
      · subst here
        rcases spinning with pc | pc <;> rw [pcAt] at pc <;> rw [pc] at locked <;> cases locked
      · rcases waiting who here with pc | ⟨pc, -⟩ | ⟨_, pc, -⟩ <;> rw [pc] at locked <;> cases locked

/-- **A release gets ahead.** If it spins, it does so until the interrupt. -/
theorem release_ahead (aligned : 16 ∣ alloc.vramBaseP) (fair : Fair run)
    (scheduled : ∀ n, ∃ m, n ≤ m ∧ Moves run tid m)
    (inside : (pcAt run tid n).inRelease = true) :
    ∃ u, n ≤ u ∧ ((Moves run tid u ∧ pcAt run tid u = .releasePpu) ∨
      ((pcAt run tid (u + 1)).inRelease = true ∧
        toGo (pcAt run tid (u + 1)) < toGo (pcAt run tid n))) := by
  obtain ⟨u, later, moves, pc, -⟩ := release_until aligned inside scheduled
  rcases release_moves aligned (by rw [pc]; exact inside) moves with
    ⟨spinning, held, -⟩ | ahead | last
  · obtain ⟨m, since, irq, keeps⟩ :=
      irq_of_inFlight aligned fair (inFlight_of_spins aligned spinning held)
    have stays : ∀ k, u ≤ k → k ≤ m + 1 → pcAt run tid k = pcAt run tid u := by
      intro k after upTo
      induction k, after using Nat.le_induction with
      | base => rfl
      | succ k after ih =>
          have same := ih (by omega)
          obtain ⟨stage, linked⟩ := linked_of_reachable aligned (run.reachable k)
          have held' := vramLock_of_inFlight linked.session (keeps k after (by omega)).1
          have inside' : (pcAt run tid k).inRelease = true := by rw [same, pc]; exact inside
          refine Eq.trans ?_ same
          by_cases moves' : Moves run tid k
          · exact pcAt_of_spins moves' (by rw [same]; exact spinning) held'
          · exact (release_waits aligned inside' moves').1
    have free : (run.state (m + 1)).kernel.shared.vramLock = 0 := by
      have step := run.step m
      rw [irq] at step
      rw [step.of_irq.1]
      rfl
    have same := (stays (m + 1) (by omega) le_rfl).trans pc
    obtain ⟨v, after, moves', pc', free'⟩ :=
      release_until aligned (n := m + 1) (by rw [same]; exact inside) scheduled
    refine ⟨v, by omega, ?_⟩
    rcases release_moves aligned (by rw [pc', same]; exact inside) moves' with
      ⟨-, held', -⟩ | ahead | last
    · exact absurd ((free' free).symm.trans held') (by decide)
    · rw [pc', same] at ahead
      exact .inr ahead
    · exact .inl ⟨moves', last⟩
  · rw [pc] at ahead
    exact ⟨u, later, .inr ahead⟩
  · exact ⟨u, later, .inl ⟨moves, last⟩⟩

/-- A release comes to its last step. -/
theorem release_last (aligned : 16 ∣ alloc.vramBaseP) (fair : Fair run)
    (scheduled : ∀ n, ∃ m, n ≤ m ∧ Moves run tid m)
    (inside : (pcAt run tid n).inRelease = true) :
    ∃ u, n ≤ u ∧ Moves run tid u ∧ pcAt run tid u = .releasePpu :=
  exists_of_recurrence (fun k => toGo (pcAt run tid k))
    (P := fun k => (pcAt run tid k).inRelease = true)
    (fun _ inside => release_ahead aligned fair scheduled inside) n inside

/-- **Every release returns.** In every run with a fair environment, in which the
thread is scheduled again and again: a `ppu_release` of an open PPU returns 0. Then
the PPU is free, nothing of the owner is left, and the PPU shows a blank frame. -/
theorem release_returns (aligned : 16 ∣ alloc.vramBaseP) (run : (console Tid alloc powerUp).Run)
    (fair : Fair run) (tid : Tid) (scheduled : ∀ n, ∃ m, n ≤ m ∧ Moves run tid m) (n : ℕ)
    (inside : (pcAt run tid n).inRelease = true) :
    ∃ m, n < m ∧ pcAt run tid m = .returned 0 ∧ (run.state m).kernel.shared.ppuLock = 0 ∧
      (run.state m).kernel.found = blank ∧
      ∃ snapshot, (run.state m).shown = some snapshot ∧ snapshot.Blank := by
  obtain ⟨u, later, ⟨choice, label⟩, pc⟩ := release_last aligned fair scheduled inside
  obtain ⟨stage, linked⟩ := linked_of_reachable aligned (run.reachable u)
  have session := session_of_reachable linked.session
  have here : ((run.state u).kernel.threads tid).pc = .releasePpu := pc
  obtain ⟨-, files, -, progress, waiting⟩ := session.releasing tid (by rw [here]; rfl)
  rw [here] at progress
  have isBlank : PpuDriver.Blank (run.state u).kernel := progress
  have settled : Settled (run.state u).kernel := by
    refine ⟨files, fun other => ?_, .inr ⟨tid, by rw [here]; rfl⟩⟩
    by_cases same : other = tid
    · subst same
      exact .inr (.inr (by rw [here]; rfl))
    · exact .inl (waiting other same)
  obtain ⟨snapshot, sent, sentBlank⟩ := sent_of_settled aligned (run.reachable u) settled
  obtain ⟨none, idle, -⟩ := linked.of_idle isBlank.pending
  have step := run.step u
  rw [label] at step
  have shared : (act alloc.config (run.state u).kernel.shared
      ((run.state u).kernel.threads tid) choice).1 =
        { (run.state u).kernel.shared with ppuLock := 0 } := by
    simp only [act, here]
  refine ⟨u + 1, by omega, ?_, ?_, ?_, snapshot, ?_, sentBlank⟩
  · rw [pcAt, step.of_thread.1]
    simp only [State.threadStep, FileState.threadStep, Function.update_self, act, here]
  · rw [step.of_thread.1]
    simp only [State.threadStep, FileState.threadStep, shared]
  · rw [step.of_thread.1]
    have carried : PpuDriver.Blank
        ((run.state u).kernel.threadStep alloc.config tid choice) := by
      refine isBlank.carry ?_ ?_ ?_ ?_ rfl <;> simp only [FileState.threadStep, shared]
    exact carried.found_eq
  · rw [step.of_thread.1]
    exact (linked.answered none idle).trans sent

end Returns

/-- The process is scheduled again and again. -/
theorem moves_session (n : ℕ) : ∃ m, n ≤ m ∧ Moves sessionRun () m :=
  ⟨2 * n, by omega, choiceOf (session (2 * n)), if_pos (.inr (by omega))⟩

/-- Its release returns. -/
theorem release_returns_session : ∃ m, 8 < m ∧ (session m).kernel.found = blank := by
  obtain ⟨m, later, -, -, found, -⟩ :=
    release_returns (by decide) sessionRun fair_session () moves_session 8 (by decide)
  exact ⟨m, later, found⟩

/-! ## What the next owner sees -/

section Black

variable {Tid : Type} [DecidableEq Tid] {alloc : Allocation} {powerUp : VideoSystem.PowerUp}
  {s : State Tid}

/-- **The next owner starts with a black screen.** After a release, as long as no file
is open, whatever is called meanwhile: nothing is left of the owner before, the PPU
shows a blank frame, and every visible position is black. -/
theorem screen_black_after_release (aligned : 16 ∣ alloc.vramBaseP)
    (reachable : (console Tid alloc powerUp).Reachable s) (released : s.kernel.Released)
    (closed : s.kernel.files = 0)
    (calm : ∀ tid, (s.kernel.threads tid).Waiting ∨ (s.kernel.threads tid).Granted) :
    s.kernel.found = blank ∧ (∃ snapshot, s.shown = some snapshot ∧ snapshot.Blank) ∧
      (s.video.video.out.vgaDe = true → s.video.video.out.vgaRgb = 0) := by
  obtain ⟨stage, linked⟩ := linked_of_reachable aligned reachable
  have isBlank : PpuDriver.Blank s.kernel := by
    cases (session_of_reachable linked.session).stage with
    | closed _ _ _ isBlank => exact isBlank released
    | opening _ _ _ _ _ isBlank => exact isBlank released
    | inUse _ one => exact absurd (closed.symm.trans one) (by decide)
    | releasing t _ _ _ progress =>
        have resting : (s.kernel.threads t).Resting := (calm t).imp id .inl
        have ending := resting.ending progress.inRelease
        rcases calm t with waiting | ⟨pc, -⟩
        · exact absurd (waiting.not_ending.symm.trans ending) Bool.false_ne_true
        · rw [pc] at ending
          cases ending
  obtain ⟨snapshot, sent, sentBlank⟩ := sent_of_settled aligned reachable
    ⟨closed, fun tid => (calm tid).imp id .inl, .inl released⟩
  obtain ⟨none, waiting, -⟩ := linked.of_idle isBlank.pending
  have shown : s.shown = some snapshot := (linked.answered none waiting).trans sent
  refine ⟨isBlank.found_eq, ⟨snapshot, shown, sentBlank⟩, fun visible => ?_⟩
  rw [linked.color_of_visible visible, State.displayed, shown]
  simp only [sentBlank.regs]
  exact Scene.color_of_disabled rfl _ _

end Black

/-- When it has returned, the screen is black. -/
theorem screen_black_after_release_session : ∃ m, 8 < m ∧ (session m).kernel.Released ∧
    ((session m).video.video.out.vgaDe = true → (session m).video.video.out.vgaRgb = 0) := by
  have inside : (pcAt sessionRun () 8).inRelease = true := by decide
  obtain ⟨u, later, ⟨choice, label⟩, pc⟩ :=
    release_last (by decide) fair_session moves_session inside
  obtain ⟨_, linked⟩ := linked_of_reachable (by decide) (sessionRun.reachable u)
  have here : ((sessionRun.state u).kernel.threads ()).pc = .releasePpu := pc
  obtain ⟨-, files, call, -, -⟩ :=
    (session_of_reachable linked.session).releasing () (by rw [here]; rfl)
  have step := sessionRun.step u
  rw [label] at step
  have next := step.of_thread.1
  have released : (sessionRun.state (u + 1)).kernel.Released := by
    refine ⟨(), ?_⟩
    rw [next]
    simp [State.threadStep, FileState.threadStep, here, eventOf]
  have closed : (sessionRun.state (u + 1)).kernel.files = 0 := by
    rw [next]
    simp only [State.threadStep, FileState.threadStep, filesAfter, here, files]
  have calm : ∀ tid, ((sessionRun.state (u + 1)).kernel.threads tid).Waiting ∨
      ((sessionRun.state (u + 1)).kernel.threads tid).Granted := by
    intro tid
    rw [next]
    refine .inl (.ended 0 ?_ fun isOpen => ?_)
    · simp only [State.threadStep, FileState.threadStep, Function.update_self, act, here]
    · simp only [State.threadStep, FileState.threadStep, Function.update_self, act, here,
        call] at isOpen
      cases isOpen
  exact ⟨u + 1, Nat.lt_succ_of_le later, released,
    (screen_black_after_release (by decide) (sessionRun.reachable (u + 1)) released closed
      calm).2.2⟩

end FPGame.Console
