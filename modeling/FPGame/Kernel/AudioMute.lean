import FPGame.Kernel.AudioRequest

/-!
# What a release leaves behind

`apu_release` stores 0 to the control register. That mutes the output, but the
enable of the interrupt is cleared by its own bit only, the one that `apu_irq`
sets: a zero leaves it as it is. If the interrupt is enabled when the device is
released, it is raised as soon as the base queue is empty, and the handler turns
the output on again and sets `sample.req` (`release_not_mute`).

A release that finds the interrupt disabled and no request on its way leaves
the device mute (`release_mute`).
-/

set_option autoImplicit false

namespace FPGame.ApuDriver

open FPGame.Foundation FPGame.Apu FPGame.Linux

/-- The calls that can change what a release has set. -/
def Call.drives : Call → Bool
  | .ioctl num _ => num == ioctlApuSetCallbackPid
  | .write _ _ | .release => true
  | .open => false

section Muted

variable {Tid : Type}

/-- A release has returned, and neither `IOCTL_APU_SET_CALLBACK_PID` nor
`apu_write` has been called since. -/
structure Muted (s : FileState Tid) : Prop where
  last : (s.begun.filter Call.drives).head? = some .release
  returned : ∀ tid, (s.threads tid).releasing = false

/-- Nothing will raise the interrupt or set the request. -/
structure Disarmed (s : FileState Tid) : Prop where
  irqEn : s.hw.apu.irqEn = false
  bufIrq : s.hw.apu.bufIrq = false
  ack : s.irq ≠ .ack
  setReq : s.irq ≠ .setReq

/-- Nothing is played and nothing is asked for. -/
structure Silent (s : FileState Tid) : Prop extends Disarmed s where
  apuEn : s.hw.apu.apuEn = false
  req : s.shared.req = 0

/-- A release is called only while the interrupt is disabled and the handler is
not between the acknowledgement and the request. -/
def CalledDisarmed (s : FileState Tid) : Label Tid → Prop
  | .thread tid (.call .release) _ =>
      s.threads tid = .user → s.hw.apu.irqEn = false ∧ s.irq ≠ .setReq
  | _ => True

/-- How far a release has come. -/
def FileState.Muting (s : FileState Tid) : Pc → Prop
  | .releasePid | .releaseReq => Disarmed s
  | .releaseMute => Disarmed s ∧ s.shared.req = 0
  | .releaseTry => Silent s
  | _ => True

/-- The interrupt is raised only while it is enabled. -/
structure Raised (s : FileState Tid) : Prop where
  bufIrq : s.hw.apu.bufIrq = true → s.hw.apu.irqEn = true
  entered : s.irq = .ack → s.hw.apu.irqEn = true

variable {s s' : FileState Tid}

theorem Disarmed.carry (disarmed : Disarmed s) (irqEn : s'.hw.apu.irqEn = s.hw.apu.irqEn)
    (bufIrq : s'.hw.apu.bufIrq = true → s.hw.apu.irqEn = true ∨ s.hw.apu.bufIrq = true)
    (irq : s'.irq = s.irq ∨ s'.irq = .idle) : Disarmed s' where
  irqEn := irqEn.trans disarmed.irqEn
  bufIrq := by
    rw [Bool.eq_false_iff]
    intro high
    rcases bufIrq high with enabled | raised
    · exact Bool.false_ne_true (disarmed.irqEn.symm.trans enabled)
    · exact Bool.false_ne_true (disarmed.bufIrq.symm.trans raised)
  ack := by
    rcases irq with same | idle
    · rw [same]
      exact disarmed.ack
    · rw [idle]
      nofun
  setReq := by
    rcases irq with same | idle
    · rw [same]
      exact disarmed.setReq
    · rw [idle]
      nofun

/-- A step that is not one of a thread, while nothing can raise the interrupt. -/
structure Calm (s s' : FileState Tid) : Prop where
  disarmed : Disarmed s → Disarmed s'
  apuEn : Disarmed s → s'.hw.apu.apuEn = s.hw.apu.apuEn
  req : Disarmed s → s'.shared.req = s.shared.req

theorem Calm.silent (calm : Calm s s') (silent : Silent s) : Silent s' where
  toDisarmed := calm.disarmed silent.toDisarmed
  apuEn := (calm.apuEn silent.toDisarmed).trans silent.apuEn
  req := (calm.req silent.toDisarmed).trans silent.req

theorem Calm.muting (calm : Calm s s') {pc : Pc} (muting : s.Muting pc) : s'.Muting pc := by
  cases pc with
  | releasePid | releaseReq => exact calm.disarmed muting
  | releaseMute => exact ⟨calm.disarmed muting.1, (calm.req muting.1).trans muting.2⟩
  | releaseTry => exact calm.silent muting
  | _ => trivial

theorem calm_clock (s : FileState Tid) (env : Env) : Calm s (s.clockStep env) where
  disarmed disarmed := by
    obtain ⟨irqEn, bufIrq⟩ := next_of_no_control (s := s.hw.apu) (x := s.hw.input env) control_none
    refine disarmed.carry irqEn (fun high => .inl ?_) (.inl rfl)
    have line : (s.hw.apu.irqEn && !s.hw.apu.queuedBaseValid) = true := bufIrq.symm.trans high
    exact (Bool.and_eq_true_iff.mp line).1
  apuEn _ := rfl
  req _ := rfl

theorem calm_irq (s : FileState Tid) (env : Env)
    (enters : s.irq = .idle → s.hw.apu.bufIrq = true) : Calm s (s.irqStep env) := by
  have leaves (disarmed : Disarmed s) : s.irq = .signal := by
    cases irq : s.irq with
    | idle => exact absurd (disarmed.bufIrq.symm.trans (enters irq)) Bool.false_ne_true
    | ack => exact absurd irq disarmed.ack
    | setReq => exact absurd irq disarmed.setReq
    | signal => rfl
  refine ⟨fun disarmed => ?_, fun disarmed => ?_, fun disarmed => ?_⟩
  · have irq := leaves disarmed
    have hw : (s.irqStep env).hw = s.hw := by rw [FileState.irqStep, irq]; rfl
    refine disarmed.carry (by rw [hw]) (fun high => .inr ?_) (.inr ?_)
    · rwa [hw] at high
    · rw [FileState.irqStep, irq]
      rfl
  · rw [FileState.irqStep, leaves disarmed]
    rfl
  · rw [FileState.irqStep, leaves disarmed]
    rfl

theorem muting_of_kept {pc : Pc} (kept : pc.releasing = false) : s.Muting pc := by
  cases pc with
  | releasePid | releaseReq | releaseMute | releaseTry => cases kept
  | _ => trivial

end Muted

/-! ## Steps of the threads -/

section Threads

variable {cfg : Config} {sh : Shared} {pc : Pc} {choice : Choice}

/-- A thread that is in no call on a file and makes none that matters. -/
theorem act_rest (idle : pc.idle = true)
    (idly : ∀ call ∈ begins pc choice, call.drives = false) :
    (act cfg sh pc choice).pc.idle = true ∧ (act cfg sh pc choice).mmio = none ∧
      (act cfg sh pc choice).shared.req = sh.req := by
  cases pc with
  | user =>
      cases choice with
      | call call =>
          have idly := idly call (List.mem_singleton_self call)
          cases call with
          | «open» => exact ⟨rfl, rfl, rfl⟩
          | ioctl num param =>
              have other : num ≠ ioctlApuSetCallbackPid := beq_eq_false_iff_ne.mp idly
              simp only [act, ne_eq, other, not_false_eq_true, if_true]
              exact ⟨rfl, trivial, trivial⟩
          | write | release => cases idly
      | advance | fault => exact ⟨rfl, rfl, rfl⟩
  | openTry | returned => exact ⟨rfl, rfl, rfl⟩
  | _ => cases idle

/-- Without an acknowledgement, the line is high only if it was or could be. -/
theorem drive_bufIrq {hw : Hardware} {mmio : Option Mmio} {env : Env} (noAck : irqAck mmio = false)
    (high : (drive hw mmio env).apu.bufIrq = true) :
    hw.apu.irqEn = true ∨ hw.apu.bufIrq = true := by
  cases mmio with
  | none => exact .inr high
  | some store =>
      simp only [drive_some, Hardware.clock, Apu.next, noAck, Bool.false_eq_true, if_false,
        Bool.and_eq_true] at high
      exact .inl high.1

end Threads

/-! ## Every run -/

section Runs

variable {Tid : Type} {s s' : FileState Tid} {label : Label Tid}

/-- What holds in every state. -/
structure Mutes (s : FileState Tid) : Prop where
  raised : Raised s
  progress : ∀ tid, s.Muting (s.threads tid)
  silent : Muted s → Silent s
  resting : Muted s → ∀ tid, (s.threads tid).using = false

/-- A step that is not one of a thread. -/
theorem Mutes.calm (mutes : Mutes s) (calm : Calm s s') (raised : Raised s')
    (threads : s'.threads = s.threads) (begun : s'.begun = s.begun) : Mutes s' := by
  have before (muted : Muted s') : Muted s :=
    ⟨by rw [← begun]; exact muted.last, by rw [← threads]; exact muted.returned⟩
  exact
    { raised := raised
      progress := fun tid => by
        rw [threads]
        exact calm.muting (mutes.progress tid)
      silent := fun muted => calm.silent (mutes.silent (before muted))
      resting := fun muted tid => by
        rw [threads]
        exact mutes.resting (before muted) tid }

theorem Raised.clock (raised : Raised s) (env : Env) : Raised (s.clockStep env) := by
  obtain ⟨irqEn, bufIrq⟩ := next_of_no_control (s := s.hw.apu) (x := s.hw.input env) control_none
  refine ⟨fun high => ?_, fun entered => irqEn.trans (raised.entered entered)⟩
  have line : (s.hw.apu.irqEn && !s.hw.apu.queuedBaseValid) = true := bufIrq.symm.trans high
  exact irqEn.trans (Bool.and_eq_true_iff.mp line).1

theorem Raised.irq (raised : Raised s) (env : Env)
    (enters : s.irq = .idle → s.hw.apu.bufIrq = true) : Raised (s.irqStep env) := by
  cases irq : s.irq with
  | idle =>
      rw [FileState.irqStep, irq]
      exact ⟨raised.bufIrq, fun _ => raised.bufIrq (enters irq)⟩
  | ack =>
      rw [FileState.irqStep, irq]
      refine ⟨fun high => ?_, nofun⟩
      exact absurd ((next_acknowledge).2.symm.trans high) Bool.false_ne_true
  | setReq | signal =>
      rw [FileState.irqStep, irq]
      exact ⟨raised.bufIrq, nofun⟩

variable [DecidableEq Tid] {cfg : Config} {tid : Tid} {choice : Choice} {env : Env}

theorem Raised.thread (raised : Raised s) : Raised (s.threadStep cfg tid choice env) where
  bufIrq high := drive_irqEn act_irqAck ((drive_bufIrq act_irqAck high).elim id raised.bufIrq)
  entered entered := drive_irqEn act_irqAck (raised.entered entered)

/-- A step that neither stores to a register nor touches the request. -/
theorem calm_thread (mmio : (act cfg s.shared (s.threads tid) choice).mmio = none)
    (req : (act cfg s.shared (s.threads tid) choice).shared.req = s.shared.req) :
    Calm s (s.threadStep cfg tid choice env) := by
  have hw : (s.threadStep cfg tid choice env).hw = s.hw := by
    rw [FileState.threadStep, after_hw, mmio, drive_none]
  refine ⟨fun disarmed => disarmed.carry (by rw [hw]) (fun high => .inr ?_) (.inl rfl),
    fun _ => by rw [hw], fun _ => req⟩
  rwa [hw] at high

/-- The mute store. -/
theorem Disarmed.mute (disarmed : Disarmed s) (place : s.threads tid = .releaseMute) :
    Disarmed (s.threadStep cfg tid choice env) ∧
      (s.threadStep cfg tid choice env).hw.apu.apuEn = false := by
  have store : (act cfg s.shared (s.threads tid) choice).mmio = some (configStore 0) := by
    rw [place]
    rfl
  have hw : (s.threadStep cfg tid choice env).hw = s.hw.clock (some (configStore 0)) env := by
    rw [FileState.threadStep, after_hw, store, drive_some]
  refine ⟨disarmed.carry ?_ (fun high => ?_) (.inl rfl), ?_⟩
  · rw [hw]
    simp [Hardware.clock, Apu.next, irqAck, irqReq]
  · exact drive_bufIrq act_irqAck high
  · rw [hw]
    rfl

/-- A step of the thread that releases the device. -/
theorem Mutes.release_step (mutes : Mutes s) (inside : (s.threads tid).releasing = true)
    (idle : ∀ other, other ≠ tid → (s.threads other).idle = true) :
    Mutes (s.threadStep cfg tid choice env) := by
  have others : ∀ (s' : FileState Tid) other, other ≠ tid → s'.Muting (s.threads other) :=
    fun s' other distinct => muting_of_kept (Pc.idle_iff.mp (idle other distinct)).2
  have begun : (s.threadStep cfg tid choice env).begun = s.begun := by
    show begins (s.threads tid) choice ++ s.begun = s.begun
    cases place : s.threads tid <;> rw [place] at inside <;> first | rfl | cases inside
  -- while the thread is inside, the device is not mute yet
  have on {pc : Pc} (now : (act cfg s.shared (s.threads tid) choice).pc = pc)
      (still : pc.releasing = true) (muting : (s.threadStep cfg tid choice env).Muting pc) :
      Mutes (s.threadStep cfg tid choice env) := by
    have notMuted : ¬ Muted (s.threadStep cfg tid choice env) := by
      intro muted
      have returned := muted.returned tid
      rw [threadStep_threads, Function.update_self, now] at returned
      exact Bool.false_ne_true (returned.symm.trans still)
    refine ⟨mutes.raised.thread, forall_update (others _) ?_, fun muted => absurd muted notMuted,
      fun muted => absurd muted notMuted⟩
    rw [now]
    exact muting
  have progress := mutes.progress tid
  cases place : s.threads tid with
  | releasePid =>
      rw [place] at progress
      have calm : Calm s (s.threadStep cfg tid choice env) :=
        calm_thread (by rw [place]; rfl) (by rw [place]; rfl)
      exact @on .releaseReq (by rw [place]; rfl) rfl (calm.disarmed progress)
  | releaseReq =>
      rw [place] at progress
      have disarmed : Disarmed s := progress
      refine @on .releaseMute (by rw [place]; rfl) rfl ⟨?_, by rw [threadStep_shared, place]; rfl⟩
      have hw : (s.threadStep cfg tid choice env).hw = s.hw := by
        rw [FileState.threadStep, after_hw, place]
        rfl
      refine disarmed.carry (by rw [hw]) (fun high => .inr ?_) (.inl rfl)
      rwa [hw] at high
  | releaseMute =>
      rw [place] at progress
      obtain ⟨disarmed, req⟩ := progress
      obtain ⟨disarmed', muted⟩ := @Disarmed.mute Tid s _ cfg tid choice env disarmed place
      refine @on .releaseTry (by rw [place]; rfl) rfl ⟨disarmed', muted, ?_⟩
      rw [threadStep_shared, place]
      exact req
  | releaseTry =>
      rw [place] at progress
      have calm : Calm s (s.threadStep cfg tid choice env) :=
        calm_thread (by rw [place]; rfl) (by rw [place]; rfl)
      refine ⟨mutes.raised.thread, forall_update (others _) ?_, fun _ => calm.silent progress,
        fun _ => forall_update (P := fun pc : Pc => pc.using = false)
          (fun other distinct => (Pc.idle_iff.mp (idle other distinct)).1) ?_⟩
      · rw [place]
        trivial
      · rw [place]
        rfl
  | _ =>
      rw [place] at inside
      cases inside

/-- A release is called. -/
theorem Mutes.call_release (mutes : Mutes s) (outside : s.threads tid = .user)
    (kept : ∀ other, other ≠ tid → (s.threads other).releasing = false)
    (disarmed : s.hw.apu.irqEn = false ∧ s.irq ≠ .setReq) :
    Mutes (s.threadStep cfg tid (.call .release) env) := by
  have now : (act cfg s.shared (s.threads tid) (.call .release)).pc = .releasePid := by
    rw [outside]
    rfl
  have notMuted : ¬ Muted (s.threadStep cfg tid (.call .release) env) := by
    intro muted
    have returned := muted.returned tid
    rw [threadStep_threads, Function.update_self, now] at returned
    cases returned
  have calm : Calm s (s.threadStep cfg tid (.call .release) env) :=
    calm_thread (by rw [outside]; rfl) (by rw [outside]; rfl)
  have before : Disarmed s := by
    refine ⟨disarmed.1, ?_, fun entered => ?_, disarmed.2⟩
    · rw [Bool.eq_false_iff]
      exact fun high => Bool.false_ne_true (disarmed.1.symm.trans (mutes.raised.bufIrq high))
    · exact Bool.false_ne_true (disarmed.1.symm.trans (mutes.raised.entered entered))
  refine ⟨mutes.raised.thread,
    forall_update (fun other distinct => muting_of_kept (kept other distinct)) ?_,
    fun muted => absurd muted notMuted, fun muted => absurd muted notMuted⟩
  rw [now]
  exact calm.disarmed before

/-- Any other step of a thread that is not in a release. -/
theorem Mutes.other_step (mutes : Mutes s) (kept : (s.threads tid).releasing = false)
    (noRelease : ∀ call ∈ begins (s.threads tid) choice, call.isRelease = false)
    (calm : (∃ other, (s.threads other).releasing = true) →
      Calm s (s.threadStep cfg tid choice env)) :
    Mutes (s.threadStep cfg tid choice env) := by
  have now := act_kept cfg s.shared (s.threads tid) choice kept noRelease
  have before (muted : Muted (s.threadStep cfg tid choice env)) :
      Muted s ∧ ∀ call ∈ begins (s.threads tid) choice, call.drives = false := by
    have last : ((begins (s.threads tid) choice ++ s.begun).filter Call.drives).head? =
        some .release := muted.last
    have idly : ∀ call ∈ begins (s.threads tid) choice, call.drives = false := by
      intro call member
      rw [Bool.eq_false_iff]
      intro drives
      have single : begins (s.threads tid) choice = [call] := by
        obtain ⟨outside, made⟩ := mem_begins.mp member
        rw [outside, made, begins]
      rw [single, List.singleton_append, List.filter_cons_of_pos drives, List.head?_cons,
        Option.some.injEq] at last
      have other := noRelease call member
      rw [last] at other
      cases other
    have none : (begins (s.threads tid) choice).filter Call.drives = [] :=
      List.filter_eq_nil_iff.mpr fun call member => by rw [idly call member]; decide
    rw [List.filter_append, none, List.nil_append] at last
    refine ⟨⟨last, fun other => ?_⟩, idly⟩
    by_cases here : other = tid
    · rw [here]
      exact kept
    · have same := muted.returned other
      rwa [threadStep_threads, Function.update_of_ne here] at same
  have rest (muted : Muted (s.threadStep cfg tid choice env)) :=
    @act_rest cfg s.shared _ choice
      (Pc.idle_iff.mpr ⟨mutes.resting (before muted).1 tid, kept⟩) (before muted).2
  refine
    { raised := mutes.raised.thread
      progress := forall_update (fun other _ => ?_) (muting_of_kept now)
      silent := fun muted => ?_
      resting := fun muted => ?_ }
  · by_cases inside : (s.threads other).releasing = true
    · exact (calm ⟨other, inside⟩).muting (mutes.progress other)
    · exact muting_of_kept (Bool.eq_false_iff.mpr inside)
  · obtain ⟨-, mmio, req⟩ := rest muted
    exact (calm_thread mmio req).silent (mutes.silent (before muted).1)
  · exact forall_update (P := fun pc : Pc => pc.using = false)
      (fun other _ => mutes.resting (before muted).1 other) (Pc.idle_iff.mp (rest muted).1).1

/-- **Every step.** -/
theorem Mutes.step (mutes : Mutes s) (lifecycle : Lifecycle s) (step : FileStep cfg s label s')
    (met : CalledDisarmed s label) : Mutes s' := by
  obtain ⟨after, step, allowed⟩ := step
  cases step with
  | clock env => exact mutes.calm (calm_clock s env) (mutes.raised.clock env) rfl rfl
  | serve =>
      refine mutes.calm ⟨fun disarmed => disarmed.carry rfl .inr (.inl rfl), fun _ => rfl,
        fun _ => rfl⟩ ⟨mutes.raised.bufIrq, mutes.raised.entered⟩ rfl rfl
  | irq env enters =>
      exact mutes.calm (calm_irq s env enters) (mutes.raised.irq env enters) rfl rfl
  | thread tid choice env =>
      show Mutes (s.threadStep cfg tid choice env)
      -- a call that is not a release, while no file is open, is an open
      have quiet (files : s.files = 0) (idle : (s.threads tid).idle = true) :
          (∀ call ∈ begins (s.threads tid) choice, call = .open) ∧
            Calm s (s.threadStep cfg tid choice env) := by
        have opens : ∀ call ∈ begins (s.threads tid) choice, call = .open := by
          intro call member
          obtain ⟨outside, made⟩ := mem_begins.mp member
          exact (allowed outside).opens files call made
        obtain ⟨-, mmio, req⟩ := @act_rest cfg s.shared _ choice idle
          fun call member => by rw [opens call member]; rfl
        exact ⟨opens, calm_thread mmio req⟩
      have noRelease (opens : ∀ call ∈ begins (s.threads tid) choice, call = .open) :
          ∀ call ∈ begins (s.threads tid) choice, call.isRelease = false :=
        fun call member => by rw [opens call member]; rfl
      cases lifecycle with
      | closed lock files idle pid =>
          obtain ⟨opens, calm⟩ := quiet files (idle tid)
          exact mutes.other_step (Pc.idle_iff.mp (idle tid)).2 (noRelease opens) fun _ => calm
      | inUse lock files kept =>
          by_cases release : s.threads tid = .user ∧ choice = .call .release
          · obtain ⟨outside, rfl⟩ := release
            exact mutes.call_release outside (fun other _ => kept other) (met outside)
          · exact mutes.other_step (kept tid) (isRelease_of_mem_begins release)
              fun ⟨other, inside⟩ => absurd (inside.symm.trans (kept other)) (by decide)
      | releasing t lock files inside idle pid =>
          by_cases here : tid = t
          · subst here
            exact mutes.release_step inside idle
          · obtain ⟨opens, calm⟩ := quiet files (idle tid here)
            exact mutes.other_step (Pc.idle_iff.mp (idle tid here)).2 (noRelease opens)
              fun _ => calm

theorem mutes_of_reachable
    (reachable : ((fileSystem Tid cfg).guarded CalledDisarmed).Reachable s) : Mutes s := by
  induction reachable with
  | @start s initial =>
      have initial : FileInitial s := initial
      have notMuted : ¬ Muted s := by
        intro muted
        have last := muted.last
        rw [initial.begun] at last
        cases last
      refine ⟨⟨fun high => ?_, fun entered => ?_⟩, fun tid => muting_of_kept ?_,
        fun muted => absurd muted notMuted, fun muted => absurd muted notMuted⟩
      · rw [initial.hw] at high
        cases high
      · rw [initial.irq] at entered
        cases entered
      · rw [initial.threads tid]
        rfl
  | next reachable step ih =>
      exact ih.step (lifecycle_of_reachable reachable.of_guarded) step.1 step.2

/-- **A release mutes the device**, in every run in which each release is called
while the interrupt is disabled and no request is on its way: from its return
until the next call that sets the pid or writes, the output is off, the
interrupt is low and `sample.req` is 0. -/
theorem release_mute (reachable : ((fileSystem Tid cfg).guarded CalledDisarmed).Reachable s)
    (muted : Muted s) :
    s.hw.apu.apuEn = false ∧ s.hw.apu.bufIrq = false ∧ s.shared.req = 0 := by
  have silent := (mutes_of_reachable reachable).silent muted
  exact ⟨silent.apuEn, silent.bufIrq, silent.req⟩

end Runs

/-! ## Two sessions of one process -/

/-- The five steps of a release. -/
theorem reachable_release {meets : FileState Unit → Label Unit → Prop} {s : FileState Unit}
    (reachable : ((fileSystem Unit pageConfig).guarded meets).Reachable s)
    (outside : s.threads = fun _ => .user) (files : s.files = 1)
    (met : meets s (.thread () (.call .release) still))
    (on : ∀ s, meets s (.thread () .advance still)) :
    ∃ s', ((fileSystem Unit pageConfig).guarded meets).Reachable s' ∧
      s'.threads = (fun _ => .returned 0) ∧ s'.begun = .release :: s.begun ∧ s'.irq = s.irq ∧
      s'.hw = s.hw.clock (some (configStore 0)) still ∧
      s'.shared = { s.shared with pid := 0, req := 0, apuLock := 0 } := by
  obtain ⟨⟨shared, threads, irq, hw, begun, handed⟩, count⟩ := s
  obtain rfl : threads = fun _ => .user := outside
  have calling := reachable_thread reachable () (.call .release) still
    (fun _ => ⟨files ▸ Nat.one_pos, fun _ _ => rfl⟩) met
  have unset := reachable_advance calling () still (on _)
  have cleared := reachable_advance unset () still (on _)
  have muted := reachable_advance cleared () still (on _)
  have released := reachable_advance muted () still (on _)
  exact ⟨_, released, rfl, rfl, rfl, rfl, rfl⟩

/-- A release between the first interrupt and its answer. -/
theorem release_mute_asked : ∃ s : FileState Unit,
    ((fileSystem Unit pageConfig).guarded CalledDisarmed).Reachable s ∧ Muted s ∧
      s.hw.apu.apuEn = false ∧ s.hw.apu.bufIrq = false ∧ s.shared.req = 0 := by
  have met : ∀ (s : FileState Unit) choice, choice ≠ .fault → choice ≠ .call .release →
      CalledDisarmed s (.thread () choice still) := by
    intro s choice _ other
    cases choice with
    | call call =>
        cases call with
        | release => exact absurd rfl other
        | _ => trivial
    | _ => trivial
  obtain ⟨s, reachable, returned, begun, -⟩ := reachable_release
    (reachable_asked met (fun _ => trivial) (fun _ _ _ => trivial)) rfl rfl
    (fun _ => ⟨by decide, nofun⟩) (fun _ => trivial)
  have muted : Muted s := by
    refine ⟨by rw [begun]; rfl, fun tid => ?_⟩
    rw [returned]
    rfl
  exact ⟨s, reachable, muted, release_mute reachable muted⟩

/-- A release while the interrupt is enabled: after it has returned, without any
other call, the output is turned on and a request is left. -/
theorem release_not_mute : ∃ s : FileState Unit, (fileSystem Unit pageConfig).Reachable s ∧
    Muted s ∧ s.hw.apu.apuEn = true ∧ s.shared.req = 1 := by
  obtain ⟨s, reachable, returned, begun, irq, hw, shared⟩ :=
    @reachable_release (fun _ _ => True) _
      (@reachable_registered (fun _ _ => True) fun _ _ _ _ => trivial) rfl rfl trivial
      (fun _ => trivial)
  have raised : s.hw.apu.bufIrq = true := by
    rw [hw]
    rfl
  have idle : s.irq = .idle := irq
  have entered := reachable_irq reachable still (fun _ => raised) trivial
  have acknowledged := reachable_irq entered still (by rw [FileState.irqStep, idle]; nofun) trivial
  have requested := reachable_irq acknowledged still
    (by rw [FileState.irqStep, FileState.irqStep, idle]; nofun) trivial
  refine ⟨_, requested.of_guarded, ⟨?_, fun tid => ?_⟩, ?_, ?_⟩
  · show (s.begun.filter Call.drives).head? = some .release
    rw [begun]
    rfl
  · show (s.threads tid).releasing = false
    rw [returned]
    rfl
  · rw [FileState.irqStep, FileState.irqStep, FileState.irqStep, idle]
    rfl
  · rw [FileState.irqStep, FileState.irqStep, FileState.irqStep, idle]
    rfl

end FPGame.ApuDriver
