import FPGame.Kernel.ApuSession
import FPGame.Kernel.AudioStream

/-!
# The request for the next buffer

A request is outstanding while `sample.req` is 1 or the interrupt is enabled.
`apu_write` takes `sample.req` before it copies the user's bytes, and it enables
the interrupt when it has sent them, so a request goes round as long as no copy
faults (`request_outstanding`).

A copy that faults returns `-EFAULT` without either of the two: the request is
gone, and the interrupt that would bring the next one stays disabled
(`request_lost`).
-/

set_option autoImplicit false

namespace FPGame.ApuDriver

open FPGame.Foundation FPGame.Apu FPGame.Linux

/-- `copy_from_user` does not fault in the step. -/
def Copies {Tid : Type} (s : FileState Tid) : Label Tid → Prop
  | .thread tid .fault _ =>
      ∀ buf len half k, s.threads tid = .writeCopy buf len half k → len ≤ k
  | _ => True

/-- On the path after a fault. -/
def Pc.faulted : Pc → Bool
  | .writeClear _ _ | .writeFault => true
  | _ => false

/-- In no call. -/
def Pc.resting : Pc → Bool
  | .user | .returned _ => true
  | _ => false

theorem Pc.phase_of_resting {pc : Pc} (resting : pc.resting = true) : pc.phase = none := by
  cases pc <;> first | rfl | cases resting

section Threads

variable {cfg : Config} {sh : Shared} {pc : Pc} {choice : Choice}

/-- No thread faults whose copies do not. -/
theorem act_faulted (clean : pc.faulted = false)
    (copies : ∀ buf len half k, choice = .fault → pc = .writeCopy buf len half k → len ≤ k) :
    (act cfg sh pc choice).pc.faulted = false := by
  cases pc with
  | user =>
      obtain ⟨entered, step, entry⟩ := act_user cfg sh choice
      rw [step]
      cases entry <;> rfl
  | writeCopy buf len half k =>
      cases choice with
      | fault =>
          have ended : ¬ k < len := Nat.not_lt.mpr (copies buf len half k rfl rfl)
          rw [act, if_neg ended]
          rfl
      | _ =>
          simp only [act]
          split_ifs <;> rfl
  | writeClear | writeFault => cases clean
  | writeTry | writeReq | writePad =>
      simp only [act]
      split_ifs <;> rfl
  | _ => rfl

/-- A call that has taken the request goes on to send a buffer, and then it
requests the next interrupt and returns 0. -/
theorem act_phase (taken : pc.phase.isSome = true) (clean : pc.faulted = false)
    (copies : ∀ buf len half k, choice = .fault → pc = .writeCopy buf len half k → len ≤ k) :
    (act cfg sh pc choice).pc.phase.isSome = true ∨
      (act cfg sh pc choice).pc = .returned 0 ∧
        (act cfg sh pc choice).mmio = some (configStore (apuEnable ||| apuIrqReq)) := by
  cases pc with
  | ioctlEnable | writeEnable => exact .inr ⟨rfl, rfl⟩
  | ioctlPid | writeArg | writeSend | writeFlip | writeUnlock => exact .inl rfl
  | writeCopy buf len half k =>
      left
      cases choice with
      | fault =>
          have ended : ¬ k < len := Nat.not_lt.mpr (copies buf len half k rfl rfl)
          rw [act, if_neg ended]
          rfl
      | _ =>
          simp only [act]
          split_ifs <;> rfl
  | writePad =>
      left
      simp only [act]
      split_ifs <;> rfl
  | writeClear => cases clean
  | _ => cases taken

/-- A request that a step removes has been taken by the thread, or the APU is
being released. -/
theorem act_req (one : sh.req = 1) :
    (act cfg sh pc choice).shared.req = 1 ∨ (act cfg sh pc choice).pc.phase.isSome = true ∨
      pc = .releaseReq := by
  cases pc with
  | user =>
      obtain ⟨entered, step, -⟩ := act_user cfg sh choice
      rw [step]
      exact .inl one
  | writeReq buf len =>
      refine .inr (.inl ?_)
      simp only [act, one, ne_eq, not_true_eq_false, if_false]
      rfl
  | writeCopy buf len half k => cases choice <;> simp only [act] <;> split_ifs <;> exact .inl one
  | writeClear | writePad =>
      simp only [act]
      split_ifs <;> exact .inl one
  | releaseReq => exact .inr (.inr rfl)
  | _ => exact .inl one

/-- `sample.pid` is set by a thread that will request the interrupt. -/
theorem act_pid :
    (act cfg sh pc choice).shared.pid = sh.pid ∨ (act cfg sh pc choice).shared.pid = 0 ∨
      (act cfg sh pc choice).pc.phase.isSome = true := by
  cases pc with
  | user =>
      obtain ⟨entered, step, -⟩ := act_user cfg sh choice
      rw [step]
      exact .inl rfl
  | ioctlPid param => exact .inr (.inr rfl)
  | releasePid => exact .inr (.inl rfl)
  | writeCopy buf len half k => cases choice <;> simp only [act] <;> split_ifs <;> exact .inl rfl
  | writeClear | writePad =>
      simp only [act]
      split_ifs <;> exact .inl rfl
  | _ => exact .inl rfl

/-- No store of a thread acknowledges the interrupt. -/
theorem act_irqAck : irqAck (act cfg sh pc choice).mmio = false := by
  rcases act_mmio cfg sh pc choice with ⟨-, none | ⟨val, store⟩⟩ | ⟨buf, len, send⟩
  · rw [none]
    rfl
  · cases pc with
    | user =>
        obtain ⟨entered, step, -⟩ := act_user cfg sh choice
        rw [step]
        rfl
    | writeCopy buf len half k => cases choice <;> simp only [act] <;> split_ifs <;> rfl
    | writeClear | writePad =>
        simp only [act]
        split_ifs <;> rfl
    | _ => rfl
  · rw [send]
    rfl

/-- Without an acknowledgement the interrupt stays enabled. -/
theorem drive_irqEn {hw : Hardware} {mmio : Option Mmio} {env : Env} (noAck : irqAck mmio = false)
    (enabled : hw.apu.irqEn = true) : (drive hw mmio env).apu.irqEn = true := by
  cases mmio with
  | none => exact enabled
  | some store => simp [Hardware.clock, Apu.next, noAck, enabled]

end Threads

/-! ## The request goes round -/

section Runs

variable {Tid : Type} {s s' : FileState Tid} {label : Label Tid}

/-- Somebody will ask for the next buffer. -/
inductive Outstanding (s : FileState Tid) : Prop where
  | unregistered (pid : s.shared.pid = 0)
  | requested (req : s.shared.req = 1)
  | armed (enabled : s.hw.apu.irqEn = true)
  | acknowledged (irq : s.irq = .setReq)
  | taken (tid : Tid) (phase : (s.threads tid).phase.isSome = true)

variable [DecidableEq Tid] {cfg : Config}

theorem Outstanding.step (outstanding : Outstanding s) (lifecycle : Lifecycle s)
    (clean : ∀ tid, (s.threads tid).faulted = false) (step : FileStep cfg s label s')
    (copies : Copies s label) : Outstanding s' := by
  obtain ⟨after, step, allowed⟩ := step
  cases step with
  | serve =>
      cases outstanding with
      | unregistered pid => exact .unregistered pid
      | requested req => exact .requested req
      | armed enabled => exact .armed enabled
      | acknowledged irq => exact .acknowledged irq
      | taken tid phase => exact .taken tid phase
  | clock env =>
      cases outstanding with
      | unregistered pid => exact .unregistered pid
      | requested req => exact .requested req
      | armed enabled =>
          exact .armed ((next_of_no_control control_none).1.trans enabled)
      | acknowledged irq => exact .acknowledged irq
      | taken tid phase => exact .taken tid phase
  | irq env enters =>
      cases irq : s.irq with
      | ack => exact .acknowledged rfl
      | setReq => exact .requested (rfl)
      | idle | signal =>
          cases outstanding with
          | unregistered pid => exact .unregistered pid
          | requested req => exact .requested req
          | armed enabled => exact .armed enabled
          | acknowledged set => cases irq.symm.trans set
          | taken tid phase => exact .taken tid phase
  | thread tid choice env =>
      have faults : ∀ buf len half k, choice = .fault →
          s.threads tid = .writeCopy buf len half k → len ≤ k := by
        rintro buf len half k rfl here
        exact copies buf len half k here
      have mine (phase : (act cfg s.shared (s.threads tid) choice).pc.phase.isSome = true) :
          Outstanding (s.threadStep cfg tid choice env) :=
        .taken tid (by rw [threadStep_threads, Function.update_self, phase])
      show Outstanding (s.threadStep cfg tid choice env)
      cases outstanding with
      | unregistered pid =>
          rcases @act_pid cfg s.shared (s.threads tid) choice with same | zero | phase
          · exact .unregistered (same.trans pid)
          · exact .unregistered zero
          · exact mine phase
      | requested req =>
          rcases @act_req cfg s.shared (s.threads tid) choice req with same | phase | release
          · exact .requested same
          · exact mine phase
          · -- a release has reset the pid before
            have inside : (s.threads tid).releasing = true := by rw [release]; rfl
            cases lifecycle with
            | closed lock files idle pid =>
                exact absurd inside (by rw [(Pc.idle_iff.mp (idle tid)).2]; decide)
            | inUse lock files kept => exact absurd inside (by rw [kept tid]; decide)
            | releasing t lock files releasing idle pid =>
                obtain rfl : tid = t := by
                  by_contra others
                  exact absurd inside (by rw [(Pc.idle_iff.mp (idle tid others)).2]; decide)
                refine .unregistered ?_
                rw [threadStep_shared, release]
                exact pid.resolve_left (by rw [release]; nofun)
      | armed enabled => exact .armed (drive_irqEn act_irqAck enabled)
      | acknowledged irq => exact .acknowledged irq
      | taken other phase =>
          by_cases here : other = tid
          · subst here
            rcases @act_phase cfg s.shared _ _ phase (clean other) faults with
              still | ⟨-, mmio⟩
            · exact mine still
            · refine .armed ?_
              show (drive s.hw (act cfg s.shared (s.threads other) choice).mmio env).apu.irqEn = true
              rw [mmio]
              exact next_request.1
          · refine .taken other ?_
            rw [threadStep_threads, Function.update_of_ne here]
            exact phase

theorem clean_of_reachable (reachable : ((fileSystem Tid cfg).guarded Copies).Reachable s) :
    ∀ tid, (s.threads tid).faulted = false := by
  refine reachable.invariant (P := fun s => ∀ tid, (s.threads tid).faulted = false) ?_ ?_
  · intro s (initial : FileInitial s) tid
    rw [initial.threads tid]
    rfl
  · rintro s label s' clean ⟨⟨after, step, allowed⟩, copies⟩
    cases step with
    | thread tid choice env =>
        refine forall_update (P := fun pc : Pc => pc.faulted = false) (fun other _ => clean other)
          (act_faulted (clean tid) ?_)
        rintro buf len half k rfl here
        exact copies buf len half k here
    | _ => exact clean

theorem outstanding_of_reachable (reachable : ((fileSystem Tid cfg).guarded Copies).Reachable s) :
    Outstanding s := by
  induction reachable with
  | start initial => exact .unregistered initial.pid
  | next reachable step ih =>
      exact ih.step (lifecycle_of_reachable reachable.of_guarded) (clean_of_reachable reachable)
        step.1 step.2

/-- **No lost request.** In every run in which no copy of `apu_write` faults:

1. while the device is open with a callback pid, no call is running and the
   base queue is empty, `sample.req` is 1 or the interrupt is enabled or
   asserted;
2. a step that removes the request is the exchange of an `apu_write` that goes
   on, or a release;
3. a call that has taken the request goes on, or returns 0. -/
theorem request_outstanding (reachable : ((fileSystem Tid cfg).guarded Copies).Reachable s) :
    (0 < s.files → s.shared.pid ≠ 0 → (∀ tid, (s.threads tid).resting = true) → s.irq = .idle →
      s.hw.apu.queuedBaseValid = false →
      s.shared.req = 1 ∨ s.hw.apu.irqEn = true ∨ s.hw.apu.bufIrq = true) ∧
    ∀ tid choice env, Copies s (.thread tid choice env) →
      (s.shared.req = 1 → (act cfg s.shared (s.threads tid) choice).shared.req = 1 ∨
        (act cfg s.shared (s.threads tid) choice).pc.phase.isSome = true ∨
        s.threads tid = .releaseReq) ∧
      ((s.threads tid).phase.isSome = true →
        (act cfg s.shared (s.threads tid) choice).pc.phase.isSome = true ∨
        (act cfg s.shared (s.threads tid) choice).pc = .returned 0) := by
  refine ⟨fun _ registered resting idle _ => ?_, fun tid choice env copies =>
    ⟨act_req, fun taken => ?_⟩⟩
  · cases outstanding_of_reachable reachable with
    | unregistered pid => exact absurd pid registered
    | requested req => exact .inl req
    | armed enabled => exact .inr (.inl enabled)
    | acknowledged irq => cases idle.symm.trans irq
    | taken tid phase =>
        rw [Pc.phase_of_resting (resting tid)] at phase
        cases phase
  · refine (act_phase taken (clean_of_reachable reachable tid) ?_).imp_right And.left
    rintro buf len half k rfl here
    exact copies buf len half k here

end Runs

/-! ## A session of one process -/

/-- The circuit in which the interrupt has been requested once. -/
def armedHardware : Hardware :=
  Hardware.reset.clock (some (configStore (apuEnable ||| apuIrqReq))) still

/-- The circuit whose first interrupt has been acknowledged. -/
def acknowledgedHardware : Hardware :=
  (armedHardware.clock none still).clock (some (configStore (apuIrqAck ||| apuEnable))) still

/-- The process has opened the device and set its pid. -/
def registered : FileState Unit where
  shared := { loaded.shared with pid := 7, apuLock := 1 }
  threads _ := .user
  irq := .idle
  hw := armedHardware
  begun := [.ioctl ioctlApuSetCallbackPid 7, .open]
  handed := []
  files := 1

/-- The first interrupt has been handled. -/
def asked : FileState Unit :=
  { registered with
    shared := { loaded.shared with pid := 7, apuLock := 1, req := 1, signals := 1 }
    hw := acknowledgedHardware }

section Session

variable {meets : FileState Unit → Label Unit → Prop}

theorem reachable_registered
    (met : ∀ s choice, choice ≠ .fault → choice ≠ .call .release →
      meets s (.thread () choice still)) :
    ((fileSystem Unit pageConfig).guarded meets).Reachable registered := by
  have start : ((fileSystem Unit pageConfig).guarded meets).Reachable { loaded with files := 0 } :=
    .start { activeBuf := rfl, req := rfl, pid := rfl, apuLock := rfl, writeLock := rfl,
             threads := fun _ => rfl, irq := rfl, hw := rfl, begun := rfl, handed := rfl,
             files := rfl }
  have opening := reachable_thread start () (.call .open) still (fun _ => trivial)
    (met _ _ nofun nofun)
  have opened := reachable_advance opening () still (met _ _ nofun nofun)
  have owner := reachable_advance opened () still (met _ _ nofun nofun)
  have calling := reachable_thread owner () (.call (.ioctl ioctlApuSetCallbackPid 7)) still
    (fun _ => Nat.one_pos) (met _ _ nofun nofun)
  have stored := reachable_advance calling () still (met _ _ nofun nofun)
  have armed := reachable_advance stored () still (met _ _ nofun nofun)
  exact reachable_advance armed () still (met _ _ nofun nofun)

theorem reachable_asked
    (met : ∀ s choice, choice ≠ .fault → choice ≠ .call .release →
      meets s (.thread () choice still))
    (clock : ∀ s, meets s (.clock still))
    (irq : ∀ s, s.hw.apu.queuedBaseValid = false → (∀ tid, (s.threads tid).phase = none) →
      meets s (.irq still)) :
    ((fileSystem Unit pageConfig).guarded meets).Reachable asked := by
  have raised := reachable_clock (reachable_registered met) still (clock _)
  have entered := reachable_irq raised still (fun _ => rfl) (irq _ rfl fun _ => rfl)
  have acknowledged := reachable_irq entered still nofun (irq _ rfl fun _ => rfl)
  have requested := reachable_irq acknowledged still nofun (irq _ rfl fun _ => rfl)
  exact reachable_irq requested still nofun (irq _ rfl fun _ => rfl)

/-- A step that stores a byte of the half, or ends the loop that does. -/
theorem threadStep_filling (s : FileState Unit) {pc pc' : Pc} {ddr : ℕ → BitVec 8}
    (inside : pc.phase = some .filling) (notSend : handsOver pc = [])
    (out : act pageConfig s.shared pc .advance = ⟨{ s.shared with ddr := ddr }, pc', none⟩) :
    FileState.threadStep pageConfig { s with threads := fun _ => pc } () .advance still =
      { s with
        shared := { s.shared with ddr := ddr }
        threads := fun _ => pc' } := by
  have files : FileState.filesAfter { s with threads := fun _ => pc } (.thread () .advance still) =
      s.files := by
    cases pc <;> first | rfl | cases inside
  have silent : begins pc .advance = [] := by cases pc <;> rfl
  simp only [FileState.threadStep, State.after, out, files, silent, notSend, drive_none,
    List.nil_append, List.append_nil]
  congr 1

/-- A loop that stores to the half byte by byte. -/
theorem reachable_loop {place : ℕ → Pc} {last : Pc}
    (inside : ∀ k, (place k).phase = some .filling ∧ handsOver (place k) = [])
    (stores : ∀ sh k, k < apuBufSize → ∃ ddr,
      act pageConfig sh (place k) .advance = ⟨{ sh with ddr := ddr }, place (k + 1), none⟩)
    (ends : ∀ sh, act pageConfig sh (place apuBufSize) .advance = ⟨sh, last, none⟩)
    (met : ∀ s, meets s (.thread () .advance still)) (d k : ℕ) (rest : k + d = apuBufSize)
    {s : FileState Unit}
    (reachable : ((fileSystem Unit pageConfig).guarded meets).Reachable
      { s with threads := fun _ => place k }) :
    ∃ ddr, ((fileSystem Unit pageConfig).guarded meets).Reachable
      { s with
        shared := { s.shared with ddr := ddr }
        threads := fun _ => last } := by
  have next {k : ℕ} {s : FileState Unit} (reachable : ((fileSystem Unit pageConfig).guarded
      meets).Reachable { s with threads := fun _ => place k }) {pc : Pc} {ddr : ℕ → BitVec 8}
      (out : act pageConfig s.shared (place k) .advance =
        ⟨{ s.shared with ddr := ddr }, pc, none⟩) :
      ((fileSystem Unit pageConfig).guarded meets).Reachable
        { s with
          shared := { s.shared with ddr := ddr }
          threads := fun _ => pc } := by
    rw [← threadStep_filling s (inside k).1 (inside k).2 out]
    refine reachable_thread reachable () .advance still (fun outside => ?_) (met _)
    have phase := (inside k).1
    rw [show place k = .user from outside] at phase
    cases phase
  induction d generalizing k s with
  | zero =>
      obtain rfl : k = apuBufSize := rest
      exact ⟨_, next reachable (ends s.shared)⟩
  | succ d ih =>
      obtain ⟨ddr, out⟩ := stores s.shared k (by omega)
      exact @ih (k + 1) (by omega) { s with shared := { s.shared with ddr := ddr } }
        (next reachable out)

/-- An empty write that has taken the request, up to its return. -/
theorem reachable_write (met : ∀ s, meets s (.thread () .advance still)) {s : FileState Unit}
    (here : s.threads = fun _ => .writeArg beep 0)
    (reachable : ((fileSystem Unit pageConfig).guarded meets).Reachable s) :
    ∃ ddr, ((fileSystem Unit pageConfig).guarded meets).Reachable
      { s with
        shared :=
          { s.shared with
            activeBuf := !s.shared.activeBuf
            writeLock := 0
            ddr := ddr }
        threads := fun _ => .user
        hw := (s.hw.clock (some (bufStore (BitVec.ofNat 32
          (bufAddr pageConfig (!s.shared.activeBuf))))) still).clock
            (some (configStore (apuEnable ||| apuIrqReq))) still
        handed := s.handed ++ [zeroPadded beep 0] } := by
  have begun : ((fileSystem Unit pageConfig).guarded meets).Reachable
      { s with threads := fun _ => .writeArg beep 0 } := by
    rw [← here]
    exact reachable
  have copying := reachable_advance begun () still (met _)
  rw [threadStep_filling s rfl rfl rfl] at copying
  have padding := reachable_advance copying () still (met _)
  rw [threadStep_filling s rfl rfl rfl] at padding
  obtain ⟨ddr, filled⟩ := @reachable_loop meets (.writePad beep 0 (!s.shared.activeBuf))
    (.writeSend beep 0) (fun _ => ⟨rfl, rfl⟩) (fun sh k more => ⟨_, by rw [act, if_pos more]⟩)
    (fun sh => rfl) met 512 0 rfl s padding
  have sent := reachable_advance filled () still (met _)
  have flipped := reachable_advance sent () still (met _)
  have unlocked := reachable_advance flipped () still (met _)
  have armed := reachable_advance unlocked () still (met _)
  have returned := reachable_advance armed () still (met _)
  refine ⟨ddr, ?_⟩
  have kept : s.handed ++ [zeroPadded beep 0] =
      s.handed ++ [zeroPadded beep 0] ++ [] ++ [] ++ [] ++ [] := by
    simp only [List.append_nil]
  rw [kept]
  exact returned

/-- The next empty write, from a request to its exchange. -/
theorem reachable_writeArg
    (met : ∀ s choice, choice ≠ .fault → choice ≠ .call .release →
      meets s (.thread () choice still)) {s : FileState Unit} (here : s.threads = fun _ => .user) (files : 0 < s.files)
    (lock : s.shared.writeLock = 0) (one : s.shared.req = 1)
    (reachable : ((fileSystem Unit pageConfig).guarded meets).Reachable s) :
    ((fileSystem Unit pageConfig).guarded meets).Reachable
      { s with
        shared :=
          { s.shared with
            writeLock := 1
            req := 0 }
        threads := fun _ => .writeArg beep 0
        begun := .write (some beep) 0 :: s.begun } := by
  obtain ⟨⟨⟨activeBuf, req, pid, apuLock, writeLock, signals, ddr⟩, threads, irq, hw, begun, handed⟩,
    count⟩ := s
  obtain rfl : threads = fun _ => .user := here
  obtain rfl : writeLock = 0 := lock
  obtain rfl : req = 1 := one
  have calling := reachable_thread reachable () (.call (.write (some beep) 0)) still
    (fun _ => files) (met _ _ nofun nofun)
  have locked := reachable_advance calling () still (met _ _ nofun nofun)
  have taken := reachable_advance locked () still (met _ _ nofun nofun)
  have kept : handed = handed ++ [] ++ [] ++ [] := by simp only [List.append_nil]
  rw [kept]
  exact taken

end Session

/-- After the first buffer has been handed over, and its base taken by the fetcher. -/
theorem request_outstanding_written : ∃ s : FileState Unit,
    ((fileSystem Unit pageConfig).guarded Copies).Reachable s ∧ s.handed.length = 1 ∧
      s.hw.apu.queuedBaseValid = false ∧
      (s.shared.req = 1 ∨ s.hw.apu.irqEn = true ∨ s.hw.apu.bufIrq = true) := by
  have met : ∀ (s : FileState Unit) choice, choice ≠ .fault → choice ≠ .call .release →
      Copies s (.thread () choice still) := by
    intro s choice noFault _
    cases choice with
    | fault => exact absurd rfl noFault
    | _ => trivial
  have asked := reachable_asked met (fun _ => trivial) (fun _ _ _ => trivial)
  have first := reachable_writeArg met rfl Nat.one_pos rfl rfl asked
  obtain ⟨ddr, written⟩ := reachable_write (fun s => met s .advance nofun nofun) rfl first
  exact ⟨_, written, rfl, rfl, (request_outstanding written).1 Nat.one_pos
    (show (7 : ℕ) ≠ 0 by decide) (fun _ => rfl) rfl rfl⟩

/-- A write whose first byte faults silences the device: it is open with a
callback pid, no call is running and the queue is empty, and no request is
outstanding. -/
theorem request_lost : ∃ s : FileState Unit, (fileSystem Unit pageConfig).Reachable s ∧
    0 < s.files ∧ s.shared.pid ≠ 0 ∧ (∀ tid, s.threads tid = .returned (-EFAULT)) ∧
    s.irq = .idle ∧ s.hw.apu.queuedBaseValid = false ∧
    ¬ (s.shared.req = 1 ∨ s.hw.apu.irqEn = true ∨ s.hw.apu.bufIrq = true) := by
  have asked := @reachable_asked (fun _ _ => True) (fun _ _ _ _ => trivial) (fun _ => trivial)
    (fun _ _ _ => trivial)
  have calling := reachable_thread asked () (.call (.write (some beep) 1)) still
    (fun _ => Nat.one_pos) trivial
  have locked := reachable_advance calling () still trivial
  have taken := reachable_advance locked () still trivial
  have copying := reachable_advance taken () still trivial
  have faulted := reachable_thread copying () .fault still (fun _ => trivial) trivial
  obtain ⟨ddr, cleared⟩ := @reachable_loop (fun _ _ => True) (.writeClear true) .writeFault
    (fun _ => ⟨rfl, rfl⟩) (fun sh k more => ⟨_, by rw [act, if_pos more]⟩) (fun sh => rfl)
    (fun _ => trivial) 512 0 rfl _ faulted
  have returned := reachable_advance cleared () still trivial
  exact ⟨_, returned.of_guarded, Nat.one_pos, show (7 : ℕ) ≠ 0 by decide, fun _ => rfl, rfl, rfl,
    show ¬ ((0 : ℕ) = 1 ∨ false = true ∨ false = true) by decide⟩

end FPGame.ApuDriver
