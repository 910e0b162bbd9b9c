import FPGame.Kernel.AudioToken

/-!
# Sessions of the APU

The VFS around the APU driver: a call on a file is passed to the driver only
while a file is open, and a file is released once, when no call on it is
running. `apu_lock` sees to it that at most one file is open.

`Lifecycle` says which calls can be running: none but opens while nobody has
the APU, none that releases it while a file is open, and one release
otherwise, while nothing can set `sample.pid`.
-/

set_option autoImplicit false

namespace FPGame.ApuDriver

open FPGame.Foundation FPGame.Apu FPGame.Linux

/-! ## The VFS -/

/-- Inside a call that needs an open file. -/
def Pc.using : Pc → Bool
  | .ioctlPid _ | .ioctlEnable => true
  | .writeTry _ _ | .writeReq _ _ | .writeBusy | .writeArg _ _ | .writeCopy _ _ _ _ => true
  | .writeClear _ _ | .writeFault | .writePad _ _ _ _ | .writeSend _ _ => true
  | .writeFlip | .writeUnlock | .writeEnable => true
  | _ => false

/-- In no call, or in an open. -/
def Pc.idle (pc : Pc) : Bool := !pc.using && !pc.releasing

theorem Pc.idle_iff {pc : Pc} : pc.idle = true ↔ pc.using = false ∧ pc.releasing = false := by
  rw [Pc.idle, Bool.and_eq_true, Bool.not_eq_true', Bool.not_eq_true']

/-- The driver behind the VFS; `files` counts the open files. -/
structure FileState (Tid : Type) extends State Tid where
  files : ℕ

section System

variable {Tid : Type}

/-- The calls that the VFS lets a thread make. -/
def FileState.Admits (s : FileState Tid) : Choice → Prop
  | .call (.write _ _) | .call (.ioctl _ _) => 0 < s.files
  | .call .release => 0 < s.files ∧ (s.files = 1 → ∀ tid, (s.threads tid).using = false)
  | _ => True

/-- The VFS admits the call that a step makes, if any. -/
def FileState.Allows (s : FileState Tid) : Label Tid → Prop
  | .thread tid choice _ => s.threads tid = .user → s.Admits choice
  | _ => True

/-- The open files after a step: an open that takes the lock adds one, and the
call of a release takes one away. -/
def FileState.filesAfter (s : FileState Tid) : Label Tid → ℕ
  | .thread tid choice _ =>
      match s.threads tid, choice with
      | .openTry, _ => if s.shared.apuLock = 0 then s.files + 1 else s.files
      | .user, .call .release => s.files - 1
      | _, _ => s.files
  | _ => s.files

variable [DecidableEq Tid]

/-- The steps of the driver that the VFS allows. -/
inductive FileStep (cfg : Config) : FileState Tid → Label Tid → FileState Tid → Prop where
  | step (s : FileState Tid) (label : Label Tid) (after : State Tid)
      (step : Step cfg s.toState label after) (allowed : s.Allows label) :
      FileStep cfg s label { after with files := s.filesAfter label }

/-- The driver after `apu_probe`, with no file open. -/
structure FileInitial (s : FileState Tid) : Prop extends Initial s.toState where
  files : s.files = 0

/-- The transition system of the driver behind the VFS. -/
def fileSystem (Tid : Type) [DecidableEq Tid] (cfg : Config) :
    Transitions (FileState Tid) (Label Tid) where
  initial := FileInitial
  step := FileStep cfg

end System

/-! ## What a thread can do -/

section Threads

variable {cfg : Config} {sh : Shared} {pc : Pc} {choice : Choice}

theorem mem_begins {call : Call} :
    call ∈ begins pc choice ↔ pc = .user ∧ choice = .call call := by
  constructor
  · intro member
    cases pc with
    | user =>
        cases choice with
        | call made => exact ⟨rfl, by rw [List.mem_singleton.mp member]⟩
        | _ => cases member
    | _ => cases member
  · rintro ⟨rfl, rfl⟩
    exact List.mem_singleton_self call

/-- A step that does not call a release. -/
theorem isRelease_of_mem_begins (other : ¬ (pc = .user ∧ choice = .call .release)) (call : Call)
    (member : call ∈ begins pc choice) : call.isRelease = false := by
  obtain ⟨outside, made⟩ := mem_begins.mp member
  cases call with
  | release => exact absurd ⟨outside, made⟩ other
  | _ => rfl

/-- A thread without a file can do nothing but take the lock. -/
theorem act_idle (idle : pc.idle = true)
    (opens : pc = .user → ∀ call, choice = .call call → call = .open) :
    (act cfg sh pc choice).pc.idle = true ∧ (act cfg sh pc choice).mmio = none ∧
      (act cfg sh pc choice).shared =
        { sh with apuLock := if pc matches .openTry then 1 else sh.apuLock } := by
  cases pc with
  | user =>
      cases choice with
      | call call =>
          obtain rfl := opens rfl call rfl
          exact ⟨rfl, rfl, rfl⟩
      | advance | fault => exact ⟨rfl, rfl, rfl⟩
  | openTry | returned => exact ⟨rfl, rfl, rfl⟩
  | _ => cases idle

/-- Nobody but a release resets `apu_lock`. -/
theorem act_apuLock (kept : pc.releasing = false) (held : sh.apuLock = 1) :
    (act cfg sh pc choice).shared.apuLock = 1 := by
  cases pc with
  | user =>
      obtain ⟨entered, step, -⟩ := act_user cfg sh choice
      rw [step]
      exact held
  | writeCopy buf len half k =>
      cases choice <;> simp only [act] <;> split_ifs <;> exact held
  | writeClear | writePad =>
      simp only [act]
      split_ifs <;> exact held
  | releasePid | releaseReq | releaseMute | releaseTry => cases kept
  | openTry => rfl
  | _ => exact held

end Threads

/-! ## The lifecycle -/

section Lifecycle

variable {Tid : Type}

/-- Who may be inside the driver. -/
inductive Lifecycle (s : FileState Tid) : Prop where
  /-- Nobody has the APU. -/
  | closed (lock : s.shared.apuLock = 0) (files : s.files = 0)
      (idle : ∀ tid, (s.threads tid).idle = true) (pid : s.shared.pid = 0)
  /-- A file is open. -/
  | inUse (lock : s.shared.apuLock = 1) (files : s.files = 1)
      (kept : ∀ tid, (s.threads tid).releasing = false)
  /-- A release is under way. -/
  | releasing (tid : Tid) (lock : s.shared.apuLock = 1) (files : s.files = 0)
      (inside : (s.threads tid).releasing = true)
      (idle : ∀ other, other ≠ tid → (s.threads other).idle = true)
      (pid : s.threads tid = .releasePid ∨ s.shared.pid = 0)

variable {cfg : Config} {s s' : FileState Tid} {label : Label Tid}

/-- A step that is not one of a thread. -/
theorem Lifecycle.frame (lifecycle : Lifecycle s) {after : FileState Tid}
    (lock : after.shared.apuLock = s.shared.apuLock) (pid : after.shared.pid = s.shared.pid)
    (threads : after.threads = s.threads) (files : after.files = s.files) : Lifecycle after := by
  cases lifecycle with
  | closed free none idle unset =>
      exact .closed (lock.trans free) (files.trans none) (by rwa [threads]) (pid.trans unset)
  | inUse held one kept => exact .inUse (lock.trans held) (files.trans one) (by rwa [threads])
  | releasing tid held none inside idle unset =>
      exact .releasing tid (lock.trans held) (files.trans none) (by rwa [threads])
        (by rwa [threads]) (by rwa [threads, pid])

/-- Without an open file, the VFS lets a thread call nothing but open. -/
theorem FileState.Admits.opens {choice : Choice} (admits : s.Admits choice) (closed : s.files = 0)
    (call : Call) (made : choice = .call call) : call = .open := by
  subst made
  cases call with
  | «open» => rfl
  | write | ioctl => exact absurd admits (by simp [FileState.Admits, closed])
  | release => exact absurd admits.1 (by simp [closed])

/-- A step of a thread without a file, while no file is open. -/
theorem Lifecycle.idle_step (cfg : Config) {tid : Tid} {choice : Choice} (files : s.files = 0)
    (allowed : s.threads tid = .user → s.Admits choice) (idle : (s.threads tid).idle = true) :
    (act cfg s.shared (s.threads tid) choice).pc.idle = true ∧
      (act cfg s.shared (s.threads tid) choice).shared.pid = s.shared.pid := by
  obtain ⟨now, -, shared⟩ := @act_idle cfg s.shared _ choice idle
    fun outside call made => (allowed outside).opens files call made
  exact ⟨now, by rw [shared]⟩

variable [DecidableEq Tid] {tid : Tid} {choice : Choice} {env : Env}

/-- The state after a step of a thread. -/
def FileState.threadStep (cfg : Config) (s : FileState Tid) (tid : Tid) (choice : Choice)
    (env : Env) : FileState Tid where
  toState := s.after tid choice (act cfg s.shared (s.threads tid) choice) env
  files := s.filesAfter (.thread tid choice env)

@[simp] theorem threadStep_shared : (s.threadStep cfg tid choice env).shared =
    (act cfg s.shared (s.threads tid) choice).shared := rfl

@[simp] theorem threadStep_threads : (s.threadStep cfg tid choice env).threads =
    Function.update s.threads tid (act cfg s.shared (s.threads tid) choice).pc := rfl

@[simp] theorem threadStep_files :
    (s.threadStep cfg tid choice env).files = s.filesAfter (.thread tid choice env) := rfl

theorem Lifecycle.closed_step (lock : s.shared.apuLock = 0) (files : s.files = 0)
    (idle : ∀ other, (s.threads other).idle = true) (pid : s.shared.pid = 0)
    (allowed : s.threads tid = .user → s.Admits choice) :
    Lifecycle (s.threadStep cfg tid choice env) := by
  obtain ⟨now, same⟩ := Lifecycle.idle_step cfg files allowed (idle tid)
  have threads : ∀ other, ((s.threadStep cfg tid choice env).threads other).idle = true :=
    forall_update (P := fun pc : Pc => pc.idle = true) (fun other _ => idle other) now
  cases here : s.threads tid with
  | openTry =>
      refine .inUse ?_ ?_ fun other => (Pc.idle_iff.mp (threads other)).2
      · simp only [threadStep_shared, here, act]
      · simp only [threadStep_files, FileState.filesAfter, here, lock, if_true, files]
  | user =>
      refine .closed ?_ ?_ threads (same.trans pid)
      · have opens := allowed here
        rw [threadStep_shared, here]
        cases choice with
        | call call =>
            obtain rfl := opens.opens files call rfl
            exact lock
        | _ => exact lock
      · have opens := allowed here
        simp only [threadStep_files, FileState.filesAfter, here]
        cases choice with
        | call call =>
            obtain rfl := opens.opens files call rfl
            exact files
        | _ => exact files
  | returned ret =>
      refine .closed ?_ ?_ threads (same.trans pid)
      · rw [threadStep_shared, here]
        exact lock
      · simp only [threadStep_files, FileState.filesAfter, here, files]
  | _ =>
      have inside := idle tid
      rw [here] at inside
      cases inside

theorem Lifecycle.inUse_step (lock : s.shared.apuLock = 1) (files : s.files = 1)
    (kept : ∀ other, (s.threads other).releasing = false)
    (allowed : s.threads tid = .user → s.Admits choice) :
    Lifecycle (s.threadStep cfg tid choice env) := by
  by_cases release : s.threads tid = .user ∧ choice = .call .release
  · obtain ⟨outside, made⟩ := release
    subst made
    -- the last reference is gone, so no call is running
    obtain ⟨-, alone⟩ := allowed outside
    refine .releasing tid ?_ ?_ ?_ (fun other others => ?_) (.inl ?_)
    · rw [threadStep_shared, outside]
      exact lock
    · simp only [threadStep_files, FileState.filesAfter, outside, files]
    · rw [threadStep_threads, Function.update_self, outside]
      rfl
    · rw [threadStep_threads, Function.update_of_ne others]
      exact Pc.idle_iff.mpr ⟨alone files other, kept other⟩
    · rw [threadStep_threads, Function.update_self, outside]
      rfl
  · have noRelease := isRelease_of_mem_begins release
    refine .inUse (act_apuLock (kept tid) lock) ?_
      (forall_update (P := fun pc : Pc => pc.releasing = false) (fun other _ => kept other)
        (act_kept cfg s.shared (s.threads tid) choice (kept tid) noRelease))
    rw [threadStep_files]
    cases outside : s.threads tid with
    | user =>
        cases choice with
        | call made =>
            cases made with
            | release => exact absurd ⟨outside, rfl⟩ release
            | _ => simp only [FileState.filesAfter, outside, files]
        | _ => simp only [FileState.filesAfter, outside, files]
    | openTry => simp only [FileState.filesAfter, outside, lock, one_ne_zero, if_false, files]
    | _ => simp only [FileState.filesAfter, outside, files]

theorem Lifecycle.releasing_step {t : Tid} (lock : s.shared.apuLock = 1) (files : s.files = 0)
    (inside : (s.threads t).releasing = true)
    (idle : ∀ other, other ≠ t → (s.threads other).idle = true)
    (pid : s.threads t = .releasePid ∨ s.shared.pid = 0)
    (allowed : s.threads tid = .user → s.Admits choice) :
    Lifecycle (s.threadStep cfg tid choice env) := by
  by_cases here : tid = t
  · subst here
    have on {pc : Pc} (now : (act cfg s.shared (s.threads tid) choice).pc = pc)
        (still : pc.releasing = true)
        (held : (act cfg s.shared (s.threads tid) choice).shared.apuLock = 1)
        (unset : (act cfg s.shared (s.threads tid) choice).shared.pid = 0)
        (count : s.filesAfter (.thread tid choice env) = 0) :
        Lifecycle (s.threadStep cfg tid choice env) := by
      refine .releasing tid held count ?_ (fun other others => ?_) (.inr unset)
      · rw [threadStep_threads, Function.update_self, now]
        exact still
      · rw [threadStep_threads, Function.update_of_ne others]
        exact idle other others
    cases place : s.threads tid with
    | releasePid =>
        exact on (by rw [place]) rfl (by rw [place]; exact lock) (by rw [place]; rfl)
          (by simp only [FileState.filesAfter, place, files])
    | releaseReq =>
        have unset := pid.resolve_left (by rw [place]; nofun)
        exact on (by rw [place]) rfl (by rw [place]; exact lock) (by rw [place]; exact unset)
          (by simp only [FileState.filesAfter, place, files])
    | releaseMute =>
        have unset := pid.resolve_left (by rw [place]; nofun)
        exact on (by rw [place]) rfl (by rw [place]; exact lock) (by rw [place]; exact unset)
          (by simp only [FileState.filesAfter, place, files])
    | releaseTry =>
        have unset := pid.resolve_left (by rw [place]; nofun)
        refine .closed ?_ ?_ (forall_update (P := fun pc : Pc => pc.idle = true) idle ?_) ?_
        · rw [threadStep_shared, place]
          rfl
        · simp only [threadStep_files, FileState.filesAfter, place, files]
        · rw [place]
          rfl
        · rw [threadStep_shared, place]
          exact unset
    | _ =>
        rw [place] at inside
        cases inside
  · obtain ⟨now, same⟩ := Lifecycle.idle_step cfg files allowed (idle tid here)
    have others : s.threads tid = .user → ∀ call, choice = .call call → call = .open :=
      fun outside => (allowed outside).opens files
    refine .releasing t (act_apuLock (Pc.idle_iff.mp (idle tid here)).2 lock) ?_ ?_
      (forall_ne_update (P := fun pc : Pc => pc.idle = true) idle now) ?_
    · rw [threadStep_files]
      cases outside : s.threads tid with
      | user =>
          cases choice with
          | call made =>
              obtain rfl := others outside made rfl
              simp only [FileState.filesAfter, outside, files]
          | _ => simp only [FileState.filesAfter, outside, files]
      | openTry => simp only [FileState.filesAfter, outside, lock, one_ne_zero, if_false, files]
      | _ => simp only [FileState.filesAfter, outside, files]
    · rw [threadStep_threads, Function.update_of_ne (Ne.symm here)]
      exact inside
    · rw [threadStep_threads, Function.update_of_ne (Ne.symm here), threadStep_shared, same]
      exact pid

/-- **The lifecycle goes on.** -/
theorem Lifecycle.step (lifecycle : Lifecycle s) (step : FileStep cfg s label s') :
    Lifecycle s' := by
  obtain ⟨after, step, allowed⟩ := step
  cases step with
  | clock env => exact lifecycle.frame rfl rfl rfl rfl
  | serve => exact lifecycle.frame rfl rfl rfl rfl
  | irq env enters =>
      refine lifecycle.frame ?_ ?_ rfl rfl
      · cases s.irq <;> rfl
      · cases s.irq <;> rfl
  | thread tid choice env =>
      cases lifecycle with
      | closed lock files idle pid => exact Lifecycle.closed_step lock files idle pid allowed
      | inUse lock files kept => exact Lifecycle.inUse_step lock files kept allowed
      | releasing t lock files inside idle pid =>
          exact Lifecycle.releasing_step lock files inside idle pid allowed

theorem lifecycle_of_reachable (reachable : (fileSystem Tid cfg).Reachable s) : Lifecycle s := by
  refine reachable.invariant (P := Lifecycle) ?_ fun s label s' lifecycle step =>
    lifecycle.step step
  intro s (initial : FileInitial s)
  refine .closed initial.apuLock initial.files (fun tid => ?_) initial.pid
  rw [initial.threads tid]
  rfl

end Lifecycle

/-! ## Runs step by step -/

section Runs

variable {Tid : Type} [DecidableEq Tid] {cfg : Config} {s s' : FileState Tid}
  {meets : FileState Tid → Label Tid → Prop}

/-- The driver takes the same steps without the VFS. -/
theorem reachable_driver {meets : State Tid → Label Tid → Prop}
    (reachable : ((fileSystem Tid cfg).guarded fun s => meets s.toState).Reachable s) :
    ((driver Tid cfg).guarded meets).Reachable s.toState := by
  induction reachable with
  | start starts => exact .start (FileInitial.toInitial starts)
  | next _ step ih =>
      obtain ⟨step, met⟩ := step
      cases step with
      | step after step allowed => exact ih.next ⟨step, met⟩

theorem reachable_thread (reachable : ((fileSystem Tid cfg).guarded meets).Reachable s) (tid : Tid)
    (choice : Choice) (env : Env) (allowed : s.threads tid = .user → s.Admits choice)
    (met : meets s (.thread tid choice env)) :
    ((fileSystem Tid cfg).guarded meets).Reachable (s.threadStep cfg tid choice env) :=
  reachable.next ⟨.step s _ _ (.thread s.toState tid choice env) allowed, met⟩

/-- A thread goes on, whatever the open files are. -/
theorem reachable_advance (reachable : ((fileSystem Tid cfg).guarded meets).Reachable s)
    (tid : Tid) (env : Env) (met : meets s (.thread tid .advance env)) :
    ((fileSystem Tid cfg).guarded meets).Reachable (s.threadStep cfg tid .advance env) :=
  reachable_thread reachable tid .advance env (fun _ => trivial) met

/-- The state after a clock without a store. -/
def FileState.clockStep (s : FileState Tid) (env : Env) : FileState Tid :=
  { s with hw := s.hw.clock none env }

theorem reachable_clock (reachable : ((fileSystem Tid cfg).guarded meets).Reachable s) (env : Env)
    (met : meets s (.clock env)) :
    ((fileSystem Tid cfg).guarded meets).Reachable (s.clockStep env) :=
  reachable.next ⟨.step s _ _ (.clock s.toState env) trivial, met⟩

/-- The state after a step of the handler. -/
def FileState.irqStep (s : FileState Tid) (env : Env) : FileState Tid :=
  { s with
    shared := irqShared s.shared s.irq
    irq := irqPc s.irq
    hw := drive s.hw (irqMmio s.irq) env }

theorem reachable_irq (reachable : ((fileSystem Tid cfg).guarded meets).Reachable s) (env : Env)
    (enters : s.irq = .idle → s.hw.apu.bufIrq = true) (met : meets s (.irq env)) :
    ((fileSystem Tid cfg).guarded meets).Reachable (s.irqStep env) :=
  reachable.next ⟨.step s _ _ (.irq s.toState env enters) trivial, met⟩

end Runs

end FPGame.ApuDriver
