import FPGame.Kernel.PpuSession

/-!
# What the next owner of the PPU finds

`ppu_release` waits for the transfer in flight, clears the buffer and the
registers, sends the cleared buffer and waits again. It follows that it leaves
the PPU `blank`, and nobody can touch it before the process that opens it next
has its descriptor (`owner_isolation`).
-/

set_option autoImplicit false

namespace FPGame.PpuDriver

open FPGame.Foundation FPGame.Linux

section Steps

variable {Tid : Type} [DecidableEq Tid] {cfg : Config} {s : FileState Tid} {tid : Tid}
  {choice : Choice} {owner : Owner Tid}

/-! ## The release -/

/-- One more byte is cleared. -/
theorem Cleared.store {sh : Shared} {k : ℕ} (cleared : Cleared k sh) :
    Cleared (k + 1) { sh with vram := store sh.vram true k 0 } := by
  intro a within
  by_cases here : a = k
  · subst here
    exact Function.update_self a 0 sh.vram
  · rw [store_true]
    simp only [Function.update_of_ne here]
    exact cleared a (by omega)

/-- One more register is reset. -/
theorem Reset.mmioWrite {sh : Shared} {k offset : ℕ} (reset : Reset k sh)
    (following : resetOffsets[k]? = some offset) : Reset (k + 1) (mmioWrite sh offset 0) := by
  intro other listed
  by_cases here : other = offset
  · subst here
    exact Function.update_self other 0 sh.mmio
  · simp only [PpuDriver.mmioWrite, Function.update_of_ne here]
    apply reset
    rw [List.take_add_one, following, List.mem_append] at listed
    exact listed.resolve_right (by simpa using here)

theorem Reset.all {sh : Shared} {k : ℕ} (reset : Reset k sh)
    (ended : resetOffsets[k]? = none) : Reset 4 sh := by
  have past : resetOffsets.length ≤ k := List.getElem?_eq_none_iff.mp ended
  intro offset listed
  apply reset
  rw [List.take_of_length_le past]
  exact List.mem_of_mem_take listed

/-- The start of a transfer resets no register. -/
theorem Reset.update {sh : Shared} {n : ℕ} {address : BitVec 32} (reset : Reset n sh) :
    Reset n (PpuDriver.mmioWrite sh ppuDmaAddrOffset address) := by
  intro offset listed
  obtain ⟨k, at_k⟩ := List.getElem?_of_mem (List.mem_of_mem_take listed)
  simp only [PpuDriver.mmioWrite, Function.update_of_ne (resetOffsets_ne at_k)]
  exact reset offset listed

/-- A step of the releasing thread that stays inside the release. -/
theorem Stage.release_on (waiting : ∀ other, other ≠ tid → (s.threads other).Waiting)
    (lock : (act cfg s.shared (s.threads tid) choice).1.ppuLock = 1)
    (call : (act cfg s.shared (s.threads tid) choice).2.call = .release)
    (files : filesAfter s.files (s.threads tid) choice = 0)
    (progress : (s.threadStep cfg tid choice).Releasing
      (act cfg s.shared (s.threads tid) choice).2.pc) : Stage (s.threadStep cfg tid choice) := by
  refine .releasing tid lock files ?_ ?_ fun other others => ?_
  · simpa only [FileState.threadStep, Function.update_self] using call
  · have here : ((s.threadStep cfg tid choice).threads tid).pc =
        (act cfg s.shared (s.threads tid) choice).2.pc := by
      simp only [FileState.threadStep, Function.update_self]
    rw [here]
    exact progress
  · simp only [FileState.threadStep, Function.update_of_ne others]
    exact waiting other others

/-- **The step of a release.** -/
theorem Stage.release_step (owned : Owned owner s.toState) (lock : s.shared.ppuLock = 1)
    (files : s.files = 0) (call : (s.threads tid).call = .release)
    (progress : s.Releasing (s.threads tid).pc)
    (waiting : ∀ other, other ≠ tid → (s.threads other).Waiting) :
    Stage (s.threadStep cfg tid choice) := by
  -- a thread in a locked section excludes a transfer
  have idle : (s.threads tid).pc.locked = true → s.shared.pending = 0 := by
    intro locked
    obtain rfl := owned.eq_thread locked
    exact owned.pending
  have free : ¬ s.shared.vramLock = 1 → s.shared.pending = 0 := by
    intro notHeld
    have lockWord := owned.lock
    rw [owned.pending]
    cases owner with
    | nobody => rfl
    | _ => exact absurd lockWord notHeld
  cases here : (s.threads tid).pc with
  | releaseTest =>
      refine Stage.release_on waiting ?_ ?_ ?_ ?_
      · simp only [act, here]
      · simp only [act, here, call]
      · simp only [filesAfter, here, files]
      · simp only [act, here, lock, one_ne_zero, if_false]
        trivial
  | releaseSpin =>
      refine Stage.release_on waiting ?_ ?_ ?_ ?_
      · simp only [act, here]
        split_ifs <;> exact lock
      · simp only [act, here]
        split_ifs <;> exact call
      · simp only [filesAfter, here, files]
      · by_cases busy : s.shared.vramLock = 1
        · simp only [act, here, if_pos busy]
          trivial
        · simp only [act, here, if_neg busy]
          exact ⟨Nat.zero_le _, fun a none => absurd none (Nat.not_lt_zero a)⟩
  | releaseMemset k =>
      rw [here] at progress
      obtain ⟨within, cleared⟩ := progress
      refine Stage.release_on waiting ?_ ?_ ?_ ?_
      · simp only [act, here]
        split_ifs <;> exact lock
      · simp only [act, here]
        split_ifs <;> exact call
      · simp only [filesAfter, here, files]
      · by_cases more : k < vramSize + 8
        · simp only [act, here, if_pos more, FileState.Releasing, FileState.threadStep]
          exact ⟨more, cleared.store⟩
        · simp only [act, here, if_neg more, FileState.Releasing, FileState.threadStep]
          have ended : k = allocSize := Nat.le_antisymm within (not_lt.mp more)
          exact ⟨ended ▸ cleared, fun offset listed => absurd listed (by simp)⟩
  | releaseMmio k =>
      rw [here] at progress
      obtain ⟨cleared, reset⟩ := progress
      cases following : resetOffsets[k]? with
      | none =>
          refine Stage.release_on waiting ?_ ?_ ?_ ?_
          · simp only [act, here, following, lock]
          · simp only [act, here, following, call]
          · simp only [filesAfter, here, files]
          · simp only [act, here, following, FileState.Releasing, FileState.threadStep]
            exact ⟨cleared, reset.all following⟩
      | some offset =>
          refine Stage.release_on waiting ?_ ?_ ?_ ?_
          · simp only [act, here, following]
            exact lock
          · simp only [act, here, following, call]
          · simp only [filesAfter, here, files]
          · simp only [act, here, following, FileState.Releasing, FileState.threadStep]
            exact ⟨cleared, reset.mmioWrite following⟩
  | releaseUpdate =>
      rw [here] at progress
      obtain ⟨cleared, reset⟩ := progress
      have starts : (act cfg s.shared (s.threads tid) choice).1 =
          mmioWrite s.shared ppuDmaAddrOffset cfg.vramAddrP := by simp only [act, here]
      refine Stage.release_on waiting ?_ ?_ ?_ ?_
      · rw [starts]
        exact lock
      · simp only [act, here, call]
      · simp only [filesAfter, here, files]
      · have one := mmioWrite_pending s.shared cfg.vramAddrP
        have fresh : s.shared.pending < (mmioWrite s.shared ppuDmaAddrOffset
            cfg.vramAddrP).pending := by omega
        simp only [act, here, FileState.Releasing, FileState.threadStep]
        refine ⟨cleared, reset.update, ?_, fun none => ?_⟩
        · intro a b fetched
          rw [if_pos fresh] at fetched
          cases fetched
        · exact absurd none (by omega)
  | releaseSpinAgain =>
      rw [here] at progress
      obtain ⟨cleared, reset, soFar, dark⟩ := progress
      by_cases busy : s.shared.vramLock = 1
      · refine Stage.release_on waiting ?_ ?_ ?_ ?_
        · simp only [act, here, if_pos busy, lock]
        · simp only [act, here, if_pos busy, call]
        · simp only [filesAfter, here, files]
        · simp only [act, here, if_pos busy, FileState.Releasing, FileState.threadStep, lt_irrefl,
            if_false]
          exact ⟨cleared, reset, soFar, dark⟩
      · -- the lock is free, so the transfer has been acknowledged
        refine Stage.release_on waiting ?_ ?_ ?_ ?_
        · simp only [act, here, if_neg busy, lock]
        · simp only [act, here, if_neg busy, call]
        · simp only [filesAfter, here, files]
        · simp only [act, here, if_neg busy, FileState.Releasing, FileState.threadStep]
          exact ⟨cleared, reset, dark (free busy)⟩
  | releaseVram =>
      have pending := idle (by rw [here]; rfl)
      rw [here] at progress
      obtain ⟨cleared, reset, dark⟩ := progress
      refine Stage.release_on waiting ?_ ?_ ?_ ?_
      · simp only [act, here, lock]
      · simp only [act, here, call]
      · simp only [filesAfter, here, files]
      · simp only [act, here, FileState.Releasing, FileState.threadStep]
        exact ⟨cleared, reset, rfl, pending, dark⟩
  | releasePpu =>
      rw [here] at progress
      have isBlank : Blank s := progress
      refine .closed ?_ ?_ (forall_update waiting ?_) (fun _ => isBlank.carry ?_ ?_ ?_ ?_ rfl)
        fun other => ?_
      · simp only [FileState.threadStep, act, here]
      · simp only [FileState.threadStep, filesAfter, here, files]
      · refine .ended 0 ?_ fun isOpen => ?_
        · simp only [act, here]
        · simp only [act, here, call] at isOpen
          cases isOpen
      · simp only [FileState.threadStep, act, here]
      · simp only [FileState.threadStep, act, here]
      · simp only [FileState.threadStep, act, here]
      · simp only [FileState.threadStep, act, here]
      · simp [FileState.threadStep, here, eventOf]
  | _ =>
      rw [here] at progress
      cases progress

end Steps

/-! ## Every run -/

section Runs

variable {Tid : Type} {alloc : Allocation} {s s' : FileState Tid} {label : FileLabel Tid}
  {owner : Owner Tid}

/-- The device fetches a byte. -/
theorem Stage.fetch (stage : Stage s) (inFlight : 0 < s.shared.pending) {a : ℕ}
    (inside : a < vramSize) : Stage (s.fetchStep alloc a) := by
  have notBlank : (s.Released → Blank s) → ¬ s.Released := fun isBlank released =>
    inFlight.ne' (isBlank released).pending
  cases stage with
  | closed lock files waiting isBlank last =>
      exact .closed lock files waiting (fun released => absurd released (notBlank isBlank)) last
  | opening tid lock files granted waiting isBlank =>
      exact .opening tid lock files granted waiting
        fun released => absurd released (notBlank isBlank)
  | inUse lock files threads => exact .inUse lock files threads
  | releasing tid lock files call progress waiting =>
      refine .releasing tid lock files call ?_ waiting
      show FileState.Releasing _ (s.threads tid).pc
      cases here : (s.threads tid).pc with
      | releaseSpinAgain =>
          rw [here] at progress
          obtain ⟨cleared, reset, soFar, dark⟩ := progress
          refine ⟨cleared, reset, fun b byte fetched => ?_, dark⟩
          simp only [FileState.fetchStep] at fetched
          by_cases this : b = a
          · subst this
            rw [Function.update_self, alloc.fetch_cleared cleared inside] at fetched
            exact (Option.some.inj fetched).symm
          · rw [Function.update_of_ne this] at fetched
            exact soFar b byte fetched
      | releasePpu =>
          rw [here] at progress
          exact Blank.carry progress rfl rfl rfl rfl rfl
      | _ =>
          rw [here] at progress
          exact progress

/-- The interrupt is delivered. -/
theorem Stage.irq (stage : Stage s) (owned : Owned owner s.toState)
    (inFlight : 0 < s.shared.pending) : Stage s.irqStep := by
  have notBlank : (s.Released → Blank s) → ¬ s.Released := fun isBlank released =>
    inFlight.ne' (isBlank released).pending
  cases stage with
  | closed lock files waiting isBlank last =>
      exact .closed lock files waiting (fun released => absurd released (notBlank isBlank)) last
  | opening tid lock files granted waiting isBlank =>
      exact .opening tid lock files granted waiting
        fun released => absurd released (notBlank isBlank)
  | inUse lock files threads => exact .inUse lock files threads
  | releasing tid lock files call progress waiting =>
      refine .releasing tid lock files call ?_ waiting
      show FileState.Releasing _ (s.threads tid).pc
      cases here : (s.threads tid).pc with
      | releaseSpinAgain =>
          rw [here] at progress
          obtain ⟨cleared, reset, soFar, dark⟩ := progress
          refine ⟨cleared, reset, soFar, fun _ a within => ?_⟩
          show (s.captured a).getD 0 = 0
          cases fetched : s.captured a with
          | none => rfl
          | some byte => exact soFar a byte fetched
      | releaseVram =>
          -- the releasing thread holds the lock, so nothing is in flight
          have mine : owner = .thread tid :=
            owned.eq_thread (show (s.threads tid).pc.locked = true by rw [here]; rfl)
          have pending := owned.pending
          rw [mine] at pending
          exact absurd pending inFlight.ne'
      | releasePpu =>
          rw [here] at progress
          exact absurd (show s.shared.pending = 0 from Blank.pending progress) inFlight.ne'
      | _ =>
          rw [here] at progress
          exact progress

/-- The event is an open. -/
def FileEvent.opens : FileEvent Tid → Bool
  | .opened _ => true
  | .released _ => false

/-- Between two opens that succeed there is the end of a release. -/
def Separated (history : List (FileEvent Tid)) : Prop :=
  history.IsChain fun newer older => ¬ (newer.opens = true ∧ older.opens = true)

/-- What holds in every state. -/
structure Session (s : FileState Tid) : Prop where
  owned : ∃ owner, Owned owner s.toState
  stage : Stage s
  separated : Separated s.history

/-- An open succeeds only after the release of the one before. -/
theorem Stage.separated (stage : Stage s) (separated : Separated s.history) (tid : Tid) (pc : Pc) :
    Separated ((eventOf s.shared tid pc).toList ++ s.history) := by
  cases event : eventOf s.shared tid pc with
  | none => exact separated
  | some newest =>
      refine List.isChain_cons.mpr ⟨fun older listed both => ?_, separated⟩
      cases pc with
      | openTry =>
          simp only [eventOf] at event
          split_ifs at event with free
          cases stage with
          | closed lock files waiting isBlank last =>
              cases older with
              | opened who => exact last who listed
              | released who => exact Bool.false_ne_true both.2
          | opening _ lock | inUse lock | releasing _ lock =>
              exact absurd (free.symm.trans lock) (by decide)
      | releasePpu =>
          obtain rfl := Option.some.inj event
          exact Bool.false_ne_true both.1
      | _ => cases event

variable [DecidableEq Tid]

theorem Session.step (session : Session s) (step : FileStep alloc s label s') : Session s' := by
  obtain ⟨⟨owner, owned⟩, stage, separated⟩ := session
  cases step with
  | thread tid choice allowed =>
      refine ⟨owned.step (.thread s.toState tid choice), ?_,
        stage.separated separated tid (s.threads tid).pc⟩
      cases stage with
      | closed lock files waiting isBlank last =>
          exact Stage.closed_step lock files waiting isBlank last allowed
      | opening t lock files granted waiting isBlank =>
          exact Stage.opening_step lock files granted waiting isBlank allowed
      | inUse lock files threads => exact Stage.inUse_step lock files threads allowed
      | releasing t lock files call progress waiting =>
          by_cases here : tid = t
          · subst here
            exact Stage.release_step owned lock files call progress waiting
          · have opens := fun outside => (allowed outside).opens files
            have same := (waiting tid here).files opens s.files
            rcases (waiting tid here).effect Tid alloc.config opens (.inr lock)
              with ⟨quiet, now, silent⟩ | ⟨free, -, -, -⟩
            · rw [FileState.threadStep_quiet quiet same (silent tid)]
              refine .releasing t lock files ?_ ?_ (forall_ne_update waiting now)
              · simp only [Function.update_of_ne (Ne.symm here)]
                exact call
              · simp only [Function.update_of_ne (Ne.symm here)]
                exact progress.carry rfl rfl rfl
            · exact absurd (free.symm.trans lock) (by decide)
  | fetch a inFlight inside => exact ⟨⟨owner, owned⟩, stage.fetch inFlight inside, separated⟩
  | irq inFlight whole =>
      exact ⟨@Owned.step Tid alloc.config _ _ _ _ _ owned (.irq s.toState inFlight),
        stage.irq owned inFlight, separated⟩

theorem session_of_reachable (reachable : (fileSystem Tid alloc).Reachable s) : Session s := by
  refine reachable.invariant (P := Session) ?_ fun s label s' session step => session.step step
  intro s (initial : FileInitial s)
  refine ⟨⟨.nobody, initial.vramLock, fun tid => ?_, initial.pending⟩, ?_, ?_⟩
  · simp [Thread.Locked, initial.threads tid, Pc.locked, Owner.holder]
  · refine .closed initial.ppuLock initial.files (fun tid => .outside (initial.threads tid)) ?_ ?_
    · rintro ⟨tid, listed⟩
      rw [initial.history] at listed
      cases listed
    · intro tid
      rw [initial.history]
      exact Option.some_ne_none _ ∘ Eq.symm
  · rw [Separated, initial.history]
    exact List.isChain_nil

/-- An owner that was granted the PPU after a release finds nothing. -/
theorem Session.found_eq {tid : Tid} (session : Session s) (granted : (s.threads tid).Granted)
    (released : s.Released) : s.found = blank := by
  obtain ⟨pc, call⟩ := granted
  have notWaiting : ¬ (s.threads tid).Waiting := by
    rintro (⟨outside⟩ | ⟨trying, -⟩ | ⟨ret, ended, refused⟩)
    · cases pc.symm.trans outside
    · cases pc.symm.trans trying
    · exact refused call (Pc.returned.inj (ended.symm.trans pc))
  cases session.stage with
  | closed _ _ waiting => exact absurd (waiting tid) notWaiting
  | opening _ _ _ _ _ isBlank => exact (isBlank released).found_eq
  | inUse _ _ threads =>
      have inCall := ((threads tid).resolve_left notWaiting).pc
      rw [pc] at inCall
      cases inCall
  | releasing t _ _ release _ waiting =>
      by_cases here : tid = t
      · subst here
        cases call.symm.trans release
      · exact absurd (waiting tid here) notWaiting

/-- **Owner isolation.** After any two histories of the driver:

1. the end of a release lies between two opens that succeed;
2. an open that has succeeded after the end of a release finds the PPU blank,
   and so the same in both. -/
theorem owner_isolation {first second : FileState Tid}
    (reachable : (fileSystem Tid alloc).Reachable first)
    (reachable' : (fileSystem Tid alloc).Reachable second) :
    Separated first.history ∧ Separated second.history ∧
    ∀ tid tid', (first.threads tid).Granted → (second.threads tid').Granted →
      first.Released → second.Released →
      first.found = blank ∧ second.found = first.found := by
  have session := session_of_reachable reachable
  have session' := session_of_reachable reachable'
  refine ⟨session.separated, session'.separated, ?_⟩
  intro tid tid' granted granted' released released'
  have isBlank := session.found_eq granted released
  exact ⟨isBlank, (session'.found_eq granted' released').trans isBlank.symm⟩

end Runs

/-! ## A session of one process -/

/-- A page at the start of the memory that the device can reach. -/
def pageAlloc : Allocation where
  vramBaseV := 0xF0000000
  vramBaseP := 0x30000000
  inside := by decide

/-- Nothing is set. -/
def quietShared : Shared where
  ppuLock := 0
  vramLock := 0
  vram _ := 0
  mmio _ := 0
  pending := 0

/-- One process, before which nothing was given to the PPU. -/
def solo (sh : Shared) (th : Thread) (files : ℕ) (captured : ℕ → Option (BitVec 8))
    (history : List (FileEvent Unit)) : FileState Unit where
  shared := sh
  threads _ := th
  files := files
  captured := captured
  image _ := 0
  history := history

section Solo

variable {sh : Shared} {th : Thread} {files : ℕ} {captured : ℕ → Option (BitVec 8)}
  {history : List (FileEvent Unit)}

/-- A step of the only process. -/
theorem solo_thread
    (reachable : (fileSystem Unit pageAlloc).Reachable (solo sh th files captured history))
    (choice : Choice)
    (allowed : th.pc = .user → (solo sh th files captured history).Allows choice)
    (sh' : Shared) (th' : Thread) (files' : ℕ) (history' : List (FileEvent Unit))
    (steps : act pageAlloc.config sh th choice = (sh', th'))
    (idle : sh'.pending ≤ sh.pending)
    (descriptors : filesAfter files th choice = files')
    (events : (eventOf sh () th.pc).toList ++ history = history') :
    (fileSystem Unit pageAlloc).Reachable (solo sh' th' files' captured history') := by
  have next : (solo sh th files captured history).threadStep pageAlloc.config () choice =
      solo sh' th' files' captured history' := by
    subst descriptors events
    simp only [FileState.threadStep, solo, steps, if_neg (Nat.not_lt.mpr idle)]
    congr 1
  rw [← next]
  exact reachable.next (.thread _ () choice allowed)

/-- The process, inside a release. -/
def releasingAt (pc : Pc) (owes : Bool) : Thread where
  pc := pc
  call := .release
  offset := 0
  owes := owes

/-- The release holds the lock. -/
def heldShared : Shared := { quietShared with ppuLock := 1, vramLock := 1 }

/-- The release has started its transfer. -/
def transferShared : Shared := mmioWrite heldShared ppuDmaAddrOffset pageAlloc.config.vramAddrP

/-- What has been fetched of a blank buffer. -/
def fetchedUpTo (n : ℕ) : ℕ → Option (BitVec 8) := fun a => if a < n then some 0 else none

theorem fetchedUpTo_zero : fetchedUpTo 0 = fun _ => none := by
  funext a
  simp [fetchedUpTo]

theorem reachable_memset
    (reachable : (fileSystem Unit pageAlloc).Reachable
      (solo heldShared (releasingAt (.releaseMemset 0) true) 0 captured history))
    (k : ℕ) (within : k ≤ allocSize) :
    (fileSystem Unit pageAlloc).Reachable
      (solo heldShared (releasingAt (.releaseMemset k) true) 0 captured history) := by
  induction k with
  | zero => exact reachable
  | succ k ih =>
      refine solo_thread (ih (by omega)) .advance nofun _ _ _ _ ?_
        le_rfl rfl rfl
      have more : k < vramSize + 8 := within
      have same : store heldShared.vram true k 0 = heldShared.vram :=
        Function.update_eq_self k heldShared.vram
      simp only [act, releasingAt, if_pos more, same]

theorem reachable_mmio
    (reachable : (fileSystem Unit pageAlloc).Reachable
      (solo heldShared (releasingAt (.releaseMmio 0) true) 0 captured history))
    (k : ℕ) (within : k ≤ resetOffsets.length) :
    (fileSystem Unit pageAlloc).Reachable
      (solo heldShared (releasingAt (.releaseMmio k) true) 0 captured history) := by
  induction k with
  | zero => exact reachable
  | succ k ih =>
      refine solo_thread (ih (by omega)) .advance nofun _ _ _ _ ?_
        le_rfl rfl rfl
      have following : resetOffsets[k]? = some resetOffsets[k] := List.getElem?_eq_getElem within
      have same : mmioWrite heldShared resetOffsets[k] 0 = heldShared := by
        rw [mmioWrite, if_neg (resetOffsets_ne following)]
        congr 1
        exact Function.update_eq_self _ heldShared.mmio
      simp only [act, releasingAt, following, same]

theorem reachable_fetch
    (reachable : (fileSystem Unit pageAlloc).Reachable
      (solo transferShared (releasingAt .releaseSpinAgain true) 0 (fetchedUpTo 0) history))
    (n : ℕ) (within : n ≤ vramSize) :
    (fileSystem Unit pageAlloc).Reachable
      (solo transferShared (releasingAt .releaseSpinAgain true) 0 (fetchedUpTo n) history) := by
  induction n with
  | zero => exact reachable
  | succ n ih =>
      have next := (ih (by omega)).next (.fetch _ n Nat.one_pos within)
      have more : Function.update (fetchedUpTo n) n (some 0) = fetchedUpTo (n + 1) := by
        funext a
        by_cases here : a = n
        · subst here
          simp [fetchedUpTo]
        · rw [Function.update_of_ne here]
          simp only [fetchedUpTo, show a < n + 1 ↔ a < n by omega]
      rw [← more]
      exact next

end Solo

/-- The process has opened the PPU, released it and opened it again. -/
def reopened : FileState Unit :=
  solo
    { quietShared with
      ppuLock := 1
      mmio := transferShared.mmio }
    { pc := .returned 0, call := .open, offset := 0, owes := false } 0 (fetchedUpTo vramSize)
    [.opened (), .released (), .opened ()]

/-- Every step of a session, from the first open to the second. -/
theorem reachable_reopened : (fileSystem Unit pageAlloc).Reachable reopened := by
  have start : (fileSystem Unit pageAlloc).Reachable
      (solo quietShared outside 0 (fetchedUpTo 0) []) :=
    .start { ppuLock := rfl, vramLock := rfl, pending := rfl, threads := fun _ => rfl,
             files := rfl, history := rfl }
  have opening := solo_thread start (.call .open) (fun _ => trivial) quietShared
    { outside with pc := .openTry } 0 [] rfl le_rfl rfl rfl
  have opened := solo_thread opening .advance nofun
    { quietShared with ppuLock := 1 } { outside with pc := .returned 0 } 0 [.opened ()] rfl le_rfl
    rfl rfl
  have owner := solo_thread opened .advance nofun
    { quietShared with ppuLock := 1 } outside 1 [.opened ()] rfl le_rfl rfl rfl
  have closing := solo_thread owner (.call .release) (fun _ => ⟨Nat.one_pos, fun _ _ => rfl⟩)
    { quietShared with ppuLock := 1 } (releasingAt .releaseTest false) 0 [.opened ()] rfl le_rfl
    rfl rfl
  have tested := solo_thread closing .advance nofun
    { quietShared with ppuLock := 1 } (releasingAt .releaseSpin false) 0 [.opened ()] rfl le_rfl
    rfl rfl
  have held := solo_thread tested .advance nofun heldShared
    (releasingAt (.releaseMemset 0) true) 0 [.opened ()] rfl le_rfl rfl rfl
  have cleared := solo_thread (reachable_memset held allocSize le_rfl) .advance
    nofun heldShared (releasingAt (.releaseMmio 0) true) 0 [.opened ()] rfl le_rfl
    rfl rfl
  have reset := solo_thread (reachable_mmio cleared 4 (by decide)) .advance nofun
    heldShared (releasingAt .releaseUpdate true) 0 [.opened ()] rfl le_rfl rfl rfl
  have started : (fileSystem Unit pageAlloc).Reachable
      (solo transferShared (releasingAt .releaseSpinAgain true) 0 (fetchedUpTo 0)
        [.opened ()]) := by
    rw [fetchedUpTo_zero]
    exact reset.next (.thread _ () .advance nofun)
  have acknowledged : (fileSystem Unit pageAlloc).Reachable
      (solo (ppuIrq transferShared) (releasingAt .releaseSpinAgain true) 0
        (fetchedUpTo vramSize) [.opened ()]) := by
    have next := (reachable_fetch started vramSize le_rfl).next
      (.irq _ Nat.one_pos fun a within => by simp [solo, fetchedUpTo, within])
    have dark : (fun a => (fetchedUpTo vramSize a).getD 0) = fun _ => 0 := by
      funext a
      rw [fetchedUpTo]
      split_ifs <;> rfl
    simp only [FileState.irqStep, solo, dark] at next
    exact next
  have taken := solo_thread acknowledged .advance nofun
    { ppuIrq transferShared with vramLock := 1 } (releasingAt .releaseVram true) 0 [.opened ()] rfl
    le_rfl rfl rfl
  have unlocked := solo_thread taken .advance nofun (ppuIrq transferShared)
    (releasingAt .releasePpu false) 0 [.opened ()] rfl le_rfl rfl rfl
  have released := solo_thread unlocked .advance nofun
    { ppuIrq transferShared with ppuLock := 0 } (releasingAt (.returned 0) false) 0
    [.released (), .opened ()] rfl le_rfl rfl rfl
  have closed := solo_thread released .advance nofun
    { ppuIrq transferShared with ppuLock := 0 } (releasingAt .user false) 0
    [.released (), .opened ()] rfl le_rfl rfl rfl
  have reopening := solo_thread closed (.call .open) (fun _ => trivial)
    { ppuIrq transferShared with ppuLock := 0 } { outside with pc := .openTry } 0
    [.released (), .opened ()] rfl le_rfl rfl rfl
  exact solo_thread reopening .advance nofun _ _ _ _ rfl le_rfl rfl rfl

theorem owner_isolation_reopened :
    (reopened.threads ()).Granted ∧ reopened.Released ∧ reopened.found = blank := by
  have granted : (reopened.threads ()).Granted := ⟨rfl, rfl⟩
  have released : reopened.Released := ⟨(), by simp [reopened, solo]⟩
  exact ⟨granted, released,
    ((owner_isolation reachable_reopened reachable_reopened).2.2 () () granted granted released
      released).1⟩

end FPGame.PpuDriver
