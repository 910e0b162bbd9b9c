import FPGame.Kernel.PpuProbe
import FPGame.Kernel.PpuProcess

/-!
# Sessions of the PPU

The driver, the VFS around it and the transfers of the device. The VFS passes a
write or an ioctl to the driver only while a file is open, and it releases a
file once, when no call on it is running. A transfer fetches the bytes of the
buffer one by one, in any order and at any time between the store of its
address and its interrupt, while the threads go on.

The stages of a session are `Stage`: nobody has the PPU, an open has succeeded
and is about to return, the PPU is in use, or a release is under way. This file
has the steps of every stage but the last.
-/

set_option autoImplicit false

namespace FPGame.PpuDriver

open FPGame.Foundation FPGame.Linux

/-! ## The device and the VFS -/

/-- What `dma_alloc_coherent` returns: the two addresses of one block, which a
device that drives 32 address bits can reach. -/
structure Allocation where
  vramBaseV : ℕ
  vramBaseP : ℕ
  inside : vramBaseP + allocSize ≤ 2 ^ 32

/-- The configuration that `ppu_probe` derives. -/
def Allocation.config (alloc : Allocation) : Config :=
  probeConfig alloc.vramBaseV alloc.vramBaseP

/-- An open that succeeds, at its exchange, and the last store of a release. -/
inductive FileEvent (Tid : Type) where
  | opened (tid : Tid)
  | released (tid : Tid)
deriving DecidableEq, Repr

/-- The driver between the VFS and the device. `files` counts the open files,
`captured` holds what the transfer in flight has fetched, and `image` is the
image of the last transfer whose interrupt was delivered. `history` lists the
events so far, the newest first. -/
structure FileState (Tid : Type) extends State Tid where
  files : ℕ
  captured : ℕ → Option (BitVec 8)
  image : ℕ → BitVec 8
  history : List (FileEvent Tid)

/-- Inside a call that needs an open file. -/
def Pc.using : Pc → Bool
  | .writeTry _ | .writeCopy _ _ | .writePad _ _ | .writeUndo _ | .writeDone _ => true
  | .ioctlTry _ _ | .ioctlSwitch _ _ | .ioctlUnlock _ => true
  | _ => false

/-- The open files after a step: a successful open installs one when it has
returned, and a release takes one away when it is called. -/
def filesAfter (files : ℕ) (th : Thread) (choice : Choice) : ℕ :=
  match th.pc, choice with
  | .user, .call .release => files - 1
  | .returned ret, _ => if th.call = .open ∧ ret = 0 then files + 1 else files
  | _, _ => files

section System

variable {Tid : Type}

/-- The event of a step. -/
def eventOf (sh : Shared) (tid : Tid) : Pc → Option (FileEvent Tid)
  | .openTry => if sh.ppuLock = 0 then some (.opened tid) else none
  | .releasePpu => some (.released tid)
  | _ => none

/-- The calls that the VFS lets a thread make. -/
def FileState.Allows (s : FileState Tid) : Choice → Prop
  | .call (.write _ _) | .call (.ioctl _ _) => 0 < s.files
  | .call .release => 0 < s.files ∧ (s.files = 1 → ∀ tid, (s.threads tid).pc.using = false)
  | _ => True

variable [DecidableEq Tid]

/-- A step of a thread; a transfer that starts has fetched nothing yet. -/
def FileState.threadStep (cfg : Config) (s : FileState Tid) (tid : Tid) (choice : Choice) :
    FileState Tid where
  shared := (act cfg s.shared (s.threads tid) choice).1
  threads := Function.update s.threads tid (act cfg s.shared (s.threads tid) choice).2
  files := filesAfter s.files (s.threads tid) choice
  captured :=
    if s.shared.pending < (act cfg s.shared (s.threads tid) choice).1.pending then fun _ => none
    else s.captured
  image := s.image
  history := (eventOf s.shared tid (s.threads tid).pc).toList ++ s.history

/-- The device fetches byte `a` of the image. -/
def FileState.fetchStep (alloc : Allocation) (s : FileState Tid) (a : ℕ) : FileState Tid :=
  { s with
    captured := Function.update s.captured a
      (some (dmaFetch alloc.vramBaseP s.shared.vram (alloc.config.vramAddrP.toNat + a))) }

/-- The interrupt of a transfer that has been synced. -/
def FileState.irqStep (s : FileState Tid) : FileState Tid :=
  { s with
    shared := ppuIrq s.shared
    image := fun a => (s.captured a).getD 0 }

/-- Who takes a step. -/
inductive FileLabel (Tid : Type) where
  | thread (tid : Tid) (choice : Choice)
  | fetch (a : ℕ)
  | irq

/-- The steps. The interrupt is raised once for each address, after the whole
image has been fetched. -/
inductive FileStep (alloc : Allocation) : FileState Tid → FileLabel Tid → FileState Tid → Prop where
  | thread (s : FileState Tid) (tid : Tid) (choice : Choice)
      (allowed : (s.threads tid).pc = .user → s.Allows choice) :
      FileStep alloc s (.thread tid choice) (s.threadStep alloc.config tid choice)
  | fetch (s : FileState Tid) (a : ℕ) (inFlight : 0 < s.shared.pending) (inside : a < vramSize) :
      FileStep alloc s (.fetch a) (s.fetchStep alloc a)
  | irq (s : FileState Tid) (inFlight : 0 < s.shared.pending)
      (whole : ∀ a, a < vramSize → (s.captured a).isSome = true) :
      FileStep alloc s .irq s.irqStep

/-- The driver after `ppu_probe`, with no file open. -/
structure FileInitial (s : FileState Tid) : Prop extends Initial s.toState where
  files : s.files = 0
  history : s.history = []

/-- The transition system of the driver, the VFS and the device. -/
def fileSystem (Tid : Type) [DecidableEq Tid] (alloc : Allocation) :
    Transitions (FileState Tid) (FileLabel Tid) where
  initial := FileInitial
  step := FileStep alloc

end System

/-! ## What an owner finds -/

/-- What can be told apart of the PPU: the kernel's VRAM, the registers, the
lock, the transfers in flight, and the image that the PPU was given last. -/
structure Finding where
  vram : Fin allocSize → BitVec 8
  bgscroll : BitVec 32
  fgscroll : BitVec 32
  bgcolor : BitVec 32
  enable : BitVec 32
  vramLock : ℕ
  pending : ℕ
  image : Fin vramSize → BitVec 8

/-- Nothing of any earlier owner. -/
def blank : Finding where
  vram _ := 0
  bgscroll := 0
  fgscroll := 0
  bgcolor := 0
  enable := 0
  vramLock := 0
  pending := 0
  image _ := 0

section Stages

variable {Tid : Type}

/-- The finding in a state. -/
def FileState.found (s : FileState Tid) : Finding where
  vram a := s.shared.vram a
  bgscroll := s.shared.mmio ppuBgscrollOffset
  fgscroll := s.shared.mmio ppuFgscrollOffset
  bgcolor := s.shared.mmio ppuBgcolorOffset
  enable := s.shared.mmio ppuEnableOffset
  vramLock := s.shared.vramLock
  pending := s.shared.pending
  image a := s.image a

/-- The first bytes of the allocation are zero. -/
def Cleared (n : ℕ) (sh : Shared) : Prop := ∀ a, a < n → sh.vram a = 0

/-- The first registers that a release resets are zero. -/
def Reset (n : ℕ) (sh : Shared) : Prop := ∀ offset ∈ resetOffsets.take n, sh.mmio offset = 0

/-- The image that was given last is zero. -/
def FileState.Dark (s : FileState Tid) : Prop := ∀ a, a < vramSize → s.image a = 0

/-- What the transfer in flight has fetched is zero. -/
def FileState.DarkSoFar (s : FileState Tid) : Prop := ∀ a b, s.captured a = some b → b = 0

/-- Everything is blank. -/
structure Blank (s : FileState Tid) : Prop where
  cleared : Cleared allocSize s.shared
  reset : Reset 4 s.shared
  vramLock : s.shared.vramLock = 0
  pending : s.shared.pending = 0
  dark : s.Dark

theorem Blank.found_eq {s : FileState Tid} (isBlank : Blank s) : s.found = blank := by
  obtain ⟨cleared, reset, vramLock, pending, dark⟩ := isBlank
  have vram : (fun a : Fin allocSize => s.shared.vram a) = fun _ => 0 :=
    funext fun a => cleared a a.isLt
  have image : (fun a : Fin vramSize => s.image a) = fun _ => 0 := funext fun a => dark a a.isLt
  simp only [FileState.found, blank, vram, image, vramLock, pending,
    reset ppuBgscrollOffset (by decide), reset ppuFgscrollOffset (by decide),
    reset ppuBgcolorOffset (by decide), reset ppuEnableOffset (by decide)]

/-- The thread's open has succeeded and is about to return. -/
structure Thread.Granted (th : Thread) : Prop where
  pc : th.pc = .returned 0
  call : th.call = .open

/-- The thread is in no call, or in an open that has not succeeded. -/
inductive Thread.Waiting (th : Thread) : Prop where
  | outside (pc : th.pc = .user)
  | trying (pc : th.pc = .openTry) (call : th.call = .open)
  | ended (ret : ℤ) (pc : th.pc = .returned ret) (refused : th.call = .open → ret ≠ 0)

/-- The thread is in a call that needs an open file. -/
structure Thread.Using (th : Thread) : Prop where
  pc : th.pc.using = true
  call : th.call ≠ .open

/-- A release has ended. -/
def FileState.Released (s : FileState Tid) : Prop := ∃ tid, .released tid ∈ s.history

/-- How far a release has come. -/
def FileState.Releasing (s : FileState Tid) : Pc → Prop
  | .releaseTest | .releaseSpin => True
  | .releaseMemset k => k ≤ allocSize ∧ Cleared k s.shared
  | .releaseMmio k => Cleared allocSize s.shared ∧ Reset k s.shared
  | .releaseUpdate => Cleared allocSize s.shared ∧ Reset 4 s.shared
  | .releaseSpinAgain =>
      Cleared allocSize s.shared ∧ Reset 4 s.shared ∧ s.DarkSoFar ∧
        (s.shared.pending = 0 → s.Dark)
  | .releaseVram => Cleared allocSize s.shared ∧ Reset 4 s.shared ∧ s.Dark
  | .releasePpu => Blank s
  | _ => False

/-- The stages of a session. -/
inductive Stage (s : FileState Tid) : Prop where
  /-- Nobody has the PPU. -/
  | closed (lock : s.shared.ppuLock = 0) (files : s.files = 0)
      (waiting : ∀ tid, (s.threads tid).Waiting) (isBlank : s.Released → Blank s)
      (last : ∀ tid, s.history.head? ≠ some (.opened tid))
  /-- An open has succeeded. -/
  | opening (tid : Tid) (lock : s.shared.ppuLock = 1) (files : s.files = 0)
      (granted : (s.threads tid).Granted)
      (waiting : ∀ other, other ≠ tid → (s.threads other).Waiting)
      (isBlank : s.Released → Blank s)
  /-- A file is open. -/
  | inUse (lock : s.shared.ppuLock = 1) (files : s.files = 1)
      (threads : ∀ tid, (s.threads tid).Waiting ∨ (s.threads tid).Using)
  /-- A release is under way. -/
  | releasing (tid : Tid) (lock : s.shared.ppuLock = 1) (files : s.files = 0)
      (call : (s.threads tid).call = .release) (progress : s.Releasing (s.threads tid).pc)
      (waiting : ∀ other, other ≠ tid → (s.threads other).Waiting)

end Stages

/-! ## What a step of a thread can do -/

section Threads

variable {cfg : Config} {sh : Shared} {th : Thread} {choice : Choice}

/-- What a thread does that has no file: nothing that others see, or its open
takes the PPU. -/
inductive WaitingEffect (Tid : Type) (cfg : Config) (sh : Shared) (th : Thread) (choice : Choice) :
    Prop where
  | quiet (same : (act cfg sh th choice).1 = sh) (waiting : (act cfg sh th choice).2.Waiting)
      (silent : ∀ tid : Tid, eventOf sh tid th.pc = none)
  | granted (free : sh.ppuLock = 0) (taken : (act cfg sh th choice).1 = { sh with ppuLock := 1 })
      (now : (act cfg sh th choice).2.Granted)
      (event : ∀ tid : Tid, eventOf sh tid th.pc = some (.opened tid))

/-- A thread that waits and calls nothing but open. -/
theorem Thread.Waiting.effect (waiting : th.Waiting) (Tid : Type) (cfg : Config)
    (opens : th.pc = .user → choice.opens) (bit : sh.ppuLock = 0 ∨ sh.ppuLock = 1) :
    WaitingEffect Tid cfg sh th choice := by
  obtain ⟨pc, call, offset, owes⟩ := th
  cases waiting with
  | outside here =>
      obtain rfl : pc = .user := here
      have opening := opens rfl
      cases choice with
      | call made =>
          obtain rfl : made = .open := opening
          exact .quiet rfl (.trying rfl rfl) fun _ => rfl
      | advance | fault => exact .quiet rfl (.outside rfl) fun _ => rfl
  | trying here called =>
      obtain rfl : pc = .openTry := here
      obtain rfl : call = .open := called
      rcases bit with free | held
      · refine .granted free rfl ⟨?_, rfl⟩ fun tid => ?_
        · simp only [act, free, if_true]
        · simp only [eventOf, free, if_true]
      · refine .quiet ?_ (.ended (-EBUSY) ?_ fun _ => by decide) fun tid => ?_
        · simp only [act, ← held]
        · simp only [act, held, one_ne_zero, if_false]
        · simp only [eventOf, held, one_ne_zero, if_false]
  | ended ret here refused =>
      obtain rfl : pc = .returned ret := here
      exact .quiet rfl (.outside rfl) fun _ => rfl

/-- A thread that has no file leaves the open files alone. -/
theorem Thread.Waiting.files (waiting : th.Waiting) (opens : th.pc = .user → choice.opens)
    (files : ℕ) : filesAfter files th choice = files := by
  cases waiting with
  | outside here =>
      have opening := opens here
      cases choice with
      | call made =>
          obtain rfl : made = .open := opening
          simp only [filesAfter, here]
      | advance | fault => simp only [filesAfter, here]
  | trying here => simp only [filesAfter, here]
  | ended ret here refused =>
      have not : ¬ (th.call = .open ∧ ret = 0) := fun both => refused both.1 both.2
      simp only [filesAfter, here, if_neg not]

/-- A thread in a call on an open file stays in it or returns from it, and it
does not touch `ppu_lock`. -/
theorem Thread.Using.effect (inCall : th.Using) :
    (act cfg sh th choice).1.ppuLock = sh.ppuLock ∧
      ((act cfg sh th choice).2.Waiting ∨ (act cfg sh th choice).2.Using) := by
  obtain ⟨pc, call, offset, owes⟩ := th
  obtain ⟨inside, notOpen⟩ := inCall
  have refused : ∀ ret : ℤ, call = .open → ret ≠ 0 := fun ret isOpen => absurd isOpen notOpen
  cases pc with
  | writeTry | ioctlTry =>
      simp only [act]
      split_ifs
      · exact ⟨rfl, .inl (.ended _ rfl (refused _))⟩
      · exact ⟨rfl, .inr ⟨rfl, notOpen⟩⟩
  | writeCopy buf k =>
      cases byte : buf[k]? with
      | none => cases choice <;> simp only [act, byte] <;> exact ⟨trivial, .inr ⟨rfl, notOpen⟩⟩
      | some _ =>
          cases choice with
          | fault pad =>
              simp only [act, byte]
              cases pad <;> exact ⟨trivial, .inr ⟨rfl, notOpen⟩⟩
          | _ =>
              simp only [act, byte]
              exact ⟨trivial, .inr ⟨rfl, notOpen⟩⟩
  | writePad buf k =>
      simp only [act]
      split_ifs <;> exact ⟨rfl, .inr ⟨rfl, notOpen⟩⟩
  | writeUndo | writeDone | ioctlUnlock => exact ⟨rfl, .inl (.ended _ rfl (refused _))⟩
  | ioctlSwitch num param =>
      cases target : ioctlTarget cfg num param with
      | none =>
          simp only [act, target]
          exact ⟨trivial, .inr ⟨rfl, notOpen⟩⟩
      | some store =>
          simp only [act, target]
          split_ifs
          · exact ⟨rfl, .inl (.ended _ rfl (refused _))⟩
          · exact ⟨rfl, .inr ⟨rfl, notOpen⟩⟩
  | _ => cases inside

/-- Such a thread leaves the open files alone and ends nothing. -/
theorem Pc.using_quiet {Tid : Type} (inside : th.pc.using = true) (files : ℕ) (tid : Tid) :
    filesAfter files th choice = files ∧ eventOf sh tid th.pc = none := by
  obtain ⟨pc, call, offset, owes⟩ := th
  cases pc <;> first | exact ⟨rfl, rfl⟩ | cases inside

/-- The first step of a call on an open file. -/
theorem act_call (called : th.pc = .user) {made : Call} (notOpen : made ≠ .open)
    (notRelease : made ≠ .release) :
    (act cfg sh th (.call made)).1 = sh ∧
      ((act cfg sh th (.call made)).2.Waiting ∨ (act cfg sh th (.call made)).2.Using) ∧
      ∀ files, filesAfter files th (.call made) = files := by
  cases made with
  | write offset buf =>
      refine ⟨by simp only [act, called], ?_, fun files => by simp only [filesAfter, called]⟩
      simp only [act, called]
      split_ifs
      · exact .inl (.ended _ rfl fun isOpen => absurd isOpen notOpen)
      · exact .inr ⟨rfl, notOpen⟩
  | ioctl num param =>
      refine ⟨by simp only [act, called], ?_, fun files => by simp only [filesAfter, called]⟩
      simp only [act, called]
      exact .inr ⟨rfl, notOpen⟩
  | «open» => exact absurd rfl notOpen
  | release => exact absurd rfl notRelease

end Threads

/-! ## The stages follow each other -/

/-- A transfer fetches nothing but the allocation. -/
theorem Allocation.fetch_cleared (alloc : Allocation) {sh : Shared} (cleared : Cleared allocSize sh)
    {a : ℕ} (inside : a < vramSize) :
    dmaFetch alloc.vramBaseP sh.vram (alloc.config.vramAddrP.toNat + a) = 0 := by
  have fits := alloc.inside
  have size : allocSize = vramSize + 8 := rfl
  -- the displaced handle is one byte higher, which the spare bytes cover
  have address : alloc.config.vramAddrP.toNat = alloc.vramBaseP ∨
      alloc.config.vramAddrP.toNat = alloc.vramBaseP + 1 := by
    rw [Allocation.config, probeConfig, BitVec.toNat_ofNat]
    by_cases aligned : 16 ∣ alloc.vramBaseP
    · left
      rw [probeAddresses_of_aligned _ aligned]
      exact Nat.mod_eq_of_lt (show alloc.vramBaseP < 2 ^ 32 by omega)
    · right
      rw [probeAddresses_of_not_aligned aligned]
      exact Nat.mod_eq_of_lt (show alloc.vramBaseP + 1 < 2 ^ 32 by omega)
  rw [dmaFetch]
  apply cleared
  omega

section Carry

variable {Tid : Type} {s s' : FileState Tid}

/-- What is blank stays blank if nothing of it changes. -/
theorem Blank.carry (isBlank : Blank s) (vram : s'.shared.vram = s.shared.vram)
    (mmio : s'.shared.mmio = s.shared.mmio) (vramLock : s'.shared.vramLock = s.shared.vramLock)
    (pending : s'.shared.pending = s.shared.pending) (image : s'.image = s.image) : Blank s' where
  cleared a within := by rw [vram]; exact isBlank.cleared a within
  reset offset listed := by rw [mmio]; exact isBlank.reset offset listed
  vramLock := vramLock.trans isBlank.vramLock
  pending := pending.trans isBlank.pending
  dark a within := by rw [image]; exact isBlank.dark a within

/-- The progress of a release depends on no thread. -/
theorem FileState.Releasing.carry {pc : Pc} (progress : s.Releasing pc)
    (shared : s'.shared = s.shared) (captured : s'.captured = s.captured)
    (image : s'.image = s.image) : s'.Releasing pc := by
  have dark : s.Dark → s'.Dark := fun isDark a within => by rw [image]; exact isDark a within
  have soFar : s.DarkSoFar → s'.DarkSoFar := fun isDark a b fetched => by
    rw [captured] at fetched
    exact isDark a b fetched
  cases pc with
  | releaseTest | releaseSpin => trivial
  | releaseMemset k | releaseMmio k | releaseUpdate =>
      simp only [FileState.Releasing, shared] at progress ⊢
      exact progress
  | releaseSpinAgain =>
      simp only [FileState.Releasing, shared] at progress ⊢
      exact ⟨progress.1, progress.2.1, soFar progress.2.2.1, fun none => dark (progress.2.2.2 none)⟩
  | releaseVram =>
      simp only [FileState.Releasing, shared] at progress ⊢
      exact ⟨progress.1, progress.2.1, dark progress.2.2⟩
  | releasePpu =>
      exact Blank.carry progress (by rw [shared]) (by rw [shared]) (by rw [shared])
        (by rw [shared]) image
  | _ => cases progress

/-- Without an open file, the VFS lets a thread call nothing but open. -/
theorem FileState.Allows.opens {choice : Choice} (allowed : s.Allows choice) (closed : s.files = 0) :
    choice.opens := by
  cases choice with
  | call made =>
      cases made with
      | «open» => rfl
      | write | ioctl => exact absurd allowed (by simp [FileState.Allows, closed])
      | release => exact absurd allowed.1 (by simp [closed])
  | advance | fault => trivial

end Carry

section Steps

variable {Tid : Type} [DecidableEq Tid] {cfg : Config} {s : FileState Tid} {tid : Tid}
  {choice : Choice}

/-- A step of which only its thread takes notice. -/
theorem FileState.threadStep_quiet (same : (act cfg s.shared (s.threads tid) choice).1 = s.shared)
    (files : filesAfter s.files (s.threads tid) choice = s.files)
    (silent : eventOf s.shared tid (s.threads tid).pc = none) :
    s.threadStep cfg tid choice =
      { s with
        threads :=
          Function.update s.threads tid (act cfg s.shared (s.threads tid) choice).2 } := by
  simp only [FileState.threadStep, same, files, silent, lt_irrefl, if_false, Option.toList_none,
    List.nil_append]

/-- A step with which an open takes the PPU. -/
theorem FileState.threadStep_granted
    (taken : (act cfg s.shared (s.threads tid) choice).1 = { s.shared with ppuLock := 1 })
    (files : filesAfter s.files (s.threads tid) choice = s.files)
    (event : eventOf s.shared tid (s.threads tid).pc = some (.opened tid)) :
    s.threadStep cfg tid choice =
      { s with
        shared := { s.shared with ppuLock := 1 }
        threads := Function.update s.threads tid (act cfg s.shared (s.threads tid) choice).2
        history := .opened tid :: s.history } := by
  simp only [FileState.threadStep, taken, files, event, lt_irrefl, if_false, Option.toList_some,
    List.cons_append, List.nil_append]

/-- Nobody has the PPU. -/
theorem Stage.closed_step (lock : s.shared.ppuLock = 0) (files : s.files = 0)
    (waiting : ∀ other, (s.threads other).Waiting) (isBlank : s.Released → Blank s)
    (last : ∀ other, s.history.head? ≠ some (.opened other))
    (allowed : (s.threads tid).pc = .user → s.Allows choice) :
    Stage (s.threadStep cfg tid choice) := by
  have opens := fun outside => (allowed outside).opens files
  have same := (waiting tid).files opens s.files
  rcases (waiting tid).effect Tid cfg opens (.inl lock) with
    ⟨quiet, now, silent⟩ | ⟨-, taken, now, event⟩
  · rw [FileState.threadStep_quiet quiet same (silent tid)]
    exact .closed lock files (forall_update (fun other _ => waiting other) now)
      (fun released => (isBlank released).carry rfl rfl rfl rfl rfl) last
  · rw [FileState.threadStep_granted taken same (event tid)]
    refine .opening tid rfl files ?_ (fun other others => ?_) fun released => ?_
    · simp only [Function.update_self]
      exact now
    · simp only [Function.update_of_ne others]
      exact waiting other
    · obtain ⟨who, listed⟩ := released
      have earlier : s.Released := ⟨who, by simpa using listed⟩
      exact (isBlank earlier).carry rfl rfl rfl rfl rfl

/-- An open is about to return. -/
theorem Stage.opening_step {t : Tid} (lock : s.shared.ppuLock = 1) (files : s.files = 0)
    (granted : (s.threads t).Granted) (waiting : ∀ other, other ≠ t → (s.threads other).Waiting)
    (isBlank : s.Released → Blank s) (allowed : (s.threads tid).pc = .user → s.Allows choice) :
    Stage (s.threadStep cfg tid choice) := by
  by_cases here : tid = t
  · subst here
    obtain ⟨pc, call⟩ := granted
    refine .inUse ?_ ?_ (forall_update (P := fun th : Thread => th.Waiting ∨ th.Using)
      (fun other others => .inl (waiting other others)) ?_)
    · simp only [FileState.threadStep, act, pc]
      exact lock
    · simp only [FileState.threadStep, filesAfter, pc, call, true_and, if_true, files]
    · simp only [act, pc]
      exact .inl (.outside rfl)
  · have opens := fun outside => (allowed outside).opens files
    have same := (waiting tid here).files opens s.files
    rcases (waiting tid here).effect Tid cfg opens (.inr lock) with
      ⟨quiet, now, silent⟩ | ⟨free, -, -, -⟩
    · rw [FileState.threadStep_quiet quiet same (silent tid)]
      refine .opening t lock files ?_ (forall_ne_update waiting now)
        fun released => (isBlank released).carry rfl rfl rfl rfl rfl
      simp only [Function.update_of_ne (Ne.symm here)]
      exact granted
    · exact absurd (free.symm.trans lock) (by decide)

/-- A file is open. -/
theorem Stage.inUse_step (lock : s.shared.ppuLock = 1) (files : s.files = 1)
    (threads : ∀ other, (s.threads other).Waiting ∨ (s.threads other).Using)
    (allowed : (s.threads tid).pc = .user → s.Allows choice) :
    Stage (s.threadStep cfg tid choice) := by
  rcases threads tid with waiting | inCall
  · by_cases opens : (s.threads tid).pc = .user → choice.opens
    · have same := waiting.files opens s.files
      rcases waiting.effect Tid cfg opens (.inr lock) with
        ⟨quiet, now, silent⟩ | ⟨free, -, -, -⟩
      · rw [FileState.threadStep_quiet quiet same (silent tid)]
        exact .inUse lock files (forall_update (P := fun th : Thread => th.Waiting ∨ th.Using)
          (fun other _ => threads other) (.inl now))
      · exact absurd (free.symm.trans lock) (by decide)
    · obtain ⟨called, notOpens⟩ := Classical.not_imp.mp opens
      cases choice with
      | call made =>
          by_cases release : made = .release
          · subst release
            -- the last reference is gone, so no call is running
            obtain ⟨-, alone⟩ := allowed called
            refine .releasing tid ?_ ?_ ?_ ?_ fun other others => ?_
            · simp only [FileState.threadStep, act, called]
              exact lock
            · simp only [FileState.threadStep, filesAfter, called, files]
            · simp only [FileState.threadStep, act, called, Function.update_self]
            · simp only [FileState.threadStep, act, called, Function.update_self]
              trivial
            · simp only [FileState.threadStep, Function.update_of_ne others]
              refine (threads other).resolve_right fun inCall => ?_
              exact Bool.false_ne_true ((alone files other).symm.trans inCall.pc)
          · obtain ⟨same, now, unchanged⟩ := @act_call cfg s.shared _ called made notOpens release
            have silent : eventOf s.shared tid (s.threads tid).pc = none := by rw [called]; rfl
            rw [FileState.threadStep_quiet same (unchanged _) silent]
            exact .inUse lock files (forall_update (P := fun th : Thread => th.Waiting ∨ th.Using)
          (fun other _ => threads other) now)
      | advance | fault => exact absurd trivial notOpens
  · obtain ⟨lock', now⟩ := @Thread.Using.effect cfg s.shared _ choice inCall
    obtain ⟨same, silent⟩ := @Pc.using_quiet s.shared _ choice Tid inCall.pc s.files tid
    exact .inUse (lock'.trans lock) (same.trans files)
      (forall_update (P := fun th : Thread => th.Waiting ∨ th.Using)
        (fun other _ => threads other) now)

end Steps

end FPGame.PpuDriver
