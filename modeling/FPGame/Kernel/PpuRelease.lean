import FPGame.Kernel.PpuOwner

/-!
# The steps of a release

How far `ppu_release` has to go (`act_release`), and what holds from the update
that it sends to the next open: the state is `Settled`, and only a release that
has just sent its update makes it so (`Settled.of_threadStep`).
-/

set_option autoImplicit false

namespace FPGame.PpuDriver

/-- Inside `ppu_release`, of a PPU that is open. -/
def Pc.inRelease : Pc → Bool
  | .releaseTest | .releaseSpin | .releaseMemset _ | .releaseMmio _ => true
  | .releaseUpdate | .releaseSpinAgain | .releaseVram | .releasePpu => true
  | _ => false

theorem Pc.using_of_inRelease {pc : Pc} (inside : pc.inRelease = true) : pc.using = false := by
  cases pc <;> first | rfl | cases inside

/-- Behind the update of a release. -/
def Pc.ending : Pc → Bool
  | .releaseSpinAgain | .releaseVram | .releasePpu => true
  | _ => false

/-- The thread has no file, or it is at the end of a release. -/
def Thread.Resting (th : Thread) : Prop := th.Waiting ∨ th.Granted ∨ th.pc.ending = true

/-- A release has sent its update, and no file has been opened since. -/
structure Settled {Tid : Type} (s : FileState Tid) : Prop where
  files : s.files = 0
  resting : ∀ tid, (s.threads tid).Resting
  since : s.Released ∨ ∃ tid, (s.threads tid).pc.ending = true

section Session

variable {Tid : Type} {s : FileState Tid} {tid : Tid}

/-- A thread in a release is the only one with a file. -/
theorem Session.releasing (session : Session s) (tid : Tid)
    (inside : (s.threads tid).pc.inRelease = true) :
    s.shared.ppuLock = 1 ∧ s.files = 0 ∧ (s.threads tid).call = .release ∧
      s.Releasing (s.threads tid).pc ∧ ∀ other, other ≠ tid → (s.threads other).Waiting := by
  have notWaiting : ¬ (s.threads tid).Waiting := by
    rintro (pc | ⟨pc, -⟩ | ⟨_, pc, -⟩) <;> rw [pc] at inside <;> cases inside
  cases session.stage with
  | closed _ _ waiting => exact absurd (waiting tid) notWaiting
  | opening t _ _ granted waiting =>
      by_cases here : tid = t
      · subst here
        rw [granted.pc] at inside
        cases inside
      · exact absurd (waiting tid here) notWaiting
  | inUse _ _ threads =>
      have inCall := ((threads tid).resolve_left notWaiting).pc
      exact absurd ((Pc.using_of_inRelease inside).symm.trans inCall) Bool.false_ne_true
  | releasing t lock files call progress waiting =>
      by_cases here : tid = t
      · subst here
        exact ⟨lock, files, call, progress, waiting⟩
      · exact absurd (waiting tid here) notWaiting

/-- A thread in a release has a file until its update is sent. -/
theorem Thread.Resting.ending {th : Thread} (resting : th.Resting)
    (inside : th.pc.inRelease = true) : th.pc.ending = true := by
  rcases resting with (pc | ⟨pc, -⟩ | ⟨_, pc, -⟩) | ⟨pc, -⟩ | ending
  · rw [pc] at inside
    cases inside
  · rw [pc] at inside
    cases inside
  · rw [pc] at inside
    cases inside
  · rw [pc] at inside
    cases inside
  · exact ending

theorem Thread.Waiting.not_ending {th : Thread} (waiting : th.Waiting) : th.pc.ending = false := by
  rcases waiting with pc | ⟨pc, -⟩ | ⟨_, pc, -⟩ <;> rw [pc] <;> rfl

/-- Such a thread touches neither the buffer nor a register. -/
theorem Thread.Resting.outside {th : Thread} (resting : th.Resting) : th.pc.inside = false := by
  rcases resting with (pc | ⟨pc, -⟩ | ⟨_, pc, -⟩) | ⟨pc, -⟩ | ending
  · rw [pc]
    rfl
  · rw [pc]
    rfl
  · rw [pc]
    rfl
  · rw [pc]
    rfl
  · cases pc : th.pc <;> first | rfl | (rw [pc] at ending; cases ending)

theorem FileState.Releasing.inRelease {pc : Pc} (progress : s.Releasing pc) :
    pc.inRelease = true := by
  cases pc <;> first | rfl | cases progress

variable {cfg : Config} {choice : Choice}

/-- The step of a release before its update is sent. -/
theorem act_early (lock : s.shared.ppuLock = 1) (inside : (s.threads tid).pc.inRelease = true)
    (early : (s.threads tid).pc.ending = false) (unsent : (s.threads tid).pc ≠ .releaseUpdate) :
    (act cfg s.shared (s.threads tid) choice).2.pc.inRelease = true ∧
      (act cfg s.shared (s.threads tid) choice).2.pc.ending = false := by
  cases pc : (s.threads tid).pc with
  | releaseTest =>
      simp only [act, pc, lock, one_ne_zero, if_false]
      exact ⟨rfl, rfl⟩
  | releaseSpin | releaseMemset k =>
      simp only [act, pc]
      split_ifs <;> exact ⟨by first | rfl | rw [pc]; rfl, by first | rfl | rw [pc]; rfl⟩
  | releaseMmio k =>
      cases following : resetOffsets[k]? <;> simp only [act, pc, following] <;> exact ⟨rfl, rfl⟩
  | releaseUpdate => exact absurd pc unsent
  | releaseSpinAgain | releaseVram | releasePpu =>
      rw [pc] at early
      cases early
  | _ =>
      rw [pc] at inside
      cases inside

variable [DecidableEq Tid]

/-- A step of a thread that waits. -/
theorem Settled.of_waiting (waiting : (s.threads tid).Waiting)
    (opens : (s.threads tid).pc = .user → choice.opens)
    (bit : s.shared.ppuLock = 0 ∨ s.shared.ppuLock = 1)
    (settled : Settled (s.threadStep cfg tid choice)) : Settled s := by
  have files : s.files = 0 := (waiting.files opens s.files).symm.trans settled.files
  have resting : ∀ other, (s.threads other).Resting := by
    intro other
    by_cases here : other = tid
    · subst here
      exact .inl waiting
    · have after := settled.resting other
      simp only [FileState.threadStep, Function.update_of_ne here] at after
      exact after
  have others : (act cfg s.shared (s.threads tid) choice).2.pc.ending = false →
      (∃ other, ((s.threadStep cfg tid choice).threads other).pc.ending = true) →
      ∃ other, (s.threads other).pc.ending = true := by
    rintro early ⟨other, ending⟩
    by_cases here : other = tid
    · subst here
      simp only [FileState.threadStep, Function.update_self] at ending
      exact absurd (early.symm.trans ending) Bool.false_ne_true
    · simp only [FileState.threadStep, Function.update_of_ne here] at ending
      exact ⟨other, ending⟩
  refine ⟨files, resting, ?_⟩
  rcases waiting.effect Tid cfg opens bit with ⟨-, now, silent⟩ | ⟨-, -, now, event⟩
  · rcases settled.since with ⟨who, listed⟩ | ending
    · refine .inl ⟨who, ?_⟩
      simpa [FileState.threadStep, silent tid] using listed
    · exact .inr (others now.not_ending ending)
  · rcases settled.since with ⟨who, listed⟩ | ending
    · refine .inl ⟨who, ?_⟩
      simpa [FileState.threadStep, event tid] using listed
    · exact .inr (others (by rw [now.pc]; rfl) ending)

/-- **Nothing unsettles the PPU unseen.** A settled state comes from one, or the
release has just sent its update. -/
theorem Settled.of_threadStep (session : Session s)
    (allowed : (s.threads tid).pc = .user → s.Allows choice)
    (settled : Settled (s.threadStep cfg tid choice)) :
    (s.threads tid).pc = .releaseUpdate ∨ Settled s := by
  have after := settled.resting tid
  simp only [FileState.threadStep, Function.update_self] at after
  have files : filesAfter s.files (s.threads tid) choice = 0 := settled.files
  cases session.stage with
  | closed lock none waiting =>
      exact .inr (settled.of_waiting (waiting tid) (fun outside => (allowed outside).opens none)
        (.inl lock))
  | opening t lock none granted waiting =>
      by_cases here : tid = t
      · subst here
        simp only [filesAfter, granted.pc, granted.call, and_self, if_true] at files
        omega
      · exact .inr (settled.of_waiting (waiting tid here)
          (fun outside => (allowed outside).opens none) (.inr lock))
  | inUse lock one threads =>
      rcases threads tid with waiting | inCall
      · by_cases opens : (s.threads tid).pc = .user → choice.opens
        · exact .inr (settled.of_waiting waiting opens (.inr lock))
        · obtain ⟨called, notOpens⟩ := Classical.not_imp.mp opens
          cases choice with
          | call made =>
              by_cases release : made = .release
              · subst release
                -- the release still has its work before it
                simp only [act, called] at after
                exact absurd (after.ending rfl) Bool.false_ne_true
              · obtain ⟨-, -, unchanged⟩ :=
                  @act_call cfg s.shared _ called made notOpens release
                rw [unchanged, one] at files
                cases files
          | advance | fault => exact absurd trivial notOpens
      · rw [(@Pc.using_quiet s.shared _ choice Tid inCall.pc s.files tid).1, one] at files
        cases files
  | releasing t lock none call progress waiting =>
      by_cases here : tid = t
      · subst here
        by_cases unsent : (s.threads tid).pc = .releaseUpdate
        · exact .inl unsent
        · right
          have ending : (s.threads tid).pc.ending = true := by
            by_contra early
            obtain ⟨inside, early'⟩ := @act_early Tid s tid cfg choice lock progress.inRelease
              (Bool.eq_false_iff.mpr early) unsent
            exact Bool.false_ne_true (early'.symm.trans (after.ending inside))
          refine ⟨none, fun other => ?_, .inr ⟨tid, ending⟩⟩
          by_cases same : other = tid
          · subst same
            exact .inr (.inr ending)
          · exact .inl (waiting other same)
      · exact .inr (settled.of_waiting (waiting tid here)
          (fun outside => (allowed outside).opens none) (.inr lock))

end Session

/-! ## How far it has to go -/

/-- The steps that a release has before it, at most, not counting those in which it
spins. -/
def toGo : Pc → ℕ
  | .releaseTest => allocSize + 13
  | .releaseSpin => allocSize + 12
  | .releaseMemset k => allocSize - k + 11
  | .releaseMmio k => 4 - k + 5
  | .releaseUpdate => 4
  | .releaseSpinAgain => 3
  | .releaseVram => 2
  | .releasePpu => 1
  | _ => 0

/-- At one of the two spins. -/
def spins (pc : Pc) : Prop := pc = .releaseSpin ∨ pc = .releaseSpinAgain

/-- While the lock is held, a spin stays a spin. -/
theorem act_spins {cfg : Config} {sh : Shared} {th : Thread} {choice : Choice}
    (spinning : spins th.pc) (held : sh.vramLock = 1) : (act cfg sh th choice).2.pc = th.pc := by
  rcases spinning with pc | pc <;> simp only [act, pc, if_pos held]

/-- **A step of a release** spins, or it is one step closer to its return. -/
theorem act_release {cfg : Config} {sh : Shared} {th : Thread} {choice : Choice}
    (lock : sh.ppuLock = 1) (inside : th.pc.inRelease = true) :
    (spins th.pc ∧ sh.vramLock = 1 ∧ (act cfg sh th choice).2.pc = th.pc) ∨
    ((act cfg sh th choice).2.pc.inRelease = true ∧
      toGo (act cfg sh th choice).2.pc < toGo th.pc) ∨
    th.pc = .releasePpu := by
  obtain ⟨pc, call, offset, owes⟩ := th
  cases pc with
  | releaseTest =>
      simp only [act, lock, one_ne_zero, if_false]
      exact .inr (.inl ⟨rfl, Nat.lt_succ_self _⟩)
  | releaseSpin =>
      by_cases busy : sh.vramLock = 1
      · simp only [act, if_pos busy]
        exact .inl ⟨.inl rfl, busy, trivial⟩
      · simp only [act, if_neg busy]
        exact .inr (.inl ⟨rfl, by simp only [toGo]; omega⟩)
  | releaseMemset k =>
      by_cases more : k < vramSize + 8
      · simp only [act, if_pos more]
        exact .inr (.inl ⟨rfl, by simp only [toGo, allocSize]; omega⟩)
      · simp only [act, if_neg more]
        exact .inr (.inl ⟨rfl, by simp only [toGo]; omega⟩)
  | releaseMmio k =>
      cases following : resetOffsets[k]? with
      | none =>
          simp only [act, following]
          exact .inr (.inl ⟨rfl, by simp only [toGo]; omega⟩)
      | some offset =>
          have within : k < 4 := (List.getElem?_eq_some_iff.mp following).1
          simp only [act, following]
          exact .inr (.inl ⟨rfl, by simp only [toGo]; omega⟩)
  | releaseUpdate | releaseVram => exact .inr (.inl ⟨rfl, Nat.lt_succ_self _⟩)
  | releaseSpinAgain =>
      by_cases busy : sh.vramLock = 1
      · simp only [act, if_pos busy]
        exact .inl ⟨.inr rfl, busy, trivial⟩
      · simp only [act, if_neg busy]
        exact .inr (.inl ⟨rfl, by simp only [toGo]; omega⟩)
  | releasePpu => exact .inr (.inr rfl)
  | _ => cases inside

end FPGame.PpuDriver
