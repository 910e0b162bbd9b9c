import FPGame.Kernel.PpuCalls
import FPGame.Kernel.PpuProcess

/-!
# Library calls as programs

A library call checks its arguments and then makes its system calls one after
the other, each checked before the next. It is a tree of system calls whose
branches are their results. `Exec` runs it from a state of the driver, with
background between any two atomic steps.

All write functions of the library are sequences of checked `pwrite`s
(`Sequence`). For the only holder of the descriptor such a sequence is all or
nothing (`exec_all_or_nothing`), it does not fail an assertion if it stays
inside the VRAM (`exec_no_assertion`), and it touches what it names
(`exec_frame`).
-/

set_option autoImplicit false

namespace FPGame.Library

open FPGame.Foundation FPGame.Linux
open FPGame.PpuDriver (Config Shared State Call Step Background Exclusive Calm SoleUser Returns
  WriteResult vramSize write_returns)

/-- Why a call ends the program. -/
inductive Abort where
  /-- A check of `nowaymsg`. -/
  | check (msg : String)
  /-- A failed `assert`. -/
  | assertion
deriving DecidableEq, Repr

/-- How a call ends. -/
inductive Outcome where
  | returned (ret : ℤ)
  | aborted (reason : Abort)
deriving DecidableEq, Repr

/-- A tree of system calls on the PPU's descriptor. -/
inductive Program where
  | done (ret : ℤ)
  | abort (reason : Abort)
  | sys (call : Call) (next : ℤ → Program)

namespace Program

/-- `nowaymsg(err, msg)` before the rest. -/
def nowaymsg (err : Bool) (msg : String) (rest : Program) : Program :=
  if err then .abort (.check msg) else rest

/-- What a system call returns to the library; `errno` says why it is -1. -/
def userRet (ret : ℤ) : ℤ := if ret < 0 then -1 else ret

/-- After a `pwrite` of `count` bytes that has returned. -/
def checked (count : BitVec 32) (rest : Program) (ret : ℤ) : Program :=
  if userRet ret = count.toInt then rest
  else if ret = -EBUSY then .done (-1)
  else .abort .assertion

/-- `if (pwrite(ppu_fd, buf, count, offset) != count) { assert(errno == EBUSY); return -1; }` -/
def pwrite (buf : ℕ → BitVec 8) (count offset : BitVec 32) (rest : Program) : Program :=
  .sys (.write offset.toNat ((List.range count.toNat).map buf)) (checked count rest)

/-- `if (ioctl(ppu_fd, num, param) < 0) { assert(errno == EBUSY); return -1; } return 0;` -/
def setRegister (num : ℕ) (param : BitVec 32) : Program :=
  .sys (.ioctl num param) fun ret =>
    if userRet ret < 0 then if ret = -EBUSY then .done (-1) else .abort .assertion else .done 0

/-- The writes of a program whose writes are all accepted. -/
def writes : Program → List (ℕ × List (BitVec 8))
  | .sys (.write offset bytes) next => (offset, bytes) :: (next bytes.length).writes
  | .sys _ next => (next 0).writes
  | _ => []

end Program

/-- The VRAM after a list of writes. -/
def applyWrites (shift : ℕ) (vram : ℕ → BitVec 8) (writes : List (ℕ × List (BitVec 8))) :
    ℕ → BitVec 8 :=
  writes.foldl (fun vram write => storeBlock vram (shift + write.1) write.2) vram

section Exec

variable {Tid : Type} [DecidableEq Tid]

/-- Running a program. -/
inductive Exec (cfg : Config) (tid : Tid) : State Tid → Program → State Tid → Outcome → Prop where
  | done {s : State Tid} {ret : ℤ} : Exec cfg tid s (.done ret) s (.returned ret)
  | abort {s : State Tid} {reason : Abort} : Exec cfg tid s (.abort reason) s (.aborted reason)
  | background {s s₁ s' : State Tid} {p : Program} {o : Outcome}
      (step : Background cfg tid s s₁) (rest : Exec cfg tid s₁ p s' o) : Exec cfg tid s p s' o
  | sys {s s₁ s₂ s' : State Tid} {call : Call} {next : ℤ → Program} {ret : ℤ} {o : Outcome}
      (outside : (s.threads tid).pc = .user) (called : Step cfg s (.thread tid (.call call)) s₁)
      (returns : Returns cfg tid s₁ ret s₂) (rest : Exec cfg tid s₂ (next ret) s' o) :
      Exec cfg tid s (.sys call next) s' o

/-- A run of library calls: each with the states before and after it. -/
structure Event (Tid : Type) where
  program : Program
  before : State Tid
  after : State Tid
  outcome : Outcome

/-- A process that makes library calls until it stops or one of them aborts. -/
inductive Session (cfg : Config) (tid : Tid) : State Tid → List (Event Tid) → Prop where
  | stop {s : State Tid} : Session cfg tid s []
  | returned {s s' : State Tid} {p : Program} {ret : ℤ} {events : List (Event Tid)}
      (exec : Exec cfg tid s p s' (.returned ret)) (rest : Session cfg tid s' events) :
      Session cfg tid s (⟨p, s, s', .returned ret⟩ :: events)
  | aborted {s s' : State Tid} {p : Program} {reason : Abort}
      (exec : Exec cfg tid s p s' (.aborted reason)) :
      Session cfg tid s [⟨p, s, s', .aborted reason⟩]

end Exec

/-- A sequence of checked `pwrite`s; every one of them `fits`. A count of -1
could not be told from a failure. -/
inductive Sequence (fits : ℕ → ℕ → Prop) : Program → Prop where
  | done : Sequence fits (.done 0)
  | check (msg : String) : Sequence fits (.abort (.check msg))
  | pwrite {buf : ℕ → BitVec 8} {count offset : BitVec 32} {rest : Program}
      (proper : count.toInt ≠ -1) (fit : fits offset.toNat count.toNat)
      (following : Sequence fits rest) : Sequence fits (.pwrite buf count offset rest)

theorem Sequence.mono {fits fits' : ℕ → ℕ → Prop}
    (weaker : ∀ offset count, fits offset count → fits' offset count) {p : Program}
    (sequence : Sequence fits p) : Sequence fits' p := by
  induction sequence with
  | done => exact .done
  | check msg => exact .check msg
  | pwrite proper fit following ih => exact .pwrite proper (weaker _ _ fit) ih

/-! ## What holds of every run -/

section Runs

variable {Tid : Type} [DecidableEq Tid] {cfg : Config} {tid : Tid} {s s' : State Tid}
  {p : Program} {o : Outcome}

theorem returns_exclusive {ret : ℤ} (returns : Returns cfg tid s ret s')
    (alone : Exclusive tid s) : Exclusive tid s' := by
  induction returns with
  | background step rest ih => exact ih (step.exclusive alone)
  | advance inside step rest ih => exact ih (alone.step step)
  | returned here step => exact alone.step step

theorem Exec.exclusive (exec : Exec cfg tid s p s' o) (alone : Exclusive tid s) :
    Exclusive tid s' := by
  induction exec with
  | done | abort => exact alone
  | background step rest ih => exact ih (step.exclusive alone)
  | sys outside called returns rest ih =>
      exact ih (returns_exclusive returns (alone.step called))

/-- Every call of a session finds the process alone. -/
theorem Session.exclusive {events : List (Event Tid)} (session : Session cfg tid s events)
    (alone : Exclusive tid s) :
    ∀ e ∈ events, Exclusive tid e.before ∧ Exec cfg tid e.before e.program e.after e.outcome := by
  induction session with
  | stop => exact fun e none => absurd none List.not_mem_nil
  | returned exec rest ih =>
      intro e member
      rcases List.mem_cons.mp member with rfl | later
      · exact ⟨alone, exec⟩
      · exact ih (exec.exclusive alone) e later
  | aborted exec =>
      intro e member
      obtain rfl := List.mem_singleton.mp member
      exact ⟨alone, exec⟩

/-- A program that is over only waits. -/
theorem Exec.of_over (exec : Exec cfg tid s p s' o) (alone : Exclusive tid s) :
    (∀ ret, p = .done ret → o = .returned ret ∧ s'.shared.vram = s.shared.vram) ∧
      ∀ reason, p = .abort reason → o = .aborted reason ∧ s'.shared.vram = s.shared.vram := by
  induction exec with
  | done =>
      refine ⟨?_, nofun⟩
      rintro ret ⟨⟩
      exact ⟨rfl, rfl⟩
  | abort =>
      refine ⟨nofun, ?_⟩
      rintro reason ⟨⟩
      exact ⟨rfl, rfl⟩
  | background step rest ih =>
      obtain ⟨done, abort⟩ := ih (step.exclusive alone)
      have same := (step.undisturbed alone.sole).vram
      refine ⟨fun ret ended => ?_, fun reason ended => ?_⟩
      · exact ⟨(done ret ended).1, (done ret ended).2.trans same⟩
      · exact ⟨(abort reason ended).1, (abort reason ended).2.trans same⟩
  | sys => exact ⟨nofun, nofun⟩

end Runs

/-! ## Sequences of writes -/

section Sequences

variable {Tid : Type} [DecidableEq Tid] {cfg : Config} {tid : Tid} {s s' : State Tid}
  {p rest : Program} {o : Outcome} {buf : ℕ → BitVec 8} {count offset : BitVec 32}

/-- What a checked write of a program does first. -/
inductive FirstWrite (cfg : Config) (tid : Tid) (s : State Tid) (buf : ℕ → BitVec 8)
    (count offset : BitVec 32) (rest : Program) (s' : State Tid) (o : Outcome) : Prop where
  | refused (beyond : vramSize < offset.toNat + count.toNat) (outcome : o = .aborted .assertion)
      (vram : s'.shared.vram = s.shared.vram)
  | busy (inside : offset.toNat + count.toNat ≤ vramSize) (held : ¬ Calm s)
      (outcome : o = .returned (-1)) (vram : s'.shared.vram = s.shared.vram)
  | stored (s₁ : State Tid) (inside : offset.toNat + count.toNat ≤ vramSize)
      (alone : Exclusive tid s₁) (free : Calm s₁)
      (vram : s₁.shared.vram = storeBlock s.shared.vram (cfg.shift + offset.toNat)
        ((List.range count.toNat).map buf))
      (exec : Exec cfg tid s₁ rest s' o)

theorem userRet_count (inside : offset.toNat + count.toNat ≤ vramSize) :
    Program.userRet ((((List.range count.toNat).map buf).length : ℕ) : ℤ) = count.toInt := by
  have small : count.toNat < 2 ^ 31 := by
    have bound : vramSize < 2 ^ 31 := by decide
    omega
  rw [List.length_map, List.length_range, Program.userRet, if_neg (by omega),
    BitVec.toInt_eq_toNat_of_lt (by omega)]

/-- **The spec of `pwrite`.** -/
theorem Exec.pwrite (exec : Exec cfg tid s (.pwrite buf count offset rest) s' o)
    (alone : Exclusive tid s) (proper : count.toInt ≠ -1) :
    FirstWrite cfg tid s buf count offset rest s' o := by
  generalize program : Program.pwrite buf count offset rest = p at exec
  induction exec with
  | done | abort => cases program
  | background step following ih =>
      have kept := step.undisturbed alone.sole
      cases ih (step.exclusive alone) program with
      | refused beyond outcome vram => exact .refused beyond outcome (vram.trans kept.vram)
      | busy inside held outcome vram =>
          exact .busy inside (fun calm => held (kept.calm calm)) outcome (vram.trans kept.vram)
      | stored s₁ inside alone' free vram exec =>
          exact .stored s₁ inside alone' free (by rw [vram, kept.vram]) exec
  | @sys s s₁ s₂ s' call next ret o outside called returns following ih =>
      obtain ⟨rfl, rfl⟩ := Program.sys.inj program
      obtain ⟨alone', -, result⟩ := write_returns alone outside called returns
      have ended := following.of_over alone'
      cases result with
      | invalid value beyond vram =>
          have failed : ¬ Program.userRet ret = count.toInt := by
            rw [value]
            exact fun same => proper same.symm
          obtain ⟨outcome, same⟩ := ended.2 .assertion (by
            rw [Program.checked, if_neg failed, if_neg (by rw [value]; decide)])
          rw [List.length_map, List.length_range] at beyond
          exact .refused beyond outcome (same.trans vram)
      | busy value inside vram held =>
          have failed : ¬ Program.userRet ret = count.toInt := by
            rw [value]
            exact fun same => proper same.symm
          obtain ⟨outcome, same⟩ := ended.1 (-1) (by
            rw [Program.checked, if_neg failed, if_pos value])
          rw [List.length_map, List.length_range] at inside
          exact .busy inside held outcome (same.trans vram)
      | done value inside vram free =>
          rw [List.length_map, List.length_range] at inside
          rw [value, Program.checked, if_pos (userRet_count inside)] at following
          exact .stored s₂ inside alone' free vram following

theorem writes_pwrite (inside : offset.toNat + count.toNat ≤ vramSize) :
    (Program.pwrite buf count offset rest).writes =
      (offset.toNat, (List.range count.toNat).map buf) :: rest.writes := by
  rw [Program.pwrite, Program.writes, Program.checked, if_pos (userRet_count inside)]

/-- **All or nothing.** A sequence of writes that returns -1 has found the
driver busy and has changed nothing; one that returns 0 has made all of its
writes. -/
theorem exec_all_or_nothing {fits : ℕ → ℕ → Prop} (sequence : Sequence fits p)
    (exec : Exec cfg tid s p s' o) (alone : Exclusive tid s) {ret : ℤ}
    (returned : o = .returned ret) :
    (ret = -1 ∧ ¬ Calm s ∧ s'.shared.vram = s.shared.vram) ∨
      (ret = 0 ∧ s'.shared.vram = applyWrites cfg.shift s.shared.vram p.writes) := by
  induction sequence generalizing s with
  | done =>
      obtain ⟨outcome, vram⟩ := (exec.of_over alone).1 0 rfl
      rw [outcome] at returned
      exact .inr ⟨(Outcome.returned.inj returned).symm, vram⟩
  | check msg =>
      obtain ⟨outcome, -⟩ := (exec.of_over alone).2 _ rfl
      rw [outcome] at returned
      cases returned
  | pwrite proper fit following ih =>
      cases exec.pwrite alone proper with
      | refused beyond outcome =>
          rw [outcome] at returned
          cases returned
      | busy inside held outcome vram =>
          rw [outcome] at returned
          exact .inl ⟨(Outcome.returned.inj returned).symm, held, vram⟩
      | stored s₁ inside alone' free vram exec' =>
          rcases ih exec' alone' with ⟨-, held, -⟩ | ⟨zero, vram'⟩
          · -- nobody can have taken the lock since the first write
            exact absurd free held
          · refine .inr ⟨zero, ?_⟩
            rw [vram', vram, writes_pwrite inside]
            rfl

/-- A sequence that stays inside the VRAM fails no assertion. -/
theorem exec_no_assertion
    (sequence : Sequence (fun offset count => offset + count ≤ vramSize) p)
    (exec : Exec cfg tid s p s' o) (alone : Exclusive tid s) : o ≠ .aborted .assertion := by
  induction sequence generalizing s with
  | done =>
      rw [((exec.of_over alone).1 0 rfl).1]
      exact nofun
  | check msg =>
      rw [((exec.of_over alone).2 _ rfl).1]
      exact nofun
  | pwrite proper fit following ih =>
      cases exec.pwrite alone proper with
      | refused beyond => exact absurd fit (by omega)
      | busy inside held outcome =>
          rw [outcome]
          exact nofun
      | stored s₁ inside alone' free vram exec' => exact ih exec' alone'

/-- **The frame of a sequence.** However it ends, it has changed only bytes of
the region that its writes fit into. -/
theorem exec_frame {region : ℕ → Prop}
    (sequence : Sequence (fun offset count => ∀ k, k < count → region (offset + k)) p)
    (exec : Exec cfg tid s p s' o) (alone : Exclusive tid s) {b : ℕ}
    (outside : ∀ a, region a → b ≠ cfg.shift + a) : s'.shared.vram b = s.shared.vram b := by
  induction sequence generalizing s with
  | done => rw [((exec.of_over alone).1 0 rfl).2]
  | check msg => rw [((exec.of_over alone).2 _ rfl).2]
  | @pwrite buf count offset rest proper fit following ih =>
      cases exec.pwrite alone proper with
      | refused beyond outcome vram | busy inside held outcome vram => rw [vram]
      | stored s₁ inside alone' free vram exec' =>
          rw [ih exec' alone', vram, storeBlock_of_outside]
          by_contra meets
          rw [List.length_map, List.length_range, not_or, Nat.not_lt, Nat.not_le] at meets
          have named := outside _ (fit (b - (cfg.shift + offset.toNat)) (by omega))
          omega

end Sequences

/-! ## Runs without background -/

section Alone

variable {Tid : Type} [DecidableEq Tid] {cfg : Config} {tid : Tid} {s : State Tid}
  {buf : ℕ → BitVec 8} {count offset : BitVec 32} {rest : Program}

/-- A call that `finish` runs to its return also returns as one of many threads. -/
theorem returns_of_finish {fuel : ℕ} {after : PpuDriver.Return}
    (finishes : PpuDriver.finish cfg fuel (s.shared, s.threads tid) = some after) :
    ∃ s', Returns cfg tid s after.ret s' ∧ s'.shared = after.shared ∧
      (s'.threads tid).pc = .user := by
  induction fuel generalizing s with
  | zero => cases finishes
  | succ fuel ih =>
      rw [PpuDriver.finish] at finishes
      by_cases here : ∃ ret, (s.threads tid).pc = .returned ret
      · obtain ⟨ret, here⟩ := here
        simp only [here] at finishes
        obtain rfl := Option.some.inj finishes
        refine ⟨_, .returned here (.thread s tid .advance), ?_, ?_⟩ <;>
          simp [PpuDriver.act, here]
      · rw [not_exists] at here
        have step : Step cfg s (.thread tid .advance) _ := .thread s tid .advance
        obtain ⟨s', returns, shared, outside⟩ := ih (s :=
          { shared := (PpuDriver.act cfg s.shared (s.threads tid) .advance).1
            threads := Function.update s.threads tid
              (PpuDriver.act cfg s.shared (s.threads tid) .advance).2 }) (by
            simp only [Function.update_self]
            split at finishes
            · next ret returned => exact absurd returned (here ret)
            · exact finishes)
        exact ⟨s', .advance here step returns, shared, outside⟩

/-- A `pwrite` that nothing interrupts. -/
theorem exec_pwrite_alone (outside : (s.threads tid).pc = .user) {after : PpuDriver.Return}
    (writes : PpuDriver.ppuWrite cfg s.shared offset.toNat ((List.range count.toNat).map buf) =
      some after) :
    ∃ s₁, s₁.shared = after.shared ∧ (s₁.threads tid).pc = .user ∧
      ∀ s' o, Exec cfg tid s₁ (Program.checked count rest after.ret) s' o →
        Exec cfg tid s (.pwrite buf count offset rest) s' o := by
  have begun : PpuDriver.act cfg s.shared (s.threads tid)
      (.call (.write offset.toNat ((List.range count.toNat).map buf))) =
      PpuDriver.act cfg s.shared PpuDriver.outside
        (.call (.write offset.toNat ((List.range count.toNat).map buf))) := by
    simp only [PpuDriver.act, outside, PpuDriver.outside]
  rw [PpuDriver.ppuWrite, ← begun] at writes
  obtain ⟨s₁, returns, shared, free⟩ := @returns_of_finish Tid _ cfg tid
    { shared := (PpuDriver.act cfg s.shared (s.threads tid)
        (.call (.write offset.toNat ((List.range count.toNat).map buf)))).1
      threads := Function.update s.threads tid (PpuDriver.act cfg s.shared (s.threads tid)
        (.call (.write offset.toNat ((List.range count.toNat).map buf)))).2 } _ after (by
      simp only [Function.update_self]
      exact writes)
  refine ⟨s₁, shared, free, fun s' o exec => ?_⟩
  exact .sys outside (.thread s tid _) returns exec

/-- A busy driver refuses a write inside the VRAM. -/
theorem exec_pwrite_busy (outside : (s.threads tid).pc = .user) (busy : s.shared.vramLock = 1)
    (inside : offset.toNat + count.toNat ≤ vramSize) :
    ∃ s', s'.shared = s.shared ∧
      Exec cfg tid s (.pwrite buf count offset rest) s' (.returned (-1)) := by
  obtain ⟨s₁, shared, -, continues⟩ := @exec_pwrite_alone Tid _ cfg tid s buf count offset
    rest outside _ PpuDriver.ppuWrite_eq
  rw [List.length_map, List.length_range, if_neg (by omega), if_pos busy] at shared continues
  refine ⟨s₁, shared, continues s₁ _ ?_⟩
  have counted := @userRet_count buf count offset inside
  have failed : ¬ Program.userRet (-EBUSY) = count.toInt := by
    rw [← counted, Program.userRet, Program.userRet, if_pos (by decide), if_neg (by omega)]
    omega
  rw [Program.checked, if_neg failed, if_pos rfl]
  exact .done

/-- A free driver accepts one. -/
theorem exec_pwrite_free (outside : (s.threads tid).pc = .user) (free : s.shared.vramLock ≠ 1)
    (inside : offset.toNat + count.toNat ≤ vramSize) :
    ∃ s₁, (s₁.threads tid).pc = .user ∧ s₁.shared.vramLock = 0 ∧
      s₁.shared.vram = storeBlock s.shared.vram (cfg.shift + offset.toNat)
        ((List.range count.toNat).map buf) ∧
      ∀ s' o, Exec cfg tid s₁ rest s' o →
        Exec cfg tid s (.pwrite buf count offset rest) s' o := by
  obtain ⟨s₁, shared, back, continues⟩ := @exec_pwrite_alone Tid _ cfg tid s buf count offset
    rest outside _ PpuDriver.ppuWrite_eq
  have counted := @userRet_count buf count offset inside
  rw [List.length_map, List.length_range, if_neg (by omega), if_neg free] at shared continues
  rw [List.length_map, List.length_range] at counted
  refine ⟨s₁, back, by rw [shared], by rw [shared], fun s' o exec => continues s' o ?_⟩
  rw [Program.checked, if_pos counted]
  exact exec

end Alone

end FPGame.Library
