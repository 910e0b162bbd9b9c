import FPGame.Foundation.Machine
import FPGame.Foundation.Memory

/-!
# `sync_writer`

Upon `sync` the writer reads addresses `0 .. MAX_ADDR` of a source memory and
writes them to the same addresses of a destination. The source answers after
two clocks, so the write address runs two clocks behind the read address and
the write data are the source's read data of the clock.

The first two clocks of a copy write stale data to address 0; the third writes
the word that belongs there. `Copying` says how far a copy is after `k` clocks,
`Copying.next` is its step, and `Stage` follows a copy past its end.
-/

set_option autoImplicit false

namespace FPGame.SyncWriter

open FPGame.Foundation

/-- `enum { IDLE, SYNC }` -/
inductive Phase where
  | idle
  | sync
deriving DecidableEq, Repr

/-- The registers of a writer of `dataWidth`-bit words. -/
structure State (dataWidth : ℕ) where
  state : Phase
  done : Bool
  addrFrom : ℕ
  wrenFrom : Bool
  addrTo : ℕ
  addrToBuf : ℕ
  byteenaTo : BitVec (dataWidth / 8)
  wrenTo : Bool
deriving DecidableEq, Repr

/-- The control inputs of a clock. -/
structure Input where
  sync : Bool
  clrDone : Bool
deriving DecidableEq, Repr

variable {dataWidth : ℕ}

/-- The write data are the read data of the same clock. -/
def wrdataTo (rddataFrom : BitVec dataWidth) : BitVec dataWidth := rddataFrom

/-- The registers while reset is asserted. -/
def reset (dataWidth : ℕ) : State dataWidth where
  state := .idle
  done := false
  addrFrom := 0
  wrenFrom := false
  addrTo := 0
  addrToBuf := 0
  byteenaTo := 0
  wrenTo := false

/-- The registers after a clock edge, for `ADDR_WIDTH` and `MAX_ADDR`. -/
def next (addrWidth maxAddr : ℕ) (s : State dataWidth) (x : Input) : State dataWidth :=
  match s.state with
  | .idle =>
      if x.sync then
        { s with
          done := false
          state := .sync
          addrFrom := 0
          addrTo := 0
          addrToBuf := 0
          wrenFrom := false
          byteenaTo := BitVec.allOnes _
          wrenTo := true }
      else if x.clrDone then { s with done := false }
      else s
  | .sync =>
      if s.addrTo = maxAddr then { s with done := true, wrenTo := false, state := .idle }
      else
        { s with
          addrFrom := if s.addrFrom = maxAddr then 0 else (s.addrFrom + 1) % 2 ^ addrWidth
          addrToBuf := s.addrFrom
          addrTo := s.addrToBuf }

/-- The destination after a clock edge. The destination may keep a word in
another form than the source, given by `form`. -/
def write {γ : Type} (form : BitVec dataWidth → γ) (s : State dataWidth)
    (port : ReadPort (BitVec dataWidth)) (destination : ℕ → γ) : ℕ → γ :=
  store destination s.wrenTo s.addrTo (form (wrdataTo port.q))

section Equations

variable {addrWidth maxAddr : ℕ} {s : State dataWidth} {x : Input}

theorem next_idle (idle : s.state = .idle) (quiet : x.sync = false) :
    next addrWidth maxAddr s x = { s with done := s.done && !x.clrDone } := by
  obtain ⟨state, done, addrFrom, wrenFrom, addrTo, addrToBuf, byteenaTo, wrenTo⟩ := s
  subst idle
  cases clear : x.clrDone <;> simp [next, quiet, clear]

theorem next_start (idle : s.state = .idle) (sync : x.sync = true) :
    next addrWidth maxAddr s x =
      { state := .sync, done := false, addrFrom := 0, wrenFrom := false, addrTo := 0,
        addrToBuf := 0, byteenaTo := BitVec.allOnes _, wrenTo := true } := by
  simp only [next, idle, sync, if_true]

theorem next_last (busy : s.state = .sync) (last : s.addrTo = maxAddr) :
    next addrWidth maxAddr s x = { s with done := true, wrenTo := false, state := .idle } := by
  simp only [next, busy, last, if_true]

theorem next_copy (busy : s.state = .sync) (more : s.addrTo ≠ maxAddr) :
    next addrWidth maxAddr s x =
      { s with
        addrFrom := if s.addrFrom = maxAddr then 0 else (s.addrFrom + 1) % 2 ^ addrWidth
        addrToBuf := s.addrFrom
        addrTo := s.addrToBuf } := by
  simp only [next, busy, if_neg more]

/-- A writer never drives the write enable of its source. -/
theorem next_wrenFrom (low : s.wrenFrom = false) :
    (next addrWidth maxAddr s x).wrenFrom = false := by
  unfold next
  split
  · split_ifs <;> first | rfl | exact low
  · split_ifs <;> exact low

end Equations

/-! ## The progress of a copy -/

/-- The registers in clock `k` of a copy, whatever the memories hold. -/
structure Counting (maxAddr k : ℕ) (s : State dataWidth) : Prop where
  state : s.state = .sync
  done : s.done = false
  wrenTo : s.wrenTo = true
  addrFrom : k ≤ maxAddr → s.addrFrom = k
  addrFrom_le : s.addrFrom ≤ maxAddr
  addrToBuf : k ≤ maxAddr + 1 → s.addrToBuf = k - 1
  addrTo : s.addrTo = k - 2

section Counting

variable {addrWidth maxAddr k : ℕ} {s : State dataWidth} {x : Input}

/-- A `sync` in IDLE begins a copy. -/
theorem Counting.start (idle : s.state = .idle) (sync : x.sync = true) :
    Counting maxAddr 0 (next addrWidth maxAddr s x) := by
  rw [next_start idle sync]
  exact ⟨rfl, rfl, rfl, fun _ => rfl, Nat.zero_le _, fun _ => rfl, rfl⟩

theorem Counting.next (counting : Counting maxAddr k s) (bound : k < maxAddr + 2)
    (positive : 0 < maxAddr) (fits : maxAddr < 2 ^ addrWidth) :
    Counting maxAddr (k + 1) (next addrWidth maxAddr s x) := by
  have address := counting.addrTo
  rw [next_copy counting.state (by omega)]
  refine ⟨counting.state, counting.done, counting.wrenTo, ?_, ?_, ?_, ?_⟩
  · intro within
    have here := counting.addrFrom (Nat.le_of_succ_le within)
    show (if s.addrFrom = maxAddr then 0 else (s.addrFrom + 1) % 2 ^ addrWidth) = k + 1
    rw [here, if_neg (by omega), Nat.mod_eq_of_lt (by omega)]
  · show (if s.addrFrom = maxAddr then 0 else (s.addrFrom + 1) % 2 ^ addrWidth) ≤ maxAddr
    have := counting.addrFrom_le
    split_ifs with wraps
    · exact Nat.zero_le _
    · rw [Nat.mod_eq_of_lt (by omega)]
      omega
  · intro within
    exact counting.addrFrom (by omega)
  · show s.addrToBuf = k + 1 - 2
    rw [counting.addrToBuf (by omega)]
    omega

/-- The last clock of a copy. -/
theorem Counting.finish (counting : Counting maxAddr (maxAddr + 2) s) :
    SyncWriter.next addrWidth maxAddr s x =
      { s with done := true, wrenTo := false, state := .idle } :=
  next_last counting.state (by rw [counting.addrTo, Nat.add_sub_cancel])

end Counting

/-- Clock `k` of a copy of `source` into a destination that held `before`. -/
structure Copying {γ : Type} (maxAddr : ℕ) (form : BitVec dataWidth → γ)
    (source : ℕ → BitVec dataWidth) (before : ℕ → γ) (k : ℕ) (s : State dataWidth)
    (port : ReadPort (BitVec dataWidth)) (destination : ℕ → γ) : Prop
    extends Counting maxAddr k s where
  fetched : 1 ≤ k → k ≤ maxAddr + 1 → port.fetched = source (k - 1)
  q : 2 ≤ k → port.q = source (k - 2)
  copied : ∀ a, a + 2 < k → destination a = form (source a)
  outside : ∀ a, maxAddr < a → destination a = before a

/-- A finished copy: the writer is idle and the destination holds the source. -/
structure Copied {γ : Type} (maxAddr : ℕ) (form : BitVec dataWidth → γ)
    (source : ℕ → BitVec dataWidth) (before : ℕ → γ) (s : State dataWidth)
    (destination : ℕ → γ) : Prop where
  state : s.state = .idle
  wrenTo : s.wrenTo = false
  copied : ∀ a, a ≤ maxAddr → destination a = form (source a)
  outside : ∀ a, maxAddr < a → destination a = before a

section Copying

variable {γ : Type} {addrWidth maxAddr k : ℕ} {form : BitVec dataWidth → γ}
  {source : ℕ → BitVec dataWidth} {before destination : ℕ → γ} {s : State dataWidth}
  {port : ReadPort (BitVec dataWidth)} {x : Input}

/-- A `sync` in IDLE begins a copy. -/
theorem Copying.start (idle : s.state = .idle) (sync : x.sync = true) :
    Copying maxAddr form source destination 0 (next addrWidth maxAddr s x) port destination where
  toCounting := .start idle sync
  fetched := nofun
  q := nofun
  copied a early := absurd early (by omega)
  outside _ _ := rfl

/-- What a clock of a copy leaves in the destination: the words before the
write address are final, and nothing past `MAX_ADDR` is touched. -/
theorem Copying.write_copied
    (copying : Copying maxAddr form source before k s port destination)
    (bound : k ≤ maxAddr + 2) :
    (∀ a, a + 2 < k + 1 → write form s port destination a = form (source a)) ∧
      ∀ a, maxAddr < a → write form s port destination a = before a := by
  refine ⟨fun a early => ?_, fun a beyond => ?_⟩
  · by_cases current : a = s.addrTo
    · -- the word written at this clock: two clocks ago its address was read
      have arrived : 2 ≤ k := by omega
      have address : a = k - 2 := current.trans copying.addrTo
      rw [write, copying.wrenTo, store_true, current, Function.update_self, wrdataTo,
        copying.q arrived, ← address, current]
    · rw [write, store_of_ne _ _ _ _ current]
      exact copying.copied a (by have := copying.addrTo; omega)
  · have address := copying.addrTo
    rw [write, store_of_ne _ _ _ _ (by omega)]
    exact copying.outside a beyond

/-- **The step of a copy.** -/
theorem Copying.next (copying : Copying maxAddr form source before k s port destination)
    (bound : k < maxAddr + 2) (positive : 0 < maxAddr) (fits : maxAddr < 2 ^ addrWidth) :
    Copying maxAddr form source before (k + 1) (next addrWidth maxAddr s x)
      (port.next source s.addrFrom) (write form s port destination) := by
  obtain ⟨copied, outside⟩ := copying.write_copied (by omega)
  refine
    { toCounting := copying.toCounting.next bound positive fits
      fetched := ?_, q := ?_, copied := copied, outside := outside }
  · intro _ within
    rw [ReadPort.next_fetched, copying.addrFrom (by omega)]
    rfl
  · intro arrived
    rw [ReadPort.next_q, copying.fetched (by omega) (by omega)]
    rfl

/-- **The last clock of a copy.** -/
theorem Copying.finish (addrWidth : ℕ) (x : Input)
    (copying : Copying maxAddr form source before (maxAddr + 2) s port destination) :
    Copied maxAddr form source before (SyncWriter.next addrWidth maxAddr s x)
        (write form s port destination) ∧
      (SyncWriter.next addrWidth maxAddr s x).done = true := by
  rw [copying.toCounting.finish]
  obtain ⟨copied, outside⟩ := copying.write_copied le_rfl
  exact ⟨⟨rfl, rfl, fun a within => copied a (by omega), outside⟩, rfl⟩

/-- A finished copy stays finished until the next `sync`. -/
theorem Copied.next (copied : Copied maxAddr form source before s destination)
    (quiet : x.sync = false) :
    Copied maxAddr form source before (SyncWriter.next addrWidth maxAddr s x)
      (write form s port destination) := by
  rw [next_idle copied.state quiet, write, copied.wrenTo, store_false]
  exact ⟨copied.state, rfl, copied.copied, copied.outside⟩

end Copying

/-! ## A copy from its first clock on -/

/-- The stage of a copy `k` clocks after it began: under way, or finished with
`done` held. -/
inductive Stage {γ : Type} (maxAddr : ℕ) (form : BitVec dataWidth → γ)
    (source : ℕ → BitVec dataWidth) (before : ℕ → γ) (k : ℕ) (s : State dataWidth)
    (port : ReadPort (BitVec dataWidth)) (destination : ℕ → γ) : Prop where
  | running (bound : k ≤ maxAddr + 2)
      (copying : Copying maxAddr form source before k s port destination)
  | finished (bound : maxAddr + 2 < k)
      (copied : Copied maxAddr form source before s destination) (done : s.done = true)

section Stage

variable {γ : Type} {addrWidth maxAddr k : ℕ} {form : BitVec dataWidth → γ}
  {source : ℕ → BitVec dataWidth} {before destination : ℕ → γ} {s : State dataWidth}
  {port : ReadPort (BitVec dataWidth)} {x : Input}

/-- One clock of a copy whose `done` nobody clears. -/
theorem Stage.next (stage : Stage maxAddr form source before k s port destination)
    (positive : 0 < maxAddr) (fits : maxAddr < 2 ^ addrWidth) (quiet : x.sync = false)
    (held : x.clrDone = false) :
    Stage maxAddr form source before (k + 1) (SyncWriter.next addrWidth maxAddr s x)
      (port.next source s.addrFrom) (write form s port destination) := by
  cases stage with
  | running bound copying =>
      by_cases last : k = maxAddr + 2
      · subst last
        obtain ⟨copied, done⟩ := copying.finish addrWidth x
        exact .finished (by omega) copied done
      · exact .running (by omega) (copying.next (by omega) positive fits)
  | finished bound copied done =>
      refine .finished (by omega) (copied.next quiet) ?_
      rw [next_idle copied.state quiet, held, done]
      rfl

/-- The `done` output tells whether the copy is over. -/
theorem Stage.done_eq (stage : Stage maxAddr form source before k s port destination) :
    s.done = decide (maxAddr + 2 < k) := by
  cases stage with
  | running bound copying => rw [copying.done, decide_eq_false (by omega)]
  | finished bound copied done => rw [done, decide_eq_true bound]

theorem Stage.copied (stage : Stage maxAddr form source before k s port destination)
    (past : maxAddr + 2 < k) : Copied maxAddr form source before s destination := by
  cases stage with
  | running bound copying => omega
  | finished bound copied done => exact copied

/-- No clock of a copy touches an address past `MAX_ADDR`. -/
theorem Stage.outside (stage : Stage maxAddr form source before k s port destination) {a : ℕ}
    (beyond : maxAddr < a) : destination a = before a := by
  cases stage with
  | running bound copying => exact copying.outside a beyond
  | finished bound copied done => exact copied.outside a beyond

end Stage

end FPGame.SyncWriter
