import FPGame.Foundation.Memory

/-!
# `indirect_sync_writer`

Upon `sync` the writer reads addresses `0 .. ABUF_NUM_ADDR - 1` of an address
buffer, reads a source at the addresses that it finds there, and writes what
the source answers to `0 .. ABUF_NUM_ADDR - 1` of a target. Both reads take two
clocks, so the target address starts to count once the read address is at 4.

`Counting` are the registers in clock `k` of such a copy and `Copying` adds the
data: the words before the target address are final.
-/

set_option autoImplicit false

namespace FPGame.IndirectSyncWriter

open FPGame.Foundation

/-- `enum { IDLE, SYNC }` -/
inductive Phase where
  | idle
  | sync
deriving DecidableEq, Repr

/-- The registers, with both counters. -/
structure State where
  state : Phase
  done : Bool
  wrenTarg : Bool
  addrTarg : ℕ
  addrAbuf : ℕ
deriving DecidableEq, Repr

def reset : State where
  state := .idle
  done := false
  wrenTarg := false
  addrTarg := 0
  addrAbuf := 0

/-- `up_counter` -/
def upCounter (width : ℕ) (clr en : Bool) (count : ℕ) : ℕ :=
  if clr then 0 else if en then (count + 1) % 2 ^ width else count

/-- The registers after a clock edge. -/
def next (abufAddrWidth targAddrWidth abufNumAddr : ℕ) (s : State) (sync : Bool) : State :=
  match s.state with
  | .idle =>
      { state := if sync then .sync else .idle
        done := false
        wrenTarg := sync
        addrTarg := upCounter targAddrWidth true false s.addrTarg
        addrAbuf := upCounter abufAddrWidth true false s.addrAbuf }
  | .sync =>
      if s.addrTarg = abufNumAddr - 1 then
        { s with state := .idle, done := true, wrenTarg := false }
      else
        { state := .sync
          done := false
          wrenTarg := true
          addrTarg := upCounter targAddrWidth false (decide (4 ≤ s.addrAbuf)) s.addrTarg
          addrAbuf :=
            upCounter abufAddrWidth false (!decide (s.addrAbuf = abufNumAddr - 1)) s.addrAbuf }

/-- The target after a clock edge, with the data on the write port. -/
def write {γ : Type} (s : State) (data : γ) (target : ℕ → γ) : ℕ → γ :=
  store target s.wrenTarg s.addrTarg data

/-! ## The registers in a copy -/

/-- The registers in clock `k` of a copy. -/
structure Counting (abufNumAddr k : ℕ) (s : State) : Prop where
  state : s.state = .sync
  done : s.done = false
  wrenTarg : s.wrenTarg = true
  addrAbuf : s.addrAbuf = min k (abufNumAddr - 1)
  addrTarg : s.addrTarg = k - 4

section Counting

variable {abufAddrWidth targAddrWidth abufNumAddr k : ℕ} {s : State} {sync : Bool}

/-- An idle writer without `sync` only clears its counters. -/
theorem next_quiet (idle : s.state = .idle) :
    next abufAddrWidth targAddrWidth abufNumAddr s false = reset := by
  simp only [next, idle]
  rfl

/-- A `sync` in IDLE begins a copy. -/
theorem Counting.start (idle : s.state = .idle) :
    Counting abufNumAddr 0 (next abufAddrWidth targAddrWidth abufNumAddr s true) := by
  simp only [IndirectSyncWriter.next, idle]
  exact ⟨rfl, rfl, rfl, (Nat.zero_min _).symm, rfl⟩

/-- **The step of the counters.** -/
theorem Counting.next (counting : Counting abufNumAddr k s) (bound : k < abufNumAddr + 3)
    (enough : 5 ≤ abufNumAddr) (fits : abufNumAddr ≤ 2 ^ abufAddrWidth)
    (wide : abufAddrWidth ≤ targAddrWidth) :
    Counting abufNumAddr (k + 1)
      (IndirectSyncWriter.next abufAddrWidth targAddrWidth abufNumAddr s sync) := by
  have address := counting.addrAbuf
  have target := counting.addrTarg
  have room : 2 ^ abufAddrWidth ≤ 2 ^ targAddrWidth := Nat.pow_le_pow_right (by decide) wide
  have more : s.addrTarg ≠ abufNumAddr - 1 := by omega
  simp only [IndirectSyncWriter.next, counting.state, if_neg more]
  refine ⟨rfl, rfl, rfl, ?_, ?_⟩
  · by_cases last : s.addrAbuf = abufNumAddr - 1
    · simp only [upCounter, last, decide_true, Bool.not_true, Bool.false_eq_true, if_false]
      omega
    · simp only [upCounter, last, decide_false, Bool.not_false, Bool.false_eq_true, if_false,
        if_true]
      rw [Nat.mod_eq_of_lt (by omega)]
      omega
  · by_cases arrived : 4 ≤ s.addrAbuf
    · simp only [upCounter, arrived, decide_true, Bool.false_eq_true, if_false, if_true]
      rw [Nat.mod_eq_of_lt (by omega)]
      omega
    · simp only [upCounter, arrived, decide_false, Bool.false_eq_true, if_false]
      omega

/-- **The last clock of a copy.** -/
theorem Counting.finish (counting : Counting abufNumAddr (abufNumAddr + 3) s)
    (enough : 1 ≤ abufNumAddr) :
    IndirectSyncWriter.next abufAddrWidth targAddrWidth abufNumAddr s sync =
      { s with state := .idle, done := true, wrenTarg := false } := by
  have last : s.addrTarg = abufNumAddr - 1 := by
    rw [counting.addrTarg]
    omega
  simp only [IndirectSyncWriter.next, counting.state, if_pos last]

end Counting

/-! ## The data -/

/-- Clock `k` of a copy: `abuf` is the address buffer, `source` what the source
answers for a word of it, and `form` the form in which the target keeps that. -/
structure Copying {α β γ : Type} (abufNumAddr : ℕ) (abuf : ℕ → α) (source : α → β)
    (form : β → γ) (before : ℕ → γ) (k : ℕ) (abufPort : ReadPort α) (srcPort : ReadPort β)
    (target : ℕ → γ) : Prop where
  abufFetched : 1 ≤ k → k ≤ abufNumAddr → abufPort.fetched = abuf (k - 1)
  abufQ : 2 ≤ k → k ≤ abufNumAddr + 1 → abufPort.q = abuf (k - 2)
  srcFetched : 3 ≤ k → k ≤ abufNumAddr + 2 → srcPort.fetched = source (abuf (k - 3))
  srcQ : 4 ≤ k → srcPort.q = source (abuf (k - 4))
  copied : ∀ n, n + 4 < k → target n = form (source (abuf n))
  outside : ∀ n, abufNumAddr ≤ n → target n = before n

section Copying

variable {α β γ : Type} {abufNumAddr k : ℕ} {abuf : ℕ → α} {source : α → β} {form : β → γ}
  {before target : ℕ → γ} {s : State} {abufPort : ReadPort α} {srcPort : ReadPort β}

theorem Copying.start : Copying abufNumAddr abuf source form target 0 abufPort srcPort target where
  abufFetched := nofun
  abufQ := nofun
  srcFetched := nofun
  srcQ := nofun
  copied n early := absurd early (by omega)
  outside _ _ := rfl

/-- What a clock of a copy leaves in the target. -/
theorem Copying.write_copied
    (copying : Copying abufNumAddr abuf source form before k abufPort srcPort target)
    (counting : Counting abufNumAddr k s) (bound : k ≤ abufNumAddr + 3)
    (enough : 1 ≤ abufNumAddr) :
    (∀ n, n + 4 < k + 1 → write s (form srcPort.q) target n = form (source (abuf n))) ∧
      ∀ n, abufNumAddr ≤ n → write s (form srcPort.q) target n = before n := by
  have address := counting.addrTarg
  refine ⟨fun n early => ?_, fun n beyond => ?_⟩
  · by_cases current : n = s.addrTarg
    · -- four clocks ago the address of this word was read
      rw [write, counting.wrenTarg, store_true, current, Function.update_self,
        copying.srcQ (by omega), address]
    · rw [write, store_of_ne _ _ _ _ current]
      exact copying.copied n (by omega)
  · rw [write, store_of_ne _ _ _ _ (by omega)]
    exact copying.outside n beyond

/-- **The step of a copy.** -/
theorem Copying.next
    (copying : Copying abufNumAddr abuf source form before k abufPort srcPort target)
    (counting : Counting abufNumAddr k s) (bound : k < abufNumAddr + 3)
    (enough : 1 ≤ abufNumAddr) :
    Copying abufNumAddr abuf source form before (k + 1) (abufPort.next abuf s.addrAbuf)
      (srcPort.next source abufPort.q) (write s (form srcPort.q) target) := by
  obtain ⟨copied, outside⟩ := copying.write_copied counting (by omega) enough
  refine
    { abufFetched := ?_, abufQ := ?_, srcFetched := ?_, srcQ := ?_
      copied := copied, outside := outside }
  · intro _ within
    rw [ReadPort.next_fetched, counting.addrAbuf, Nat.min_eq_left (by omega), Nat.add_sub_cancel]
  · intro arrived within
    rw [ReadPort.next_q, copying.abufFetched (by omega) (by omega)]
    rfl
  · intro arrived within
    rw [ReadPort.next_fetched, copying.abufQ (by omega) (by omega)]
    rfl
  · intro arrived
    rw [ReadPort.next_q, copying.srcFetched (by omega) (by omega)]
    rfl

end Copying

end FPGame.IndirectSyncWriter
