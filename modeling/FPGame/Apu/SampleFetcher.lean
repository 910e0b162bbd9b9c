import FPGame.Foundation.Machine

/-!
# `sample_fetcher`

The fetcher takes a base address whenever it has none, reads the 64 chunks
behind it one at a time, and forgets the base with the last acknowledgement. It
asks for a chunk when its chunk register is free and has at most one read in
flight.

`Bus` is the memory's side: the read in flight, and the data once the memory
has looked them up, which may be at any moment before the acknowledgement.

A stream of buffers is described by the base address of each and by the words
of all of them. `Fetching` says that the chunks acknowledged so far are the
first ones of the stream, each from its own address, and how far the fetcher is
with the buffer it has; every clock keeps it (`Fetching.clock`).
-/

set_option autoImplicit false

namespace FPGame.Apu

/-- `enum { IDLE, READ_WAIT }` -/
inductive RamState where
  | idle
  | readWait
deriving DecidableEq, Repr

namespace SampleFetcher

/-- The registers of the fetcher. -/
structure State where
  addr : BitVec 29
  addrValid : Bool
  chunk : BitVec 64
  chunkAddr : BitVec 6
  chunkValid : Bool
  ramState : RamState
deriving DecidableEq, Repr

/-- The inputs of a clock. -/
structure Input where
  memData : BitVec 64
  memAck : Bool
  memWait : Bool
  chunkAck : Bool
  base : BitVec 29
  baseValid : Bool

def reset : State where
  addr := 0
  addrValid := false
  chunk := 0
  chunkAddr := 0
  chunkValid := false
  ramState := .idle

variable (s : State) (x : Input)

def chunkReset : Bool := s.chunkAddr == 0x3f

def baseAck (baseValid : Bool) : Bool := !s.addrValid && baseValid

def memAddr : BitVec 29 := s.addr + s.chunkAddr.zeroExtend 29

def memReadEn : Bool := s.ramState == .idle && !s.chunkValid && s.addrValid

/-- The registers after a clock edge. -/
def next : State where
  addr := if baseAck s x.baseValid then x.base else s.addr
  addrValid :=
    if baseAck s x.baseValid then true
    else if x.memAck && chunkReset s then false else s.addrValid
  ramState :=
    match s.ramState with
    | .idle => if memReadEn s && !x.memWait then .readWait else .idle
    | .readWait => if x.memAck then .idle else .readWait
  chunk := match s.ramState with | .idle => s.chunk | .readWait => x.memData
  chunkValid :=
    match s.ramState with
    | .idle => !x.chunkAck && s.chunkValid
    | .readWait => x.memAck
  chunkAddr :=
    match s.ramState with
    | .idle => s.chunkAddr
    | .readWait => if x.memAck then s.chunkAddr + 1 else s.chunkAddr

end SampleFetcher

/-! ## The read in flight -/

/-- The read port of the memory: nothing, an accepted read, or a read whose
data have been looked up. -/
inductive Bus where
  | free
  | accepted (address : BitVec 29)
  | served (address : BitVec 29) (data : BitVec 64)
deriving DecidableEq, Repr

namespace Bus

/-- The memory looks up the accepted read. -/
def serve (bus : Bus) (memory : ℕ → BitVec 64) : Bus :=
  match bus with
  | .accepted address => .served address (memory address.toNat)
  | bus => bus

/-- The memory acknowledges only what it has looked up. -/
def memAck (bus : Bus) (answer : Bool) : Bool :=
  match bus with
  | .served _ _ => answer
  | _ => false

/-- The data lines; they mean something only in a clock of an acknowledgement. -/
def memData (bus : Bus) (idle : BitVec 64) : BitVec 64 :=
  match bus with
  | .served _ data => data
  | _ => idle

/-- One clock: an acknowledgement ends a read, an accepted address begins one. -/
def next (bus : Bus) (answer : Bool) (accept : Option (BitVec 29)) : Bus :=
  if bus.memAck answer then .free
  else
    match bus, accept with
    | .free, some address => .accepted address
    | bus, _ => bus

/-- The chunk that is acknowledged in a clock, with its address. -/
def arrival (bus : Bus) (answer : Bool) : Option (BitVec 29 × BitVec 64) :=
  match bus with
  | .served address data => if answer then some (address, data) else none
  | _ => none

end Bus

/-! ## What has been read -/

namespace SampleFetcher

variable {base : ℕ → BitVec 29} {word : ℕ → BitVec 64}

/-- The number of chunks in a buffer. -/
def bufChunks : ℕ := 64

/-- Chunk `i` of the stream: its address and its contents. -/
def chunkAt (base : ℕ → BitVec 29) (word : ℕ → BitVec 64) (i : ℕ) : BitVec 29 × BitVec 64 :=
  (base (i / bufChunks) + BitVec.ofNat 29 (i % bufChunks), word i)

/-- The read in flight, if any, is that of the next chunk. -/
inductive InFlight (next : BitVec 29 × BitVec 64) (f : SampleFetcher.State) : Bus → Prop where
  | free : f.ramState = .idle → InFlight next f .free
  | accepted : f.ramState = .readWait → f.addrValid = true → InFlight next f (.accepted next.1)
  | served : f.ramState = .readWait → f.addrValid = true →
      InFlight next f (.served next.1 next.2)

/-- The fetcher has taken `taken` bases and the log holds what it has read. -/
structure Fetching (base : ℕ → BitVec 29) (word : ℕ → BitVec 64) (taken : ℕ)
    (f : SampleFetcher.State) (bus : Bus) (log : List (BitVec 29 × BitVec 64)) : Prop where
  chunkAddr : f.chunkAddr.toNat = log.length % bufChunks
  between : f.addrValid = false → log.length % bufChunks = 0
  taken : taken = log.length / bufChunks + f.addrValid.toNat
  addr : f.addrValid = true → f.addr = base (log.length / bufChunks)
  inFlight : InFlight (chunkAt base word log.length) f bus
  log : log = (List.range log.length).map (chunkAt base word)

theorem Fetching.reset : Fetching base word 0 SampleFetcher.reset .free [] where
  chunkAddr := rfl
  between _ := rfl
  taken := rfl
  addr := nofun
  inFlight := .free rfl
  log := rfl

section Clock

variable {taken : ℕ} {f : SampleFetcher.State} {bus : Bus}
  {log : List (BitVec 29 × BitVec 64)} {x : Input}

/-- The fetcher asks for the next chunk of the stream. -/
theorem Fetching.memAddr_eq (fetching : Fetching base word taken f bus log)
    (valid : f.addrValid = true) : memAddr f = (chunkAt base word log.length).1 := by
  have small : f.chunkAddr.toNat < 2 ^ 6 := f.chunkAddr.isLt
  have wide : f.chunkAddr.zeroExtend 29 = BitVec.ofNat 29 (log.length % bufChunks) := by
    apply BitVec.eq_of_toNat_eq
    rw [BitVec.toNat_setWidth, BitVec.toNat_ofNat, fetching.chunkAddr]
  rw [memAddr, chunkAt, fetching.addr valid, wide]

/-- A clock in which nothing arrives. -/
theorem Fetching.wait (fetching : Fetching base word taken f bus log) (noAck : x.memAck = false)
    (offered : baseAck f x.baseValid = true → x.base = base taken) (bus' : Bus)
    (inFlight : InFlight (chunkAt base word log.length) (next f x) bus') :
    Fetching base word (taken + (baseAck f x.baseValid).toNat) (next f x) bus' log := by
  have chunk : (next f x).chunkAddr = f.chunkAddr := by
    simp only [next, noAck]
    cases f.ramState <;> rfl
  refine ⟨by rw [chunk, fetching.chunkAddr], ?_, ?_, ?_, inFlight, fetching.log⟩
  · intro invalid
    apply fetching.between
    simp only [next, noAck, Bool.false_and, Bool.false_eq_true, if_false] at invalid
    split_ifs at invalid
    exact invalid
  · rw [fetching.taken]
    simp only [next, noAck, Bool.false_and]
    cases valid : f.addrValid <;> cases x.baseValid <;> simp [baseAck, valid]
  · intro valid
    by_cases ack : baseAck f x.baseValid = true
    · have invalid : f.addrValid = false := by
        simp only [baseAck, Bool.and_eq_true, Bool.not_eq_true'] at ack
        exact ack.1
      simp only [next, if_pos ack]
      rw [offered ack, fetching.taken, invalid]
      rfl
    · simp only [next, if_neg ack, noAck, Bool.false_and] at valid ⊢
      exact fetching.addr valid

/-- The clock in which the next chunk arrives. -/
theorem Fetching.arrive (fetching : Fetching base word taken f bus log)
    (ack : x.memAck = true) (busy : f.ramState = .readWait) (valid : f.addrValid = true) :
    Fetching base word (taken + (baseAck f x.baseValid).toNat) (next f x) .free
      (log ++ [chunkAt base word log.length]) := by
  have noBase : baseAck f x.baseValid = false := by simp [baseAck, valid]
  have count := fetching.chunkAddr
  have validNext : (next f x).addrValid = !chunkReset f := by
    simp only [next, noBase, ack, valid, Bool.true_and]
    cases chunkReset f <;> rfl
  have chunkNext : (next f x).chunkAddr = f.chunkAddr + 1 := by
    simp only [next, busy, ack, if_true]
  have addrNext : (next f x).addr = f.addr := by
    simp only [next, noBase]
    rfl
  have last : chunkReset f = true ↔ log.length % bufChunks = 63 := by
    rw [chunkReset, beq_iff_eq, ← count]
    constructor
    · intro eq
      rw [eq]
      rfl
    · intro eq
      exact BitVec.eq_of_toNat_eq eq
  have small : log.length % bufChunks < bufChunks := Nat.mod_lt _ (by decide)
  simp only [bufChunks] at count last small
  refine ⟨?_, ?_, ?_, ?_, .free (by simp only [next, busy, ack, if_true]), ?_⟩
  · rw [chunkNext, BitVec.toNat_add, count, List.length_append, List.length_singleton]
    exact Nat.mod_add_mod _ 64 1
  · intro invalid
    rw [validNext, Bool.not_eq_false'] at invalid
    have := last.mp invalid
    simp only [bufChunks, List.length_append, List.length_singleton]
    omega
  · rw [noBase, fetching.taken, valid, validNext, List.length_append, List.length_singleton]
    simp only [bufChunks, Bool.toNat_true, Bool.toNat_false]
    cases reset : chunkReset f with
    | false =>
        have := mt last.mpr (by simp [reset])
        simp only [Bool.not_false, Bool.toNat_true]
        omega
    | true =>
        have := last.mp reset
        simp only [Bool.not_true, Bool.toNat_false]
        omega
  · intro still
    rw [validNext, Bool.not_eq_true'] at still
    have := mt last.mpr (by simp [still])
    have same : (log ++ [chunkAt base word log.length]).length / bufChunks =
        log.length / bufChunks := by
      simp only [bufChunks, List.length_append, List.length_singleton]
      omega
    rw [addrNext, fetching.addr valid, same]
  · rw [List.length_append, List.length_singleton, List.range_succ, List.map_append,
      ← fetching.log]
    rfl

/-- **One clock of the fetcher.** The base that it takes, if any, has to be the
next one of the stream. -/
theorem Fetching.clock (fetching : Fetching base word taken f bus log) {answer : Bool}
    (acks : x.memAck = bus.memAck answer)
    (offered : baseAck f x.baseValid = true → x.base = base taken) :
    Fetching base word (taken + (baseAck f x.baseValid).toNat) (next f x)
      (bus.next answer (if memReadEn f && !x.memWait then some (memAddr f) else none))
      (log ++ (bus.arrival answer).toList) := by
  have nothing : ∀ {l : List (BitVec 29 × BitVec 64)}, l ++ [] = l := List.append_nil _
  cases fetching.inFlight with
  | free idle =>
      rw [show Bus.arrival .free answer = none from rfl, Option.toList_none, nothing]
      refine fetching.wait acks offered _ ?_
      by_cases reads : (memReadEn f && !x.memWait) = true
      · have valid : f.addrValid = true := by
          simp only [memReadEn, Bool.and_eq_true] at reads
          exact reads.1.2
        rw [if_pos reads, fetching.memAddr_eq valid]
        refine .accepted ?_ ?_
        · simp only [next, idle]
          exact if_pos reads
        · simp [next, valid, baseAck, acks, Bus.memAck]
      · rw [if_neg reads]
        refine .free ?_
        simp only [next, idle]
        exact if_neg reads
  | accepted busy valid =>
      rw [show Bus.arrival (.accepted _) answer = none from rfl, Option.toList_none, nothing]
      refine fetching.wait acks offered _ (.accepted ?_ ?_)
      · simp only [next, busy, acks, Bus.memAck]
        rfl
      · simp [next, valid, baseAck, acks, Bus.memAck]
  | served busy valid =>
      cases answer with
      | true =>
          exact fetching.arrive acks busy valid
      | false =>
          rw [show Bus.arrival (.served _ _) false = none from rfl, Option.toList_none, nothing]
          refine fetching.wait acks offered _ (.served ?_ ?_)
          · simp only [next, busy, acks, Bus.memAck]
            rfl
          · simp [next, valid, baseAck, acks, Bus.memAck]

/-- The memory looks up the next chunk. -/
theorem Fetching.serve (fetching : Fetching base word taken f bus log) {memory : ℕ → BitVec 64}
    (contents : f.addrValid = true →
      memory (chunkAt base word log.length).1.toNat = word log.length) :
    Fetching base word taken f (bus.serve memory) log := by
  refine { fetching with inFlight := ?_ }
  cases fetching.inFlight with
  | free idle => exact .free idle
  | accepted busy valid =>
      rw [Bus.serve, contents valid]
      exact .served busy valid
  | served busy valid => exact .served busy valid

/-- Whatever the memory returns is the next word of some stream. -/
theorem Fetching.serve_any (fetching : Fetching base word taken f bus log)
    (memory : ℕ → BitVec 64) :
    ∃ word', Fetching base word' taken f (bus.serve memory) log := by
  cases bus with
  | accepted address =>
      refine ⟨Function.update word log.length (memory address.toNat),
        { fetching with inFlight := ?_, log := ?_ }⟩
      · cases fetching.inFlight with
        | accepted busy valid =>
            have value : ∀ data : BitVec 64,
                (chunkAt base (Function.update word log.length data) log.length).2 = data := by
              intro data
              simp only [chunkAt, Function.update_self]
            have served := @InFlight.served (chunkAt base (Function.update word log.length
              (memory (chunkAt base word log.length).1.toNat)) log.length) f busy valid
            rw [value] at served
            exact served
      · conv_lhs => rw [fetching.log]
        apply List.map_congr_left
        intro i member
        have earlier := (List.mem_range.mp member).ne
        rw [chunkAt, chunkAt, Function.update_of_ne earlier]
  | free | served => exact ⟨word, fetching⟩

/-- Only what has been taken matters of a stream. -/
theorem Fetching.congr (fetching : Fetching base word taken f bus log) {word' : ℕ → BitVec 64}
    (same : ∀ i, i / bufChunks < taken → word' i = word i) :
    Fetching base word' taken f bus log := by
  have count := fetching.taken
  have before : ∀ i, i < log.length → word' i = word i := by
    intro i earlier
    apply same
    have between := fetching.between
    simp only [bufChunks] at count between ⊢
    cases valid : f.addrValid with
    | false =>
        have := between valid
        rw [valid, Bool.toNat_false] at count
        omega
    | true =>
        rw [valid, Bool.toNat_true] at count
        omega
  refine { fetching with inFlight := ?_, log := ?_ }
  · cases fetching.inFlight with
    | free idle => exact .free idle
    | accepted busy valid => exact .accepted busy valid
    | served busy valid =>
        have now : word' log.length = word log.length := by
          apply same
          rw [valid, Bool.toNat_true] at count
          omega
        rw [show (chunkAt base word log.length).2 = (chunkAt base word' log.length).2 from
          now.symm]
        exact .served busy valid
  · conv_lhs => rw [fetching.log]
    apply List.map_congr_left
    intro i member
    rw [chunkAt, chunkAt, before i (List.mem_range.mp member)]

/-- Only the bases that have been taken matter. -/
theorem Fetching.rebase (fetching : Fetching base word taken f bus log) {base' : ℕ → BitVec 29}
    (same : ∀ n, n < taken → base' n = base n) : Fetching base' word taken f bus log := by
  have count := fetching.taken
  have current : f.addrValid = true → base' (log.length / bufChunks) =
      base (log.length / bufChunks) := by
    intro valid
    apply same
    rw [count, valid]
    exact Nat.lt_succ_self _
  have before : ∀ i, i < log.length → base' (i / bufChunks) = base (i / bufChunks) := by
    intro i earlier
    apply same
    have between := fetching.between
    simp only [bufChunks] at count between ⊢
    cases valid : f.addrValid with
    | false =>
        have := between valid
        rw [valid, Bool.toNat_false] at count
        omega
    | true =>
        rw [valid, Bool.toNat_true] at count
        omega
  refine { fetching with addr := fun valid => ?_, inFlight := ?_, log := ?_ }
  · rw [fetching.addr valid, current valid]
  · have next (valid : f.addrValid = true) :
        chunkAt base' word log.length = chunkAt base word log.length := by
      rw [chunkAt, chunkAt, current valid]
    cases fetching.inFlight with
    | free idle => exact .free idle
    | accepted busy valid =>
        rw [← next valid]
        exact .accepted busy valid
    | served busy valid =>
        rw [← next valid]
        exact .served busy valid
  · conv_lhs => rw [fetching.log]
    apply List.map_congr_left
    intro i member
    rw [chunkAt, chunkAt, before i (List.mem_range.mp member)]

end Clock

end SampleFetcher

end FPGame.Apu
