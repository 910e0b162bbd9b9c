import FPGame.Apu.SampleFetcher
import FPGame.Foundation.Memory

/-!
# From base addresses to samples

`chunk_player` takes a chunk of eight samples whenever it has none and plays one
byte of it after the other, a byte for each request; the last byte is held until
the next chunk arrives. `Stream` joins it with `sample_fetcher` and a memory
that never changes.

Whatever bases are offered, however long the memory takes and whenever samples
are requested, the chunks that the player has taken are the first ones of the
64 behind each base that was acknowledged, and the sample is a byte of them
whose position moves on by one for a request and never otherwise
(`sample_stream`).
-/

set_option autoImplicit false

namespace FPGame.Apu

open FPGame.Foundation

/-! ## `chunk_player` -/

namespace ChunkPlayer

/-- The registers of the player. -/
structure State where
  sampleArr : BitVec 64
  sampleIdx : BitVec 3
  arrValid : Bool
deriving DecidableEq, Repr

def reset : State where
  sampleArr := 0
  sampleIdx := 0
  arrValid := false

variable (s : State) (chunk : BitVec 64) (chunkValid sampleReq : Bool)

def chunkAck : Bool := chunkValid && !s.arrValid

def sample : BitVec 8 := lane 8 s.sampleIdx.toNat s.sampleArr

/-- The registers after a clock edge. -/
def next : State :=
  if chunkAck s chunkValid then { sampleArr := chunk, sampleIdx := 0, arrValid := true }
  else if s.sampleIdx == 7 && sampleReq then { s with arrValid := false }
  else if sampleReq then { s with sampleIdx := s.sampleIdx + 1 }
  else s

end ChunkPlayer

/-! ## The stream -/

/-- The fetcher, the player, the read in flight and three histories: the chunks
that the memory has returned with their addresses, the bases that have been
acknowledged and the chunks that the player has taken. -/
structure Stream where
  fetcher : SampleFetcher.State
  player : ChunkPlayer.State
  bus : Bus
  log : List (BitVec 29 × BitVec 64)
  bases : List (BitVec 29)
  chunks : List (BitVec 64)

namespace Stream

/-- What the environment chooses in a clock; `answer` acknowledges the read that
was accepted before, if any. -/
structure Input where
  base : BitVec 29
  baseValid : Bool
  memWait : Bool
  answer : Bool
  memData : BitVec 64
  sampleReq : Bool

def reset : Stream where
  fetcher := SampleFetcher.reset
  player := ChunkPlayer.reset
  bus := .free
  log := []
  bases := []
  chunks := []

variable (memory : ℕ → BitVec 64) (s : Stream) (x : Input)

def chunkAck : Bool := ChunkPlayer.chunkAck s.player s.fetcher.chunkValid

def baseAck : Bool := SampleFetcher.baseAck s.fetcher x.baseValid

/-- How the fetcher is connected. -/
def fetcherInput : SampleFetcher.Input where
  memData := s.bus.memData x.memData
  memAck := s.bus.memAck x.answer
  memWait := x.memWait
  chunkAck := s.chunkAck
  base := x.base
  baseValid := x.baseValid

/-- The read that the memory accepts. -/
def accepts : Option (BitVec 29) :=
  if SampleFetcher.memReadEn s.fetcher && !x.memWait then some (SampleFetcher.memAddr s.fetcher)
  else none

/-- One clock. -/
def next : Stream where
  fetcher := SampleFetcher.next s.fetcher (s.fetcherInput x)
  player := ChunkPlayer.next s.player s.fetcher.chunk s.fetcher.chunkValid x.sampleReq
  bus := (s.bus.next x.answer (s.accepts x)).serve memory
  log := s.log ++ (s.bus.arrival x.answer).toList
  bases := s.bases ++ if s.baseAck x then [x.base] else []
  chunks := s.chunks ++ if s.chunkAck then [s.fetcher.chunk] else []

/-- The circuit with a memory behind it. -/
def machine : Machine Stream Input where
  reset := reset
  next := next memory

/-! ## What is to be played -/

/-- The chunks behind a base address. -/
def block (base : BitVec 29) : List (BitVec 64) :=
  (List.range SampleFetcher.bufChunks).map fun k => memory (base + BitVec.ofNat 29 k).toNat

/-- The chunks behind a list of bases. -/
def content (bases : List (BitVec 29)) : List (BitVec 64) := bases.flatMap (block memory)

/-- The bytes of a list of chunks, in address order. -/
def bytes (chunks : List (BitVec 64)) : List (BitVec 8) :=
  chunks.flatMap fun chunk => (List.range 8).map fun k => lane 8 k chunk

theorem bytes_getElem? (chunks : List (BitVec 64)) (i : ℕ) {k : ℕ} (small : k < 8) :
    (bytes chunks)[8 * i + k]? = chunks[i]?.map (lane 8 k) := by
  induction chunks generalizing i with
  | nil => rfl
  | cons chunk chunks ih =>
      rw [bytes, List.flatMap_cons, ← bytes]
      have eight : ((List.range 8).map fun k => lane 8 k chunk).length = 8 := rfl
      cases i with
      | zero =>
          rw [Nat.mul_zero, Nat.zero_add, List.getElem?_append_left (by omega), List.getElem?_map,
            List.getElem?_range small]
          rfl
      | succ i =>
          rw [List.getElem?_append_right (by omega), eight,
            show 8 * (i + 1) + k - 8 = 8 * i + k by omega, ih i]
          rfl

/-- The chunks that have been returned and not been taken. -/
def pending : List (BitVec 64) := if s.fetcher.chunkValid then [s.fetcher.chunk] else []

/-- The output. -/
def sample : BitVec 8 := ChunkPlayer.sample s.player

/-- Where in the bytes of the chunks taken the sample is. -/
def position : ℕ := 8 * (s.chunks.length - 1) + s.player.sampleIdx.toNat

/-- Where it would be if every request so far had been answered: a request that
exhausts a chunk is answered when the next one is loaded. -/
def due : ℕ := s.position + (!s.player.arrValid).toNat

/-! ## The chunks -/

/-- The base of buffer `n`. -/
def baseAt (bases : List (BitVec 29)) (n : ℕ) : BitVec 29 := bases.getD n 0

/-- Chunk `i` behind the bases. -/
def wordAt (bases : List (BitVec 29)) (i : ℕ) : BitVec 64 :=
  memory (baseAt bases (i / SampleFetcher.bufChunks) +
    BitVec.ofNat 29 (i % SampleFetcher.bufChunks)).toNat

theorem baseAt_append {bases : List (BitVec 29)} (later : List (BitVec 29)) {n : ℕ}
    (earlier : n < bases.length) : baseAt (bases ++ later) n = baseAt bases n := by
  simp only [baseAt, List.getD_eq_getElem?_getD, List.getElem?_append_left earlier]

theorem wordAt_append {bases : List (BitVec 29)} (later : List (BitVec 29)) {i : ℕ}
    (earlier : i / SampleFetcher.bufChunks < bases.length) :
    wordAt memory (bases ++ later) i = wordAt memory bases i := by
  rw [wordAt, wordAt, baseAt_append later earlier]

/-- The chunks behind the bases, one after the other. -/
theorem content_eq (bases : List (BitVec 29)) :
    content memory bases =
      (List.range (SampleFetcher.bufChunks * bases.length)).map (wordAt memory bases) := by
  induction bases using List.reverseRecOn with
  | nil => rfl
  | append_singleton bases base ih =>
      have last : block memory base = (List.range SampleFetcher.bufChunks).map fun k =>
          wordAt memory (bases ++ [base]) (SampleFetcher.bufChunks * bases.length + k) := by
        apply List.map_congr_left
        intro k within
        have small : k < SampleFetcher.bufChunks := List.mem_range.mp within
        have spot : (SampleFetcher.bufChunks * bases.length + k) / SampleFetcher.bufChunks =
              bases.length ∧
            (SampleFetcher.bufChunks * bases.length + k) % SampleFetcher.bufChunks = k := by
          simp only [SampleFetcher.bufChunks] at small ⊢
          omega
        rw [wordAt, spot.1, spot.2, baseAt, List.getD_eq_getElem?_getD,
          List.getElem?_append_right le_rfl, Nat.sub_self]
        rfl
      have earlier : content memory bases =
          (List.range (SampleFetcher.bufChunks * bases.length)).map
            (wordAt memory (bases ++ [base])) := by
        rw [ih]
        apply List.map_congr_left
        intro i within
        have small := List.mem_range.mp within
        rw [wordAt_append]
        simp only [SampleFetcher.bufChunks] at small ⊢
        omega
      rw [List.length_append, List.length_singleton, Nat.mul_add, Nat.mul_one, List.range_add,
        List.map_append, List.map_map, ← earlier]
      simp only [content, List.flatMap_append, List.flatMap_singleton, last]
      rfl

/-! ## The invariant -/

/-- The fetcher reads the chunks behind the bases, the player has taken all of
them but a pending one and plays the last. -/
structure Streaming (s : Stream) : Prop where
  fetching : SampleFetcher.Fetching (baseAt s.bases) (wordAt memory s.bases) s.bases.length
    s.fetcher s.bus s.log
  handed : s.log.map Prod.snd = s.chunks ++ s.pending
  waiting : s.fetcher.ramState = .readWait → s.fetcher.chunkValid = false
  silent : s.chunks = [] → s.player.sampleArr = 0 ∧ s.player.arrValid = false
  playing : s.chunks ≠ [] → s.chunks.getLast? = some s.player.sampleArr
  exhausted : s.chunks ≠ [] → s.player.arrValid = false → s.player.sampleIdx = 7

theorem Streaming.reset : Streaming memory reset where
  fetching := .reset
  handed := rfl
  waiting := nofun
  silent _ := ⟨rfl, rfl⟩
  playing := nofun
  exhausted := nofun

variable {memory s}

/-- A base that is taken extends the stream behind the ones before. -/
theorem Streaming.fetching_next (streaming : Streaming memory s) :
    SampleFetcher.Fetching (baseAt (next memory s x).bases)
      (wordAt memory (next memory s x).bases) (next memory s x).bases.length
      (next memory s x).fetcher (next memory s x).bus (next memory s x).log := by
  have extended : SampleFetcher.Fetching (baseAt (next memory s x).bases)
      (wordAt memory (next memory s x).bases) s.bases.length s.fetcher s.bus s.log := by
    refine (streaming.fetching.rebase fun n earlier => ?_).congr fun i earlier => ?_
    · exact baseAt_append _ earlier
    · exact wordAt_append memory _ earlier
  have offered : SampleFetcher.baseAck s.fetcher (s.fetcherInput x).baseValid = true →
      (s.fetcherInput x).base = baseAt (next memory s x).bases s.bases.length := by
    intro ack
    have taken : s.baseAck x = true := ack
    simp only [next, taken, if_true, baseAt, List.getD_eq_getElem?_getD,
      List.getElem?_append_right le_rfl, Nat.sub_self]
    rfl
  have length : (next memory s x).bases.length = s.bases.length + (s.baseAck x).toNat := by
    simp only [next]
    cases s.baseAck x <;> simp
  rw [length]
  exact (extended.clock (x := s.fetcherInput x) rfl offered).serve fun _ => rfl

/-- The chunk that arrives becomes the pending one. -/
theorem Streaming.handed_next (streaming : Streaming memory s) :
    (next memory s x).log.map Prod.snd = (next memory s x).chunks ++ (next memory s x).pending := by
  have handed := streaming.handed
  have inFlight := streaming.fetching.inFlight
  cases bus : s.bus with
  | free =>
      rw [bus] at inFlight
      cases inFlight with
      | free idle =>
          simp only [next, bus, Bus.arrival, Option.toList_none, List.append_nil, handed, pending,
            chunkAck, SampleFetcher.next, idle, fetcherInput, ChunkPlayer.chunkAck]
          rcases Bool.eq_false_or_eq_true s.fetcher.chunkValid with valid | valid <;>
            rcases Bool.eq_false_or_eq_true s.player.arrValid with busy | busy <;>
            simp [valid, busy]
  | accepted address =>
      rw [bus] at inFlight
      cases inFlight with
      | accepted busy valid =>
          have empty := streaming.waiting busy
          simp [next, bus, Bus.arrival, handed, pending, chunkAck, SampleFetcher.next, busy,
            fetcherInput, ChunkPlayer.chunkAck, empty, Bus.memAck]
  | served address data =>
      rw [bus] at inFlight
      cases inFlight with
      | served busy valid =>
          have empty := streaming.waiting busy
          cases answer : x.answer <;>
            simp [next, bus, Bus.arrival, handed, pending, chunkAck, SampleFetcher.next, busy,
              fetcherInput, ChunkPlayer.chunkAck, empty, Bus.memAck, Bus.memData, answer]

/-- A chunk that is read finds the chunk register free. -/
theorem waiting_next : (next memory s x).fetcher.ramState = .readWait →
    (next memory s x).fetcher.chunkValid = false := by
  cases state : s.fetcher.ramState with
  | idle =>
      intro busy
      have reads : (SampleFetcher.memReadEn s.fetcher && !x.memWait) = true := by
        by_contra idles
        have still : (next memory s x).fetcher.ramState = .idle := by
          simp only [next, SampleFetcher.next, state]
          exact if_neg idles
        rw [still] at busy
        cases busy
      simp only [SampleFetcher.memReadEn, Bool.and_eq_true, Bool.not_eq_true'] at reads
      simp only [next, SampleFetcher.next, state, reads.1.1.2, Bool.and_false]
  | readWait =>
      intro busy
      cases ack : s.bus.memAck x.answer with
      | false => simp only [next, SampleFetcher.next, state, fetcherInput, ack]
      | true =>
          simp only [next, SampleFetcher.next, state, fetcherInput, ack, if_true] at busy
          cases busy

/-! ## The player -/

variable (memory s) in
/-- What a clock does to the player and to the chunks that it has taken. -/
theorem player_cases :
    (s.chunkAck = true ∧ s.player.arrValid = false ∧
      (next memory s x).chunks = s.chunks ++ [s.fetcher.chunk] ∧
      (next memory s x).player =
        { sampleArr := s.fetcher.chunk, sampleIdx := 0, arrValid := true }) ∨
    ((next memory s x).chunks = s.chunks ∧ s.player.sampleIdx = 7 ∧ x.sampleReq = true ∧
      (next memory s x).player = { s.player with arrValid := false }) ∨
    ((next memory s x).chunks = s.chunks ∧ s.player.sampleIdx ≠ 7 ∧ x.sampleReq = true ∧
      (next memory s x).player = { s.player with sampleIdx := s.player.sampleIdx + 1 }) ∨
    ((next memory s x).chunks = s.chunks ∧ x.sampleReq = false ∧
      (next memory s x).player = s.player) := by
  cases ack : s.chunkAck with
  | true =>
      have free : s.player.arrValid = false := by
        simp only [chunkAck, ChunkPlayer.chunkAck, Bool.and_eq_true, Bool.not_eq_true'] at ack
        exact ack.2
      refine .inl ⟨rfl, free, by simp only [next, ack, if_true], ?_⟩
      simp only [next, ChunkPlayer.next]
      exact if_pos ack
  | false =>
      have same : (next memory s x).chunks = s.chunks := by simp [next, ack]
      have player : (next memory s x).player =
          if s.player.sampleIdx == 7 && x.sampleReq then { s.player with arrValid := false }
          else if x.sampleReq then { s.player with sampleIdx := s.player.sampleIdx + 1 }
          else s.player := by
        simp only [next, ChunkPlayer.next]
        exact if_neg (Bool.not_eq_true _ ▸ ack)
      cases req : x.sampleReq with
      | false => exact .inr (.inr (.inr ⟨same, rfl, by simp [player, req]⟩))
      | true =>
          by_cases last : s.player.sampleIdx = 7
          · exact .inr (.inl ⟨same, last, rfl, by simp [player, req, last]⟩)
          · have before : (s.player.sampleIdx == 7) = false := beq_eq_false_iff_ne.mpr last
            exact .inr (.inr (.inl ⟨same, last, rfl, by simp only [player, req, before]; rfl⟩))

theorem Streaming.next (streaming : Streaming memory s) : Streaming memory (next memory s x) := by
  refine ⟨streaming.fetching_next x, streaming.handed_next x, waiting_next x,
    ?_, ?_, ?_⟩
  · intro none
    rcases player_cases memory s x with
      ⟨-, -, chunks, -⟩ | ⟨chunks, -, -, player⟩ | ⟨chunks, -, -, player⟩ | ⟨chunks, -, player⟩
    · simp [chunks] at none
    all_goals
      rw [player]
      rw [chunks] at none
      simp [streaming.silent none]
  · intro some
    rcases player_cases memory s x with
      ⟨-, -, chunks, player⟩ | ⟨chunks, -, -, player⟩ | ⟨chunks, -, -, player⟩ | ⟨chunks, -, player⟩
    · rw [chunks, player, List.getLast?_concat]
    all_goals
      rw [player, chunks]
      rw [chunks] at some
      exact streaming.playing some
  · intro some idle
    rcases player_cases memory s x with
      ⟨-, -, -, player⟩ | ⟨-, last, -, player⟩ | ⟨chunks, before, -, player⟩ | ⟨chunks, -, player⟩
    · simp [player] at idle
    · rw [player]
      exact last
    · rw [player] at idle
      rw [chunks] at some
      exact absurd (streaming.exhausted some idle) before
    · rw [player] at idle ⊢
      rw [chunks] at some
      exact streaming.exhausted some idle

/-! ## The theorem -/

/-- The fetcher is at most a buffer's chunks behind the bases that it has taken. -/
theorem Streaming.length_le (streaming : Streaming memory s) :
    s.log.length ≤ SampleFetcher.bufChunks * s.bases.length := by
  have taken := streaming.fetching.taken
  have between := streaming.fetching.between
  simp only [SampleFetcher.bufChunks] at taken between ⊢
  cases valid : s.fetcher.addrValid with
  | false =>
      have := between valid
      rw [valid, Bool.toNat_false] at taken
      omega
  | true =>
      rw [valid, Bool.toNat_true] at taken
      omega

/-- The chunks that have been returned are the first of the stream. -/
theorem Streaming.first_chunks (streaming : Streaming memory s) :
    s.chunks ++ s.pending <+: content memory s.bases := by
  have short := streaming.length_le
  have words : s.log.map Prod.snd = (List.range s.log.length).map (wordAt memory s.bases) := by
    conv_lhs => rw [streaming.fetching.log, List.map_map]
    rfl
  rw [← streaming.handed, words, content_eq, ← Nat.add_sub_of_le short, List.range_add,
    List.map_append]
  exact List.prefix_append _ _

/-- A base is acknowledged when all chunks behind the ones before have been returned. -/
theorem Streaming.length_of_baseAck (streaming : Streaming memory s) (ack : s.baseAck x = true) :
    s.log.length = SampleFetcher.bufChunks * s.bases.length := by
  have invalid : s.fetcher.addrValid = false := by
    simp only [baseAck, SampleFetcher.baseAck, Bool.and_eq_true, Bool.not_eq_true'] at ack
    exact ack.1
  have taken := streaming.fetching.taken
  have between := streaming.fetching.between invalid
  simp only [SampleFetcher.bufChunks] at taken between ⊢
  rw [invalid, Bool.toNat_false] at taken
  omega

/-- The sample is the byte at its position. -/
theorem Streaming.sample_eq (streaming : Streaming memory s) (some : s.chunks ≠ []) :
    (bytes (content memory s.bases))[s.position]? = .some s.sample := by
  have last : s.chunks[s.chunks.length - 1]? = .some s.player.sampleArr := by
    rw [← List.getLast?_eq_getElem?]
    exact streaming.playing some
  obtain ⟨rest, stream⟩ := (List.prefix_append s.chunks s.pending).trans streaming.first_chunks
  have inside : s.chunks.length - 1 < s.chunks.length :=
    Nat.sub_lt (List.length_pos_iff.mpr some) Nat.one_pos
  rw [position, bytes_getElem? _ _ s.player.sampleIdx.isLt, ← stream,
    List.getElem?_append_left inside, last]
  rfl

/-- The position moves on for a request, or at the next chunk for the request that
exhausted the last. -/
theorem Streaming.moves (streaming : Streaming memory s) (some : s.chunks ≠ []) :
    s.position ≤ (Stream.next memory s x).position ∧
      (Stream.next memory s x).due = s.due + (s.player.arrValid && x.sampleReq).toNat := by
  have length : 0 < s.chunks.length := List.length_pos_iff.mpr some
  rcases player_cases memory s x with
    ⟨-, free, chunks, player⟩ | ⟨chunks, last, req, player⟩ | ⟨chunks, before, req, player⟩ |
      ⟨chunks, req, player⟩
  · have idx := streaming.exhausted some free
    simp only [due, position, chunks, player, free, idx, List.length_append,
      List.length_singleton, Bool.not_false, Bool.not_true, Bool.toNat_true, Bool.toNat_false,
      Bool.false_and, show (7 : BitVec 3).toNat = 7 from rfl, show (0 : BitVec 3).toNat = 0 from rfl]
    omega
  · simp only [due, position, chunks, player, req, last, Bool.not_false, Bool.toNat_true,
      Bool.and_true]
    cases s.player.arrValid <;> simp
  · have valid : s.player.arrValid = true := by
      by_contra idle
      exact before (streaming.exhausted some (Bool.not_eq_true _ ▸ idle))
    have step : (s.player.sampleIdx + 1).toNat = s.player.sampleIdx.toNat + 1 := by
      have small := s.player.sampleIdx.isLt
      have notLast : s.player.sampleIdx.toNat ≠ 7 := fun eq => before (BitVec.eq_of_toNat_eq eq)
      rw [BitVec.toNat_add]
      exact Nat.mod_eq_of_lt (show s.player.sampleIdx.toNat + 1 < 8 by omega)
    simp only [due, position, chunks, player, req, step, valid, Bool.not_true, Bool.toNat_false,
      Bool.and_true, Bool.toNat_true]
    omega
  · simp only [due, position, chunks, player, req, Bool.and_false, Bool.toNat_false]
    omega

/-- The first chunk is played from its first byte. -/
theorem Streaming.begins (none : s.chunks = []) (some : (Stream.next memory s x).chunks ≠ []) :
    (Stream.next memory s x).position = 0 := by
  rcases player_cases memory s x with
    ⟨-, -, chunks, player⟩ | ⟨chunks, -⟩ | ⟨chunks, -⟩ | ⟨chunks, -⟩
  · rw [position, chunks, player, none]
    rfl
  all_goals exact absurd (chunks.trans none) some

theorem streaming (memory : ℕ → BitVec 64) (inputs : ℕ → Input) (t : ℕ) :
    Streaming memory ((machine memory).run inputs t) :=
  Machine.invariant_always (Streaming.reset memory)
    (fun _ x holds => holds.next x) inputs t

/-- **The stream of chunks and samples.** At every clock of every run:

* the chunks that the player has taken, and the one that waits for it, are the
  first ones behind the acknowledged bases, and they are all that the memory
  has returned;
* a base is acknowledged only when all 64 chunks behind each base before it have
  been returned;
* the sample is zero before the first chunk and then the byte at `position`,
  which begins at zero and never falls;
* a request makes one more byte due unless the player is starved, and nothing
  else does; what is due is the byte after `position` while the player is
  starved, and then `position` is that of the last byte of the last chunk taken. -/
theorem sample_stream (memory : ℕ → BitVec 64) (inputs : ℕ → Input) (t : ℕ) :
    let s := (machine memory).run inputs t
    let s' := (machine memory).run inputs (t + 1)
    (s.chunks ++ s.pending <+: content memory s.bases ∧
      s.log.map Prod.snd = s.chunks ++ s.pending) ∧
    (s.baseAck (inputs t) = true →
      s.log.length = SampleFetcher.bufChunks * s.bases.length ∧
        s'.bases = s.bases ++ [(inputs t).base]) ∧
    (s.chunks = [] → s.sample = 0 ∧ (s'.chunks ≠ [] → s'.position = 0)) ∧
    (s.chunks ≠ [] →
      (bytes (content memory s.bases))[s.position]? = some s.sample ∧
      s.position ≤ s'.position ∧
      s'.due = s.due + (s.player.arrValid && (inputs t).sampleReq).toNat ∧
      (s.player.arrValid = false → s.position + 1 = 8 * s.chunks.length)) := by
  intro s s'
  have now : Streaming memory s := streaming memory inputs t
  have step : s' = Stream.next memory s (inputs t) := rfl
  refine ⟨⟨now.first_chunks, now.handed⟩, fun ack => ⟨now.length_of_baseAck _ ack, ?_⟩,
    fun none => ⟨?_, fun some => Streaming.begins _ none some⟩,
    fun some => ⟨now.sample_eq some, (now.moves _ some).1, (now.moves _ some).2, fun idle => ?_⟩⟩
  · simp only [step, Stream.next, ack, if_true]
  · rw [sample, ChunkPlayer.sample, (now.silent none).1]
    simp [lane]
  · have length : 0 < s.chunks.length := List.length_pos_iff.mpr some
    rw [position, now.exhausted some idle, show (7 : BitVec 3).toNat = 7 from rfl]
    omega

end Stream

end FPGame.Apu
