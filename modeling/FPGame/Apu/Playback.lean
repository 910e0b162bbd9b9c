import FPGame.Apu.I2sComm
import FPGame.Apu.SampleStream
import FPGame.Ppu.SpriteEngine

/-!
# From chunks to the bus

The rest of `apu.sv`. The word select of the serialiser crosses into the clock
domain of the circuit through `debounce`, a rising edge of it asks `chunk_player`
for the next sample, and the serialiser loads what the player holds then.

`Output` is moved by two clocks in any order. If the circuit has five clocks
between two edges of the bit clock (`Rated`), then there is one request for each
sample that is loaded, and it has been served (`InStep`). What the serialiser loads
then goes byte by byte through the chunks, but for the moments at which the player
has none (`Played`).
-/

set_option autoImplicit false

namespace FPGame.Apu

open FPGame.Foundation

/-! ## `posedge_detect` -/

namespace PosedgeDetect

structure State where
  out : Bool
  lastIn : Bool
deriving DecidableEq, Repr

def reset : State where
  out := false
  lastIn := false

/-- The registers after a clock edge. -/
def next (s : State) (input : Bool) : State where
  out := !s.lastIn && input
  lastIn := input

end PosedgeDetect

/-! ## The serialiser and a receiver -/

/-- The serialiser with a receiver on its bus, and two histories: the samples that it
has loaded and the number of its clocks. -/
structure Serial where
  i2s : I2sComm.State
  receiver : I2s.Receiver
  loaded : List (BitVec 16)
  ticks : ℕ

namespace Serial

def reset : Serial where
  i2s := I2sComm.reset
  receiver := I2s.receiver.reset
  loaded := []
  ticks := 0

def next (s : Serial) (sample : BitVec 16) : Serial where
  i2s := s.i2s.next sample
  receiver := s.receiver.next s.i2s.line
  loaded := s.loaded ++ if s.i2s.loads then [sample] else []
  ticks := s.ticks + 1

def machine : Machine Serial (BitVec 16) where
  reset := reset
  next := next

theorem run_eq (sample : ℕ → BitVec 16) (t : ℕ) :
    machine.run sample t =
      { i2s := I2sComm.machine.run sample t
        receiver := I2s.receiver.run (fun u => (I2sComm.machine.run sample u).line) t
        loaded := I2sComm.loaded sample t
        ticks := t } := by
  induction t with
  | zero => rfl
  | succ t ih =>
      rw [Machine.run_succ, ih]
      simp only [machine, next, I2sComm.loaded, takenSince, Bool.false_eq_true, if_false]
      congr 2
      split_ifs <;> rfl

variable {s : Serial}

/-- The registers of the serialiser, as functions of its clock. -/
theorem at_of_reached (reached : machine.Reached s) :
    ∃ sample, I2sComm.At sample s.ticks s.i2s := by
  obtain ⟨sample, t, rfl⟩ := reached.exists_run
  rw [run_eq]
  exact ⟨sample, I2sComm.at_run sample t⟩

/-- A sample is loaded in every 32nd clock. -/
theorem loads_iff (reached : machine.Reached s) :
    s.i2s.loads = true ↔ 0 < s.ticks ∧ s.ticks % 32 = 0 := by
  obtain ⟨_, here⟩ := at_of_reached reached
  exact here.loads_iff

theorem length_loaded (reached : machine.Reached s) : s.loaded.length = (s.ticks - 1) / 32 := by
  obtain ⟨sample, t, rfl⟩ := reached.exists_run
  rw [run_eq, I2sComm.loaded_eq, List.length_map, List.length_range]

/-- **What the receiver has decoded**: the samples that were loaded, each twice, behind
a word of zeros. -/
theorem received_of_reached (reached : machine.Reached s) :
    s.receiver.words.length = (s.ticks - 17) / 16 ∧
      s.receiver.words <+:
        (I2sComm.sent s.loaded).map fun word => ⟨word.1, I2s.msbFirst word.2⟩ := by
  obtain ⟨sample, t, rfl⟩ := reached.exists_run
  rw [run_eq]
  have words : (I2s.receiver.run (fun u => (I2sComm.machine.run sample u).line) t).words =
      (List.range ((t - 17) / 16)).map
        (I2s.wordAt (fun u => (I2sComm.machine.run sample u).line) 16 16) := by
    by_cases early : t < 17
    · rw [show (t - 17) / 16 = 0 by omega]
      cases t with
      | zero => rfl
      | succ t =>
          exact congrArg I2s.Receiver.words
            ((I2sComm.framed sample).waiting (show t < 16 by omega))
    · obtain ⟨n, k, within, rfl⟩ : ∃ n k, k < 16 ∧ t = 16 + 1 + 16 * n + k :=
        ⟨(t - 17) / 16, (t - 17) % 16, Nat.mod_lt _ (by decide), by omega⟩
      rw [show (16 + 1 + 16 * n + k - 17) / 16 = n by omega]
      exact congrArg I2s.Receiver.words
        (I2s.received (I2sComm.framed sample) (by decide) n within)
  obtain ⟨more, length⟩ : ∃ more, 2 * ((t - 1) / 32) + 1 = (t - 17) / 16 + more :=
    Nat.exists_eq_add_of_le (by omega)
  have sent : ∀ n, I2s.wordAt (fun u => (I2sComm.machine.run sample u).line) 16 16 n =
      ⟨(I2sComm.sentAt sample n).1, I2s.msbFirst (I2sComm.sentAt sample n).2⟩ := I2sComm.wordAt_eq
  refine ⟨by rw [words, List.length_map, List.length_range], ?_⟩
  rw [words, I2sComm.loaded_eq, I2sComm.sent_eq, List.map_map, length, List.range_add,
    List.map_append]
  exact ⟨_, congrArg (· ++ _) (List.map_congr_left fun n _ => sent n)⟩

end Serial

/-! ## The output stage -/

/-- How far the player was when a sample was loaded: the number of bytes that it had
played to the end, and whether it had no further one. -/
structure Heard where
  due : ℕ
  starved : Bool
deriving DecidableEq, Repr

/-- The byte that the player held, by its position in the stream of chunks. -/
def Heard.position (h : Heard) : Option ℕ :=
  if h.starved then if h.due = 0 then none else some (h.due - 1) else some h.due

/-- The output stage, and three histories: the chunks that the player has taken, what
was loaded, and the clocks of the circuit since the last edge of the bit clock. -/
structure Output where
  player : ChunkPlayer.State
  debounceI2sWs : Ppu.Debounce Bool
  posedge : PosedgeDetect.State
  serial : Serial
  chunks : List (BitVec 64)
  heard : List Heard
  clocks : ℕ

namespace Output

def reset : Output where
  player := ChunkPlayer.reset
  debounceI2sWs := { mid := false, out := false }
  posedge := PosedgeDetect.reset
  serial := Serial.reset
  chunks := []
  heard := []
  clocks := 0

variable (s : Output)

def sampleReq : Bool := s.posedge.out

/-- `i2s_sample` -/
def i2sSample (apuEn : Bool) : BitVec 16 :=
  if apuEn then ChunkPlayer.sample s.player ++ (0 : BitVec 8) else 0

/-- The bytes that have been played to the end. -/
def due : ℕ :=
  8 * s.chunks.length - if s.player.arrValid then 8 - s.player.sampleIdx.toNat else 0

def now : Heard where
  due := s.due
  starved := !s.player.arrValid

/-- A clock of the circuit. -/
def clock (chunk : BitVec 64) (chunkValid : Bool) : Output :=
  { s with
    player := ChunkPlayer.next s.player chunk chunkValid s.sampleReq
    debounceI2sWs := s.debounceI2sWs.next s.serial.i2s.i2sWs
    posedge := PosedgeDetect.next s.posedge s.debounceI2sWs.out
    chunks := s.chunks ++ if ChunkPlayer.chunkAck s.player chunkValid then [chunk] else []
    clocks := s.clocks + 1 }

/-- An edge of the bit clock. -/
def tick (apuEn : Bool) : Output :=
  { s with
    serial := s.serial.next (s.i2sSample apuEn)
    heard := s.heard ++ if s.serial.i2s.loads then [s.now] else []
    clocks := 0 }

/-- The circuit is fast enough for an edge of the bit clock. -/
def Rated : Prop := 5 ≤ s.clocks

instance : Decidable s.Rated := inferInstanceAs (Decidable (5 ≤ s.clocks))

end Output

/-! ## Two clocks -/

/-- The word select in a clock of the serialiser, and in the one before. -/
def wsAt (t : ℕ) : Bool := decide (t / 16 % 2 = 0)

def wsBefore (t : ℕ) : Bool := if t % 16 = 0 then !wsAt t else wsAt t

theorem wsBefore_succ (t : ℕ) : wsBefore (t + 1) = wsAt t := by
  rw [wsBefore]
  split_ifs with boundary
  · rw [wsAt, wsAt, ← decide_not, decide_eq_decide]
    omega
  · rw [wsAt, wsAt, decide_eq_decide]
    omega

/-- The word select rises in every 32nd clock. -/
theorem rises_iff (t : ℕ) : (!wsBefore t && wsAt t) = true ↔ t % 32 = 0 := by
  rw [wsBefore, Bool.and_eq_true]
  split_ifs with boundary
  · rw [Bool.not_not, and_self, wsAt, decide_eq_true_eq]
    omega
  · rw [Bool.not_eq_true']
    constructor
    · rintro ⟨low, high⟩
      exact absurd (low.symm.trans high) Bool.false_ne_true
    · intro multiple
      omega

/-- Where the word select has come to, and the request that follows its rise. -/
structure Output.InStep (s : Output) : Prop where
  reached : Serial.machine.Reached s.serial
  mid : s.debounceI2sWs.mid = if s.clocks = 0 then wsBefore s.serial.ticks else wsAt s.serial.ticks
  out : s.debounceI2sWs.out = if s.clocks ≤ 1 then wsBefore s.serial.ticks else wsAt s.serial.ticks
  lastIn : s.posedge.lastIn =
    if s.clocks ≤ 2 then wsBefore s.serial.ticks else wsAt s.serial.ticks
  sampleReq : s.sampleReq = true ↔ s.clocks = 3 ∧ s.serial.ticks % 32 = 0

section InStep

variable {s : Output} {chunk : BitVec 64} {chunkValid apuEn : Bool}

theorem Output.InStep.reset : Output.InStep Output.reset where
  reached := .reset
  mid := rfl
  out := rfl
  lastIn := rfl
  sampleReq := by decide

theorem Output.InStep.clock (inStep : s.InStep) : (s.clock chunk chunkValid).InStep := by
  obtain ⟨_, here⟩ := Serial.at_of_reached inStep.reached
  have ws : s.serial.i2s.i2sWs = wsAt s.serial.ticks := here.i2sWs
  refine ⟨inStep.reached, ws, ?_, ?_, ?_⟩
  · show s.debounceI2sWs.mid = _
    rw [inStep.mid]
    simp only [Output.clock, Nat.succ_le_succ_iff, Nat.le_zero]
  · show s.debounceI2sWs.out = _
    rw [inStep.out]
    simp only [Output.clock, Nat.succ_le_succ_iff]
  · show (!s.posedge.lastIn && s.debounceI2sWs.out) = true ↔ s.clocks + 1 = 3 ∧ _
    rw [inStep.lastIn, inStep.out]
    by_cases early : s.clocks ≤ 1
    · rw [if_pos early, if_pos (by omega), Bool.not_and_self]
      simp only [Bool.false_eq_true, false_iff]
      omega
    · rw [if_neg early]
      by_cases second : s.clocks = 2
      · rw [if_pos second.le, rises_iff, second]
        simp only [Output.clock, true_and]
      · rw [if_neg (by omega), Bool.not_and_self]
        simp only [Bool.false_eq_true, false_iff]
        omega

theorem Output.InStep.tick (inStep : s.InStep) (rated : s.Rated) : (s.tick apuEn).InStep := by
  rw [Output.Rated] at rated
  refine ⟨inStep.reached.next _, ?_, ?_, ?_, ?_⟩
  · show s.debounceI2sWs.mid = wsBefore (s.serial.ticks + 1)
    rw [inStep.mid, if_neg (by omega), wsBefore_succ]
  · show s.debounceI2sWs.out = wsBefore (s.serial.ticks + 1)
    rw [inStep.out, if_neg (by omega), wsBefore_succ]
  · show s.posedge.lastIn = wsBefore (s.serial.ticks + 1)
    rw [inStep.lastIn, if_neg (by omega), wsBefore_succ]
  · show s.sampleReq = true ↔ (0 : ℕ) = 3 ∧ _
    rw [inStep.sampleReq]
    omega

end InStep

/-! ## What the player plays -/

/-- The player holds the last chunk that it took. -/
structure ChunkPlayer.Playing (chunks : List (BitVec 64)) (player : ChunkPlayer.State) :
    Prop where
  silent : chunks = [] → player.sampleArr = 0 ∧ player.arrValid = false
  playing : chunks ≠ [] → chunks.getLast? = some player.sampleArr
  exhausted : chunks ≠ [] → player.arrValid = false → player.sampleIdx = 7

section Playing

variable {chunks : List (BitVec 64)} {player : ChunkPlayer.State} {chunk : BitVec 64}
  {chunkValid sampleReq : Bool}

theorem ChunkPlayer.Playing.reset : ChunkPlayer.Playing [] ChunkPlayer.reset where
  silent _ := ⟨rfl, rfl⟩
  playing none := absurd rfl none
  exhausted none := absurd rfl none

/-- What a clock does to the player. -/
inductive ChunkPlayer.Clocked (player : ChunkPlayer.State) (chunk : BitVec 64)
    (chunkValid sampleReq : Bool) : ChunkPlayer.State → Prop where
  /-- It takes a chunk. -/
  | takes : chunkAck player chunkValid = true → player.arrValid = false →
      Clocked player chunk chunkValid sampleReq
        { sampleArr := chunk, sampleIdx := 0, arrValid := true }
  /-- It has played the last byte of its chunk. -/
  | ends : chunkAck player chunkValid = false → sampleReq = true → player.sampleIdx = 7 →
      Clocked player chunk chunkValid sampleReq { player with arrValid := false }
  /-- It goes on to the next byte. -/
  | goesOn : chunkAck player chunkValid = false → sampleReq = true → player.sampleIdx ≠ 7 →
      Clocked player chunk chunkValid sampleReq
        { player with sampleIdx := player.sampleIdx + 1 }
  | waits : chunkAck player chunkValid = false → sampleReq = false →
      Clocked player chunk chunkValid sampleReq player

theorem ChunkPlayer.clocked_next :
    Clocked player chunk chunkValid sampleReq (next player chunk chunkValid sampleReq) := by
  rw [next]
  cases ack : chunkAck player chunkValid with
  | true =>
      rw [if_pos rfl]
      rw [chunkAck, Bool.and_eq_true, Bool.not_eq_true'] at ack
      exact .takes (by rw [chunkAck, ack.1, ack.2]; rfl) ack.2
  | false =>
      rw [if_neg Bool.false_ne_true]
      cases req : sampleReq with
      | false => simpa using Clocked.waits ack rfl
      | true =>
          by_cases last : player.sampleIdx = 7
          · rw [if_pos (by rw [last]; rfl)]
            exact .ends ack rfl last
          · rw [if_neg (by simpa using last), if_pos rfl]
            exact .goesOn ack rfl last

theorem ChunkPlayer.Playing.next (playing : Playing chunks player) :
    Playing (chunks ++ if chunkAck player chunkValid then [chunk] else [])
      (ChunkPlayer.next player chunk chunkValid sampleReq) := by
  have clocked := @clocked_next player chunk chunkValid sampleReq
  generalize ChunkPlayer.next player chunk chunkValid sampleReq = player' at clocked
  cases clocked with
  | takes ack free =>
      rw [ack, if_pos rfl]
      exact ⟨by simp, fun _ => List.getLast?_concat, nofun⟩
  | ends ack req last =>
      rw [ack, if_neg Bool.false_ne_true, List.append_nil]
      exact ⟨fun none => ⟨(playing.silent none).1, rfl⟩, playing.playing, fun _ _ => last⟩
  | goesOn ack req before =>
      rw [ack, if_neg Bool.false_ne_true, List.append_nil]
      exact ⟨playing.silent, playing.playing,
        fun some idle => absurd (playing.exhausted some idle) before⟩
  | waits ack req =>
      rw [ack, if_neg Bool.false_ne_true, List.append_nil]
      exact playing

end Playing

/-! ## What is heard -/

/-- Two samples that are loaded one after the other. -/
inductive Heard.Follows : Heard → Heard → Prop where
  /-- The next byte, or the same one again if there is no next. -/
  | goesOn (due : ℕ) (starved : Bool) : Follows ⟨due, false⟩ ⟨due + 1, starved⟩
  /-- The player still waits, or the next byte has come in time. -/
  | waits (due : ℕ) (starved : Bool) : Follows ⟨due, true⟩ ⟨due, starved⟩
  /-- The next byte came too early, and it has gone by. -/
  | misses (due : ℕ) : Follows ⟨due, true⟩ ⟨due + 1, false⟩

/-- Up to the next request: a chunk may have come. -/
def Heard.Keeps (before after : Heard) : Prop :=
  after.due = before.due ∧ (before.starved = false → after.starved = false)

theorem Heard.Follows.keeps {a b c : Heard} (follows : a.Follows b) (keeps : b.Keeps c) :
    a.Follows c := by
  obtain ⟨due, starved⟩ := c
  obtain ⟨same, still⟩ := keeps
  cases follows with
  | goesOn d before =>
      obtain rfl : due = d + 1 := same
      exact .goesOn d starved
  | waits d before =>
      obtain rfl : due = d := same
      exact .waits due starved
  | misses d =>
      obtain rfl : due = d + 1 := same
      obtain rfl : starved = false := still rfl
      exact .misses d

/-- **While the player is not starved** every byte is heard once. -/
theorem Heard.due_of_chain {heard : List Heard} (chain : heard.IsChain Follows) (i n : ℕ)
    {a b : Heard} (first : heard[i]? = some a) (last : heard[i + n]? = some b)
    (fed : ∀ k h, k < n → heard[i + k]? = some h → h.starved = false) : b.due = a.due + n := by
  induction n generalizing b with
  | zero =>
      obtain rfl : a = b := Option.some.inj (first.symm.trans last)
      rfl
  | succ n ih =>
      obtain ⟨within, here⟩ := List.getElem?_eq_some_iff.mp last
      have before : heard[i + n]? = some heard[i + n] := List.getElem?_eq_getElem (by omega)
      have due := ih before fun k h less => fed k h (by omega)
      have valid := fed n _ (Nat.lt_succ_self n) before
      have follows := List.isChain_iff_getElem.mp chain (i + n) (by omega)
      rw [show heard[i + n + 1] = b from here] at follows
      generalize heard[i + n] = c at due valid follows
      cases follows with
      | goesOn d starved =>
          show d + 1 = a.due + (n + 1)
          rw [show d = a.due + n from due, Nat.add_assoc]
      | waits | misses => cases valid

/-- **No byte is left out** but the first one of a chunk that a starved player gets
between two samples. -/
theorem Heard.heard_or_missed {heard : List Heard} (chain : heard.IsChain Follows)
    (whole : ∀ h ∈ heard, h.starved = true → 8 ∣ h.due) {p : ℕ}
    (first : ∀ h ∈ heard.head?, h.due ≤ p) {h : Heard} (member : h ∈ heard) (beyond : p < h.due) :
    (∃ h ∈ heard, h.position = some p) ∨
      8 ∣ p ∧ ∃ i : ℕ, heard[i]? = some ⟨p, true⟩ ∧ heard[i + 1]? = some ⟨p + 1, false⟩ := by
  classical
  have passes : ∃ j : ℕ, ∃ h : Heard, heard[j]? = some h ∧ p < h.due := by
    obtain ⟨j, here⟩ := List.mem_iff_getElem?.mp member
    exact ⟨j, h, here, beyond⟩
  -- the first sample beyond the byte, and the one before it
  obtain ⟨j, ⟨b, here, past⟩, least⟩ : ∃ j : ℕ,
      (∃ h : Heard, heard[j]? = some h ∧ p < h.due) ∧
        ∀ k, k < j → ¬ ∃ h : Heard, heard[k]? = some h ∧ p < h.due :=
    ⟨Nat.find passes, Nat.find_spec passes, fun k => Nat.find_min passes⟩
  cases j with
  | zero =>
      rw [← List.head?_eq_getElem?] at here
      exact absurd (first b here) (by omega)
  | succ i =>
      obtain ⟨within, same⟩ := List.getElem?_eq_some_iff.mp here
      have before : heard[i]? = some heard[i] := List.getElem?_eq_getElem (by omega)
      have upTo : heard[i].due ≤ p := by
        by_contra far
        exact least i (Nat.lt_succ_self i) ⟨heard[i], before, by omega⟩
      have follows := List.isChain_iff_getElem.mp chain i (by omega)
      rw [same] at follows
      have member' : heard[i] ∈ heard := List.getElem_mem _
      generalize heard[i] = a at before upTo follows member'
      cases follows with
      | goesOn d starved =>
          obtain rfl : d = p := Nat.le_antisymm upTo (Nat.le_of_lt_succ past)
          exact .inl ⟨⟨d, false⟩, member', rfl⟩
      | waits d starved => exact absurd past (Nat.not_lt.mpr upTo)
      | misses d =>
          obtain rfl : d = p := Nat.le_antisymm upTo (Nat.le_of_lt_succ past)
          exact .inr ⟨whole _ member' rfl, i, before, here⟩

namespace Output

variable {s : Output} {chunk : BitVec 64} {chunkValid apuEn : Bool}

/-- A byte of the last chunk is being played. -/
theorem due_of_playing (playing : ChunkPlayer.Playing s.chunks s.player)
    (valid : s.player.arrValid = true) :
    s.due + 8 = 8 * s.chunks.length + s.player.sampleIdx.toNat := by
  have some : s.chunks ≠ [] := by
    intro none
    exact Bool.false_ne_true ((playing.silent none).2.symm.trans valid)
  have length := List.length_pos_iff.mpr some
  have small := s.player.sampleIdx.isLt
  rw [due, valid, if_pos rfl]
  omega

/-- All chunks have been played. -/
theorem due_of_starved (idle : s.player.arrValid = false) : s.due = 8 * s.chunks.length := by
  rw [due, idle, if_neg Bool.false_ne_true, Nat.sub_zero]

/-- What the player holds is at the position. -/
theorem held_of_position (playing : ChunkPlayer.Playing s.chunks s.player) {p : ℕ}
    (position : s.now.position = some p) :
    s.chunks[p / 8]? = some s.player.sampleArr ∧ p % 8 = s.player.sampleIdx.toNat := by
  have small := s.player.sampleIdx.isLt
  suffices here : s.chunks ≠ [] ∧ p + 8 = 8 * s.chunks.length + s.player.sampleIdx.toNat by
    obtain ⟨some, place⟩ := here
    have length := List.length_pos_iff.mpr some
    have last := playing.playing some
    rw [List.getLast?_eq_getElem?] at last
    rw [show p / 8 = s.chunks.length - 1 by omega]
    exact ⟨last, by omega⟩
  rw [Heard.position, now] at position
  cases valid : s.player.arrValid with
  | true =>
      simp only [valid, Bool.not_true, Bool.false_eq_true, if_false, Option.some.injEq] at position
      refine ⟨fun none => ?_, position ▸ due_of_playing playing valid⟩
      exact Bool.false_ne_true ((playing.silent none).2.symm.trans valid)
  | false =>
      simp only [valid, Bool.not_false, if_true, due_of_starved valid] at position
      split_ifs at position with empty
      have some : s.chunks ≠ [] := by
        rintro none
        rw [none] at empty
        exact empty rfl
      have index : s.player.sampleIdx.toNat = 7 :=
        congrArg BitVec.toNat (playing.exhausted some valid)
      rw [Option.some.injEq] at position
      exact ⟨some, by omega⟩

/-- Without a chunk the player is silent. -/
theorem silent_of_position (playing : ChunkPlayer.Playing s.chunks s.player)
    (none : s.now.position = none) : ChunkPlayer.sample s.player = 0 := by
  have empty : s.chunks = [] := by
    rw [Heard.position, now] at none
    cases valid : s.player.arrValid with
    | true => simp [valid] at none
    | false => simpa [valid, due_of_starved valid] using none
  rw [ChunkPlayer.sample, (playing.silent empty).1]
  simp [lane]

/-- **What a clock of the circuit does to the progress.** A request moves a byte on
unless the player is starved, and a chunk can come only while it is. -/
theorem now_clock (playing : ChunkPlayer.Playing s.chunks s.player) :
    ((s.sampleReq = true → s.now.starved = true) ∧ s.now.Keeps (s.clock chunk chunkValid).now) ∨
    (s.sampleReq = true ∧ s.now.starved = false ∧
      (s.clock chunk chunkValid).now.due = s.now.due + 1) := by
  have clocked := @ChunkPlayer.clocked_next s.player chunk chunkValid s.sampleReq
  have player : (s.clock chunk chunkValid).player =
      ChunkPlayer.next s.player chunk chunkValid s.sampleReq := rfl
  have chunks : (s.clock chunk chunkValid).chunks =
      s.chunks ++ if ChunkPlayer.chunkAck s.player chunkValid then [chunk] else [] := rfl
  rw [← player] at clocked
  generalize next : (s.clock chunk chunkValid).player = player' at clocked
  cases clocked with
  | takes ack free =>
      rw [ack, if_pos rfl] at chunks
      refine .inl ⟨fun _ => by rw [now, free]; rfl, ?_, fun valid => ?_⟩
      · show (s.clock chunk chunkValid).due = s.due
        rw [due_of_starved free, due, next, chunks, if_pos rfl, List.length_append,
          List.length_singleton]
        show 8 * (s.chunks.length + 1) - (8 - 0) = _
        omega
      · rw [now, free] at valid
        cases valid
  | ends ack req last =>
      rw [ack, if_neg Bool.false_ne_true, List.append_nil] at chunks
      cases valid : s.player.arrValid with
      | true =>
          refine .inr ⟨req, by rw [now, valid]; rfl, ?_⟩
          show (s.clock chunk chunkValid).due = s.due + 1
          have here := due_of_playing playing valid
          have index : s.player.sampleIdx.toNat = 7 := congrArg BitVec.toNat last
          rw [due, next, chunks, if_neg Bool.false_ne_true]
          omega
      | false =>
          refine .inl ⟨fun _ => by rw [now, valid]; rfl, ?_, fun high => ?_⟩
          · show (s.clock chunk chunkValid).due = s.due
            rw [due_of_starved valid, due, next, chunks, if_neg Bool.false_ne_true, Nat.sub_zero]
          · rw [now, valid] at high
            cases high
  | goesOn ack req before =>
      rw [ack, if_neg Bool.false_ne_true, List.append_nil] at chunks
      cases valid : s.player.arrValid with
      | true =>
          refine .inr ⟨req, by rw [now, valid]; rfl, ?_⟩
          show (s.clock chunk chunkValid).due = s.due + 1
          have here := due_of_playing playing valid
          have small := s.player.sampleIdx.isLt
          have step : (s.player.sampleIdx + 1).toNat = s.player.sampleIdx.toNat + 1 := by
            have notLast : s.player.sampleIdx.toNat ≠ 7 := fun eq =>
              before (BitVec.eq_of_toNat_eq eq)
            rw [BitVec.toNat_add]
            exact Nat.mod_eq_of_lt (show s.player.sampleIdx.toNat + 1 < 8 by omega)
          rw [due, next, chunks]
          simp only [valid, if_true, step]
          omega
      | false =>
          refine .inl ⟨fun _ => by rw [now, valid]; rfl, ?_, fun high => ?_⟩
          · show (s.clock chunk chunkValid).due = s.due
            rw [due_of_starved valid, due, next, chunks]
            simp only [valid, Bool.false_eq_true, if_false, Nat.sub_zero]
          · rw [now, valid] at high
            cases high
  | waits ack req =>
      rw [ack, if_neg Bool.false_ne_true, List.append_nil] at chunks
      refine .inl ⟨fun high => absurd (req.symm.trans high) Bool.false_ne_true, ?_, fun valid => ?_⟩
      · show (s.clock chunk chunkValid).due = s.due
        rw [due, due, next, chunks]
      · rw [now, next]
        exact valid

variable (s) in
/-- The request for the next sample has been served. -/
def Requested : Prop := s.serial.ticks % 32 = 0 ∧ 4 ≤ s.clocks

/-- **The progress of the player**, from one sample that is loaded to the next. -/
structure Played (s : Output) : Prop where
  playing : ChunkPlayer.Playing s.chunks s.player
  chain : s.heard.IsChain Heard.Follows
  requested : s.Requested → ∀ h ∈ s.heard.getLast?, h.Follows s.now
  waiting : ¬ s.Requested → ∀ h ∈ s.heard.getLast?, h.Keeps s.now
  length : s.heard.length = s.serial.loaded.length
  whole : ∀ h ∈ s.heard, h.starved = true → 8 ∣ h.due
  first : ∀ h ∈ s.heard.head?, h.due ≤ 2
  early : s.heard = [] →
    s.due ≤ s.serial.ticks / 32 + if s.serial.ticks % 32 = 0 ∧ s.clocks ≤ 3 then 0 else 1

theorem Played.reset : Played reset where
  playing := .reset
  chain := .nil
  requested _ _ member := by cases member
  waiting _ _ member := by cases member
  length := rfl
  whole _ member := by cases member
  first _ member := by cases member
  early _ := le_rfl

/-- The clock of the request. -/
theorem Played.request (played : s.Played) (req : s.sampleReq = true) (none : ¬ s.Requested)
    {h : Heard} (member : h ∈ s.heard.getLast?) : h.Follows (s.clock chunk chunkValid).now := by
  have whole := played.whole h (List.mem_of_getLast? member)
  obtain ⟨same, still⟩ := played.waiting none h member
  generalize next : (s.clock chunk chunkValid).now = after
  have moves := @now_clock s chunk chunkValid played.playing
  rw [next] at moves
  obtain ⟨due, starved⟩ := h
  obtain ⟨due', starved'⟩ := after
  rcases moves with ⟨lost, same', -⟩ | ⟨-, valid, moved⟩
  · -- the player had nothing to move on to
    obtain rfl : due' = due := same'.trans same
    cases starved with
    | true => exact .waits due' starved'
    | false => exact absurd ((still rfl).symm.trans (lost req)) Bool.false_ne_true
  · obtain rfl : due' = due + 1 := moved.trans (congrArg (· + 1) same)
    cases starved with
    | false => exact .goesOn due starved'
    | true =>
        cases starved' with
        | false => exact .misses due
        | true =>
            have idle : (s.clock chunk chunkValid).player.arrValid = false := by
              simpa [now] using congrArg Heard.starved next
            have chunks := due_of_starved idle
            rw [show (s.clock chunk chunkValid).due = due + 1 from congrArg Heard.due next] at chunks
            have divides : 8 ∣ due := whole rfl
            omega

theorem Played.clock (played : s.Played) (inStep : s.InStep) :
    (s.clock chunk chunkValid).Played := by
  have ticks : (s.clock chunk chunkValid).serial.ticks = s.serial.ticks := rfl
  have clocks : (s.clock chunk chunkValid).clocks = s.clocks + 1 := rfl
  have request := inStep.sampleReq
  have moves := @now_clock s chunk chunkValid played.playing
  refine ⟨played.playing.next, played.chain, fun now h member => ?_, fun none h member => ?_,
    played.length, played.whole, played.first, fun none => ?_⟩
  · rw [Requested, ticks, clocks] at now
    by_cases before : s.Requested
    · have follows := played.requested before h member
      rw [Requested] at before
      rcases moves with ⟨-, keeps⟩ | ⟨req, -⟩
      · exact follows.keeps keeps
      · have := request.mp req
        omega
    · refine played.request (request.mpr ?_) before member
      rw [Requested] at before
      omega
  · rw [Requested, ticks, clocks] at none
    have before : ¬ s.Requested := by
      rw [Requested]
      omega
    obtain ⟨same, still⟩ := played.waiting before h member
    rcases moves with ⟨-, same', still'⟩ | ⟨req, -⟩
    · exact ⟨same'.trans same, fun valid => still' (still valid)⟩
    · have := request.mp req
      omega
  · have early := played.early none
    rw [ticks, clocks]
    rcases moves with ⟨-, same, -⟩ | ⟨req, -, moved⟩
    · have same' : (s.clock chunk chunkValid).due = s.due := same
      rw [same']
      split_ifs at early ⊢ <;> omega
    · have moved' : (s.clock chunk chunkValid).due = s.due + 1 := moved
      have := request.mp req
      rw [moved']
      split_ifs at early ⊢ <;> omega

theorem Played.tick (played : s.Played) (inStep : s.InStep) (rated : s.Rated) :
    (s.tick apuEn).Played := by
  have ticks : (s.tick apuEn).serial.ticks = s.serial.ticks + 1 := rfl
  have clocks : (s.tick apuEn).clocks = 0 := rfl
  have same : (s.tick apuEn).now = s.now := rfl
  have length := Serial.length_loaded inStep.reached
  have loads := Serial.loads_iff inStep.reached
  rw [Rated] at rated
  have none : ¬ (s.tick apuEn).Requested := by
    rw [Requested, clocks]
    omega
  have starving : s.now.starved = true → 8 ∣ s.now.due := by
    intro starved
    have idle : s.player.arrValid = false := by simpa [now] using starved
    exact ⟨s.chunks.length, due_of_starved idle⟩
  by_cases load : s.serial.i2s.loads = true
  · have heard : (s.tick apuEn).heard = s.heard ++ [s.now] := by rw [Output.tick, if_pos load]
    have loaded : (s.tick apuEn).serial.loaded = s.serial.loaded ++ [s.i2sSample apuEn] := by
      rw [Output.tick, Serial.next, if_pos load]
    have here := loads.mp load
    have requested : s.Requested := ⟨here.2, by omega⟩
    refine ⟨played.playing, ?_, fun now => absurd now none, fun _ h member => ?_, ?_, ?_, ?_, ?_⟩
    · rw [heard, List.isChain_append]
      refine ⟨played.chain, .singleton _, fun h member k next => ?_⟩
      rw [List.head?_cons, Option.mem_def, Option.some.injEq] at next
      rw [← next]
      exact played.requested requested h member
    · rw [heard, List.getLast?_concat, Option.mem_def, Option.some.injEq] at member
      rw [← member, same]
      exact ⟨rfl, id⟩
    · rw [heard, loaded, List.length_append, List.length_append, played.length]
      rfl
    · intro h member
      rw [heard, List.mem_append, List.mem_singleton] at member
      rcases member with before | rfl
      · exact played.whole h before
      · exact starving
    · intro h member
      rw [heard] at member
      cases empty : s.heard with
      | nil =>
          rw [empty, List.nil_append, List.head?_cons, Option.mem_def, Option.some.injEq] at member
          have early := played.early empty
          rw [played.length.symm.trans (congrArg List.length empty), List.length_nil] at length
          rw [← member]
          show s.due ≤ 2
          split_ifs at early <;> omega
      | cons first rest =>
          rw [empty] at member
          exact played.first h (by rw [empty]; exact member)
    · intro empty
      rw [heard] at empty
      simp at empty
  · have heard : (s.tick apuEn).heard = s.heard := by
      rw [Output.tick, if_neg load, List.append_nil]
    have loaded : (s.tick apuEn).serial.loaded = s.serial.loaded := by
      rw [Output.tick, Serial.next, if_neg load, List.append_nil]
    rw [loads] at load
    refine ⟨played.playing, by rw [heard]; exact played.chain, fun now => absurd now none,
      fun _ h member => ?_, by rw [heard, loaded]; exact played.length,
      by rw [heard]; exact played.whole, by rw [heard]; exact played.first, fun empty => ?_⟩
    · rw [heard] at member
      refine played.waiting (fun requested => ?_) h member
      -- nothing has been heard when the first request comes
      have empty : s.heard = [] := by
        rw [← List.length_eq_zero_iff, played.length, length]
        have := requested.1
        omega
      rw [empty] at member
      cases member
    · rw [heard] at empty
      have early := played.early empty
      show s.due ≤ _
      rw [ticks, clocks]
      split_ifs at early ⊢ <;> omega

end Output

end FPGame.Apu
