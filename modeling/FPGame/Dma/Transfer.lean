import FPGame.Foundation.Machine
import FPGame.Dma.Engine

/-!
# A DMA transfer

The engine is composed with the read bus it masters. The bus may stall either
side at any clock and answers the accepted reads in order, one quadword each,
as late as it likes. The composition records the addresses accepted, the
quadwords returned and the writes made since the last accepted start.

`Quiet` describes the engine between two transfers and `Moving` a transfer with
its three counts. A transfer runs from an accepted start to the clock of
`dma_engine_finish`; the counts never fall, and under a fair bus they reach the
end of the image.
-/

set_option autoImplicit false

namespace FPGame.Dma

open FPGame.Foundation FPGame.Vram

/-- The engine and what has happened on its two buses since the last start. -/
structure Bus where
  engine : Engine
  accepted : List (BitVec 32)
  returned : ℕ
  written : List (BitVec 16 × BitVec 128)

namespace Bus

/-- A clock of the environment: the PPU's request, the stalls of the two
slaves, whether the read slave answers, and what the memory holds. -/
structure Input where
  dmaEngineSrcAddr : BitVec 32
  dmaEngineStart : Bool
  readWaitrequest : Bool
  writeWaitrequest : Bool
  respond : Bool
  memory : BitVec 32 → BitVec 128

def reset (memArray : ℕ → BitVec 128) : Bus where
  engine := Engine.reset memArray
  accepted := []
  returned := 0
  written := []

variable (s : Bus) (x : Input)

/-- The reader's strobe: the read slave takes the address. -/
def incRead : Bool := s.engine.memRead.incRead x.readWaitrequest

/-- The reads accepted up to and including this clock. -/
def requested : List (BitVec 32) :=
  if s.incRead x then s.accepted ++ [s.engine.readAddress] else s.accepted

/-- The read slave answers only reads that it has accepted. -/
def answers : Bool := x.respond && decide (s.returned < (s.requested x).length)

/-- The inputs of the engine in this clock. -/
def engineInput : Engine.Input where
  dmaEngineSrcAddr := x.dmaEngineSrcAddr
  dmaEngineStart := x.dmaEngineStart
  readReaddata := ((s.requested x)[s.returned]?).elim 0 x.memory
  readReaddatavalid := s.answers x
  readWaitrequest := x.readWaitrequest
  writeWaitrequest := x.writeWaitrequest

/-- A start is accepted in this clock. -/
def begins : Bool := s.engine.begins (s.engineInput x)

/-- A write is taken in this clock. -/
def incWrite : Bool := s.engine.incWrite (s.engineInput x)

/-- The word address that the interconnect sees: the byte address / 16. -/
def wraddr : ℕ := s.engine.writeAddress.toNat / 16

/-- One clock of the engine on its buses. -/
def next : Bus where
  engine := s.engine.next (s.engineInput x)
  accepted := if s.begins x then [] else s.requested x
  returned := if s.begins x then 0 else s.returned + (s.answers x).toNat
  written :=
    if s.begins x then []
    else if s.incWrite x then s.written ++ [(s.engine.writeAddress, s.engine.writeWritedata)]
    else s.written

end Bus

/-! ## The counts -/

/-- The byte address of quadword `k` of an image. -/
def sourceAddress (src : BitVec 32) (k : ℕ) : BitVec 32 := src + BitVec.ofNat 32 (16 * k)

/-- Quadword `k` of the image at `src`. -/
def imageWord (memory : BitVec 32 → BitVec 128) (src : BitVec 32) (k : ℕ) : BitVec 128 :=
  memory (sourceAddress src k)

/-- The first `n` reads of a transfer. -/
def readsUpTo (src : BitVec 32) (n : ℕ) : List (BitVec 32) := (List.range n).map (sourceAddress src)

/-- The first `n` writes of a transfer of the quadwords `word`. -/
def writesUpTo (word : ℕ → BitVec 128) (n : ℕ) : List (BitVec 16 × BitVec 128) :=
  (List.range n).map fun k => (BitVec.ofNat 16 (16 * k), word k)

theorem readsUpTo_succ (src : BitVec 32) (n : ℕ) :
    readsUpTo src (n + 1) = readsUpTo src n ++ [sourceAddress src n] := by
  simp [readsUpTo, List.range_succ]

theorem writesUpTo_succ (word : ℕ → BitVec 128) (n : ℕ) :
    writesUpTo word (n + 1) = writesUpTo word n ++ [(BitVec.ofNat 16 (16 * n), word n)] := by
  simp [writesUpTo, List.range_succ]

@[simp] theorem length_readsUpTo (src : BitVec 32) (n : ℕ) : (readsUpTo src n).length = n := by
  simp [readsUpTo]

@[simp] theorem length_writesUpTo (word : ℕ → BitVec 128) (n : ℕ) :
    (writesUpTo word n).length = n := by
  simp [writesUpTo]

theorem writesUpTo_congr {word word' : ℕ → BitVec 128} {n : ℕ}
    (same : ∀ k, k < n → word k = word' k) : writesUpTo word n = writesUpTo word' n :=
  List.map_congr_left fun k within => by rw [same k (List.mem_range.mp within)]

theorem getElem?_readsUpTo {src : BitVec 32} {n k : ℕ} (within : k < n) :
    (readsUpTo src n)[k]? = some (sourceAddress src k) := by
  simp [readsUpTo, within]

theorem sourceAddress_succ (src : BitVec 32) (k : ℕ) :
    sourceAddress src k + 16 = sourceAddress src (k + 1) := by
  have step : BitVec.ofNat 32 (16 * (k + 1)) = BitVec.ofNat 32 (16 * k) + 16 := by
    rw [Nat.mul_succ, BitVec.ofNat_add]
    rfl
  rw [sourceAddress, sourceAddress, step, BitVec.add_assoc]

/-! ## The invariants -/

/-- The engine between transfers: nothing is outstanding, nothing is held, and
the pointers are at their start unless the flush is still to come. -/
structure Quiet (s : Bus) : Prop where
  started : s.engine.started = false
  length : s.engine.length = 0
  lengthEq0 : s.engine.lengthEq0 = true
  writelength : s.engine.writelength = 0
  writelengthEq0 : s.engine.writelengthEq0 = true
  doneWrite : s.engine.doneWrite = true
  memRead : s.engine.memRead = MemRead.reading false
  answered : s.returned = s.accepted.length
  drained : ∃ n word, s.engine.fifo.Holds word n n n ∧ (s.engine.done = false → n = 0)

/-- A transfer from `src` after `a` accepted reads, `r` returned quadwords,
which are the first ones of `word`, and `w` writes. -/
structure Moving (word : ℕ → BitVec 128) (src : BitVec 32) (a r w : ℕ) (s : Bus) : Prop where
  started : s.engine.started = true
  done : s.engine.done = false
  accepted_le : a ≤ imageWords
  held : s.engine.fifo.Holds word a r w
  readaddress : s.engine.readaddress = sourceAddress src a
  writeaddress : s.engine.writeaddress = writeaddressAt w
  length : s.engine.length = remaining a
  lengthEq0 : s.engine.lengthEq0 = decide (a = imageWords)
  writelength : s.engine.writelength = remaining w
  writelengthEq0 : s.engine.writelengthEq0 = decide (w = imageWords)
  doneWrite : s.engine.doneWrite = decide (w = imageWords)
  memRead : ∃ access, s.engine.memRead = MemRead.reading access ∧
    (access = true → s.engine.fifo.fifoFull = false ∧ a < imageWords)
  accepted : s.accepted = readsUpTo src a
  returned : s.returned = r
  written : s.written = writesUpTo word w

namespace Quiet

variable {s : Bus} {x : Bus.Input}

theorem initial (memArray : ℕ → BitVec 128) : Quiet (Bus.reset memArray) where
  started := rfl
  length := rfl
  lengthEq0 := rfl
  writelength := rfl
  writelengthEq0 := rfl
  doneWrite := rfl
  memRead := rfl
  answered := rfl
  drained := ⟨0, fun _ => 0, .initial _ _, fun _ => rfl⟩

theorem incRead (quiet : Quiet s) : s.incRead x = false := by
  rw [Bus.incRead, quiet.memRead]
  rfl

theorem requested (quiet : Quiet s) : s.requested x = s.accepted := by
  rw [Bus.requested, quiet.incRead, if_neg Bool.false_ne_true]

theorem answers (quiet : Quiet s) : s.answers x = false := by
  rw [Bus.answers, quiet.requested, quiet.answered]
  simp

theorem incWrite (quiet : Quiet s) : s.incWrite x = false := by
  obtain ⟨n, word, held, -⟩ := quiet.drained
  have empty : s.engine.fifo.fifoDatavalid = false := by
    rw [Bool.eq_false_iff, ne_eq, held.fifoDatavalid_iff]
    exact lt_irrefl n
  rw [Bus.incWrite, Engine.incWrite, Engine.writeSelect, empty, Bool.false_and]

theorem begins (quiet : Quiet s) : s.begins x = x.dmaEngineStart := by
  rw [Bus.begins, Engine.begins, quiet.started]
  exact Bool.and_true _

/-- The FIFO sees no traffic, and is flushed in the clock of `done`. -/
theorem fifo_next (quiet : Quiet s) (word : ℕ → BitVec 128) :
    (s.next x).engine.fifo.Holds word 0 0 0 := by
  obtain ⟨n, _, held, start⟩ := quiet.drained
  have noRead : s.engine.incWrite (s.engineInput x) = false := quiet.incWrite
  have noWrite : s.answers x = false := quiet.answers
  have noAccept : s.engine.incRead (s.engineInput x) = false := quiet.incRead
  cases done : s.engine.done with
  | true => exact held.flush done noRead noWrite word
  | false =>
      obtain rfl := start done
      have admitted : Fifo.Holds.Admits word 0 0 0 (s.engine.fifoInput (s.engineInput x)) :=
        { noFlush := done
          read := fun high => absurd (noRead.symm.trans high) Bool.false_ne_true
          returned := fun high => absurd (noWrite.symm.trans high) Bool.false_ne_true
          room := fun _ => by decide }
      have held' := (held.forget word).next admitted
      rw [show (s.engine.fifoInput (s.engineInput x)).incPendingData = false from noAccept,
        show (s.engine.fifoInput (s.engineInput x)).fifoWrite = false from noWrite,
        show (s.engine.fifoInput (s.engineInput x)).fifoRead = false from noRead] at held'
      exact held'

/-- `done` falls after one clock, also when a start is accepted in it. -/
theorem next_done (quiet : Quiet s) : (s.next x).engine.done = false := by
  simp [Bus.next, Engine.next, quiet.started]

/-- Without a start nothing happens; `done` falls. -/
theorem next_quiet (quiet : Quiet s) (noStart : x.dmaEngineStart = false) :
    Quiet (s.next x) ∧ (s.next x).engine.done = false ∧
      (s.next x).accepted = s.accepted ∧ (s.next x).written = s.written := by
  have begins : s.engine.begins (s.engineInput x) = false := quiet.begins.trans noStart
  have noRead : s.engine.incRead (s.engineInput x) = false := quiet.incRead
  have noWrite : s.engine.incWrite (s.engineInput x) = false := quiet.incWrite
  have keepsAccepted : (s.next x).accepted = s.accepted := by
    simp only [Bus.next, Bus.begins, begins, Bool.false_eq_true, if_false, quiet.requested]
  refine ⟨?_, quiet.next_done, keepsAccepted, ?_⟩
  · refine
      { started := ?_, length := ?_, lengthEq0 := ?_, writelength := ?_, writelengthEq0 := ?_
        doneWrite := ?_, memRead := ?_, answered := ?_
        drained := ⟨0, fun _ => 0, quiet.fifo_next _, fun _ => rfl⟩ }
    · simp [Bus.next, Engine.next, begins, quiet.started]
    · simp [Bus.next, Engine.next, Engine.p1Length, begins, noRead, quiet.length]
    · simp [Bus.next, Engine.next, begins, quiet.lengthEq0]
    · simp [Bus.next, Engine.next, Engine.p1Writelength, begins, noWrite, quiet.writelength]
    · simp [Bus.next, Engine.next, begins, quiet.writelengthEq0]
    · simp [Bus.next, Engine.next, Engine.p1DoneWrite, begins, quiet.writelengthEq0]
    · simp only [Bus.next, Engine.next, quiet.memRead, quiet.started]
      rw [MemRead.next_reading _ _ _ _ _ (by simp)]
      rfl
    · rw [keepsAccepted]
      simp [Bus.next, Bus.begins, begins, quiet.answers, quiet.answered]
  · simp [Bus.next, Bus.begins, begins, Bus.incWrite, noWrite]

/-- An accepted start begins a transfer, also in the clock of the flush. -/
theorem next_start (quiet : Quiet s) (start : x.dmaEngineStart = true)
    (word : ℕ → BitVec 128) : Moving word x.dmaEngineSrcAddr 0 0 0 (s.next x) := by
  have begins : s.engine.begins (s.engineInput x) = true := quiet.begins.trans start
  refine
    { started := ?_, done := quiet.next_done, accepted_le := Nat.zero_le _
      held := quiet.fifo_next _
      readaddress := ?_, writeaddress := ?_, length := ?_, lengthEq0 := ?_, writelength := ?_
      writelengthEq0 := ?_, doneWrite := ?_, memRead := ⟨false, ?_, by simp⟩, accepted := ?_
      returned := ?_, written := ?_ }
  · simp [Bus.next, Engine.next, begins, quiet.started]
  · simp [Bus.next, Engine.next, begins, sourceAddress]
    rfl
  · simp [Bus.next, Engine.next, begins, writeaddressAt]
  · simp [Bus.next, Engine.next, Engine.p1Length, begins, remaining_zero]
  · simp only [Bus.next, Engine.next, begins, if_true]
    rfl
  · simp [Bus.next, Engine.next, Engine.p1Writelength, begins, remaining_zero]
  · simp only [Bus.next, Engine.next, begins, if_true]
    rfl
  · simp only [Bus.next, Engine.next, begins, if_true]
    rfl
  · simp only [Bus.next, Engine.next, quiet.memRead, quiet.started]
    rw [MemRead.next_reading _ _ _ _ _ (by simp)]
    rfl
  · simp [Bus.next, Bus.begins, begins, readsUpTo]
  · simp [Bus.next, Bus.begins, begins]
  · simp [Bus.next, Bus.begins, begins, writesUpTo]

end Quiet

namespace Moving

variable {word : ℕ → BitVec 128} {src : BitVec 32} {a r w : ℕ} {s : Bus} {x : Bus.Input}

/-- Only the quadwords that have returned matter. -/
theorem congr {word' : ℕ → BitVec 128} (moving : Moving word src a r w s)
    (same : ∀ k, k < r → word k = word' k) : Moving word' src a r w s :=
  { moving with
    held :=
      { moving.held with
        cells := fun j lower upper => (moving.held.cells j lower upper).trans (same j upper)
        bypass := fun collided =>
          ⟨(moving.held.bypass collided).1,
            (moving.held.bypass collided).2.trans (same w (moving.held.bypass collided).1)⟩ }
    written := moving.written.trans
      (writesUpTo_congr fun k within => same k (within.trans_le moving.held.written_le)) }

theorem begins (moving : Moving word src a r w s) : s.begins x = false := by
  rw [Bus.begins, Engine.begins, moving.started, Bool.not_true, Bool.and_false]

/-- A read is accepted only while the image is not exhausted and there is room. -/
theorem room_of_incRead (moving : Moving word src a r w s) (accepts : s.incRead x = true) :
    a < imageWords ∧ a < w + fifoDepth := by
  obtain ⟨access, registers, allowed⟩ := moving.memRead
  rw [Bus.incRead, registers] at accepts
  obtain ⟨notFull, more⟩ := allowed (Bool.and_eq_true_iff.mp accepts).1
  exact ⟨more, moving.held.room_of_not_full notFull⟩

theorem requested (moving : Moving word src a r w s) :
    s.requested x = readsUpTo src (a + (s.incRead x).toNat) := by
  rw [Bus.requested, moving.accepted, Engine.readAddress, moving.readaddress]
  cases s.incRead x with
  | true => exact (readsUpTo_succ src a).symm
  | false => rfl

/-- The quadword that returns is the next one of the image in memory. -/
theorem data_of_answers (moving : Moving word src a r w s) (answers : s.answers x = true) :
    r < a + (s.incRead x).toNat ∧
      (s.engineInput x).readReaddata = imageWord x.memory src r := by
  rw [Bus.answers, Bool.and_eq_true, decide_eq_true_eq, moving.requested, length_readsUpTo,
    moving.returned] at answers
  refine ⟨answers.2, ?_⟩
  simp only [Bus.engineInput]
  rw [moving.requested, moving.returned, getElem?_readsUpTo answers.2]
  rfl

/-- The engine writes only what the FIFO holds. -/
theorem held_of_incWrite (moving : Moving word src a r w s) (writes : s.incWrite x = true) :
    w < r :=
  moving.held.fifoDatavalid_iff.mp (Bool.and_eq_true_iff.mp writes).1

/-- The answer of this clock, if any, is the next quadword of `word`. -/
def Delivers (word : ℕ → BitVec 128) (src : BitVec 32) (r : ℕ) (s : Bus) (x : Bus.Input) : Prop :=
  s.answers x = true → word r = imageWord x.memory src r

theorem admitted (moving : Moving word src a r w s) (delivers : Delivers word src r s x) :
    Fifo.Holds.Admits word a r w (s.engine.fifoInput (s.engineInput x)) where
  noFlush := moving.done
  read := moving.held_of_incWrite
  returned answers :=
    ⟨(moving.data_of_answers answers).1,
      (moving.data_of_answers answers).2.trans (delivers answers).symm⟩
  room accepts := (moving.room_of_incRead accepts).2

/-- The counts of a transfer are ordered. -/
theorem order (moving : Moving word src a r w s) : w ≤ r ∧ r ≤ a ∧ a ≤ imageWords :=
  ⟨moving.held.written_le, moving.held.returned_le, moving.accepted_le⟩

theorem more_of_incWrite (moving : Moving word src a r w s) (writes : s.incWrite x = true) :
    w < imageWords := by
  have ordered := moving.order
  have someHeld := moving.held_of_incWrite writes
  omega

theorem p1LengthEq0_or (moving : Moving word src a r w s) :
    (s.engine.p1LengthEq0 (s.engineInput x) || s.engine.lengthEq0) =
      decide (a + (s.incRead x).toNat = imageWords) := by
  rw [Engine.p1LengthEq0, moving.lengthEq0, moving.length]
  exact zero_after_add fun accepts => (moving.room_of_incRead accepts).1

theorem p1DoneWrite_eq (moving : Moving word src a r w s) :
    s.engine.p1DoneWrite (s.engineInput x) =
      decide (w + (s.incWrite x).toNat = imageWords) := by
  rw [Engine.p1DoneWrite, Engine.p1WritelengthEq0, moving.writelengthEq0, moving.writelength]
  exact zero_after_add moving.more_of_incWrite

theorem p1Writelength_eq (moving : Moving word src a r w s) :
    s.engine.p1Writelength (s.engineInput x) = remaining (w + (s.incWrite x).toNat) := by
  rw [Engine.p1Writelength, show s.engine.begins (s.engineInput x) = false from moving.begins,
    if_neg Bool.false_ne_true, moving.writelengthEq0, moving.writelength]
  exact remaining_add moving.more_of_incWrite

/-- The reader has nothing to read exactly when the image is exhausted: the
write side cannot be done before. -/
theorem p1DoneRead_eq (moving : Moving word src a r w s) (delivers : Delivers word src r s x) :
    s.engine.p1DoneRead (s.engineInput x) =
      decide (a + (s.incRead x).toNat = imageWords) := by
  rw [Engine.p1DoneRead, moving.p1LengthEq0_or, moving.p1DoneWrite_eq, Bool.eq_iff_iff,
    Bool.or_eq_true, decide_eq_true_eq, decide_eq_true_eq, or_iff_left_iff_imp]
  intro finished
  have writes := (moving.admitted delivers).written_le moving.order.1
  have ordered := moving.order
  cases accepts : s.incRead x with
  | false =>
      rw [Bool.toNat_false, Nat.add_zero]
      have below : w + (s.incWrite x).toNat ≤ r := writes
      omega
  | true =>
      have below : w + (s.incWrite x).toNat ≤ r := writes
      have more := (moving.room_of_incRead accepts).1
      omega

theorem next_memRead (moving : Moving word src a r w s) (delivers : Delivers word src r s x)
    {access : Bool} (registers : s.engine.memRead = MemRead.reading access) :
    (s.next x).engine.memRead =
      MemRead.reading (access && x.readWaitrequest ||
        !decide (a + (s.incRead x).toNat = imageWords) && !(s.next x).engine.fifo.fifoFull) := by
  have following : (s.next x).engine.memRead = _ :=
    (congrArg (fun m => MemRead.next m _ _ _ _) registers).trans
      (MemRead.next_reading _ _ _ _ _ fun _ => moving.started)
  rw [moving.started, moving.p1DoneRead_eq delivers, Bool.true_and] at following
  exact following

/-- The flag cannot be raised by a clock that accepts nothing. -/
theorem next_not_full (moving : Moving word src a r w s) (delivers : Delivers word src r s x)
    (noAccept : s.incRead x = false) (notFull : s.engine.fifo.fifoFull = false) :
    (s.next x).engine.fifo.fifoFull = false := by
  rw [Bool.eq_false_iff]
  intro full
  rcases (moving.held.p1FifoFull_iff (moving.admitted delivers)).mp full with
    ⟨-, wasFull⟩ | ⟨accepts, -⟩
  · exact Bool.false_ne_true (notFull.symm.trans wasFull)
  · exact Bool.false_ne_true (noAccept.symm.trans accepts)

/-- The reader accesses only while there is something to read and room for it. -/
theorem memRead_next (moving : Moving word src a r w s) (delivers : Delivers word src r s x) :
    ∃ access, (s.next x).engine.memRead = MemRead.reading access ∧
      (access = true → (s.next x).engine.fifo.fifoFull = false ∧
        a + (s.incRead x).toNat < imageWords) := by
  obtain ⟨access, registers, allowed⟩ := moving.memRead
  refine ⟨_, moving.next_memRead delivers registers, fun again => ?_⟩
  rcases Bool.or_eq_true_iff.mp again with stalled | proceeds
  · obtain ⟨accesses, waits⟩ := Bool.and_eq_true_iff.mp stalled
    have noAccept : s.incRead x = false := by
      rw [Bus.incRead, MemRead.incRead, waits, Bool.not_true, Bool.and_false]
    obtain ⟨notFull, more⟩ := allowed accesses
    exact ⟨moving.next_not_full delivers noAccept notFull, by rw [noAccept]; exact more⟩
  · rw [Bool.and_eq_true, Bool.not_eq_true', Bool.not_eq_true', decide_eq_false_iff_not]
      at proceeds
    refine ⟨proceeds.2, lt_of_le_of_ne ?_ proceeds.1⟩
    cases accepts : s.incRead x with
    | false => exact moving.accepted_le
    | true => exact (moving.room_of_incRead accepts).1

/-- A reader with nothing outstanding and something left to read accesses next. -/
theorem next_memRead_of_starved (moving : Moving word src a r w s)
    (delivers : Delivers word src r s x) (noAccept : s.incRead x = false) (starved : a = w)
    (more : a < imageWords) : (s.next x).engine.memRead = MemRead.reading true := by
  obtain ⟨access, registers, -⟩ := moving.memRead
  have notFull : s.engine.fifo.fifoFull = false := by
    rw [Bool.eq_false_iff]
    intro full
    have pending := moving.held.pending_of_full full
    omega
  have unread : decide (a + (s.incRead x).toNat = imageWords) = false := by
    rw [noAccept]
    exact decide_eq_false more.ne
  rw [moving.next_memRead delivers registers, unread,
    moving.next_not_full delivers noAccept notFull, Bool.not_false, Bool.and_true, Bool.or_true]

/-- **The step of a transfer** moves each count by its strobe. -/
theorem next (moving : Moving word src a r w s) (delivers : Delivers word src r s x)
    (more : w < imageWords) :
    Moving word src (a + (s.incRead x).toNat) (r + (s.answers x).toNat)
      (w + (s.incWrite x).toNat) (s.next x) := by
  have begins : s.engine.begins (s.engineInput x) = false := moving.begins
  have unfinished : s.engine.doneWrite = false := by
    rw [moving.doneWrite]
    exact decide_eq_false more.ne
  refine
    { started := ?_, done := ?_, accepted_le := ?_, held := ?_, readaddress := ?_
      writeaddress := ?_, length := ?_, lengthEq0 := ?_, writelength := ?_, writelengthEq0 := ?_
      doneWrite := ?_, memRead := moving.memRead_next delivers, accepted := ?_, returned := ?_
      written := ?_ }
  · simp [Bus.next, Engine.next, begins, unfinished, moving.started]
  · simp [Bus.next, Engine.next, unfinished]
  · cases accepts : s.incRead x with
    | false => exact moving.accepted_le
    | true => exact (moving.room_of_incRead accepts).1
  · exact moving.held.next (moving.admitted delivers)
  · simp only [Bus.next, Engine.next, begins, Bool.false_eq_true, if_false, moving.readaddress]
    rw [show s.engine.incRead (s.engineInput x) = s.incRead x from rfl]
    cases s.incRead x with
    | false => rfl
    | true => exact sourceAddress_succ src a
  · simp only [Bus.next, Engine.next, begins, Bool.false_eq_true, if_false,
      moving.p1Writelength_eq, moving.writeaddress]
    rw [show s.engine.incWrite (s.engineInput x) = s.incWrite x from rfl]
    have bound : w + (s.incWrite x).toNat ≤ imageWords := by
      have := (s.incWrite x).toNat_le
      omega
    by_cases finished : w + (s.incWrite x).toNat = imageWords
    · rw [finished, remaining_imageWords]
      simp [writeaddressAt]
    · have unspent : ¬ (remaining (w + (s.incWrite x).toNat) == 0) = true := by
        rw [beq_iff_eq, remaining_eq_zero bound]
        exact finished
      rw [if_neg unspent]
      cases writes : s.incWrite x with
      | false => rfl
      | true =>
          rw [writes, Bool.toNat_true] at finished bound
          exact writeaddressAt_succ (lt_of_le_of_ne bound finished)
  · simp only [Bus.next, Engine.next, Engine.p1Length, begins, Bool.false_eq_true, if_false,
      moving.length, moving.lengthEq0]
    exact remaining_add fun accepts => (moving.room_of_incRead accepts).1
  · rw [← moving.p1LengthEq0_or]
    simp only [Bus.next, Engine.next, begins, Bool.false_eq_true, if_false]
    cases s.engine.p1LengthEq0 (s.engineInput x) <;> rfl
  · exact moving.p1Writelength_eq
  · rw [← moving.p1DoneWrite_eq]
    simp only [Bus.next, Engine.next, begins, Bool.false_eq_true, if_false, Engine.p1DoneWrite]
    cases s.engine.p1WritelengthEq0 (s.engineInput x) <;> rfl
  · rw [← moving.p1DoneWrite_eq]
    simp only [Bus.next, Engine.next, begins, Bool.false_eq_true, if_false]
  · simp only [Bus.next, moving.begins, Bool.false_eq_true, if_false]
    exact moving.requested
  · simp only [Bus.next, moving.begins, Bool.false_eq_true, if_false, moving.returned]
  · simp only [Bus.next, moving.begins, Bool.false_eq_true, if_false, moving.written,
      Engine.writeAddress, Engine.writeWritedata, moving.writeaddress]
    cases writes : s.incWrite x with
    | false => rfl
    | true =>
        rw [moving.held.fifoRdData_eq (moving.held_of_incWrite writes), if_pos rfl,
          writeaddressAt, if_neg more.ne]
        exact (writesUpTo_succ word w).symm

/-- Whatever the memory holds, a clock continues the transfer. -/
theorem next_any (moving : Moving word src a r w s) (more : w < imageWords) :
    ∃ word', Moving word' src (a + (s.incRead x).toNat) (r + (s.answers x).toNat)
      (w + (s.incWrite x).toNat) (s.next x) := by
  have following : Moving (Function.update word r (imageWord x.memory src r)) src a r w s :=
    moving.congr fun k before => (Function.update_of_ne before.ne _ _).symm
  exact ⟨_, following.next (fun _ => Function.update_self _ _ _) more⟩

/-- **The end of a transfer.** One clock after the last write has been counted
the engine is idle and raises `dma_engine_finish`. -/
theorem finish (moving : Moving word src a r w s) (finished : w = imageWords) :
    Quiet (s.next x) ∧ (s.next x).engine.dmaEngineFinish = true ∧
      (s.next x).accepted = readsUpTo src imageWords ∧
      (s.next x).written = writesUpTo word imageWords := by
  obtain ⟨written_le, returned_le, accepted_le⟩ := moving.order
  obtain rfl : r = w := by omega
  obtain rfl : a = r := by omega
  subst finished
  have begins : s.engine.begins (s.engineInput x) = false := moving.begins
  obtain ⟨access, registers, allowed⟩ := moving.memRead
  obtain rfl : access = false := by
    rw [Bool.eq_false_iff]
    exact fun accesses => lt_irrefl _ (allowed accesses).2
  have noAccept : s.incRead x = false := by
    rw [Bus.incRead, registers]
    rfl
  have noAccept' : s.engine.incRead (s.engineInput x) = false := noAccept
  have noWrite : s.incWrite x = false := by
    rw [Bool.eq_false_iff]
    exact fun writes => lt_irrefl _ (moving.more_of_incWrite writes)
  have noWrite' : s.engine.incWrite (s.engineInput x) = false := noWrite
  have requested : s.requested x = s.accepted := by
    rw [Bus.requested, noAccept, if_neg Bool.false_ne_true]
  have noAnswer : s.answers x = false := by
    rw [Bus.answers, requested, moving.accepted, length_readsUpTo, moving.returned]
    simp
  have doneWrite : s.engine.doneWrite = true := by rw [moving.doneWrite]; exact decide_eq_true rfl
  have lengthEq0 : s.engine.lengthEq0 = true := by rw [moving.lengthEq0]; exact decide_eq_true rfl
  have writelengthEq0 : s.engine.writelengthEq0 = true := by
    rw [moving.writelengthEq0]
    exact decide_eq_true rfl
  have accepted : (s.next x).accepted = s.accepted := by
    simp only [Bus.next, moving.begins, Bool.false_eq_true, if_false, requested]
  refine ⟨?_, ?_, accepted.trans moving.accepted, ?_⟩
  · refine
      { started := ?_, length := ?_, lengthEq0 := ?_, writelength := ?_, writelengthEq0 := ?_
        doneWrite := ?_, memRead := ?_, answered := ?_, drained := ?_ }
    · simp [Bus.next, Engine.next, moving.started, doneWrite]
    · simp [Bus.next, Engine.next, Engine.p1Length, begins, noAccept', moving.length,
        remaining_imageWords]
    · simp [Bus.next, Engine.next, begins, lengthEq0]
    · simp [Bus.next, Engine.next, Engine.p1Writelength, begins, noWrite', moving.writelength,
        remaining_imageWords]
    · simp [Bus.next, Engine.next, begins, writelengthEq0]
    · simp [Bus.next, Engine.next, Engine.p1DoneWrite, begins, writelengthEq0]
    · show s.engine.memRead.next _ _ _ _ = _
      rw [registers, MemRead.next_reading _ _ _ _ _ (by simp)]
      simp [Engine.p1DoneRead, lengthEq0]
    · rw [accepted, moving.accepted, length_readsUpTo]
      simp [Bus.next, moving.begins, noAnswer, moving.returned]
    · refine ⟨imageWords, word, ?_, ?_⟩
      · have admitted : Fifo.Holds.Admits word imageWords imageWords imageWords
            (s.engine.fifoInput (s.engineInput x)) :=
          { noFlush := moving.done
            read := moving.held_of_incWrite
            returned := fun high => absurd (noAnswer.symm.trans high) Bool.false_ne_true
            room := fun accepts => (moving.room_of_incRead accepts).2 }
        have held := moving.held.next admitted
        rw [show (s.engine.fifoInput (s.engineInput x)).incPendingData = false from noAccept,
          show (s.engine.fifoInput (s.engineInput x)).fifoWrite = false from noAnswer,
          show (s.engine.fifoInput (s.engineInput x)).fifoRead = false from noWrite] at held
        exact held
      · intro stillLow
        simp [Bus.next, Engine.next, moving.started, doneWrite] at stillLow
  · simp [Bus.next, Engine.next, Engine.dmaEngineFinish, moving.started, doneWrite]
  · simp only [Bus.next, moving.begins, Bool.false_eq_true, if_false, noWrite]
    exact moving.written

end Moving

/-- The engine is between transfers or in one. -/
def Phase (s : Bus) : Prop := Quiet s ∨ ∃ word src a r w, Moving word src a r w s

theorem Phase.next {s : Bus} (phase : Phase s) (x : Bus.Input) : Phase (s.next x) := by
  rcases phase with quiet | ⟨word, src, a, r, w, moving⟩
  · cases start : x.dmaEngineStart with
    | false => exact .inl (quiet.next_quiet start).1
    | true => exact .inr ⟨fun _ => 0, _, 0, 0, 0, quiet.next_start start _⟩
  · by_cases finished : w = imageWords
    · exact .inl (moving.finish finished).1
    · have ordered := moving.order
      obtain ⟨word', moving'⟩ := moving.next_any (x := x) (by omega)
      exact .inr ⟨word', src, _, _, _, moving'⟩

/-- An engine that is not in a transfer is quiet. -/
theorem Phase.quiet {s : Bus} (phase : Phase s) (idle : s.engine.started = false) : Quiet s := by
  rcases phase with quiet | ⟨_, _, _, _, _, moving⟩
  · exact quiet
  · rw [moving.started] at idle
    cases idle

end FPGame.Dma
