import FPGame.Foundation.Memory
import FPGame.Foundation.Ring

/-!
# `dma_engine_fifo_module`

The FIFO of the DMA engine has 32 quadwords and three pointers that count down:
the write pointer, the read pointer, and an estimated write pointer that moves
when a read is accepted, before its data return. The full flag compares the
estimate with the read pointer and is sticky: it is lowered only by a clock
that reads and does not write.

A transfer is described by the sequence `word` of its quadwords and by three
counts: `a` reads accepted, `r` quadwords returned, `w` quadwords written out.
`Fifo.Holds` ties the registers to the counts, and `Holds.next` moves the
counts by the strobes of one clock.
-/

set_option autoImplicit false

namespace FPGame.Dma

open FPGame.Foundation

/-- Number of quadwords that the FIFO holds. -/
def fifoDepth : ℕ := 32

/-- A 5-bit pointer, decremented. -/
def dec5 (pointer : ℕ) : ℕ := (pointer + 31) % 32

/-- Registers of the FIFO and of its RAM. -/
structure Fifo where
  wraddress : ℕ
  rdaddressReg : ℕ
  estimatedWraddress : ℕ
  fifoEmpty : Bool
  fifoFull : Bool
  lastWriteCollision : Bool
  lastWriteData : BitVec 128
  memArray : ℕ → BitVec 128
  readAddress : ℕ

namespace Fifo

/-- What the engine drives into the FIFO. -/
structure Input where
  fifoRead : Bool
  fifoWrite : Bool
  fifoWrData : BitVec 128
  incPendingData : Bool
  flushFifo : Bool

/-- The registers in reset; the RAM is not reset. -/
def reset (memArray : ℕ → BitVec 128) : Fifo where
  wraddress := 0
  rdaddressReg := 0
  estimatedWraddress := 31
  fifoEmpty := true
  fifoFull := false
  lastWriteCollision := false
  lastWriteData := 0
  memArray := memArray
  readAddress := 0

variable (s : Fifo) (x : Input)

def rdaddress : ℕ :=
  if x.flushFifo then 0 else if x.fifoRead then dec5 s.rdaddressReg else s.rdaddressReg

def fifoDatavalid : Bool := !s.fifoEmpty

def p1FifoEmpty : Bool :=
  x.flushFifo || (!(x.fifoWrite && !x.fifoRead) && s.fifoEmpty ||
    (x.fifoRead && !x.fifoWrite) && s.wraddress == dec5 s.rdaddressReg)

def p1FifoFull : Bool :=
  !x.flushFifo && (!(x.fifoRead && !x.fifoWrite) && s.fifoFull ||
    x.incPendingData && s.estimatedWraddress == s.rdaddress x)

def writeCollision : Bool := x.fifoWrite && s.wraddress == s.rdaddress x

/-- The quadword at the head; the collision register bypasses the RAM. -/
def fifoRdData : BitVec 128 :=
  if s.lastWriteCollision then s.lastWriteData else s.memArray s.readAddress

/-- One clock of the FIFO. -/
def next : Fifo where
  wraddress := if x.flushFifo then 0 else if x.fifoWrite then dec5 s.wraddress else s.wraddress
  rdaddressReg := s.rdaddress x
  estimatedWraddress :=
    if x.flushFifo then 31
    else if x.incPendingData then dec5 s.estimatedWraddress
    else s.estimatedWraddress
  fifoEmpty := s.p1FifoEmpty x
  fifoFull := s.p1FifoFull x
  lastWriteCollision :=
    if s.writeCollision x then true else if x.fifoRead then false else s.lastWriteCollision
  lastWriteData := if s.writeCollision x then x.fifoWrData else s.lastWriteData
  memArray := store s.memArray x.fifoWrite s.wraddress x.fifoWrData
  readAddress := s.rdaddress x

/-! ## The counts of a transfer -/

theorem dec5_down (n : ℕ) : dec5 (down 32 n) = down 32 (n + 1) :=
  (down_succ (by decide)).symm

/-- The registers after `a` accepted reads, `r` returned quadwords and `w`
quadwords written out of the sequence `word`. -/
structure Holds (word : ℕ → BitVec 128) (a r w : ℕ) (s : Fifo) : Prop where
  written_le : w ≤ r
  returned_le : r ≤ a
  accepted_le : a ≤ w + fifoDepth
  wraddress : s.wraddress = down 32 r
  rdaddressReg : s.rdaddressReg = down 32 w
  readAddress : s.readAddress = down 32 w
  estimated : s.estimatedWraddress = down 32 (a + 1)
  empty : s.fifoEmpty = decide (r = w)
  full : a = w + fifoDepth → s.fifoFull = true
  pending_of_full : s.fifoFull = true → w < a
  cells : ∀ j, w ≤ j → j < r → s.memArray (down 32 j) = word j
  bypass : s.lastWriteCollision = true → w < r ∧ s.lastWriteData = word w

namespace Holds

variable {word : ℕ → BitVec 128} {a r w : ℕ} {s : Fifo} {x : Input}

/-- Out of reset nothing has happened. -/
theorem initial (word : ℕ → BitVec 128) (memArray : ℕ → BitVec 128) :
    Holds word 0 0 0 (reset memArray) where
  written_le := le_rfl
  returned_le := le_rfl
  accepted_le := Nat.zero_le _
  wraddress := rfl
  rdaddressReg := rfl
  readAddress := rfl
  estimated := rfl
  empty := rfl
  full := by simp [fifoDepth]
  pending_of_full := by simp [reset]
  cells := by omega
  bypass := by simp [reset]

/-- **The head.** While data are held, the output is the next quadword. -/
theorem fifoRdData_eq (held : Holds word a r w s) (some_held : w < r) :
    s.fifoRdData = word w := by
  cases collided : s.lastWriteCollision with
  | true =>
      rw [fifoRdData, collided, if_pos rfl]
      exact (held.bypass collided).2
  | false =>
      rw [fifoRdData, collided, if_neg Bool.false_ne_true, held.readAddress]
      exact held.cells w le_rfl some_held

theorem fifoDatavalid_iff (held : Holds word a r w s) : s.fifoDatavalid = true ↔ w < r := by
  have order := held.written_le
  rw [fifoDatavalid, held.empty, Bool.not_eq_true', decide_eq_false_iff_not]
  omega

theorem room_of_not_full (held : Holds word a r w s) (notFull : s.fifoFull = false) :
    a < w + fifoDepth := by
  refine lt_of_le_of_ne held.accepted_le fun full => ?_
  rw [held.full full] at notFull
  exact Bool.noConfusion notFull

/-- Where the read pointer goes in a clock without a flush. -/
theorem rdaddress_eq (held : Holds word a r w s) (noFlush : x.flushFifo = false) :
    s.rdaddress x = down 32 (w + x.fifoRead.toNat) := by
  rw [rdaddress, noFlush, if_neg Bool.false_ne_true, held.rdaddressReg]
  cases x.fifoRead with
  | true => exact dec5_down w
  | false => rfl

/-- What the engine guarantees in a clock without a flush: it reads only what
is held, the data that return are the next ones of an accepted read, and a
read is accepted only while there is room. -/
structure Admits (word : ℕ → BitVec 128) (a r w : ℕ) (x : Input) : Prop where
  noFlush : x.flushFifo = false
  read : x.fifoRead = true → w < r
  returned : x.fifoWrite = true → r < a + x.incPendingData.toNat ∧ x.fifoWrData = word r
  room : x.incPendingData = true → a < w + fifoDepth

namespace Admits

theorem written_le (order : w ≤ r) (admitted : Admits word a r w x) :
    w + x.fifoRead.toNat ≤ r := by
  cases reads : x.fifoRead with
  | true => exact admitted.read reads
  | false => exact order

theorem accepted_le (bound : a ≤ w + fifoDepth) (admitted : Admits word a r w x) :
    a + x.incPendingData.toNat ≤ w + fifoDepth := by
  cases accepts : x.incPendingData with
  | true => exact admitted.room accepts
  | false => exact bound

theorem returned_le (order : r ≤ a) (admitted : Admits word a r w x) :
    r + x.fifoWrite.toNat ≤ a + x.incPendingData.toNat := by
  cases writes : x.fifoWrite with
  | true => exact (admitted.returned writes).1
  | false => exact order.trans (Nat.le_add_right _ _)

end Admits

/-- A returning quadword collides exactly when nothing else is held. -/
theorem writeCollision_iff (held : Holds word a r w s) (admitted : Admits word a r w x) :
    s.writeCollision x = true ↔ x.fifoWrite = true ∧ r = w + x.fifoRead.toNat := by
  rw [writeCollision, Bool.and_eq_true, beq_iff_eq, held.wraddress,
    held.rdaddress_eq admitted.noFlush]
  refine and_congr_right fun writes => ?_
  have order := admitted.written_le held.written_le
  have bound := admitted.accepted_le held.accepted_le
  have pending := (admitted.returned writes).1
  simp only [fifoDepth] at bound
  constructor
  · intro same
    by_contra different
    exact down_ne (show w + x.fifoRead.toNat < r by omega) (by omega) same.symm
  · rintro rfl
    rfl

theorem p1FifoEmpty_eq (held : Holds word a r w s) (admitted : Admits word a r w x) :
    s.p1FifoEmpty x = decide (r + x.fifoWrite.toNat = w + x.fifoRead.toNat) := by
  have order := held.written_le
  have bound := held.accepted_le
  have returned := held.returned_le
  simp only [fifoDepth] at bound
  rw [p1FifoEmpty, admitted.noFlush, held.empty, held.wraddress, held.rdaddressReg, dec5_down,
    Bool.false_or]
  cases reads : x.fifoRead with
  | false =>
      cases x.fifoWrite with
      | true => simp; omega
      | false => simp
  | true =>
      have someHeld := admitted.read reads
      cases x.fifoWrite with
      | true => simp
      | false =>
          have meets : down 32 r = down 32 (w + 1) ↔ r = w + 1 := by
            constructor
            · intro same
              by_contra different
              exact down_ne (show w + 1 < r by omega) (by omega) same.symm
            · rintro rfl
              rfl
          have notEmpty : ¬ r = w := by omega
          rw [Bool.eq_iff_iff]
          simp [meets, notEmpty]

theorem p1FifoFull_iff (held : Holds word a r w s) (admitted : Admits word a r w x) :
    s.p1FifoFull x = true ↔
      ((x.fifoRead && !x.fifoWrite) = false ∧ s.fifoFull = true) ∨
      (x.incPendingData = true ∧ a + 1 = w + x.fifoRead.toNat + fifoDepth) := by
  have order := admitted.written_le held.written_le
  have returned := held.returned_le
  have bound := held.accepted_le
  have meets : down 32 (a + 1) = down 32 (w + x.fifoRead.toNat) ↔
      a + 1 = w + x.fifoRead.toNat + fifoDepth := by
    rw [down_eq_iff (by decide)]
    simp only [fifoDepth] at bound ⊢
    omega
  rw [p1FifoFull, admitted.noFlush, held.estimated, held.rdaddress_eq admitted.noFlush,
    Bool.not_false, Bool.true_and, Bool.or_eq_true, Bool.and_eq_true, Bool.and_eq_true,
    Bool.not_eq_true', beq_iff_eq, meets]

/-- **One clock of a transfer** moves each count by its strobe. -/
theorem next (held : Holds word a r w s) (admitted : Admits word a r w x) :
    Holds word (a + x.incPendingData.toNat) (r + x.fifoWrite.toNat) (w + x.fifoRead.toNat)
      (s.next x) where
  written_le := (admitted.written_le held.written_le).trans (Nat.le_add_right _ _)
  returned_le := admitted.returned_le held.returned_le
  accepted_le := (admitted.accepted_le held.accepted_le).trans (by omega)
  wraddress := by
    simp only [Fifo.next, admitted.noFlush, Bool.false_eq_true, if_false, held.wraddress]
    cases x.fifoWrite with
    | true => exact dec5_down r
    | false => rfl
  rdaddressReg := held.rdaddress_eq admitted.noFlush
  readAddress := held.rdaddress_eq admitted.noFlush
  estimated := by
    simp only [Fifo.next, admitted.noFlush, Bool.false_eq_true, if_false, held.estimated]
    cases x.incPendingData with
    | true => exact dec5_down (a + 1)
    | false => rfl
  empty := held.p1FifoEmpty_eq admitted
  full := by
    intro full
    refine (held.p1FifoFull_iff admitted).mpr ?_
    have bound := admitted.accepted_le held.accepted_le
    -- the bound leaves no room for a read in the clock that fills the FIFO
    have noRead : x.fifoRead = false := by
      cases reads : x.fifoRead with
      | true => simp only [reads, Bool.toNat_true] at full; omega
      | false => rfl
    rw [noRead] at full ⊢
    cases accepts : x.incPendingData with
    | true => exact .inr ⟨rfl, by simpa [accepts] using full⟩
    | false => exact .inl ⟨rfl, held.full (by simpa [accepts] using full)⟩
  pending_of_full := by
    intro full
    have order := admitted.written_le held.written_le
    rcases (held.p1FifoFull_iff admitted).mp full with ⟨noDrain, wasFull⟩ | ⟨accepts, meets⟩
    · have pending := held.pending_of_full wasFull
      cases reads : x.fifoRead with
      | false => exact lt_of_lt_of_le pending (Nat.le_add_right _ _)
      | true =>
          -- a read with the flag kept is a read and a return in one clock
          have writes : x.fifoWrite = true := by simpa [reads] using noDrain
          have returned := (admitted.returned writes).1
          rw [reads] at order
          exact lt_of_le_of_lt order returned
    · rw [accepts, Bool.toNat_true, meets]
      simp [fifoDepth]
  cells := by
    intro j lower upper
    have bound := admitted.accepted_le held.accepted_le
    simp only [Fifo.next, held.wraddress]
    cases writes : x.fifoWrite with
    | false =>
        rw [writes] at upper
        exact held.cells j (le_of_add_le_left lower) upper
    | true =>
        obtain ⟨pending, data⟩ := admitted.returned writes
        rw [writes, Bool.toNat_true] at upper
        rw [store_true, data]
        rcases Nat.lt_succ_iff_lt_or_eq.mp upper with before | rfl
        · simp only [fifoDepth] at bound
          rw [Function.update_of_ne (down_ne before (by omega))]
          exact held.cells j (le_of_add_le_left lower) before
        · exact Function.update_self _ _ _
  bypass := by
    intro collided
    have order := admitted.written_le held.written_le
    by_cases collides : s.writeCollision x = true
    · obtain ⟨writes, last⟩ := (held.writeCollision_iff admitted).mp collides
      simp only [Fifo.next, collides, if_true]
      rw [(admitted.returned writes).2, ← last, writes]
      exact ⟨Nat.lt_succ_self _, rfl⟩
    · simp only [Fifo.next, collides, Bool.false_eq_true, if_false] at collided ⊢
      cases reads : x.fifoRead with
      | true => simp [reads] at collided
      | false =>
          rw [reads] at collided
          obtain ⟨someHeld, bypassed⟩ := held.bypass collided
          exact ⟨someHeld.trans_le (Nat.le_add_right _ _), bypassed⟩

/-- **A flush** of an empty FIFO with nothing outstanding starts a new count. -/
theorem flush {n : ℕ} (held : Holds word n n n s) (flushed : x.flushFifo = true)
    (noRead : x.fifoRead = false) (noWrite : x.fifoWrite = false) (word' : ℕ → BitVec 128) :
    Holds word' 0 0 0 (s.next x) where
  written_le := le_rfl
  returned_le := le_rfl
  accepted_le := Nat.zero_le _
  wraddress := by simp [Fifo.next, flushed]
  rdaddressReg := by simp [Fifo.next, rdaddress, flushed]
  readAddress := by simp [Fifo.next, rdaddress, flushed]
  estimated := by
    simp only [Fifo.next, flushed, if_true]
    rfl
  empty := by simp [Fifo.next, p1FifoEmpty, flushed]
  full := by simp [fifoDepth]
  pending_of_full := by simp [Fifo.next, p1FifoFull, flushed]
  cells := by omega
  bypass := by
    intro collided
    have clear : s.lastWriteCollision = false := by
      cases collision : s.lastWriteCollision with
      | true => exact absurd (held.bypass collision).1 (lt_irrefl n)
      | false => rfl
    simp [Fifo.next, writeCollision, noRead, noWrite, clear] at collided

/-- An idle FIFO with no traffic may be counted for any sequence. -/
theorem forget {n : ℕ} (held : Holds word n n n s) (word' : ℕ → BitVec 128) :
    Holds word' n n n s :=
  { held with
    cells := fun _ lower upper => absurd (lower.trans_lt upper) (lt_irrefl n)
    bypass := fun collided => absurd (held.bypass collided).1 (lt_irrefl n) }

end Holds

end Fifo

end FPGame.Dma
