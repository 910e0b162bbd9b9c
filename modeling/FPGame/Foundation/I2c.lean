import FPGame.Foundation.I2s

/-!
# A listener on the I2C bus

The bus has a clock and a data line. While the clock is high the data line says
something only by changing: a fall starts a transaction and a rise stops it. All other
changes come while the clock is low, and each rise of the clock that is followed by a
fall carries one bit. Eight bits are a byte, the most significant first, and in the
ninth bit the receiver of the byte pulls the data line low to acknowledge it.

`Monitor` writes down the transactions that it sees. The state of a bus on which a
master sends is `Idle`, `Low`, `High` or `Open`, and the lemmas say how each line takes
one of these into the next.
-/

set_option autoImplicit false

namespace FPGame.Foundation.I2c

/-- The two lines. -/
structure Lines where
  scl : Bool
  sda : Bool
deriving DecidableEq, Repr

/-- The lines before, the bit that came with the last rise of the clock, the bits of
the transaction that is open, and the transactions before. -/
structure Monitor where
  last : Option Lines
  bit : Option Bool
  bits : Option (List Bool)
  transactions : List (List Bool)
deriving DecidableEq, Repr

namespace Monitor

def start : Monitor where
  last := none
  bit := none
  bits := none
  transactions := []

/-- The lines change from `before` to `x`. -/
def change (m : Monitor) (before x : Lines) : Monitor :=
  match before.scl, x.scl with
  | true, true =>
      match before.sda, x.sda with
      | true, false =>
          { m with bit := none, bits := some [], transactions := m.transactions ++ m.bits.toList }
      | false, true =>
          { m with bit := none, bits := none, transactions := m.transactions ++ m.bits.toList }
      | _, _ => m
  | false, true => { m with bit := some x.sda }
  | true, false => { m with bit := none, bits := m.bits.map (· ++ m.bit.toList) }
  | false, false => m

/-- What the monitor has written down after `x`. -/
def next (m : Monitor) (x : Lines) : Monitor :=
  match m.last with
  | none => { m with last := some x }
  | some before => { m.change before x with last := some x }

/-- The next bit is the ninth of a byte, so the receiver may pull the data line low. -/
def ackSlot (m : Monitor) : Bool :=
  match m.bits with
  | none => false
  | some bits => bits.length % 9 == 8

/-! ## The states of a bus with one master -/

/-- Nothing is open, and both lines are high. -/
structure Idle (ts : List (List Bool)) (m : Monitor) : Prop where
  last : m.last = some ⟨true, true⟩
  bits : m.bits = none
  transactions : m.transactions = ts

/-- A transaction is open, and the clock is low. -/
structure Low (ts : List (List Bool)) (bs : List Bool) (m : Monitor) : Prop where
  last : ∃ sda, m.last = some ⟨false, sda⟩
  bits : m.bits = some bs
  transactions : m.transactions = ts

/-- The clock has risen with `sda` on the data line, or, if there is no bit, the
transaction has just been started. -/
structure High (ts : List (List Bool)) (bs : List Bool) (bit : Option Bool) (m : Monitor) :
    Prop where
  last : m.last = some ⟨true, bit.getD false⟩
  bit : m.bit = bit
  bits : m.bits = some bs
  transactions : m.transactions = ts

/-- A transaction is open, and has the bits `bs` when the clock is low. -/
def Open (ts : List (List Bool)) (bs : List Bool) (m : Monitor) : Prop :=
  Low ts bs m ∨ ∃ before bit, High ts before bit m ∧ bs = before ++ bit.toList

section Lemmas

variable {ts : List (List Bool)} {bs : List Bool} {bit : Option Bool} {m : Monitor} {sda : Bool}

theorem Low.toOpen (low : Low ts bs m) : Open ts bs m := .inl low

theorem High.toOpen (high : High ts bs bit m) : Open ts (bs ++ bit.toList) m :=
  .inr ⟨bs, bit, high, rfl⟩

theorem Open.transactions_eq (here : Open ts bs m) : m.transactions = ts := by
  rcases here with low | ⟨before, bit, high, -⟩
  · exact low.transactions
  · exact high.transactions

/-- The data line falls. -/
theorem Idle.starts (idle : Idle ts m) : High ts [] none (m.next ⟨true, false⟩) := by
  obtain ⟨last, bits, transactions⟩ := idle
  constructor <;> simp [next, change, last, bits, transactions]

/-- The clock is low, or falls. -/
theorem Open.falls (here : Open ts bs m) : Low ts bs (m.next ⟨false, sda⟩) := by
  rcases here with ⟨⟨before, last⟩, bits, transactions⟩ |
    ⟨before, bit, ⟨last, held, bits, transactions⟩, rfl⟩
  · constructor <;> simp [next, change, last, bits, transactions]
  · constructor <;> simp [next, change, last, held, bits, transactions]

/-- The clock rises. -/
theorem Low.rises (low : Low ts bs m) : High ts bs (some sda) (m.next ⟨true, sda⟩) := by
  obtain ⟨⟨before, last⟩, bits, transactions⟩ := low
  constructor <;> simp [next, change, last, bits, transactions]

/-- The data line rises. The bit that came with the clock's rise is none. -/
theorem High.stops (high : High ts bs (some false) m) :
    Idle (ts ++ [bs]) (m.next ⟨true, true⟩) := by
  obtain ⟨last, held, bits, transactions⟩ := high
  constructor <;> simp [next, change, last, bits, transactions]

/-- Before anything is open, a monitor that has both lines high is idle. -/
theorem idle_of_none (bits : m.bits = none) (transactions : m.transactions = ts) :
    Idle ts (m.next ⟨true, true⟩) := by
  cases last : m.last with
  | none => constructor <;> simp [next, last, bits, transactions]
  | some before =>
      obtain ⟨scl, sda⟩ := before
      cases scl <;> cases sda <;> constructor <;>
        simp [next, change, last, bits, transactions]

theorem ackSlot_idle (idle : Idle ts m) : m.ackSlot = false := by
  rw [ackSlot, idle.bits]

theorem ackSlot_low (low : Low ts bs m) : m.ackSlot = (bs.length % 9 == 8) := by
  rw [ackSlot, low.bits]

theorem ackSlot_high (high : High ts bs bit m) : m.ackSlot = (bs.length % 9 == 8) := by
  rw [ackSlot, high.bits]

end Lemmas

end Monitor

/-! ## Bytes -/

/-- A byte, and whether its receiver did not acknowledge it. -/
structure Byte where
  value : BitVec 8
  nack : Bool
deriving DecidableEq, Repr

namespace Byte

/-- The bits of the bus. -/
def bits (b : Byte) : List Bool := I2s.msbFirst b.value ++ [b.nack]

@[simp] theorem length_bits (b : Byte) : b.bits.length = 9 := by
  simp [bits]

@[simp] theorem length_flatMap_bits (bytes : List Byte) :
    (bytes.flatMap bits).length = 9 * bytes.length := by
  induction bytes with
  | nil => rfl
  | cons b bytes ih =>
      rw [List.flatMap_cons, List.length_append, length_bits, ih, List.length_cons]
      ring

end Byte

/-- The bytes of a transaction. -/
def decode : List Bool → List Byte
  | b7 :: b6 :: b5 :: b4 :: b3 :: b2 :: b1 :: b0 :: nack :: bits =>
      ⟨BitVec.ofBoolListBE [b7, b6, b5, b4, b3, b2, b1, b0], nack⟩ :: decode bits
  | _ => []

theorem decode_bits (b : Byte) (bits : List Bool) : decode (b.bits ++ bits) = b :: decode bits := by
  obtain ⟨value, nack⟩ := b
  have explicit : (⟨value, nack⟩ : Byte).bits ++ bits =
      value.getMsbD 0 :: value.getMsbD 1 :: value.getMsbD 2 :: value.getMsbD 3 ::
        value.getMsbD 4 :: value.getMsbD 5 :: value.getMsbD 6 :: value.getMsbD 7 ::
        nack :: bits := rfl
  have whole : BitVec.ofBoolListBE [value.getMsbD 0, value.getMsbD 1, value.getMsbD 2,
      value.getMsbD 3, value.getMsbD 4, value.getMsbD 5, value.getMsbD 6, value.getMsbD 7] =
      value := by
    have same := I2s.ofBoolListBE_msbFirst value
    exact (BitVec.setWidth_eq _).symm.trans same
  rw [explicit, decode, whole]

/-- **A transaction of whole bytes is decoded.** -/
theorem decode_flatMap_bits (bytes : List Byte) : decode (bytes.flatMap Byte.bits) = bytes := by
  induction bytes with
  | nil => rfl
  | cons b bytes ih => rw [List.flatMap_cons, decode_bits, ih]

end FPGame.Foundation.I2c
