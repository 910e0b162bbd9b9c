import FPGame.Foundation.I2c

/-!
# `I2C_WRITE_WDATA`

The writer sends a slave address and two bytes of data as one transaction of the I2C
bus, and does so again and again unless `GO` holds it. Each bit takes four clocks
(`Cell`): the data line is cleared, is set to the bit, the clock rises, and falls. In
the ninth bit of a byte the writer lets go of the data line and reads the answer.

`Stage` says where the writer is in its transaction, without its registers. `At` says
which registers, and what on the bus, belong to a stage; `at_next` that a clock takes
each stage to the next one (`Stage.next`), whatever the registers held at power-up.
-/

set_option autoImplicit false

namespace FPGame.Hdmi

open FPGame.Foundation FPGame.Foundation.I2c

/-- The values of `ST` -/
inductive St where
  | st0 | st1 | st2 | st3 | st4 | st5 | st6 | st7 | st8 | st9 | st30 | st31
deriving DecidableEq, Repr

/-- The registers of `I2C_WRITE_WDATA`. Reset clears `ST` only. -/
structure Wdata where
  st : St
  cnt : BitVec 8
  byte : BitVec 8
  a : BitVec 9
  sdao : Bool
  sclo : Bool
  endOk : Bool
  ackOk : Bool
deriving DecidableEq, Repr

namespace Wdata

structure Input where
  go : Bool
  regData : BitVec 16
  slaveAddress : BitVec 8
  sdai : Bool
  byteNum : BitVec 8
deriving DecidableEq, Repr

/-- The registers after a clock edge. -/
def next (s : Wdata) (x : Input) : Wdata :=
  match s.st with
  | .st0 =>
      { s with
        sdao := true
        sclo := true
        ackOk := false
        cnt := 0
        endOk := true
        byte := 0
        st := if x.go then .st30 else .st0 }
  | .st1 => { s with st := .st2, sdao := false, sclo := true, a := x.slaveAddress ++ 1#1 }
  | .st2 => { s with st := .st3, sdao := false, sclo := false }
  -- `{ SDAO, A } <= { A, 1'b0 }`
  | .st3 => { s with st := .st4, sdao := s.a.msb, a := s.a <<< 1 }
  | .st4 => { s with st := .st5, sclo := true, cnt := s.cnt + 1 }
  | .st5 =>
      if s.cnt = 9 then
        if s.byte = x.byteNum then
          { s with sclo := false, st := .st6, ackOk := s.ackOk || x.sdai }
        else
          { s with
            sclo := false
            cnt := 0
            st := .st2
            byte := if s.byte = 0 then 1 else if s.byte = 1 then 2 else s.byte
            a :=
              if s.byte = 0 then x.regData.extractLsb' 8 8 ++ 1#1
              else if s.byte = 1 then x.regData.extractLsb' 0 8 ++ 1#1
              else s.a
            ackOk := s.ackOk || x.sdai }
      else { s with sclo := false, st := .st2 }
  | .st6 => { s with st := .st7, sdao := false, sclo := false }
  | .st7 => { s with st := .st8, sdao := false, sclo := true }
  | .st8 => { s with st := .st9, sdao := true, sclo := true }
  | .st9 =>
      { s with st := .st30, sdao := true, sclo := true, cnt := 0, endOk := true, byte := 0 }
  | .st30 => { s with st := if x.go then .st30 else .st31 }
  | .st31 => { s with endOk := false, ackOk := false, st := .st1 }

end Wdata

/-! ## The stages of a transaction -/

/-- The four clocks of a bit, `ST` 2 to 5. -/
inductive Cell where
  | low
  | shift
  | high
  | sample
deriving DecidableEq, Repr

/-- How far a transaction is: the bytes that are done, the byte that is being sent, and
how many bits of it are done. -/
structure Progress where
  done : List Byte
  value : BitVec 8
  count : ℕ
deriving DecidableEq, Repr

/-- The bits that are done. -/
def Progress.bits (p : Progress) : List Bool :=
  p.done.flatMap Byte.bits ++ (I2s.msbFirst p.value).take p.count

inductive Stage where
  /-- `ST` 0, and whether it has been clocked -/
  | reset (warm : Bool)
  /-- `ST` 30, and whether a byte of the last transaction was not acknowledged -/
  | ready (nack : Bool)
  /-- `ST` 31 -/
  | leaving (nack : Bool)
  /-- `ST` 1 -/
  | start
  | bit (p : Progress) (cell : Cell)
  /-- `ST` 6 to 9 -/
  | stop (done : List Byte) (k : Fin 4)
deriving DecidableEq, Repr

namespace Stage

/-- The ninth bit ends a byte. -/
def endByte (p : Progress) (regData : BitVec 16) (sdai : Bool) : Stage :=
  if p.done.length = 0 then
    bit ⟨p.done ++ [⟨p.value, sdai⟩], regData.extractLsb' 8 8, 0⟩ .low
  else if p.done.length = 1 then
    bit ⟨p.done ++ [⟨p.value, sdai⟩], regData.extractLsb' 0 8, 0⟩ .low
  else stop (p.done ++ [⟨p.value, sdai⟩]) 0

section EndByte

variable {p : Progress} {regData : BitVec 16} {sdai : Bool}

/-- What a byte's end leads to, over the bytes that are done. -/
theorem endByte_cases (few : p.done.length ≤ 2) :
    (p.done.length = 0 ∧ endByte p regData sdai =
      bit ⟨p.done ++ [⟨p.value, sdai⟩], regData.extractLsb' 8 8, 0⟩ .low) ∨
    (p.done.length = 1 ∧ endByte p regData sdai =
      bit ⟨p.done ++ [⟨p.value, sdai⟩], regData.extractLsb' 0 8, 0⟩ .low) ∨
    (p.done.length = 2 ∧ endByte p regData sdai = stop (p.done ++ [⟨p.value, sdai⟩]) 0) := by
  have place : p.done.length = 0 ∨ p.done.length = 1 ∨ p.done.length = 2 := by omega
  rcases place with none | one | two
  · exact .inl ⟨none, if_pos none⟩
  · exact .inr (.inl ⟨one, (if_neg (by omega)).trans (if_pos one)⟩)
  · exact .inr (.inr ⟨two, (if_neg (by omega)).trans (if_neg (by omega))⟩)

end EndByte

/-- The stage after a clock. -/
def next (go : Bool) (data : BitVec 24) (sdai : Bool) : Stage → Stage
  | reset _ => if go then ready false else reset true
  | ready nack => if go then ready nack else leaving nack
  | leaving _ => start
  | start => bit ⟨[], data.extractLsb' 16 8, 0⟩ .low
  | bit p .low => bit p .shift
  | bit p .shift => bit p .high
  | bit p .high => bit p .sample
  | bit p .sample =>
      if p.count = 8 then endByte p (data.extractLsb' 0 16) sdai
      else bit { p with count := p.count + 1 } .low
  | stop done 0 => stop done 1
  | stop done 1 => stop done 2
  | stop done 2 => stop done 3
  | stop done 3 => ready (done.any Byte.nack)

/-- The transaction that the bus sees stop in a clock. -/
def finished : Stage → List (List Bool)
  | stop done 3 => [done.flatMap Byte.bits]
  | _ => []

/-- The bytes that have been read from the data for the transaction that is under way. -/
def values : Stage → List (BitVec 8)
  | bit p _ => p.done.map Byte.value ++ [p.value]
  | stop done _ => done.map Byte.value
  | _ => []

/-- `END` of a writer that has been clocked -/
def endOk : Stage → Bool
  | reset warm => warm
  | ready _ => true
  | leaving _ => true
  | _ => false

/-- `ACK` while `END` is up -/
def nack : Stage → Bool
  | ready nack => nack
  | leaving nack => nack
  | _ => false

/-- The clocks since the transaction began. -/
def position : Stage → ℕ
  | bit p .low => 1 + 4 * (9 * p.done.length + p.count)
  | bit p .shift => 2 + 4 * (9 * p.done.length + p.count)
  | bit p .high => 3 + 4 * (9 * p.done.length + p.count)
  | bit p .sample => 4 + 4 * (9 * p.done.length + p.count)
  | stop _ k => 109 + k
  | _ => 0

end Stage

namespace Stage

/-- The bytes and the bits of a stage are not more than there are. -/
def Shaped : Stage → Prop
  | bit p _ => p.done.length ≤ 2 ∧ p.count ≤ 8
  | stop done _ => done.length = 3
  | _ => True

/-- A clock loads the next byte of the data, or none. -/
theorem values_next {stage : Stage} {go sdai : Bool} {data : BitVec 24} (shaped : stage.Shaped) :
    (stage.next go data sdai).values = stage.values ∨ (stage.next go data sdai).values = [] ∨
    (stage.values = [] ∧ (stage.next go data sdai).values = [data.extractLsb' 16 8]) ∨
    (stage.values.length = 1 ∧ (stage.next go data sdai).values =
      stage.values ++ [(data.extractLsb' 0 16).extractLsb' 8 8]) ∨
    (stage.values.length = 2 ∧ (stage.next go data sdai).values =
      stage.values ++ [(data.extractLsb' 0 16).extractLsb' 0 8]) := by
  cases stage with
  | reset => cases go <;> exact .inl rfl
  | ready => cases go <;> exact .inl rfl
  | leaving => exact .inl rfl
  | start => exact .inr (.inr (.inl ⟨rfl, rfl⟩))
  | bit p cell =>
      cases cell with
      | low => exact .inl rfl
      | shift => exact .inl rfl
      | high => exact .inl rfl
      | sample =>
          rw [next]
          by_cases all : p.count = 8
          · rw [if_pos all]
            rcases endByte_cases shaped.1 with ⟨none, ends⟩ | ⟨one, ends⟩ | ⟨two, ends⟩
            · rw [ends]
              exact .inr (.inr (.inr (.inl ⟨by simp [values, none], by simp [values]⟩)))
            · rw [ends]
              exact .inr (.inr (.inr (.inr ⟨by simp [values, one], by simp [values]⟩)))
            · rw [ends]
              exact .inl (by simp [values])
          · rw [if_neg all]
            exact .inl rfl
  | stop done k => fin_cases k <;> first | exact .inl rfl | exact .inr (.inl rfl)

/-- A transaction takes one clock after the other. -/
theorem position_next {stage : Stage} {go sdai : Bool} {data : BitVec 24} (shaped : stage.Shaped)
    (begun : stage = start ∨ 0 < stage.position) :
    (stage.next go data sdai).position = stage.position + 1 ∨
      ∃ done, stage = stop done 3 := by
  cases stage with
  | reset => simp [position] at begun
  | ready => simp [position] at begun
  | leaving => simp [position] at begun
  | start => exact .inl rfl
  | bit p cell =>
      refine .inl ?_
      cases cell with
      | low => simp only [next, position]; omega
      | shift => simp only [next, position]; omega
      | high => simp only [next, position]; omega
      | sample =>
          rw [next]
          by_cases all : p.count = 8
          · rw [if_pos all]
            rcases endByte_cases shaped.1 with ⟨none, ends⟩ | ⟨one, ends⟩ | ⟨two, ends⟩
            · rw [ends]
              simp [position, none, all]
            · rw [ends]
              simp [position, one, all]
            · rw [ends]
              simp [position, two, all]
          · rw [if_neg all]
            simp only [position]
            omega
  | stop done k =>
      fin_cases k
      · exact .inl rfl
      · exact .inl rfl
      · exact .inl rfl
      · exact .inr ⟨done, rfl⟩

/-- A transaction has 27 bits. -/
theorem position_le {stage : Stage} (shaped : stage.Shaped) : stage.position ≤ 112 := by
  cases stage with
  | reset | ready | leaving | start => exact Nat.zero_le _
  | bit p cell =>
      obtain ⟨few, within⟩ := shaped
      cases cell <;> simp only [position] <;> omega
  | stop done k =>
      simp only [position]
      omega

end Stage

/-! ## The wires of `I2C_Controller` -/

/-- What the bus and the configuration drive: `2` is `BYTE_NUM`. -/
def Wdata.wires (s : Wdata) (go : Bool) (data : BitVec 24) (pulls : Bool) : Wdata.Input where
  go := go
  regData := data.extractLsb' 0 16
  slaveAddress := data.extractLsb' 16 8
  sdai := s.sdao && !pulls
  byteNum := 2

/-- The lines of the bus, whose data line the slave may pull low. -/
def Wdata.lines (s : Wdata) (pulls : Bool) : Lines where
  scl := s.sclo
  sda := s.sdao && !pulls

/-! ## The registers of a stage -/

/-- The registers in a transaction. -/
structure Progress.Held (p : Progress) (s : Wdata) : Prop where
  few : p.done.length ≤ 2
  within : p.count ≤ 8
  byte : s.byte.toNat = p.done.length
  endOk : s.endOk = false
  ackOk : s.ackOk = p.done.any Byte.nack

/-- The byte that is being sent, with the bit in which the line is let go. -/
def Progress.word (p : Progress) : BitVec 9 := p.value ++ 1#1

section At

variable {ts : List (List Bool)} {s : Wdata} {m : Monitor} {go pulls : Bool} {data : BitVec 24}

/-- The registers of a stage, and what the bus has seen before. -/
inductive At (ts : List (List Bool)) : Stage → Wdata → Monitor → Prop where
  | cold {s : Wdata} {m : Monitor} (st : s.st = .st0) (last : m.last = none)
      (bits : m.bits = none) (before : m.transactions = ts) : At ts (.reset false) s m
  | warm {s : Wdata} {m : Monitor} (st : s.st = .st0) (scl : s.sclo = true)
      (sda : s.sdao = true) (endOk : s.endOk = true) (ackOk : s.ackOk = false)
      (bits : m.bits = none) (before : m.transactions = ts) : At ts (.reset true) s m
  | ready {s : Wdata} {m : Monitor} {nack : Bool} (st : s.st = .st30) (scl : s.sclo = true)
      (sda : s.sdao = true) (endOk : s.endOk = true) (ackOk : s.ackOk = nack)
      (cnt : s.cnt.toNat = 0) (byte : s.byte.toNat = 0)
      (bits : m.bits = none) (before : m.transactions = ts) : At ts (.ready nack) s m
  | leaving {s : Wdata} {m : Monitor} {nack : Bool} (st : s.st = .st31) (scl : s.sclo = true)
      (sda : s.sdao = true) (endOk : s.endOk = true) (ackOk : s.ackOk = nack)
      (cnt : s.cnt.toNat = 0) (byte : s.byte.toNat = 0) (idle : m.Idle ts) :
      At ts (.leaving nack) s m
  | start {s : Wdata} {m : Monitor} (st : s.st = .st1) (scl : s.sclo = true)
      (sda : s.sdao = true) (endOk : s.endOk = false) (ackOk : s.ackOk = false)
      (cnt : s.cnt.toNat = 0) (byte : s.byte.toNat = 0) (idle : m.Idle ts) : At ts .start s m
  | first {s : Wdata} {m : Monitor} {value : BitVec 8} (st : s.st = .st2) (scl : s.sclo = true)
      (sda : s.sdao = false) (held : Progress.Held ⟨[], value, 0⟩ s) (cnt : s.cnt.toNat = 0)
      (a : s.a = value ++ 1#1) (idle : m.Idle ts) : At ts (.bit ⟨[], value, 0⟩ .low) s m
  | low {s : Wdata} {m : Monitor} {p : Progress} (st : s.st = .st2) (scl : s.sclo = false)
      (held : p.Held s) (cnt : s.cnt.toNat = p.count) (a : s.a = p.word <<< p.count)
      (bus : m.Open ts p.bits) : At ts (.bit p .low) s m
  | shift {s : Wdata} {m : Monitor} {p : Progress} (st : s.st = .st3) (scl : s.sclo = false)
      (held : p.Held s) (cnt : s.cnt.toNat = p.count) (a : s.a = p.word <<< p.count)
      (bus : m.Open ts p.bits) : At ts (.bit p .shift) s m
  | high {s : Wdata} {m : Monitor} {p : Progress} (st : s.st = .st4) (scl : s.sclo = false)
      (sda : s.sdao = p.word.getMsbD p.count) (held : p.Held s) (cnt : s.cnt.toNat = p.count)
      (a : s.a = p.word <<< (p.count + 1)) (bus : m.Open ts p.bits) : At ts (.bit p .high) s m
  | sample {s : Wdata} {m : Monitor} {p : Progress} (st : s.st = .st5) (scl : s.sclo = true)
      (sda : s.sdao = p.word.getMsbD p.count) (held : p.Held s)
      (cnt : s.cnt.toNat = p.count + 1) (a : s.a = p.word <<< (p.count + 1))
      (bus : m.Low ts p.bits) : At ts (.bit p .sample) s m
  | stop0 {s : Wdata} {m : Monitor} {done : List Byte} (st : s.st = .st6) (scl : s.sclo = false)
      (endOk : s.endOk = false) (ackOk : s.ackOk = done.any Byte.nack) (all : done.length = 3)
      (bus : m.Open ts (done.flatMap Byte.bits)) : At ts (.stop done 0) s m
  | stop1 {s : Wdata} {m : Monitor} {done : List Byte} (st : s.st = .st7) (scl : s.sclo = false)
      (endOk : s.endOk = false) (ackOk : s.ackOk = done.any Byte.nack) (all : done.length = 3)
      (bus : m.Open ts (done.flatMap Byte.bits)) : At ts (.stop done 1) s m
  | stop2 {s : Wdata} {m : Monitor} {done : List Byte} (st : s.st = .st8) (scl : s.sclo = true)
      (sda : s.sdao = false) (endOk : s.endOk = false) (ackOk : s.ackOk = done.any Byte.nack)
      (all : done.length = 3) (bus : m.Low ts (done.flatMap Byte.bits)) : At ts (.stop done 2) s m
  | stop3 {s : Wdata} {m : Monitor} {done : List Byte} (st : s.st = .st9) (scl : s.sclo = true)
      (sda : s.sdao = true) (endOk : s.endOk = false) (ackOk : s.ackOk = done.any Byte.nack)
      (all : done.length = 3) (bus : m.High ts (done.flatMap Byte.bits) (some false)) :
      At ts (.stop done 3) s m

theorem At.shaped {stage : Stage} (here : At ts stage s m) : stage.Shaped := by
  cases here with
  | cold | warm | ready | leaving | start => trivial
  | first _ _ _ held => exact ⟨held.few, held.within⟩
  | low _ _ held => exact ⟨held.few, held.within⟩
  | shift _ _ held => exact ⟨held.few, held.within⟩
  | high _ _ _ held => exact ⟨held.few, held.within⟩
  | sample _ _ _ held => exact ⟨held.few, held.within⟩
  | stop0 _ _ _ _ all => exact all
  | stop1 _ _ _ _ all => exact all
  | stop2 _ _ _ _ _ all => exact all
  | stop3 _ _ _ _ _ all => exact all

theorem At.transactions_eq {stage : Stage} (here : At ts stage s m) : m.transactions = ts := by
  cases here with
  | cold _ _ _ before => exact before
  | warm _ _ _ _ _ _ before => exact before
  | ready _ _ _ _ _ _ _ _ before => exact before
  | leaving _ _ _ _ _ _ _ idle => exact idle.transactions
  | start _ _ _ _ _ _ _ idle => exact idle.transactions
  | first _ _ _ _ _ _ idle => exact idle.transactions
  | low _ _ _ _ _ bus => exact bus.transactions_eq
  | shift _ _ _ _ _ bus => exact bus.transactions_eq
  | high _ _ _ _ _ _ bus => exact bus.transactions_eq
  | sample _ _ _ _ _ _ bus => exact bus.transactions
  | stop0 _ _ _ _ _ bus => exact bus.transactions_eq
  | stop1 _ _ _ _ _ bus => exact bus.transactions_eq
  | stop2 _ _ _ _ _ _ bus => exact bus.transactions
  | stop3 _ _ _ _ _ _ bus => exact bus.transactions

/-- `END` and `ACK`, but for the clock in which they are not known. -/
theorem At.flags {stage : Stage} (here : At ts stage s m) (clocked : stage ≠ .reset false) :
    s.endOk = stage.endOk ∧ (stage.endOk = true → s.ackOk = stage.nack) := by
  cases here with
  | cold => exact absurd rfl clocked
  | warm _ _ _ endOk ackOk => exact ⟨endOk, fun _ => ackOk⟩
  | ready _ _ _ endOk ackOk => exact ⟨endOk, fun _ => ackOk⟩
  | leaving _ _ _ endOk ackOk => exact ⟨endOk, fun _ => ackOk⟩
  | start _ _ _ endOk => exact ⟨endOk, fun up => Bool.noConfusion up⟩
  | first _ _ _ held => exact ⟨held.endOk, fun up => Bool.noConfusion up⟩
  | low _ _ held => exact ⟨held.endOk, fun up => Bool.noConfusion up⟩
  | shift _ _ held => exact ⟨held.endOk, fun up => Bool.noConfusion up⟩
  | high _ _ _ held => exact ⟨held.endOk, fun up => Bool.noConfusion up⟩
  | sample _ _ _ held => exact ⟨held.endOk, fun up => Bool.noConfusion up⟩
  | stop0 _ _ endOk => exact ⟨endOk, fun up => Bool.noConfusion up⟩
  | stop1 _ _ endOk => exact ⟨endOk, fun up => Bool.noConfusion up⟩
  | stop2 _ _ _ endOk => exact ⟨endOk, fun up => Bool.noConfusion up⟩
  | stop3 _ _ _ endOk => exact ⟨endOk, fun up => Bool.noConfusion up⟩

end At

/-! ## A bit -/

section Bit

variable {p : Progress} {ts : List (List Bool)} {s : Wdata} {m : Monitor}

theorem Progress.length_bits (within : p.count ≤ 8) :
    p.bits.length = 9 * p.done.length + p.count := by
  rw [bits, List.length_append, Byte.length_flatMap_bits, List.length_take, I2s.length_msbFirst,
    Nat.min_eq_left within]

/-- The ninth bit is that of the receiver. -/
theorem Progress.ackSlot (within : p.count ≤ 8) (low : m.Low ts p.bits) :
    m.ackSlot = true ↔ p.count = 8 := by
  rw [Monitor.ackSlot_low low, length_bits within, beq_iff_eq]
  omega

theorem Progress.word_bit (more : p.count < 8) :
    p.word.getMsbD p.count = p.value.getMsbD p.count := by
  rw [word, BitVec.getMsbD_append, if_neg (by omega)]

/-- A bit of the value. -/
theorem Progress.bits_succ (more : p.count < 8) :
    ({ p with count := p.count + 1 } : Progress).bits = p.bits ++ [p.value.getMsbD p.count] := by
  have here : (I2s.msbFirst p.value)[p.count]? = some (p.value.getMsbD p.count) := by
    simp [I2s.msbFirst, more]
  simp only [bits]
  rw [List.take_add_one, here, Option.toList_some, List.append_assoc]

/-- The ninth bit. -/
theorem Progress.bits_endByte (all : p.count = 8) (nack : Bool) :
    (p.done ++ [(⟨p.value, nack⟩ : Byte)]).flatMap Byte.bits = p.bits ++ [nack] := by
  have whole : (I2s.msbFirst p.value).take 8 = I2s.msbFirst p.value :=
    List.take_of_length_le (I2s.length_msbFirst p.value).le
  rw [bits, all, whole, List.flatMap_append, List.flatMap_singleton, Byte.bits, List.append_assoc]

end Bit

/-! ## A clock -/

section Clock

variable {ts : List (List Bool)} {s : Wdata} {m : Monitor} {go pulls : Bool} {data : BitVec 24}
  {p : Progress} {done : List Byte} {stage : Stage}

/-- A slave that leaves the data line alone while the clock is high, but for the ninth
bits of the bytes. -/
def Polite (s : Wdata) (m : Monitor) (pulls : Bool) : Prop :=
  s.sclo = true → pulls = true → m.ackSlot = true

instance : Decidable (Polite s m pulls) :=
  inferInstanceAs (Decidable (s.sclo = true → pulls = true → m.ackSlot = true))

theorem Polite.lines_of_none (polite : Polite s m pulls) (scl : s.sclo = true)
    (none : m.ackSlot = false) : s.lines pulls = ⟨true, s.sdao⟩ := by
  have still : pulls = false := by
    by_contra pulling
    rw [Bool.not_eq_false] at pulling
    exact Bool.noConfusion (none.symm.trans (polite scl pulling))
  rw [Wdata.lines, scl, still, Bool.not_false, Bool.and_true]

/-- With both lines high the bus is idle, if nothing is open. -/
theorem idle_next (polite : Polite s m pulls) (scl : s.sclo = true) (sda : s.sdao = true)
    (bits : m.bits = none) (before : m.transactions = ts) :
    (m.next (s.lines pulls)).Idle ts := by
  have none : m.ackSlot = false := by rw [Monitor.ackSlot, bits]
  rw [polite.lines_of_none scl none, sda]
  exact Monitor.idle_of_none bits before

theorem lines_low {bs : List Bool} (bus : m.Open ts bs) (scl : s.sclo = false) (pulls : Bool) :
    (m.next (s.lines pulls)).Low ts bs := by
  rw [Wdata.lines, scl]
  exact bus.falls

/-- The clock of a bit in which the line is read. -/
theorem at_sample (polite : Polite s m pulls) (st : s.st = .st5) (scl : s.sclo = true)
    (sda : s.sdao = p.word.getMsbD p.count) (held : p.Held s)
    (cnt : s.cnt.toNat = p.count + 1) (a : s.a = p.word <<< (p.count + 1))
    (bus : m.Low ts p.bits) :
    At ts (Stage.next go data (s.sdao && !pulls) (.bit p .sample)) (s.next (s.wires go data pulls))
      (m.next (s.lines pulls)) := by
  have slot := Progress.ackSlot held.within bus
  have high : (m.next (s.lines pulls)).High ts p.bits (some (s.sdao && !pulls)) := by
    rw [Wdata.lines, scl]
    exact bus.rises
  simp only [Stage.next]
  by_cases all : p.count = 8
  · have ninth : s.cnt = 9 := BitVec.eq_of_toNat_eq (by rw [cnt, all]; rfl)
    have bits : ∀ value, (⟨p.done ++ [⟨p.value, s.sdao && !pulls⟩], value, 0⟩ : Progress).bits =
        p.bits ++ [s.sdao && !pulls] := by
      intro value
      rw [← Progress.bits_endByte all, Progress.bits, List.take_zero, List.append_nil]
    have ackOk : (s.ackOk || (s.sdao && !pulls)) =
        (p.done ++ [(⟨p.value, s.sdao && !pulls⟩ : Byte)]).any Byte.nack := by
      rw [List.any_append, held.ackOk]
      simp
    have open' := high.toOpen
    rw [Option.toList_some] at open'
    rw [if_pos all]
    rcases Stage.endByte_cases held.few with ⟨none, ends⟩ | ⟨one, ends⟩ | ⟨two, ends⟩
    · have first : s.byte = 0 := BitVec.eq_of_toNat_eq (held.byte.trans none)
      have next : s.next (s.wires go data pulls) =
          { s with
            sclo := false
            cnt := 0
            st := .st2
            byte := 1
            a := (data.extractLsb' 0 16).extractLsb' 8 8 ++ 1#1
            ackOk := s.ackOk || (s.sdao && !pulls) } := by
        simp [Wdata.next, Wdata.wires, st, ninth, first]
      rw [ends, next]
      refine .low rfl rfl ⟨by simp [none], by simp, by simp [none], held.endOk, ackOk⟩ rfl
        (BitVec.shiftLeft_zero _).symm ?_
      rw [bits]
      exact open'
    · have second : s.byte = 1 := BitVec.eq_of_toNat_eq (held.byte.trans one)
      have next : s.next (s.wires go data pulls) =
          { s with
            sclo := false
            cnt := 0
            st := .st2
            byte := 2
            a := (data.extractLsb' 0 16).extractLsb' 0 8 ++ 1#1
            ackOk := s.ackOk || (s.sdao && !pulls) } := by
        simp [Wdata.next, Wdata.wires, st, ninth, second]
      rw [ends, next]
      refine .low rfl rfl ⟨by simp [one], by simp, by simp [one], held.endOk, ackOk⟩ rfl
        (BitVec.shiftLeft_zero _).symm ?_
      rw [bits]
      exact open'
    · have third : s.byte = 2 := BitVec.eq_of_toNat_eq (held.byte.trans two)
      have next : s.next (s.wires go data pulls) =
          { s with sclo := false, st := .st6, ackOk := s.ackOk || (s.sdao && !pulls) } := by
        simp [Wdata.next, Wdata.wires, st, ninth, third]
      rw [ends, next]
      refine .stop0 rfl rfl held.endOk ackOk (by simp [two]) ?_
      rw [Progress.bits_endByte all]
      exact open'
  · have more : p.count < 8 := lt_of_le_of_ne held.within all
    have next : s.next (s.wires go data pulls) = { s with sclo := false, st := .st2 } := by
      simp only [Wdata.next, st]
      rw [if_neg]
      intro nine
      rw [nine] at cnt
      exact all (Nat.succ.inj cnt).symm
    have still : pulls = false := by
      by_contra pulling
      rw [Bool.not_eq_false] at pulling
      exact all (slot.mp (polite scl pulling))
    have bus' : (m.next (s.lines pulls)).Open ts
        ({ p with count := p.count + 1 } : Progress).bits := by
      have open' := high.toOpen
      have bit : (s.sdao && !pulls) = p.value.getMsbD p.count := by
        rw [sda, still, Bool.not_false, Bool.and_true, p.word_bit more]
      rw [bit] at open'
      rw [Progress.bits_succ more]
      exact open'
    rw [if_neg all, next]
    exact .low rfl rfl ⟨held.few, more, held.byte, held.endOk, held.ackOk⟩ cnt a bus'

/-- **A clock of the writer takes each stage to the next one.** -/
theorem at_next (here : At ts stage s m) (polite : Polite s m pulls) :
    At (ts ++ stage.finished) (stage.next go data (s.sdao && !pulls))
      (s.next (s.wires go data pulls)) (m.next (s.lines pulls)) := by
  cases here with
  | cold st last bits before =>
      have bits' : (m.next (s.lines pulls)).bits = none := by simp [Monitor.next, last, bits]
      have before' : (m.next (s.lines pulls)).transactions = ts ++ [] := by
        simp [Monitor.next, last, before]
      cases go <;> simp only [Wdata.next, st, Wdata.wires, Stage.next, if_true, if_false,
        Bool.false_eq_true]
      · exact .warm rfl rfl rfl rfl rfl bits' before'
      · exact .ready rfl rfl rfl rfl rfl rfl rfl bits' before'
  | warm st scl sda endOk ackOk bits before =>
      have idle := idle_next polite scl sda bits before
      cases go <;> simp only [Wdata.next, st, Wdata.wires, Stage.next, Stage.finished,
        List.append_nil, if_true, if_false, Bool.false_eq_true]
      · exact .warm rfl rfl rfl rfl rfl idle.bits idle.transactions
      · exact .ready rfl rfl rfl rfl rfl rfl rfl idle.bits idle.transactions
  | ready st scl sda endOk ackOk cnt byte bits before =>
      have idle := idle_next polite scl sda bits before
      cases go <;> simp only [Wdata.next, st, Wdata.wires, Stage.next, Stage.finished,
        List.append_nil, if_true, if_false, Bool.false_eq_true]
      · exact .leaving rfl scl sda endOk ackOk cnt byte idle
      · exact .ready rfl scl sda endOk ackOk cnt byte idle.bits idle.transactions
  | leaving st scl sda endOk ackOk cnt byte idle =>
      have idle' := idle_next polite scl sda idle.bits idle.transactions
      simp only [Wdata.next, st, Stage.next, Stage.finished, List.append_nil]
      exact .start rfl scl sda rfl rfl cnt byte idle'
  | start st scl sda endOk ackOk cnt byte idle =>
      have idle' := idle_next polite scl sda idle.bits idle.transactions
      simp only [Wdata.next, st, Stage.next, Stage.finished, List.append_nil]
      exact .first rfl rfl rfl ⟨by simp, by simp, byte, endOk, ackOk⟩ cnt rfl idle'
  | @first _ _ value st scl sda held cnt a idle =>
      have begun : (m.next (s.lines pulls)).High ts [] none := by
        rw [polite.lines_of_none scl (Monitor.ackSlot_idle idle), sda]
        exact idle.starts
      simp only [Wdata.next, st, Stage.next, Stage.finished, List.append_nil]
      exact .shift rfl rfl ⟨held.few, held.within, held.byte, held.endOk, held.ackOk⟩ cnt
        (a.trans (BitVec.shiftLeft_zero _).symm) begun.toOpen
  | low st scl held cnt a bus =>
      have bus' := lines_low bus scl pulls
      simp only [Wdata.next, st, Stage.next, Stage.finished, List.append_nil]
      exact .shift rfl rfl ⟨held.few, held.within, held.byte, held.endOk, held.ackOk⟩ cnt a
        bus'.toOpen
  | @shift _ _ p st scl held cnt a bus =>
      have bus' := lines_low bus scl pulls
      simp only [Wdata.next, st, Stage.next, Stage.finished, List.append_nil]
      refine .high rfl scl ?_ ⟨held.few, held.within, held.byte, held.endOk, held.ackOk⟩ cnt ?_
        bus'.toOpen
      · rw [a, BitVec.msb_shiftLeft]
      · rw [a, ← BitVec.shiftLeft_add]
  | @high _ _ p st scl sda held cnt a bus =>
      have bus' := lines_low bus scl pulls
      have within := held.within
      simp only [Wdata.next, st, Stage.next, Stage.finished, List.append_nil]
      refine .sample rfl rfl sda ⟨held.few, held.within, held.byte, held.endOk, held.ackOk⟩ ?_ a
        bus'
      rw [BitVec.toNat_add, cnt]
      exact Nat.mod_eq_of_lt (by show p.count + 1 < 256; omega)
  | sample st scl sda held cnt a bus =>
      simp only [Stage.finished, List.append_nil]
      exact at_sample polite st scl sda held cnt a bus
  | stop0 st scl endOk ackOk all bus =>
      have bus' := lines_low bus scl pulls
      simp only [Wdata.next, st, Stage.next, Stage.finished, List.append_nil]
      exact .stop1 rfl rfl endOk ackOk all bus'.toOpen
  | stop1 st scl endOk ackOk all bus =>
      have bus' := lines_low bus scl pulls
      simp only [Wdata.next, st, Stage.next, Stage.finished, List.append_nil]
      exact .stop2 rfl rfl rfl endOk ackOk all bus'
  | @stop2 _ _ done st scl sda endOk ackOk all bus =>
      have bus' : (m.next (s.lines pulls)).High ts (done.flatMap Byte.bits) (some false) := by
        rw [Wdata.lines, scl, sda]
        exact bus.rises
      simp only [Wdata.next, st, Stage.next, Stage.finished, List.append_nil]
      exact .stop3 rfl rfl rfl endOk ackOk all bus'
  | @stop3 _ _ done st scl sda endOk ackOk all bus =>
      have none : m.ackSlot = false := by
        rw [Monitor.ackSlot_high bus, Byte.length_flatMap_bits, all]
        rfl
      have idle : (m.next (s.lines pulls)).Idle (ts ++ [done.flatMap Byte.bits]) := by
        rw [polite.lines_of_none scl none, sda]
        exact bus.stops
      simp only [Wdata.next, st, Stage.next, Stage.finished]
      exact .ready rfl rfl rfl rfl ackOk rfl rfl idle.bits idle.transactions

end Clock

end FPGame.Hdmi
