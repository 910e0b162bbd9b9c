import FPGame.Apu.SampleFetcher
import FPGame.Foundation.Bytes

/-!
# The APU's registers

`apu.sv` keeps the interrupt enable, the interrupt line and a queue of one base
address in front of the fetcher. A store to the control register or to the
buffer register is one clock of the circuit in which the write strobe of the
PIO is high (`pio_async_write` has no registers).

`Hardware` joins the circuit with the memory's read port and a log of the
chunks that have been acknowledged.
-/

set_option autoImplicit false

namespace FPGame.Apu

open FPGame.Foundation

/-- The offset and the value of an MMIO store. -/
structure Mmio where
  offset : ℕ
  val : BitVec 32
deriving DecidableEq, Repr

def apuConfigOffset : ℕ := 0x00
def apuBufOffset : ℕ := 0x10

def apuIrqAck : BitVec 32 := 0x01
def apuIrqReq : BitVec 32 := 0x02
def apuEnable : BitVec 32 := 0x04

/-- The registers of `apu.sv`, the fetcher included. -/
structure State where
  apuEn : Bool
  irqEn : Bool
  bufIrq : Bool
  queuedBase : BitVec 29
  queuedBaseValid : Bool
  fetcher : SampleFetcher.State
deriving DecidableEq, Repr

def reset : State where
  apuEn := false
  irqEn := false
  bufIrq := false
  queuedBase := 0
  queuedBaseValid := false
  fetcher := SampleFetcher.reset

/-- The inputs of a clock that do not come from the CPU. -/
structure Input where
  memData : BitVec 64
  memAck : Bool
  memWait : Bool
  chunkAck : Bool

/-- `control`, while `control_valid`. -/
def control (mmio : Option Mmio) : Option (BitVec 32) :=
  match mmio with
  | some store => if store.offset = apuConfigOffset then some store.val else none
  | none => none

/-- `buf_base`, while `buf_valid`. -/
def bufBase (mmio : Option Mmio) : Option (BitVec 29) :=
  match mmio with
  | some store =>
      if store.offset = apuBufOffset then some (store.val.extractLsb' 3 29) else none
  | none => none

def irqAck (mmio : Option Mmio) : Bool := (control mmio).any (·.getLsbD 0)

def irqReq (mmio : Option Mmio) : Bool := (control mmio).any (·.getLsbD 1)

/-- How the fetcher is connected. -/
def fetcherInput (s : State) (x : Input) : SampleFetcher.Input where
  memData := x.memData
  memAck := x.memAck
  memWait := x.memWait
  chunkAck := x.chunkAck
  base := s.queuedBase
  baseValid := s.queuedBaseValid

/-- The registers after a clock edge. -/
def next (s : State) (mmio : Option Mmio) (x : Input) : State where
  apuEn :=
    match control mmio with
    | some val => val.getLsbD 2
    | none => s.apuEn
  irqEn := if irqAck mmio then false else if irqReq mmio then true else s.irqEn
  bufIrq := if irqAck mmio then false else s.irqEn && !s.queuedBaseValid
  queuedBase := (bufBase mmio).getD s.queuedBase
  queuedBaseValid :=
    match bufBase mmio with
    | some _ => true
    | none =>
        if SampleFetcher.baseAck s.fetcher s.queuedBaseValid then false else s.queuedBaseValid
  fetcher := SampleFetcher.next s.fetcher (fetcherInput s x)

/-! ## The circuit and its memory port -/

/-- What the environment chooses in a clock. -/
structure Env where
  answer : Bool
  memWait : Bool
  chunkAck : Bool
  memData : BitVec 64

/-- The circuit, the read in flight and the log of acknowledged chunks. -/
structure Hardware where
  apu : State
  bus : Bus
  log : List (BitVec 29 × BitVec 64)

namespace Hardware

def reset : Hardware := { apu := Apu.reset, bus := .free, log := [] }

/-- The read that the memory accepts in a clock. -/
def accepts (hw : Hardware) (env : Env) : Option (BitVec 29) :=
  if SampleFetcher.memReadEn hw.apu.fetcher && !env.memWait then
    some (SampleFetcher.memAddr hw.apu.fetcher)
  else none

/-- What the circuit reads in a clock. -/
def input (hw : Hardware) (env : Env) : Input where
  memData := hw.bus.memData env.memData
  memAck := hw.bus.memAck env.answer
  memWait := env.memWait
  chunkAck := env.chunkAck

/-- One clock, with or without a store of the CPU. -/
def clock (hw : Hardware) (mmio : Option Mmio) (env : Env) : Hardware where
  apu := Apu.next hw.apu mmio (hw.input env)
  bus := hw.bus.next env.answer (hw.accepts env)
  log := hw.log ++ (hw.bus.arrival env.answer).toList

/-- The memory looks up the read in flight. -/
def serve (hw : Hardware) (memory : ℕ → BitVec 8) : Hardware :=
  { hw with bus := hw.bus.serve (doubleword memory) }

theorem length_le_clock (hw : Hardware) (mmio : Option Mmio) (env : Env) :
    hw.log.length ≤ (hw.clock mmio env).log.length := by
  rw [clock, List.length_append]
  exact Nat.le_add_right _ _

/-- The bases that the fetcher has taken. -/
def taken (hw : Hardware) : ℕ :=
  hw.log.length / SampleFetcher.bufChunks + hw.apu.fetcher.addrValid.toNat

end Hardware

/-! ## The stores that the driver makes -/

/-- A store to the control register. -/
def configStore (val : BitVec 32) : Mmio := { offset := apuConfigOffset, val := val }

/-- A store to the buffer register. -/
def bufStore (val : BitVec 32) : Mmio := { offset := apuBufOffset, val := val }

section Next

variable {s : State} {x : Input}

@[simp] theorem bufBase_none : bufBase none = none := rfl

@[simp] theorem bufBase_configStore (val : BitVec 32) : bufBase (some (configStore val)) = none :=
  rfl

@[simp] theorem bufBase_bufStore (val : BitVec 32) :
    bufBase (some (bufStore val)) = some (val.extractLsb' 3 29) := rfl

@[simp] theorem control_none : control none = none := rfl

@[simp] theorem control_configStore (val : BitVec 32) :
    control (some (configStore val)) = some val := rfl

@[simp] theorem control_bufStore (val : BitVec 32) : control (some (bufStore val)) = none := rfl

/-- Without a store to the control register the enable stays and the line
follows the queue. -/
theorem next_of_no_control {mmio : Option Mmio} (none : control mmio = none) :
    (next s mmio x).irqEn = s.irqEn ∧
      (next s mmio x).bufIrq = (s.irqEn && !s.queuedBaseValid) := by
  simp [next, irqAck, irqReq, none]

/-- A request arms the interrupt. -/
theorem next_request :
    (next s (some (configStore (apuEnable ||| apuIrqReq))) x).irqEn = true ∧
      (next s (some (configStore (apuEnable ||| apuIrqReq))) x).bufIrq =
        (s.irqEn && !s.queuedBaseValid) := by
  simp [next, irqAck, irqReq, apuEnable, apuIrqReq]

/-- An acknowledgement disarms the interrupt and drops the line. -/
theorem next_acknowledge :
    (next s (some (configStore (apuIrqAck ||| apuEnable))) x).irqEn = false ∧
      (next s (some (configStore (apuIrqAck ||| apuEnable))) x).bufIrq = false := by
  simp [next, irqAck, apuEnable, apuIrqAck]

/-- Without a store to the buffer register the queue can only empty. -/
theorem next_of_no_buf {mmio : Option Mmio} (none : bufBase mmio = none) :
    (next s mmio x).queuedBase = s.queuedBase ∧
      (next s mmio x).queuedBaseValid = (s.queuedBaseValid && s.fetcher.addrValid) := by
  simp only [next, none, Option.getD_none, true_and]
  cases queued : s.queuedBaseValid <;> cases valid : s.fetcher.addrValid <;>
    simp [SampleFetcher.baseAck, valid]

end Next

end FPGame.Apu
