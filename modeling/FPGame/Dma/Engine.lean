import FPGame.Dma.Fifo
import FPGame.Vram.Interconnect

/-!
# `dma_engine`

The DMA engine copies one VRAM image from the source address to the CPU-facing
VRAM. It reads quadwords ahead into the FIFO and writes them out at byte
addresses that start at 0. The length registers count the bytes that remain to
be read and to be written.

The FIFO, the reader and the engine's own registers are clocked together. The
clock enable and the transfer width are tied to constants in the source and are
left out; the data bus is quadword wide, so the write side enables all sixteen
bytes of every word.
-/

set_option autoImplicit false

namespace FPGame.Dma

open FPGame.Foundation FPGame.Vram

/-! ## `dma_engine_mem_read` -/

/-- Registers of the reader: a one-hot state and the read strobe. -/
structure MemRead where
  idle : Bool
  access : Bool
  readSelect : Bool
deriving DecidableEq, Repr

namespace MemRead

def reset : MemRead where
  idle := true
  access := false
  readSelect := false

def incRead (m : MemRead) (readWaitrequest : Bool) : Bool := m.readSelect && !readWaitrequest

/-- One clock of the reader. -/
def next (m : MemRead) (go p1DoneRead p1FifoFull readWaitrequest : Bool) : MemRead where
  idle :=
    m.idle && !go ||
    m.idle && p1DoneRead ||
    m.idle && p1FifoFull ||
    m.access && !readWaitrequest && p1FifoFull ||
    m.access && p1DoneRead && !readWaitrequest
  access :=
    m.idle && go && !p1DoneRead && !p1FifoFull ||
    m.access && readWaitrequest ||
    m.access && !p1DoneRead && !p1FifoFull && !readWaitrequest
  readSelect :=
    m.access && readWaitrequest ||
    m.access && !p1DoneRead && !p1FifoFull && !readWaitrequest ||
    m.idle && go && !p1DoneRead && !p1FifoFull

/-- The reader in one of its two states. -/
def reading (access : Bool) : MemRead where
  idle := !access
  access := access
  readSelect := access

/-- A stalled access is kept; otherwise the reader goes on while it is running
and there is something to read and room for it. -/
theorem next_reading (access go p1DoneRead p1FifoFull readWaitrequest : Bool)
    (running : access = true → go = true) :
    (reading access).next go p1DoneRead p1FifoFull readWaitrequest =
      reading (access && readWaitrequest || go && !p1DoneRead && !p1FifoFull) := by
  cases access with
  | false => cases go <;> cases p1DoneRead <;> cases p1FifoFull <;> rfl
  | true =>
      obtain rfl := running rfl
      cases p1DoneRead <;> cases p1FifoFull <;> cases readWaitrequest <;> rfl

end MemRead

/-! ## The engine -/

/-- Registers of the engine with its FIFO and its reader. -/
structure Engine where
  readaddress : BitVec 32
  writeaddress : BitVec 16
  length : BitVec 32
  lengthEq0 : Bool
  writelength : BitVec 32
  writelengthEq0 : Bool
  done : Bool
  started : Bool
  doneWrite : Bool
  fifo : Fifo
  memRead : MemRead

namespace Engine

/-- What the PPU and the two buses drive into the engine. -/
structure Input where
  dmaEngineSrcAddr : BitVec 32
  dmaEngineStart : Bool
  readReaddata : BitVec 128
  readReaddatavalid : Bool
  readWaitrequest : Bool
  writeWaitrequest : Bool

/-- Length of the image in bytes. -/
def startVramLength : BitVec 32 := 0xD140

def reset (memArray : ℕ → BitVec 128) : Engine where
  readaddress := 0
  writeaddress := 0
  length := 0
  lengthEq0 := true
  writelength := 0
  writelengthEq0 := true
  done := false
  started := false
  doneWrite := true
  fifo := Fifo.reset memArray
  memRead := MemRead.reset

variable (s : Engine) (x : Input)

/-- The engine accepts a start. -/
def begins : Bool := x.dmaEngineStart && !s.started

def incRead : Bool := s.memRead.incRead x.readWaitrequest

/-- `dma_engine_mem_write`: the write strobe follows the FIFO. -/
def writeSelect : Bool := s.fifo.fifoDatavalid

/-- A write is taken by the slave; this is also the FIFO read. -/
def incWrite : Bool := s.writeSelect && !x.writeWaitrequest

def p1Length : BitVec 32 :=
  if s.begins x then startVramLength
  else if s.incRead x && !s.lengthEq0 then s.length - 16
  else s.length

def p1Writelength : BitVec 32 :=
  if s.begins x then startVramLength
  else if s.incWrite x && !s.writelengthEq0 then s.writelength - 16
  else s.writelength

def p1LengthEq0 : Bool := s.incRead x && !s.lengthEq0 && s.length - 16 == 0

def p1WritelengthEq0 : Bool := s.incWrite x && !s.writelengthEq0 && s.writelength - 16 == 0

def p1DoneWrite : Bool := s.p1WritelengthEq0 x || s.writelengthEq0

def p1DoneRead : Bool := s.p1LengthEq0 x || s.lengthEq0 || s.p1DoneWrite x

/-- What the engine drives into its FIFO. -/
def fifoInput : Fifo.Input where
  fifoRead := s.incWrite x
  fifoWrite := x.readReaddatavalid
  fifoWrData := x.readReaddata
  incPendingData := s.incRead x
  flushFifo := s.done

/-- One clock of the engine. -/
def next : Engine where
  readaddress :=
    if s.begins x then x.dmaEngineSrcAddr
    else if s.incRead x then s.readaddress + 16
    else s.readaddress
  writeaddress :=
    if s.p1Writelength x == 0 then 0
    else if s.begins x then 0
    else if s.incWrite x then s.writeaddress + 16
    else s.writeaddress
  length := s.p1Length x
  lengthEq0 := if s.begins x then false else if s.p1LengthEq0 x then true else s.lengthEq0
  writelength := s.p1Writelength x
  writelengthEq0 :=
    if s.begins x then false else if s.p1WritelengthEq0 x then true else s.writelengthEq0
  done := s.started && s.doneWrite
  started := if s.started && s.doneWrite then false else if s.begins x then true else s.started
  doneWrite := if s.begins x then false else s.p1DoneWrite x
  fifo := s.fifo.next (s.fifoInput x)
  memRead :=
    s.memRead.next s.started (s.p1DoneRead x) (s.fifo.p1FifoFull (s.fifoInput x))
      x.readWaitrequest

/-- `dma_engine_finish`. -/
def dmaEngineFinish : Bool := s.done

def readAddress : BitVec 32 := s.readaddress
def writeAddress : BitVec 16 := s.writeaddress
def writeWritedata : BitVec 128 := s.fifo.fifoRdData

end Engine

/-! ## The length registers -/

/-- What a length register holds after `n` quadwords. -/
def remaining (n : ℕ) : BitVec 32 := BitVec.ofNat 32 (16 * (imageWords - n))

/-- What the write address register holds after `n` quadwords; it returns to 0
with the last one. -/
def writeaddressAt (n : ℕ) : BitVec 16 :=
  if n = imageWords then 0 else BitVec.ofNat 16 (16 * n)

theorem remaining_zero : remaining 0 = Engine.startVramLength := rfl

theorem remaining_imageWords : remaining imageWords = 0 := rfl

theorem remaining_succ {n : ℕ} (more : n < imageWords) :
    remaining n - 16 = remaining (n + 1) := by
  simp only [imageWords] at more
  apply BitVec.eq_of_toNat_eq
  simp only [remaining, imageWords, BitVec.toNat_sub, BitVec.toNat_ofNat, BitVec.ofNat_eq_ofNat]
  omega

theorem remaining_eq_zero {n : ℕ} (bound : n ≤ imageWords) : remaining n = 0 ↔ n = imageWords := by
  simp only [imageWords] at bound
  rw [← BitVec.toNat_inj]
  simp only [remaining, imageWords, BitVec.toNat_ofNat, BitVec.ofNat_eq_ofNat]
  omega

section Countdown

variable {n : ℕ} {inc : Bool}

/-- A length register counts the quadwords of its side down. -/
theorem remaining_add (more : inc = true → n < imageWords) :
    (if inc && !decide (n = imageWords) then remaining n - 16 else remaining n) =
      remaining (n + inc.toNat) := by
  cases counts : inc with
  | false => rfl
  | true =>
      have before : decide (n = imageWords) = false := decide_eq_false (more counts).ne
      rw [before]
      exact remaining_succ (more counts)

/-- The zero flag of a length register is raised with the last quadword and
then kept. -/
theorem zero_after_add (more : inc = true → n < imageWords) :
    ((inc && !decide (n = imageWords) && remaining n - 16 == 0) || decide (n = imageWords)) =
      decide (n + inc.toNat = imageWords) := by
  cases counts : inc with
  | false => simp
  | true =>
      have before : decide (n = imageWords) = false := decide_eq_false (more counts).ne
      rw [before, remaining_succ (more counts), Bool.or_false, Bool.not_false, Bool.and_true,
        Bool.true_and, Bool.eq_iff_iff, beq_iff_eq, remaining_eq_zero (more counts)]
      simp

end Countdown

theorem writeaddressAt_succ {n : ℕ} (more : n + 1 < imageWords) :
    writeaddressAt n + 16 = writeaddressAt (n + 1) := by
  simp only [imageWords] at more
  have before : ¬ n = imageWords := by simp only [imageWords]; omega
  have following : ¬ n + 1 = imageWords := by simp only [imageWords]; omega
  rw [writeaddressAt, if_neg before, writeaddressAt, if_neg following]
  apply BitVec.eq_of_toNat_eq
  simp only [BitVec.toNat_add, BitVec.toNat_ofNat, BitVec.ofNat_eq_ofNat]
  omega

theorem writeaddressAt_toNat {n : ℕ} (within : n < imageWords) :
    (writeaddressAt n).toNat = 16 * n := by
  simp only [imageWords] at within
  have before : ¬ n = imageWords := by simp only [imageWords]; omega
  rw [writeaddressAt, if_neg before, BitVec.toNat_ofNat]
  omega

end FPGame.Dma
