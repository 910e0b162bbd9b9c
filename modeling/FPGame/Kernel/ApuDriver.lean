import FPGame.Apu.Registers
import FPGame.Foundation.Interleaving
import FPGame.Kernel.Linux

/-!
# The APU driver

`apu_open`, `apu_ioctl`, `apu_write`, `apu_release` and `apu_irq` as sequences
of atomic steps, and the circuit that they drive. A step is one exchange or
store of a shared variable, one byte of `copy_from_user` or `memset`, or one
MMIO store. An MMIO store takes effect in its step, which is one clock of the
circuit; any number of clocks passes between the steps of the CPU.

Threads run in any order and call any operation any number of times. The
handler is entered only while the interrupt line is high and no handler is
running.
-/

set_option autoImplicit false

namespace FPGame.ApuDriver

open FPGame.Foundation FPGame.Apu FPGame.Linux

/-! ## Constants -/

def apuBufSize : ℕ := 512

def apuMajorNum : ℕ := 0x1FA

def ioctlApuSetCallbackPid : ℕ := ioc 2 apuMajorNum 0 4

/-! ## State -/

/-- What `apu_probe` has left: the physical address of the two halves of the
sample buffer. -/
structure Config where
  dmaAddr : ℕ

/-- The physical address of `sample.buf[half]`. -/
def bufAddr (cfg : Config) (half : Bool) : ℕ := cfg.dmaAddr + if half then apuBufSize else 0

/-- What all threads share; `activeBuf` is only ever 0 or 1. `signals` counts
the signals that have been sent to the user. -/
structure Shared where
  activeBuf : Bool
  req : ℕ
  pid : ℕ
  apuLock : ℕ
  writeLock : ℕ
  signals : ℕ
  ddr : ℕ → BitVec 8

/-- The bytes of a half of the sample buffer. -/
abbrev Buffer : Type := Fin apuBufSize → BitVec 8

/-- What a call of `apu_write` has to send: its bytes and then zeros. -/
def zeroPadded (buf : ℕ → BitVec 8) (len : ℕ) : Buffer := fun j =>
  if j < len then buf j else 0

/-- What a thread asks of the driver. The buffer of `write` may be null. -/
inductive Call where
  | open
  | ioctl (num param : ℕ)
  | write (buf : Option (ℕ → BitVec 8)) (len : ℕ)
  | release

/-- Where a thread is: the step that it takes next. -/
inductive Pc where
  /-- Outside the driver. -/
  | user
  /-- `apu_open`: the exchange of `apu_lock`. -/
  | openTry
  /-- `apu_ioctl`: the store to `sample.pid`. -/
  | ioctlPid (param : ℕ)
  /-- `apu_ioctl`: the MMIO store. -/
  | ioctlEnable
  /-- `apu_write`: the exchange of `write_lock`. -/
  | writeTry (buf : ℕ → BitVec 8) (len : ℕ)
  /-- The exchange of `sample.req`. -/
  | writeReq (buf : ℕ → BitVec 8) (len : ℕ)
  /-- The unlock when there is no request. -/
  | writeBusy
  /-- The first evaluation of `sample.buf[!sample.active_buf]`. -/
  | writeArg (buf : ℕ → BitVec 8) (len : ℕ)
  /-- Inside `copy_from_user`, with `k` bytes copied. -/
  | writeCopy (buf : ℕ → BitVec 8) (len : ℕ) (half : Bool) (k : ℕ)
  /-- Inside the `memset` after a fault, with `k` bytes cleared. -/
  | writeClear (half : Bool) (k : ℕ)
  /-- The unlock after a fault. -/
  | writeFault
  /-- Inside the `memset` of the unspecified samples, which has reached `k`. -/
  | writePad (buf : ℕ → BitVec 8) (len : ℕ) (half : Bool) (k : ℕ)
  /-- The MMIO store of the buffer address. -/
  | writeSend (buf : ℕ → BitVec 8) (len : ℕ)
  /-- The switch of `sample.active_buf`. -/
  | writeFlip
  /-- The unlock of the success path. -/
  | writeUnlock
  /-- The MMIO store that enables the interrupt. -/
  | writeEnable
  /-- `apu_release`: the store to `sample.pid`. -/
  | releasePid
  /-- The store to `sample.req`. -/
  | releaseReq
  /-- The MMIO store that mutes the output. -/
  | releaseMute
  /-- The exchange of `apu_lock`. -/
  | releaseTry
  /-- The call has returned. -/
  | returned (ret : ℤ)

/-- Where the interrupt handler is. -/
inductive IrqPc where
  /-- Not running. -/
  | idle
  /-- The MMIO store of the acknowledgement. -/
  | ack
  /-- The store to `sample.req`. -/
  | setReq
  /-- The signal to the user. -/
  | signal
deriving DecidableEq, Repr

/-! ## Steps -/

/-- What is left open by the code: the call that a thread makes, and whether a
byte of the user's buffer faults. -/
inductive Choice where
  | call (call : Call)
  | advance
  | fault

/-- What a step leaves behind, and the MMIO store that it makes. -/
structure Outcome where
  shared : Shared
  pc : Pc
  mmio : Option Mmio

/-- The next step of a thread. -/
def act (cfg : Config) (sh : Shared) (pc : Pc) (choice : Choice) : Outcome :=
  match pc with
  | .user =>
      match choice with
      | .call .open => ⟨sh, .openTry, none⟩
      | .call (.ioctl num param) =>
          ⟨sh, if num ≠ ioctlApuSetCallbackPid then .returned (-EINVAL) else .ioctlPid param, none⟩
      | .call (.write none _) => ⟨sh, .returned (-EINVAL), none⟩
      | .call (.write (some buf) len) =>
          ⟨sh, if len > apuBufSize then .returned (-EINVAL) else .writeTry buf len, none⟩
      | .call .release => ⟨sh, .releasePid, none⟩
      | _ => ⟨sh, .user, none⟩
  | .openTry =>
      ⟨{ sh with apuLock := 1 }, .returned (if sh.apuLock = 0 then 0 else -EBUSY), none⟩
  | .ioctlPid param => ⟨{ sh with pid := param }, .ioctlEnable, none⟩
  | .ioctlEnable => ⟨sh, .returned 0, some (configStore (apuEnable ||| apuIrqReq))⟩
  | .writeTry buf len =>
      ⟨{ sh with writeLock := 1 },
        if sh.writeLock = 1 then .returned (-EBUSY) else .writeReq buf len, none⟩
  | .writeReq buf len =>
      ⟨{ sh with req := 0 }, if sh.req ≠ 1 then .writeBusy else .writeArg buf len, none⟩
  | .writeBusy => ⟨{ sh with writeLock := 0 }, .returned (-EBUSY), none⟩
  | .writeArg buf len => ⟨sh, .writeCopy buf len (!sh.activeBuf) 0, none⟩
  | .writeCopy buf len half k =>
      match choice with
      | .fault =>
          if k < len then ⟨sh, .writeClear (!sh.activeBuf) 0, none⟩
          else ⟨sh, .writePad buf len (!sh.activeBuf) len, none⟩
      | _ =>
          if k < len then
            ⟨{ sh with ddr := store sh.ddr true (bufAddr cfg half + k) (buf k) },
              .writeCopy buf len half (k + 1), none⟩
          else ⟨sh, .writePad buf len (!sh.activeBuf) len, none⟩
  | .writeClear half k =>
      if k < apuBufSize then
        ⟨{ sh with ddr := store sh.ddr true (bufAddr cfg half + k) 0 }, .writeClear half (k + 1),
          none⟩
      else ⟨sh, .writeFault, none⟩
  | .writeFault => ⟨{ sh with writeLock := 0 }, .returned (-EFAULT), none⟩
  | .writePad buf len half k =>
      if k < apuBufSize then
        ⟨{ sh with ddr := store sh.ddr true (bufAddr cfg half + k) 0 },
          .writePad buf len half (k + 1), none⟩
      else ⟨sh, .writeSend buf len, none⟩
  | .writeSend _ _ =>
      ⟨sh, .writeFlip, some (bufStore (BitVec.ofNat 32 (bufAddr cfg (!sh.activeBuf))))⟩
  | .writeFlip => ⟨{ sh with activeBuf := !sh.activeBuf }, .writeUnlock, none⟩
  | .writeUnlock => ⟨{ sh with writeLock := 0 }, .writeEnable, none⟩
  | .writeEnable => ⟨sh, .returned 0, some (configStore (apuEnable ||| apuIrqReq))⟩
  | .releasePid => ⟨{ sh with pid := 0 }, .releaseReq, none⟩
  | .releaseReq => ⟨{ sh with req := 0 }, .releaseMute, none⟩
  | .releaseMute => ⟨sh, .releaseTry, some (configStore 0)⟩
  | .releaseTry => ⟨{ sh with apuLock := 0 }, .returned 0, none⟩
  | .returned _ => ⟨sh, .user, none⟩

/-- The shared variables after the next step of `apu_irq`. -/
def irqShared (sh : Shared) (pc : IrqPc) : Shared :=
  match pc with
  | .setReq => { sh with req := 1 }
  | .signal => { sh with signals := if sh.pid ≠ 0 then sh.signals + 1 else sh.signals }
  | _ => sh

def irqPc (pc : IrqPc) : IrqPc :=
  match pc with
  | .idle => .ack
  | .ack => .setReq
  | .setReq => .signal
  | .signal => .idle

/-- The MMIO store of the next step of `apu_irq`. -/
def irqMmio (pc : IrqPc) : Option Mmio :=
  match pc with
  | .ack => some (configStore (apuIrqAck ||| apuEnable))
  | _ => none

/-! ## The system -/

/-- The driver, the circuit, and two histories: the calls that have begun, the
last one first, and the buffers that have been handed over, in order. -/
structure State (Tid : Type) where
  shared : Shared
  threads : Tid → Pc
  irq : IrqPc
  hw : Hardware
  begun : List Call
  handed : List Buffer

/-- The call that begins with a step. -/
def begins (pc : Pc) (choice : Choice) : List Call :=
  match pc, choice with
  | .user, .call call => [call]
  | _, _ => []

/-- The buffer that is handed over in a step. -/
def handsOver (pc : Pc) : List Buffer :=
  match pc with
  | .writeSend buf len => [zeroPadded buf len]
  | _ => []

/-- The circuit after a step of the CPU: an MMIO store takes a clock. -/
def drive (hw : Hardware) (mmio : Option Mmio) (env : Env) : Hardware :=
  match mmio with
  | some store => hw.clock (some store) env
  | none => hw

/-- Who takes a step. -/
inductive Label (Tid : Type) where
  | clock (env : Env)
  | serve
  | thread (tid : Tid) (choice : Choice) (env : Env)
  | irq (env : Env)

section System

variable {Tid : Type} [DecidableEq Tid]

/-- The state after a step of a thread with a given outcome. -/
def State.after (s : State Tid) (tid : Tid) (choice : Choice) (out : Outcome) (env : Env) :
    State Tid where
  shared := out.shared
  threads := Function.update s.threads tid out.pc
  irq := s.irq
  hw := drive s.hw out.mmio env
  begun := begins (s.threads tid) choice ++ s.begun
  handed := s.handed ++ handsOver (s.threads tid)

section After

variable (s : State Tid) (tid : Tid) (choice : Choice) (out : Outcome) (env : Env)

@[simp] theorem after_shared : (s.after tid choice out env).shared = out.shared := rfl

@[simp] theorem after_threads :
    (s.after tid choice out env).threads = Function.update s.threads tid out.pc := rfl

@[simp] theorem after_irq : (s.after tid choice out env).irq = s.irq := rfl

@[simp] theorem after_hw : (s.after tid choice out env).hw = drive s.hw out.mmio env := rfl

@[simp] theorem after_begun :
    (s.after tid choice out env).begun = begins (s.threads tid) choice ++ s.begun := rfl

@[simp] theorem after_handed :
    (s.after tid choice out env).handed = s.handed ++ handsOver (s.threads tid) := rfl

end After

@[simp] theorem drive_none (hw : Hardware) (env : Env) : drive hw none env = hw := rfl

@[simp] theorem drive_some (hw : Hardware) (store : Mmio) (env : Env) :
    drive hw (some store) env = hw.clock (some store) env := rfl

/-- The steps: a clock without a store, a look-up of the memory, a step of a
thread or one of the handler. -/
inductive Step (cfg : Config) : State Tid → Label Tid → State Tid → Prop where
  | clock (s : State Tid) (env : Env) :
      Step cfg s (.clock env) { s with hw := s.hw.clock none env }
  | serve (s : State Tid) : Step cfg s .serve { s with hw := s.hw.serve s.shared.ddr }
  | thread (s : State Tid) (tid : Tid) (choice : Choice) (env : Env) :
      Step cfg s (.thread tid choice env)
        (s.after tid choice (act cfg s.shared (s.threads tid) choice) env)
  | irq (s : State Tid) (env : Env) : (s.irq = .idle → s.hw.apu.bufIrq = true) →
      Step cfg s (.irq env)
        { s with
          shared := irqShared s.shared s.irq
          irq := irqPc s.irq
          hw := drive s.hw (irqMmio s.irq) env }

/-- The system after `apu_probe`, with the circuit out of reset. -/
structure Initial (s : State Tid) : Prop where
  activeBuf : s.shared.activeBuf = false
  req : s.shared.req = 0
  pid : s.shared.pid = 0
  apuLock : s.shared.apuLock = 0
  writeLock : s.shared.writeLock = 0
  threads : ∀ tid, s.threads tid = .user
  irq : s.irq = .idle
  hw : s.hw = Hardware.reset
  begun : s.begun = []
  handed : s.handed = []

/-- The transition system of the driver and the circuit. -/
def driver (Tid : Type) [DecidableEq Tid] (cfg : Config) :
    Transitions (State Tid) (Label Tid) where
  initial := Initial
  step := Step cfg

end System

end FPGame.ApuDriver
