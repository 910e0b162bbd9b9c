import FPGame.Foundation.Interleaving
import FPGame.Foundation.Memory
import FPGame.Kernel.Linux

/-!
# The PPU driver

`ppu_open`, `ppu_write`, `ppu_ioctl`, `ppu_release` and `ppu_irq` as sequences
of atomic steps. A step is one exchange or store of an atomic variable, one
byte of `copy_from_user` or `memset`, or one MMIO store; the code between two
such steps touches only the thread's own variables and belongs to the step
before it.

Threads run in any order, and any of them may call any operation any number of
times. The interrupt is delivered at most once for each store to the DMA
address register and only after it.
-/

set_option autoImplicit false

namespace FPGame.PpuDriver

open FPGame.Foundation FPGame.Linux

/-! ## Constants -/

def vramSize : ℕ := 0xD140

def ppuDmaAddrOffset : ℕ := 0x00
def ppuBgscrollOffset : ℕ := 0x10
def ppuFgscrollOffset : ℕ := 0x20
def ppuBgcolorOffset : ℕ := 0x30
def ppuEnableOffset : ℕ := 0x40

def ppuMajorNum : ℕ := 0x1FB

def ioctlPpuUpdate : ℕ := ioc 0 ppuMajorNum 0 0
def ioctlPpuSetBgscroll : ℕ := ioc 1 ppuMajorNum 1 4
def ioctlPpuSetFgscroll : ℕ := ioc 1 ppuMajorNum 2 4
def ioctlPpuSetBgcolor : ℕ := ioc 1 ppuMajorNum 3 4
def ioctlPpuSetEnable : ℕ := ioc 1 ppuMajorNum 4 1

/-! ## State -/

/-- What `ppu_probe` has left: how many bytes `vram_addr_v` lies above
`vram_base_v`, and the DMA address. -/
structure Config where
  shift : ℕ
  vramAddrP : BitVec 32

/-- What all threads share. `vram` is addressed from `vram_base_v`; `pending`
counts the DMA address stores whose interrupt has not been delivered. -/
structure Shared where
  ppuLock : ℕ
  vramLock : ℕ
  vram : ℕ → BitVec 8
  mmio : ℕ → BitVec 32
  pending : ℕ

/-- What a thread asks of the driver; `offset` is the file position that the
VFS passes to `ppu_write`. -/
inductive Call where
  | open
  | write (offset : ℕ) (buf : List (BitVec 8))
  | ioctl (num : ℕ) (param : BitVec 32)
  | release
deriving DecidableEq, Repr

/-- `IOCTL_PPU_UPDATE`. -/
def Call.isUpdate : Call → Bool
  | .ioctl num _ => num == ioctlPpuUpdate
  | _ => false

/-- Where a thread is: the step that it takes next. -/
inductive Pc where
  /-- Outside the driver. -/
  | user
  /-- `ppu_open`: the exchange of `ppu_lock`. -/
  | openTry
  /-- `ppu_write`: the exchange of `vram_lock`. -/
  | writeTry (buf : List (BitVec 8))
  /-- Inside `copy_from_user`, with `k` bytes copied. -/
  | writeCopy (buf : List (BitVec 8)) (k : ℕ)
  /-- Inside `copy_from_user` after a fault, clearing the rest from byte `k`. -/
  | writePad (buf : List (BitVec 8)) (k : ℕ)
  /-- The unlock of the error path. -/
  | writeUndo (buf : List (BitVec 8))
  /-- The unlock of the success path. -/
  | writeDone (buf : List (BitVec 8))
  /-- `ppu_ioctl`: the exchange of `vram_lock`. -/
  | ioctlTry (num : ℕ) (param : BitVec 32)
  /-- At the command switch, inside `mmio_write` if the command is known. -/
  | ioctlSwitch (num : ℕ) (param : BitVec 32)
  /-- The unlock before the return of `ret`. -/
  | ioctlUnlock (ret : ℤ)
  /-- `ppu_release`: the exchange of `ppu_lock`. -/
  | releaseTest
  /-- The PPU was not open: the store that resets `ppu_lock`. -/
  | releaseUnopened
  /-- The first spin on `vram_lock`. -/
  | releaseSpin
  /-- Inside `memset`, with `k` bytes cleared. -/
  | releaseMemset (k : ℕ)
  /-- Inside `mmio_write`, with `k` registers reset. -/
  | releaseMmio (k : ℕ)
  /-- Inside `mmio_write` of the DMA address. -/
  | releaseUpdate
  /-- The second spin on `vram_lock`. -/
  | releaseSpinAgain
  /-- The store that resets `vram_lock`. -/
  | releaseVram
  /-- The store that resets `ppu_lock`. -/
  | releasePpu
  /-- The call has returned. -/
  | returned (ret : ℤ)

/-- A thread: where it is, what it called, and what its `loff_t *offset` points
to. `owes` is a history variable: the call has taken `vram_lock` and has not
stored 0 into it since. -/
structure Thread where
  pc : Pc
  call : Call
  offset : ℕ
  owes : Bool

/-! ## Steps of a thread -/

/-- `mmio_write`; a store to the DMA address register starts a transfer. -/
def mmioWrite (sh : Shared) (offset : ℕ) (val : BitVec 32) : Shared :=
  { sh with
    mmio := Function.update sh.mmio offset val
    pending := if offset = ppuDmaAddrOffset then sh.pending + 1 else sh.pending }

theorem mmioWrite_pending (sh : Shared) (val : BitVec 32) :
    (mmioWrite sh ppuDmaAddrOffset val).pending = sh.pending + 1 := rfl

theorem mmioWrite_pending_of_ne (sh : Shared) {offset : ℕ} (other : offset ≠ ppuDmaAddrOffset)
    (val : BitVec 32) : (mmioWrite sh offset val).pending = sh.pending := if_neg other

/-- The MMIO store of an ioctl command, if the command is known. -/
def ioctlTarget (cfg : Config) (num : ℕ) (param : BitVec 32) : Option (ℕ × BitVec 32) :=
  if num = ioctlPpuUpdate then some (ppuDmaAddrOffset, cfg.vramAddrP)
  else if num = ioctlPpuSetBgscroll then some (ppuBgscrollOffset, param)
  else if num = ioctlPpuSetFgscroll then some (ppuFgscrollOffset, param)
  else if num = ioctlPpuSetBgcolor then some (ppuBgcolorOffset, param)
  else if num = ioctlPpuSetEnable then some (ppuEnableOffset, param)
  else none

/-- The registers that `ppu_release` resets, in order. -/
def resetOffsets : List ℕ :=
  [ppuBgscrollOffset, ppuFgscrollOffset, ppuBgcolorOffset, ppuEnableOffset]

/-- What is left open by the code: the call that a thread makes, and whether a
byte of the user's buffer faults. `copy_from_user` may or may not clear what it
could not copy. -/
inductive Choice where
  | call (call : Call)
  | advance
  | fault (pad : Bool)

/-- The next step of a thread. -/
def act (cfg : Config) (sh : Shared) (th : Thread) (choice : Choice) : Shared × Thread :=
  match th.pc with
  | .user =>
      match choice with
      | .call .open => (sh, { th with pc := .openTry, call := .open, owes := false })
      | .call (.write offset buf) =>
          -- the bounds check comes before the lock
          (sh,
            { pc := if offset + buf.length > vramSize then .returned (-EINVAL) else .writeTry buf
              call := .write offset buf
              offset := offset
              owes := false })
      | .call (.ioctl num param) =>
          (sh, { th with pc := .ioctlTry num param, call := .ioctl num param, owes := false })
      | .call .release => (sh, { th with pc := .releaseTest, call := .release, owes := false })
      | _ => (sh, th)
  | .openTry =>
      ({ sh with ppuLock := 1 },
        { th with pc := .returned (if sh.ppuLock = 0 then 0 else -EBUSY) })
  | .writeTry buf =>
      if sh.vramLock = 1 then ({ sh with vramLock := 1 }, { th with pc := .returned (-EBUSY) })
      else ({ sh with vramLock := 1 }, { th with pc := .writeCopy buf 0, owes := true })
  | .writeCopy buf k =>
      match choice, buf[k]? with
      | .fault pad, some _ =>
          (sh, { th with pc := if pad then .writePad buf k else .writeUndo buf })
      | _, some byte =>
          ({ sh with vram := store sh.vram true (cfg.shift + th.offset + k) byte },
            { th with pc := .writeCopy buf (k + 1) })
      | _, none => (sh, { th with pc := .writeDone buf, offset := th.offset + buf.length })
  | .writePad buf k =>
      if k < buf.length then
        ({ sh with vram := store sh.vram true (cfg.shift + th.offset + k) 0 },
          { th with pc := .writePad buf (k + 1) })
      else (sh, { th with pc := .writeUndo buf })
  | .writeUndo _ =>
      ({ sh with vramLock := 0 }, { th with pc := .returned (-EFAULT), owes := false })
  | .writeDone buf =>
      ({ sh with vramLock := 0 }, { th with pc := .returned buf.length, owes := false })
  | .ioctlTry num param =>
      if sh.vramLock = 1 then ({ sh with vramLock := 1 }, { th with pc := .returned (-EBUSY) })
      else ({ sh with vramLock := 1 }, { th with pc := .ioctlSwitch num param, owes := true })
  | .ioctlSwitch num param =>
      match ioctlTarget cfg num param with
      | some (offset, val) =>
          -- the update returns without unlocking
          (mmioWrite sh offset val,
            { th with pc := if num = ioctlPpuUpdate then .returned 0 else .ioctlUnlock 0 })
      | none => (sh, { th with pc := .ioctlUnlock (-EINVAL) })
  | .ioctlUnlock ret =>
      ({ sh with vramLock := 0 }, { th with pc := .returned ret, owes := false })
  | .releaseTest =>
      ({ sh with ppuLock := 1 },
        { th with pc := if sh.ppuLock = 0 then .releaseUnopened else .releaseSpin })
  | .releaseUnopened => ({ sh with ppuLock := 0 }, { th with pc := .returned (-1) })
  | .releaseSpin =>
      if sh.vramLock = 1 then ({ sh with vramLock := 1 }, th)
      else ({ sh with vramLock := 1 }, { th with pc := .releaseMemset 0, owes := true })
  | .releaseMemset k =>
      if k < vramSize + 8 then
        ({ sh with vram := store sh.vram true k 0 }, { th with pc := .releaseMemset (k + 1) })
      else (sh, { th with pc := .releaseMmio 0 })
  | .releaseMmio k =>
      match resetOffsets[k]? with
      | some offset => (mmioWrite sh offset 0, { th with pc := .releaseMmio (k + 1) })
      | none => (sh, { th with pc := .releaseUpdate })
  | .releaseUpdate =>
      (mmioWrite sh ppuDmaAddrOffset cfg.vramAddrP, { th with pc := .releaseSpinAgain })
  | .releaseSpinAgain =>
      if sh.vramLock = 1 then ({ sh with vramLock := 1 }, th)
      else ({ sh with vramLock := 1 }, { th with pc := .releaseVram })
  | .releaseVram => ({ sh with vramLock := 0 }, { th with pc := .releasePpu, owes := false })
  | .releasePpu => ({ sh with ppuLock := 0 }, { th with pc := .returned 0 })
  | .returned _ => (sh, { th with pc := .user })

/-- `ppu_irq`. -/
def ppuIrq (sh : Shared) : Shared := { sh with vramLock := 0, pending := sh.pending - 1 }

/-! ## The system -/

/-- The shared state and all threads. -/
structure State (Tid : Type) where
  shared : Shared
  threads : Tid → Thread

/-- Who takes a step. -/
inductive Label (Tid : Type) where
  | thread (tid : Tid) (choice : Choice)
  | irq

section System

variable {Tid : Type} [DecidableEq Tid]

/-- The steps: one of a thread, or an interrupt that is due. -/
inductive Step (cfg : Config) : State Tid → Label Tid → State Tid → Prop where
  | thread (s : State Tid) (tid : Tid) (choice : Choice) :
      Step cfg s (.thread tid choice)
        { shared := (act cfg s.shared (s.threads tid) choice).1
          threads :=
            Function.update s.threads tid (act cfg s.shared (s.threads tid) choice).2 }
  | irq (s : State Tid) : 0 < s.shared.pending →
      Step cfg s .irq { s with shared := ppuIrq s.shared }

/-- The driver after `ppu_probe`: both locks are free, no transfer has been
started and no thread is inside. -/
structure Initial (s : State Tid) : Prop where
  ppuLock : s.shared.ppuLock = 0
  vramLock : s.shared.vramLock = 0
  pending : s.shared.pending = 0
  threads : ∀ tid, (s.threads tid).pc = .user

/-- The transition system of the driver. -/
def driver (Tid : Type) [DecidableEq Tid] (cfg : Config) :
    Transitions (State Tid) (Label Tid) where
  initial := Initial
  step := Step cfg

end System

end FPGame.PpuDriver
