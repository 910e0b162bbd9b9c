import FPGame.Kernel.PpuOwner
import FPGame.Kernel.PpuRegisters
import FPGame.Video.Frames

/-!
# The driver and the PPU together

Any number of threads run the PPU driver while the hardware is clocked. The two
meet in three places. An MMIO store of a thread is posted and reaches the
hardware some clocks later, in order. The DMA engine reads the kernel's VRAM
while it moves a frame. And the rising edge of `ppu_dma_rdy_irq` stays latched
until the kernel takes the interrupt.

This file has the system and what one step of it does on the bus between the two.
-/

set_option autoImplicit false

namespace FPGame.Console

open FPGame.Foundation FPGame.Ppu FPGame.Dma FPGame.PpuDriver
open FPGame.FrameHandoff (Frame)

/-! ## The bus between them -/

/-- The MMIO store in the next step of a thread. -/
def mmioStore (cfg : Config) (th : Thread) : Option (ℕ × BitVec 32) :=
  match th.pc with
  | .ioctlSwitch num param => ioctlTarget cfg num param
  | .releaseMmio k => resetOffsets[k]?.map fun offset => (offset, 0)
  | .releaseUpdate => some (ppuDmaAddrOffset, cfg.vramAddrP)
  | _ => none

/-- A store to the DMA address register. -/
def isUpdate (store : ℕ × BitVec 32) : Bool := store.1 == ppuDmaAddrOffset

/-- The registers after a store. -/
def stored (mmio : ℕ → BitVec 32) (store : ℕ × BitVec 32) : ℕ → BitVec 32 :=
  Function.update mmio store.1 store.2

/-- The 16-byte word of the kernel's allocation that an address lies in. -/
def deviceMemory (alloc : Allocation) (vram : ℕ → BitVec 8) (address : BitVec 32) : BitVec 128 :=
  BitVec.ofNat 128
    (littleEndian (dmaFetch alloc.vramBaseP vram) (16 * (address.toNat / 16)) 16)

/-- The buffer and the registers of the kernel at one time. -/
structure Snapshot where
  vram : ℕ → BitVec 8
  mmio : ℕ → BitVec 32

instance : Inhabited Snapshot := ⟨{ vram := fun _ => 0, mmio := fun _ => 0 }⟩

/-- The image that the device is given. -/
def Snapshot.image (alloc : Allocation) (snapshot : Snapshot) : ℕ → BitVec 8 := fun a =>
  dmaFetch alloc.vramBaseP snapshot.vram (alloc.config.vramAddrP.toNat + a)

/-- The frame that is handed over. -/
def Snapshot.frame (alloc : Allocation) (snapshot : Snapshot) : Frame where
  src := alloc.config.vramAddrP
  memory := deviceMemory alloc snapshot.vram
  regs := ctrlRegsOf snapshot.mmio

/-! ## The system -/

/-- What the environment decides in a clock: whether a posted store arrives, the
stalls of the buses, and undriven nets. -/
structure Clock where
  arrives : Bool
  readWaitrequest : Bool
  writeWaitrequest : Bool
  respond : Bool
  undriven : BitVec 128
  undrivenP : BitVec 64
  palramAddrB : ℕ
  tilram : TileRam
  patram : PatternRam
  sprram : ℕ → BitVec 64
deriving Inhabited

instance : Nonempty VideoSystem.Input := ⟨VideoSystem.oneFrame 0⟩

/-- The driver, the stores on their way, the registers as the device has them, the
hardware, and the latched interrupt. `sent` and `shown` are history variables: the
buffer and the registers at the last store to the DMA address register, and at the
store whose interrupt was raised last, if there was one. -/
structure State (Tid : Type) where
  kernel : FileState Tid
  posted : List (ℕ × BitVec 32)
  mmio : ℕ → BitVec 32
  video : VideoSystem.System
  raised : Bool
  sent : Option Snapshot
  shown : Option Snapshot

namespace State

variable {Tid : Type} (alloc : Allocation) (s : State Tid)

/-- The store that arrives in a clock. -/
def arrival (c : Clock) : Option (ℕ × BitVec 32) := if c.arrives then s.posted.head? else none

/-- What the hardware sees in a clock. -/
def videoInput (c : Clock) : VideoSystem.Input where
  write := ((s.arrival c).filter isUpdate).map Prod.snd
  regs := ctrlRegsOf s.mmio
  memory := deviceMemory alloc s.kernel.shared.vram
  readWaitrequest := c.readWaitrequest
  writeWaitrequest := c.writeWaitrequest
  respond := c.respond
  undriven := c.undriven
  undrivenP := c.undrivenP
  palramAddrB := c.palramAddrB
  tilram := c.tilram
  patram := c.patram
  sprram := c.sprram

/-- The hardware after a clock. -/
def nextVideo (c : Clock) : VideoSystem.System := s.video.next (s.videoInput alloc c)

/-- A clock of the hardware. What the device has fetched is written down when it
raises its interrupt. -/
def clockStep (c : Clock) : State Tid where
  kernel :=
    if (s.nextVideo alloc c).irq then
      { s.kernel with
        captured := fun a =>
          if a < vramSize then
            some (dmaFetch alloc.vramBaseP s.kernel.shared.vram
              (alloc.config.vramAddrP.toNat + a))
          else s.kernel.captured a }
    else s.kernel
  posted := if c.arrives then s.posted.tail else s.posted
  mmio := ((s.arrival c).map (stored s.mmio)).getD s.mmio
  video := s.nextVideo alloc c
  raised := s.raised || (s.nextVideo alloc c).irq
  sent := s.sent
  shown := if (s.nextVideo alloc c).irq then s.sent else s.shown

/-- The kernel takes the interrupt. -/
def irqStep : State Tid := { s with kernel := s.kernel.irqStep, raised := false }

variable [DecidableEq Tid]

/-- A step of a thread; an MMIO store is posted. -/
def threadStep (tid : Tid) (choice : Choice) : State Tid :=
  { s with
    kernel := s.kernel.threadStep alloc.config tid choice
    posted := s.posted ++ (mmioStore alloc.config (s.kernel.threads tid)).toList
    sent :=
      if (mmioStore alloc.config (s.kernel.threads tid)).any isUpdate then
        some
          { vram := (s.kernel.threadStep alloc.config tid choice).shared.vram
            mmio := (s.kernel.threadStep alloc.config tid choice).shared.mmio }
      else s.sent }

end State

/-- Who takes a step. -/
inductive Label (Tid : Type) where
  | thread (tid : Tid) (choice : Choice)
  | irq
  | clock (c : Clock)

section System

variable {Tid : Type} [DecidableEq Tid]

/-- The steps, in any order: one of a thread that the VFS allows, the interrupt
that is latched, or a clock. -/
inductive Step (alloc : Allocation) : State Tid → Label Tid → State Tid → Prop where
  | thread (s : State Tid) (tid : Tid) (choice : Choice)
      (allowed : (s.kernel.threads tid).pc = .user → s.kernel.Allows choice) :
      Step alloc s (.thread tid choice) (s.threadStep alloc tid choice)
  | irq (s : State Tid) (raised : s.raised = true) : Step alloc s .irq s.irqStep
  | clock (s : State Tid) (c : Clock) : Step alloc s (.clock c) (s.clockStep alloc c)

section Inversion

variable {alloc : Allocation} {s s' : State Tid}

theorem Step.of_thread {tid : Tid} {choice : Choice} (step : Step alloc s (.thread tid choice) s') :
    s' = s.threadStep alloc tid choice ∧
      ((s.kernel.threads tid).pc = .user → s.kernel.Allows choice) := by
  cases step with
  | thread _ _ allowed => exact ⟨rfl, allowed⟩

theorem Step.of_irq (step : Step alloc s .irq s') : s' = s.irqStep ∧ s.raised = true := by
  cases step with
  | irq raised => exact ⟨rfl, raised⟩

theorem Step.of_clock {c : Clock} (step : Step alloc s (.clock c) s') : s' = s.clockStep alloc c := by
  cases step
  rfl

end Inversion

/-- The hardware comes out of reset, and the driver out of `ppu_probe`. -/
structure Initial (powerUp : VideoSystem.PowerUp) (s : State Tid) : Prop where
  kernel : FileInitial s.kernel
  posted : s.posted = []
  mmio : s.mmio = s.kernel.shared.mmio
  video : s.video = (VideoSystem.machine powerUp).reset
  raised : s.raised = false
  sent : s.sent = none
  shown : s.shown = none

variable (Tid) in
/-- The driver and the PPU. -/
def console (alloc : Allocation) (powerUp : VideoSystem.PowerUp) :
    Transitions (State Tid) (Label Tid) where
  initial := Initial powerUp
  step := Step alloc

end System

/-! ## Stores -/

section Stores

variable {cfg : Config} {sh : Shared} {th : Thread} {choice : Choice}

/-- **What a step stores is what it posts.** -/
theorem act_mmioStore (cfg : Config) (sh : Shared) (th : Thread) (choice : Choice) :
    (act cfg sh th choice).1.mmio = ((mmioStore cfg th).map (stored sh.mmio)).getD sh.mmio ∧
      (act cfg sh th choice).1.pending =
        sh.pending + ((mmioStore cfg th).any isUpdate).toNat := by
  obtain ⟨pc, call, offset, owes⟩ := th
  cases pc with
  | user =>
      cases choice with
      | call call => cases call <;> exact ⟨rfl, rfl⟩
      | _ => exact ⟨rfl, rfl⟩
  | writeTry | ioctlTry | releaseSpin | releaseSpinAgain | writePad | releaseMemset =>
      simp only [act]
      split_ifs <;> exact ⟨rfl, rfl⟩
  | writeCopy buf k =>
      cases byte : buf[k]? with
      | none => cases choice <;> simp only [act, byte] <;> exact ⟨rfl, rfl⟩
      | some _ => cases choice <;> simp only [act, byte] <;> exact ⟨rfl, rfl⟩
  | ioctlSwitch num param =>
      cases target : ioctlTarget cfg num param with
      | none =>
          simp only [act, mmioStore, target]
          exact ⟨rfl, rfl⟩
      | some store =>
          obtain ⟨offset, val⟩ := store
          simp only [act, mmioStore, target]
          refine ⟨rfl, ?_⟩
          by_cases update : offset = ppuDmaAddrOffset <;> simp [mmioWrite, isUpdate, update]
  | releaseMmio k =>
      cases reset : resetOffsets[k]? with
      | none =>
          simp only [act, mmioStore, reset]
          exact ⟨rfl, rfl⟩
      | some offset =>
          simp only [act, mmioStore, reset]
          refine ⟨rfl, ?_⟩
          simp [mmioWrite, isUpdate, resetOffsets_ne reset]
  | releaseUpdate => exact ⟨rfl, rfl⟩
  | openTry | writeUndo | writeDone | ioctlUnlock | releaseTest | releaseUnopened | releaseVram
  | releasePpu | returned => exact ⟨rfl, rfl⟩

/-- Only a thread that is inside stores. -/
theorem mmioStore_of_outside (outside : th.pc.inside = false) : mmioStore cfg th = none := by
  obtain ⟨pc, call, offset, owes⟩ := th
  cases pc <;> first | rfl | cases outside

/-- The DMA address register is given one address only. -/
theorem address_of_mmioStore {store : ℕ × BitVec 32} (stores : mmioStore cfg th = some store)
    (update : isUpdate store = true) : store.2 = cfg.vramAddrP := by
  obtain ⟨pc, call, offset, owes⟩ := th
  have address : store.1 = ppuDmaAddrOffset := by simpa [isUpdate] using update
  cases pc with
  | ioctlSwitch num param =>
      have target : ioctlTarget cfg num param = some store := stores
      by_cases known : num = ioctlPpuUpdate
      · rw [known, ioctlTarget_update, Option.some.injEq] at target
        rw [← target]
      · exact absurd address (ioctlTarget_ne known target)
  | releaseMmio k =>
      cases reset : resetOffsets[k]? with
      | none => simp [mmioStore, reset] at stores
      | some offset =>
          simp only [mmioStore, reset, Option.map_some, Option.some.injEq] at stores
          rw [← stores] at address
          exact absurd address (resetOffsets_ne reset)
  | releaseUpdate =>
      rw [← Option.some.inj (show some (ppuDmaAddrOffset, cfg.vramAddrP) = some store from stores)]
  | _ => cases stores

/-- An address leaves the control registers alone. -/
theorem ctrlRegsOf_stored (mmio : ℕ → BitVec 32) {store : ℕ × BitVec 32}
    (update : isUpdate store = true) : ctrlRegsOf (stored mmio store) = ctrlRegsOf mmio := by
  have address : store.1 = ppuDmaAddrOffset := by simpa [isUpdate] using update
  simp only [ctrlRegsOf, stored, address]
  rfl

end Stores

/-! ## The frame that the device reads -/

/-- An aligned handle is the address that is sent. -/
theorem vramAddrP_of_aligned {alloc : Allocation} (aligned : 16 ∣ alloc.vramBaseP) :
    alloc.config.vramAddrP.toNat = alloc.vramBaseP := by
  have fits := alloc.inside
  have bound : alloc.vramBaseP < 2 ^ 32 := by
    rw [allocSize] at fits
    omega
  rw [Allocation.config, probeConfig, probeAddresses_of_aligned _ aligned, BitVec.toNat_ofNat]
  exact Nat.mod_eq_of_lt bound

/-- The words of a frame are those of the image. -/
theorem Snapshot.imageWord_frame {alloc : Allocation} (aligned : 16 ∣ alloc.vramBaseP)
    (snapshot : Snapshot) {k : ℕ} (within : k < Vram.imageWords) :
    imageWord (snapshot.frame alloc).memory (snapshot.frame alloc).src k =
      quadword (snapshot.image alloc) k := by
  have base := vramAddrP_of_aligned aligned
  have fits := alloc.inside
  rw [allocSize, vramSize] at fits
  rw [Vram.imageWords] at within
  have address : (sourceAddress alloc.config.vramAddrP k).toNat = alloc.vramBaseP + 16 * k := by
    rw [sourceAddress, BitVec.toNat_add, base, BitVec.toNat_ofNat, Nat.add_mod_mod]
    exact Nat.mod_eq_of_lt (by omega)
  have word : 16 * ((alloc.vramBaseP + 16 * k) / 16) = alloc.vramBaseP + 16 * k := by omega
  have same : littleEndian (dmaFetch alloc.vramBaseP snapshot.vram) (alloc.vramBaseP + 16 * k) 16 =
      littleEndian (snapshot.image alloc) (16 * k) 16 := by
    refine littleEndian_congr fun j _ => ?_
    rw [Snapshot.image, base, Nat.add_assoc]
  show deviceMemory alloc snapshot.vram (sourceAddress alloc.config.vramAddrP k) =
    quadword (snapshot.image alloc) k
  rw [deviceMemory, address, word, same, quadword]

/-! ## Clocks -/

section Clocks

variable {Tid : Type} {alloc : Allocation}

/-- A clock touches nothing that threads see. -/
theorem State.clockStep_shared (alloc : Allocation) (s : State Tid) (c : Clock) :
    (s.clockStep alloc c).kernel.shared = s.kernel.shared := by
  simp only [State.clockStep]
  split_ifs <;> rfl

/-- The stores on their way, after one of them may have arrived. -/
theorem State.clockStep_posted (alloc : Allocation) (s : State Tid) (c : Clock) :
    (s.clockStep alloc c).posted.foldl stored (s.clockStep alloc c).mmio =
        s.posted.foldl stored s.mmio ∧
      s.posted.countP isUpdate =
        (s.clockStep alloc c).posted.countP isUpdate + ((s.arrival c).any isUpdate).toNat ∧
      ∃ arrived, s.posted = arrived ++ (s.clockStep alloc c).posted := by
  cases arrives : c.arrives with
  | false =>
      simp only [State.clockStep, State.arrival, arrives, Bool.false_eq_true, if_false]
      exact ⟨rfl, rfl, [], rfl⟩
  | true =>
      simp only [State.clockStep, State.arrival, arrives, if_true]
      cases s.posted with
      | nil => exact ⟨rfl, rfl, [], rfl⟩
      | cons store rest =>
          refine ⟨rfl, ?_, [store], rfl⟩
          rw [List.countP_cons]
          cases update : isUpdate store <;> simp [update]

/-- Without an interrupt the same frame is shown. -/
theorem State.clockStep_shown (s : State Tid) (c : Clock)
    (noIrq : (s.nextVideo alloc c).irq = false) : (s.clockStep alloc c).shown = s.shown := by
  simp only [State.clockStep, noIrq, Bool.false_eq_true, if_false]

theorem State.posted_of_arrival (s : State Tid) (c : Clock) {store : ℕ × BitVec 32}
    (arrival : s.arrival c = some store) : ∃ rest, s.posted = store :: rest := by
  rw [State.arrival] at arrival
  split_ifs at arrival
  exact List.head?_eq_some_iff.mp arrival

end Clocks

end FPGame.Console
