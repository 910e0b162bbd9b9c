import FPGame.Foundation.Machine
import FPGame.Hdmi.I2cWriteWdata

/-!
# `I2C_HDMI_Config`

The configuration writes a table of registers to the HDMI transmitter, one transaction
of the writer for each entry. It moves on when the writer is at its end and everything
was acknowledged, and sends an entry again when something was not. Beyond the table it
waits for `HDMI_TX_INT` to fall, and begins again.

`Mode` is what the registers of the configuration amount to, and `inMode_next` says how
a clock moves it.
-/

set_option autoImplicit false

namespace FPGame.Hdmi

open FPGame.Foundation FPGame.Foundation.I2c

/-- `LUT_SIZE` -/
def lutSize : ℕ := 23

/-- `LUT_DATA` -/
def lutData (lutIndex : ℕ) : BitVec 16 :=
  match lutIndex with
  | 0 => 0x4110
  | 1 => 0x9803
  | 2 => 0x9AE0
  | 3 => 0x9C30
  | 4 => 0x9D61
  | 5 => 0xA2A4
  | 6 => 0xA3A4
  | 7 => 0xE0D0
  | 8 => 0xF900
  | 9 => 0x1530
  | 10 => 0x1630
  | 11 => 0xAF16
  | 12 => 0x5510
  | 13 => 0x5618
  | 14 => 0xBA60
  | 15 => 0x0100
  | 16 => 0x0211
  | 17 => 0x03E0
  | 18 => 0x0702
  | 19 => 0x0881
  | 20 => 0x0925
  | 21 => 0x0C84
  | 22 => 0x7301
  | _ => 0x9803

/-- The values of `mSetup_ST` -/
inductive SetupSt where
  | setup0 | setup1 | setup2
deriving DecidableEq, Repr

/-- The registers of `I2C_HDMI_Config` that `mI2C_CTRL_CLK` clocks. -/
structure Config where
  lutIndex : BitVec 5
  setupSt : SetupSt
  go : Bool
  data : BitVec 24
deriving DecidableEq, Repr

/-- The registers after an edge of `mI2C_CTRL_CLK`. -/
def Config.next (s : Config) (endOk ackOk txInt : Bool) : Config :=
  if s.lutIndex.toNat < lutSize then
    match s.setupSt with
    | .setup0 =>
        { s with
          data := (0x72#8 ++ lutData s.lutIndex.toNat : BitVec 24)
          go := true
          setupSt := .setup1 }
    | .setup1 =>
        if endOk then { s with setupSt := if !ackOk then .setup2 else .setup0, go := false }
        else s
    | .setup2 => { s with lutIndex := s.lutIndex + 1, setupSt := .setup0 }
  else if !txInt then { s with lutIndex := 0 }
  else s

/-- The configuration, the writer and what has been seen on the bus. -/
structure System where
  config : Config
  wrd : Wdata
  monitor : Monitor
deriving DecidableEq, Repr

/-- Whether the transmitter pulls the data line low, and its interrupt. -/
structure Input where
  pulls : Bool
  txInt : Bool
deriving DecidableEq, Repr

def System.next (s : System) (x : Input) : System where
  config := s.config.next s.wrd.endOk s.wrd.ackOk x.txInt
  wrd := s.wrd.next (s.wrd.wires s.config.go s.config.data x.pulls)
  monitor := s.monitor.next (s.wrd.lines x.pulls)

/-- Reset leaves the data and most registers of the writer alone. -/
def powerUp (wrd : Wdata) (data : BitVec 24) : System where
  config := { lutIndex := 0, setupSt := .setup0, go := false, data := data }
  wrd := { wrd with st := .st0 }
  monitor := .start

def machine (wrd : Wdata) (data : BitVec 24) : Machine System Input where
  reset := powerUp wrd data
  next := System.next

/-! ## The modes of the configuration -/

/-- What the configuration waits for, or does next. -/
inductive Mode where
  /-- out of reset -/
  | fresh
  /-- entry `k` has been given to the writer -/
  | waiting (k : ℕ)
  /-- entry `k` is done -/
  | counted (k : ℕ)
  /-- entry `k` is next -/
  | ready (k : ℕ)
  /-- all entries are done -/
  | idle
  /-- all entries are done, and entry 0 is next -/
  | restarted
deriving DecidableEq, Repr

namespace Mode

/-- Entry `k` is next, if there is one. -/
def entry (k : ℕ) : Mode := if k < lutSize then ready k else idle

/-- `GO` -/
def go : Mode → Bool
  | waiting _ => true
  | _ => false

/-- The mode after a clock. -/
def next (endOk ackOk txInt : Bool) : Mode → Mode
  | fresh => waiting 0
  | waiting k => if endOk then if ackOk then ready k else counted k else waiting k
  | counted k => entry (k + 1)
  | ready k => waiting k
  | idle => if txInt then idle else restarted
  | restarted => waiting 0

end Mode

/-- What is sent for a word of the table: the address of the transmitter and the word. -/
def packet (word : BitVec 16) : BitVec 24 := 0x72#8 ++ word

/-- The registers of a mode. -/
inductive InMode : Mode → Config → Prop where
  | fresh {s : Config} (lutIndex : s.lutIndex.toNat = 0) (setupSt : s.setupSt = .setup0)
      (go : s.go = false) : InMode .fresh s
  | waiting {s : Config} {k : ℕ} (small : k < lutSize) (lutIndex : s.lutIndex.toNat = k)
      (setupSt : s.setupSt = .setup1) (go : s.go = true) (data : s.data = packet (lutData k)) :
      InMode (.waiting k) s
  | counted {s : Config} {k : ℕ} (small : k < lutSize) (lutIndex : s.lutIndex.toNat = k)
      (setupSt : s.setupSt = .setup2) (go : s.go = false) (data : s.data = packet (lutData k)) :
      InMode (.counted k) s
  | ready {s : Config} {k : ℕ} {word : BitVec 16} (small : k < lutSize)
      (lutIndex : s.lutIndex.toNat = k) (setupSt : s.setupSt = .setup0) (go : s.go = false)
      (data : s.data = packet word) : InMode (.ready k) s
  | idle {s : Config} (lutIndex : s.lutIndex.toNat = lutSize) (setupSt : s.setupSt = .setup0)
      (go : s.go = false) (data : s.data = packet (lutData 22)) : InMode .idle s
  | restarted {s : Config} (lutIndex : s.lutIndex.toNat = 0) (setupSt : s.setupSt = .setup0)
      (go : s.go = false) (data : s.data = packet (lutData 22)) : InMode .restarted s

section Modes

variable {s : Config} {mode : Mode} {endOk ackOk txInt : Bool}

theorem InMode.go_eq (here : InMode mode s) : s.go = mode.go := by
  cases here with
  | fresh _ _ go => exact go
  | waiting _ _ _ go => exact go
  | counted _ _ _ go => exact go
  | ready _ _ _ go => exact go
  | idle _ _ go => exact go
  | restarted _ _ go => exact go

/-- Out of `setup0`, the entry at the index is given to the writer. -/
theorem Config.next_setup0 (setupSt : s.setupSt = .setup0) (small : s.lutIndex.toNat < lutSize) :
    InMode (.waiting s.lutIndex.toNat) (s.next endOk ackOk txInt) := by
  rw [Config.next, if_pos small, setupSt]
  exact .waiting small rfl rfl rfl rfl

/-- **A clock of the configuration takes each mode to the next one.** -/
theorem inMode_next (here : InMode mode s) :
    InMode (mode.next endOk ackOk txInt) (s.next endOk ackOk txInt) := by
  cases here with
  | fresh lutIndex setupSt go =>
      have given := @Config.next_setup0 s endOk ackOk txInt setupSt
        (by rw [lutIndex]; decide)
      rwa [lutIndex] at given
  | waiting small lutIndex setupSt go data =>
      rw [Config.next, if_pos (lutIndex.trans_lt small), setupSt]
      cases endOk with
      | false => exact .waiting small lutIndex setupSt go data
      | true =>
          cases ackOk with
          | false => exact .counted small lutIndex rfl rfl data
          | true => exact .ready small lutIndex rfl rfl data
  | @counted _ k small lutIndex setupSt go data =>
      have next : s.next endOk ackOk txInt =
          { s with lutIndex := s.lutIndex + 1, setupSt := .setup0 } := by
        rw [Config.next, if_pos (lutIndex.trans_lt small), setupSt]
      have index : (s.lutIndex + 1).toNat = k + 1 := by
        rw [BitVec.toNat_add, lutIndex]
        exact Nat.mod_eq_of_lt (by rw [lutSize] at small; show k + 1 < 32; omega)
      rw [next, Mode.next, Mode.entry]
      by_cases more : k + 1 < lutSize
      · rw [if_pos more]
        exact .ready more index rfl go data
      · rw [if_neg more]
        have last : k = 22 := by rw [lutSize] at small more; omega
        subst last
        exact .idle index rfl go data
  | ready small lutIndex setupSt go data =>
      have given := @Config.next_setup0 s endOk ackOk txInt setupSt
        (lutIndex.trans_lt small)
      rwa [lutIndex] at given
  | idle lutIndex setupSt go data =>
      have over' : ¬ s.lutIndex.toNat < lutSize := by rw [lutIndex]; exact lt_irrefl _
      rw [Config.next, if_neg over']
      cases txInt with
      | false => exact .restarted rfl setupSt go data
      | true => exact .idle lutIndex setupSt go data
  | restarted lutIndex setupSt go data =>
      have given := @Config.next_setup0 s endOk ackOk txInt setupSt
        (by rw [lutIndex]; decide)
      rwa [lutIndex] at given

end Modes

end FPGame.Hdmi
