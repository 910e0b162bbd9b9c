import FPGame.Ioss.SnesController
import FPGame.Kernel.Linux

/-!
# Reading the buttons

The buttons of the pad reach a program through the pad's shift register, the polls of
`snes_controller`, an input register of 16 bits, the `ioctl` of the controller driver
and `get_con_state`, and are then picked out by the masks of `con.h`.

A pad takes its buttons in while the latch is high, and shows the first of them. Each
rise of the clock after that moves it on to the next one, and a pressed button is shown
as a low level (`held`, `place`, `Answers`). `buttons_read` says which buttons a program
sees, at any time.
-/

set_option autoImplicit false

namespace FPGame.Ioss.SnesController

open FPGame.Foundation FPGame.Linux

/-! ## The pad -/

section Pad

variable (serial : ℕ → Bool) (pressed : ℕ → ℕ → Bool)

/-- The buttons that a pad has taken in before clock `t`. -/
def held : ℕ → ℕ → Bool
  | 0 => pressed 0
  | t + 1 => if (machine.run serial t).conLatch then pressed t else held t

/-- The button that a pad shows in clock `t`. -/
def place : ℕ → ℕ
  | 0 => 0
  | t + 1 =>
      if (machine.run serial t).conLatch then 0
      else if !(machine.run serial t).conClock && (machine.run serial (t + 1)).conClock then
        place t + 1
      else place t

variable {serial} {t : ℕ}

theorem held_low (low : (machine.run serial t).conLatch = false) :
    held serial pressed (t + 1) = held serial pressed t := by
  rw [held, low, if_neg Bool.false_ne_true]

theorem place_low (low : (machine.run serial t).conLatch = false) : place serial (t + 1) =
    if !(machine.run serial t).conClock && (machine.run serial (t + 1)).conClock then
      place serial t + 1
    else place serial t := by
  rw [place, low, if_neg Bool.false_ne_true]

end Pad

/-- A pad with the buttons `pressed` answers on the serial line. -/
def Answers (pressed : ℕ → ℕ → Bool) (serial : ℕ → Bool) : Prop :=
  ∀ t, serial t = !(held serial pressed t (place serial t))

/-- The clock in which poll `k` ends its latch. -/
def latchEnd (k : ℕ) : ℕ := pollStart k + 600

section Polls

variable {serial : ℕ → Bool} {pressed : ℕ → ℕ → Bool} {k d j : ℕ}

theorem latch_iff {t : ℕ} : (machine.run serial t).conLatch = true ↔
    ∃ k, 1 ≤ k ∧ pollStart k < t ∧ t ≤ pollStart k + 600 :=
  beq_iff_eq.trans pulse_iff

/-- The latch is low while the poll samples. -/
theorem latch_low (started : 1 ≤ k) (within : d ≤ 9599) :
    (machine.run serial (latchEnd k + 1 + d)).conLatch = false := by
  by_contra high
  rw [Bool.not_eq_false, State.conLatch, beq_iff_eq] at high
  have sampling : (machine.run serial (latchEnd k + 1 + d)).state = .sample :=
    sample_iff.mpr ⟨k, started, by rw [latchEnd]; omega, by rw [latchEnd, pollEnd]; omega⟩
  rw [sampling] at high
  cases high

theorem clock_low_iff (started : 1 ≤ k) (within : d ≤ 9599) :
    (machine.run serial (latchEnd k + 1 + d)).conClock = false ↔ d / 300 % 2 = 1 := by
  obtain ⟨-, -, phase⟩ := pollStart_spec k
  rw [conClock_low_iff, sample_iff]
  constructor
  · rintro ⟨-, low⟩
    rw [latchEnd] at low
    omega
  · intro odd
    refine ⟨⟨k, started, by rw [latchEnd]; omega, by rw [latchEnd, pollEnd]; omega⟩, ?_⟩
    rw [latchEnd]
    omega

/-- **After the latch** the pad shows its buttons one after the other, each for 600
clocks. -/
theorem pad_at (started : 1 ≤ k) (within : d ≤ 9599) :
    held serial pressed (latchEnd k + 1 + d) = pressed (latchEnd k) ∧
      place serial (latchEnd k + 1 + d) = d / 600 := by
  induction d with
  | zero =>
      have high : (machine.run serial (latchEnd k)).conLatch = true :=
        latch_iff.mpr ⟨k, started, by rw [latchEnd]; omega, le_rfl⟩
      exact ⟨if_pos high, if_pos high⟩
  | succ d ih =>
      obtain ⟨buttons, shown⟩ := ih (by omega)
      have low := @latch_low serial k d started (by omega)
      have before := @clock_low_iff serial k d started (by omega)
      have now := @clock_low_iff serial k (d + 1) started within
      refine ⟨(held_low pressed low).trans buttons, ?_⟩
      rw [← Nat.add_assoc] at now ⊢
      rw [place_low low, shown]
      -- the clock rises when `d` comes to a multiple of 600
      by_cases rises : (d + 1) % 600 = 0
      · rw [before.mpr (by omega), Bool.eq_true_of_not_eq_false (mt now.mp (by omega))]
        simp only [Bool.not_false, Bool.and_self, if_true]
        omega
      · have still : (!(machine.run serial (latchEnd k + 1 + d)).conClock &&
            (machine.run serial (latchEnd k + 1 + d + 1)).conClock) = false := by
          by_contra rise
          rw [Bool.not_eq_false, Bool.and_eq_true, Bool.not_eq_true', before,
            ← Bool.not_eq_false, now] at rise
          omega
        rw [still, if_neg Bool.false_ne_true]
        omega

/-- The sample of a falling edge is a button as it was when the latch ended. -/
theorem Answers.sample (answers : Answers pressed serial) (started : 1 ≤ k) (few : j < 16) :
    serial (fallingEdge k j) = !(pressed (latchEnd k) j) := by
  have edge : fallingEdge k j = latchEnd k + 1 + (299 + 600 * j) := by
    rw [fallingEdge, latchEnd]
    omega
  obtain ⟨buttons, shown⟩ := @pad_at serial pressed k (299 + 600 * j) started (by omega)
  rw [answers, edge, buttons, shown, show (299 + 600 * j) / 600 = j by omega]

end Polls

/-! ## A pad exists

The latch and the clock do not depend on the serial line, so there is a line for every
way of pressing the buttons. -/

theorem conLatch_congr (serial serial' : ℕ → Bool) (t : ℕ) :
    (machine.run serial t).conLatch = (machine.run serial' t).conLatch :=
  Bool.eq_iff_iff.mpr (latch_iff.trans latch_iff.symm)

theorem conClock_congr (serial serial' : ℕ → Bool) (t : ℕ) :
    (machine.run serial t).conClock = (machine.run serial' t).conClock := by
  have low : (machine.run serial t).conClock = false ↔ (machine.run serial' t).conClock = false := by
    rw [conClock_low_iff, conClock_low_iff, sample_iff, sample_iff]
  rw [Bool.eq_false_iff, Bool.eq_false_iff] at low
  exact Bool.eq_iff_iff.mpr (not_iff_not.mp low)

theorem held_congr (serial serial' : ℕ → Bool) (pressed : ℕ → ℕ → Bool) (t : ℕ) :
    held serial pressed t = held serial' pressed t := by
  induction t with
  | zero => rfl
  | succ t ih => rw [held, held, ih, conLatch_congr serial serial']

theorem place_congr (serial serial' : ℕ → Bool) (t : ℕ) : place serial t = place serial' t := by
  induction t with
  | zero => rfl
  | succ t ih =>
      rw [place, place, ih, conLatch_congr serial serial', conClock_congr serial serial' t,
        conClock_congr serial serial' (t + 1)]

/-- What a pad with the buttons `pressed` shows. -/
def lineOf (pressed : ℕ → ℕ → Bool) (t : ℕ) : Bool :=
  !(held (fun _ => true) pressed t (place (fun _ => true) t))

/-- **There is a pad** for every way of pressing its buttons. -/
theorem answers_lineOf (pressed : ℕ → ℕ → Bool) : Answers pressed (lineOf pressed) := by
  intro t
  rw [held_congr (lineOf pressed) (fun _ => true), place_congr (lineOf pressed) (fun _ => true)]
  rfl

end FPGame.Ioss.SnesController

namespace FPGame.Con

open FPGame.Linux FPGame.Ioss.SnesController

/-! ## The driver and the library -/

def conMajorNum : ℕ := 0x1FC

def ioctlConGetState : ℕ := ioc 0 conMajorNum 0 0

/-- A read of the 16 bits of `input_pio` -/
def inputPio (conState : BitVec 16) : BitVec 32 := conState.setWidth 32

/-- What `ioctl` returns. -/
def conIoctl (ioctlNum : ℕ) (register : BitVec 32) : BitVec 32 :=
  if ioctlNum ≠ ioctlConGetState then -1 else register

/-- `con_cleanup`, which aborts without an open file -/
def conCleanup (devFileFd : ℤ) : Option ℤ := if devFileFd < 0 then none else some (-1)

/-- `get_con_state`: `dev_file_fd` afterwards and the value, if it does not abort. -/
def getConState (devFileFd opened atexit : ℤ) (ioctl : BitVec 32) : Option (ℤ × BitVec 32) :=
  if devFileFd < 0 then
    if opened < 0 then none
    else if atexit < 0 then (conCleanup opened).map fun fd => (fd, ioctl)
    else some (opened, ioctl)
  else some (devFileFd, ioctl)

/-- The buttons, in the order in which a pad shows them. -/
inductive Button where
  | b | y | select | start | up | down | left | right | a | x | l | r
deriving DecidableEq, Repr

namespace Button

/-- The place of a button in what a pad shows. -/
def place : Button → ℕ
  | b => 0
  | y => 1
  | select => 2
  | start => 3
  | up => 4
  | down => 5
  | left => 6
  | right => 7
  | a => 8
  | x => 9
  | l => 10
  | r => 11

/-- `CON_BUT_*` -/
def mask : Button → BitVec 32
  | b => 1 <<< 15
  | y => 1 <<< 14
  | select => 1 <<< 13
  | start => 1 <<< 12
  | up => 1 <<< 11
  | down => 1 <<< 10
  | left => 1 <<< 9
  | right => 1 <<< 8
  | a => 1 <<< 7
  | x => 1 <<< 6
  | l => 1 <<< 5
  | r => 1 <<< 4

theorem place_lt (button : Button) : button.place < 16 := by
  cases button <;> decide

/-- The masks follow the order of the pad. -/
theorem mask_eq (button : Button) : button.mask = BitVec.twoPow 32 (15 - button.place) := by
  cases button <;> decide

end Button

/-- `CON_IS_PRESSED` -/
def conIsPressed (state but : BitVec 32) : Bool := state &&& but == 0

/-- A pressed button is a zero in the state. -/
theorem conIsPressed_mask (conState : BitVec 16) (button : Button) :
    conIsPressed (inputPio conState) button.mask = !conState.getLsbD (15 - button.place) := by
  have inside : decide (15 - button.place < 32) = true := decide_eq_true (by omega)
  have picked : inputPio conState &&& button.mask =
      if conState.getLsbD (15 - button.place) then button.mask else 0#32 := by
    rw [button.mask_eq, BitVec.and_twoPow, inputPio, BitVec.getLsbD_setWidth, inside,
      Bool.true_and]
  rw [conIsPressed, picked]
  cases conState.getLsbD (15 - button.place) with
  | false => rfl
  | true => cases button <;> rfl

/-- With the device open, or an `open` that succeeds, the state is returned. -/
theorem getConState_returns {devFileFd opened : ℤ} (available : 0 ≤ devFileFd ∨ 0 ≤ opened)
    (atexit : ℤ) (ioctl : BitVec 32) :
    ∃ fd, getConState devFileFd opened atexit ioctl = some (fd, ioctl) := by
  rw [getConState]
  by_cases first : devFileFd < 0
  · have opens : ¬ opened < 0 := by omega
    rw [if_pos first, if_neg opens]
    by_cases unregistered : atexit < 0
    · rw [if_pos unregistered, conCleanup, if_neg opens]
      exact ⟨-1, rfl⟩
    · rw [if_neg unregistered]
      exact ⟨opened, rfl⟩
  · rw [if_neg first]
    exact ⟨devFileFd, rfl⟩

section Reading

variable {serial : ℕ → Bool} {pressed : ℕ → ℕ → Bool} {t : ℕ}

/-- Some poll is the last one that is complete. -/
theorem exists_complete (polled : pollEnd 1 < t) :
    ∃ k, 1 ≤ k ∧ pollEnd k < t ∧ t ≤ pollEnd (k + 1) := by
  obtain ⟨after, bound, -⟩ := pollStart_spec (polls t)
  obtain ⟨after', bound', -⟩ := pollStart_spec (polls t + 1)
  obtain ⟨first, -, -⟩ := pollStart_spec 1
  have late : 833333 * polls t < t ∧ t ≤ 833333 * (polls t + 1) := by
    rw [pollEnd] at polled
    rw [polls]
    omega
  by_cases complete : pollEnd (polls t) < t
  · refine ⟨polls t, ?_, complete, by rw [pollEnd]; omega⟩
    rw [pollEnd] at polled
    omega
  · have two : 2 ≤ polls t := by
      by_contra few
      have one : polls t = 1 := by
        rw [pollEnd] at polled
        omega
      rw [one] at complete
      exact complete polled
    obtain ⟨-, before, -⟩ := pollStart_spec (polls t - 1)
    have back : polls t - 1 + 1 = polls t := by omega
    refine ⟨polls t - 1, by omega, ?_, ?_⟩
    · rw [pollEnd]
      omega
    · rw [back]
      omega

/-- **What a program reads.** Whenever it asks, a program is given the buttons of one
moment, the end of the latch of the last complete poll, and that moment is at most 843533
clocks ago. Until the first poll is complete all buttons read as pressed. -/
theorem buttons_read (answers : Answers pressed serial) {devFileFd opened : ℤ}
    (available : 0 ≤ devFileFd ∨ 0 ≤ opened) (atexit : ℤ) (t : ℕ) :
    ∃ fd state, getConState devFileFd opened atexit
        (conIoctl ioctlConGetState (inputPio (machine.run serial t).conState)) =
          some (fd, state) ∧
      (t ≤ pollEnd 1 → ∀ button : Button, conIsPressed state button.mask = true) ∧
      (pollEnd 1 < t → ∃ k, 1 ≤ k ∧ (pollEnd k < t ∧ t ≤ pollEnd (k + 1)) ∧
        (latchEnd k < t ∧ t ≤ latchEnd k + 843533) ∧ ∀ button : Button,
          conIsPressed state button.mask = pressed (latchEnd k) button.place) := by
  obtain ⟨fd, returns⟩ := getConState_returns available atexit
    (conIoctl ioctlConGetState (inputPio (machine.run serial t).conState))
  have state : conIoctl ioctlConGetState (inputPio (machine.run serial t).conState) =
      inputPio (machine.run serial t).conState := if_neg (not_not.mpr rfl)
  refine ⟨fd, _, returns, fun early button => ?_, fun polled => ?_⟩
  · have result := @result_run serial 0 t (.inl rfl) early
    rw [Result, if_pos rfl] at result
    rw [state, conIsPressed_mask, show (machine.run serial t).conState = 0#16 from result,
      BitVec.getLsbD_zero]
    rfl
  · obtain ⟨k, started, since, until'⟩ := exists_complete polled
    obtain ⟨after, -, -⟩ := pollStart_spec k
    obtain ⟨-, bound, -⟩ := pollStart_spec (k + 1)
    have result := @result_run serial k t (.inr since) until'
    rw [Result, if_neg (by omega)] at result
    have latched : latchEnd k < t := by
      rw [pollEnd] at since
      rw [latchEnd]
      omega
    have recent : t ≤ latchEnd k + 843533 := by
      rw [pollEnd] at until'
      rw [latchEnd]
      omega
    refine ⟨k, started, ⟨since, until'⟩, ⟨latched, recent⟩, fun button => ?_⟩
    rw [state, conIsPressed_mask, result _ button.place_lt,
      answers.sample started button.place_lt, Bool.not_not]

end Reading

/-- The button A alone is held down. -/
def onlyA (_ : ℕ) (j : ℕ) : Bool := j == Button.a.place

/-- It reads as pressed and no other button does, once the pad has been polled. -/
theorem buttons_read_onlyA :
    ∃ fd state, getConState (-1) 3 0
        (conIoctl ioctlConGetState
          (inputPio (machine.run (lineOf onlyA) 1000000).conState)) = some (fd, state) ∧
      ∀ button : Button, conIsPressed state button.mask = true ↔ button = .a := by
  have polled : pollEnd 1 < 1000000 := by
    obtain ⟨-, bound, -⟩ := pollStart_spec 1
    rw [pollEnd]
    omega
  obtain ⟨fd, state, returns, -, complete⟩ :=
    buttons_read (answers_lineOf onlyA) (.inr (by decide : (0 : ℤ) ≤ 3)) 0 1000000
  obtain ⟨k, -, -, -, buttons⟩ := complete polled
  refine ⟨fd, state, returns, fun button => ?_⟩
  rw [buttons button, onlyA]
  cases button <;> decide

end FPGame.Con
