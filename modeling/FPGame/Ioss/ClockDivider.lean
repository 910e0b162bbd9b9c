import FPGame.Foundation.Machine

/-!
# `timer`, `clock_div` and `shift_reg`

A timer counts down from its period and ticks when it is at zero. A clock
divider toggles its level with the ticks of a timer, and a shift register takes
a bit in each clock in which it is enabled. `TimerAt` and `ClockDivAt` say what
the first two hold in clock `t` out of reset, for every period.
-/

set_option autoImplicit false

namespace FPGame.Ioss

/-! ## `timer` -/

namespace Timer

/-- `tick`. The counter is wide enough for the period. -/
def tick (counter : ℕ) : Bool := counter == 0

def next (period counter : ℕ) : ℕ := if counter = 0 then period - 1 else counter - 1

def reset (period : ℕ) : ℕ := period

end Timer

/-- The counter in clock `t` out of reset: it reaches zero at the multiples of the
period. -/
structure TimerAt (period t counter : ℕ) : Prop where
  divides : period ∣ t + counter
  le : counter ≤ period
  full : counter = period ↔ t = 0

section Timer

variable {period t counter : ℕ}

theorem TimerAt.reset : TimerAt period 0 (Timer.reset period) where
  divides := Dvd.intro_left 1 (by rw [Nat.one_mul, Nat.zero_add]; rfl)
  le := le_rfl
  full := iff_of_true rfl rfl

theorem TimerAt.next (at' : TimerAt period t counter) (positive : 0 < period) :
    TimerAt period (t + 1) (Timer.next period counter) := by
  have divides := at'.divides
  have le := at'.le
  rw [Timer.next]
  split_ifs with zero
  · subst zero
    refine ⟨?_, by omega, by omega⟩
    rw [show t + 1 + (period - 1) = t + period by omega]
    exact Nat.dvd_add_self_right.mpr divides
  · refine ⟨?_, by omega, by omega⟩
    rw [show t + 1 + (counter - 1) = t + counter by omega]
    exact divides

/-- **The timer ticks at the multiples of its period.** -/
theorem TimerAt.tick_iff (at' : TimerAt period t counter) (positive : 0 < period) :
    Timer.tick counter = true ↔ 0 < t ∧ t % period = 0 := by
  obtain ⟨divides, le, full⟩ := at'
  rw [Timer.tick, beq_iff_eq]
  constructor
  · rintro rfl
    exact ⟨by omega, Nat.mod_eq_zero_of_dvd divides⟩
  · rintro ⟨later, multiple⟩
    have rest : period ∣ counter := (Nat.dvd_add_right (Nat.dvd_of_mod_eq_zero multiple)).mp divides
    exact Nat.eq_zero_of_dvd_of_lt rest (by omega)

end Timer

/-! ## `clock_div` -/

/-- The registers of a divider: its timer and the level of the divided clock. -/
structure ClockDiv where
  timer : ℕ
  level : Bool
deriving DecidableEq, Repr

namespace ClockDiv

def reset (levelWidth : ℕ) : ClockDiv where
  timer := Timer.reset levelWidth
  level := false

variable (s : ClockDiv)

def negChange : Bool := Timer.tick s.timer && s.level

def posChange : Bool := Timer.tick s.timer && !s.level

def divClk : Bool := s.level

def next (levelWidth : ℕ) : ClockDiv where
  timer := Timer.next levelWidth s.timer
  level := if Timer.tick s.timer then !s.level else s.level

end ClockDiv

/-- The divider in clock `t` out of reset. -/
structure ClockDivAt (levelWidth t : ℕ) (s : ClockDiv) : Prop where
  timer : TimerAt levelWidth t s.timer
  level : s.level = decide ((t - 1) / levelWidth % 2 = 1)

section ClockDiv

variable {levelWidth t : ℕ} {s : ClockDiv}

theorem ClockDivAt.reset : ClockDivAt levelWidth 0 (.reset levelWidth) where
  timer := .reset
  level := by
    rw [Nat.zero_sub, Nat.zero_div]
    rfl

/-- The level toggles with every tick. -/
theorem ClockDivAt.next (at' : ClockDivAt levelWidth t s) (positive : 0 < levelWidth) :
    ClockDivAt levelWidth (t + 1) (s.next levelWidth) := by
  refine ⟨at'.timer.next positive, ?_⟩
  have ticks := at'.timer.tick_iff positive
  rw [ClockDiv.next, at'.level, Nat.add_sub_cancel]
  cases t with
  | zero => rw [if_neg (mt ticks.mp fun late => lt_irrefl 0 late.1), Nat.zero_sub]
  | succ t =>
      rw [Nat.add_sub_cancel, Nat.succ_div]
      by_cases boundary : levelWidth ∣ t + 1
      · rw [if_pos (ticks.mpr ⟨Nat.succ_pos t, Nat.mod_eq_zero_of_dvd boundary⟩), if_pos boundary,
          ← decide_not, decide_eq_decide]
        omega
      · rw [if_neg (mt ticks.mp fun late => boundary (Nat.dvd_of_mod_eq_zero late.2)),
          if_neg boundary, Nat.add_zero]

end ClockDiv

/-! ## `shift_reg` -/

/-- A shift register after a clock edge: the bits move up by one. -/
def shiftReg {width : ℕ} (out : BitVec width) (ldEn input : Bool) : BitVec width :=
  if ldEn then out.shiftConcat input else out

/-- The last `n + 1` bits are the one of this clock and the last `n` before. -/
theorem shifted_bits {width n : ℕ} {out : BitVec width} {bits : ℕ → Bool}
    (before : ∀ j, j < n → out.getLsbD (n - 1 - j) = bits j) (room : n < width) :
    ∀ j, j < n + 1 → (shiftReg out true (bits n)).getLsbD (n + 1 - 1 - j) = bits j := by
  intro j within
  rw [Nat.add_sub_cancel, shiftReg, if_pos rfl, BitVec.getLsbD_shiftConcat,
    decide_eq_true (by omega), Bool.true_and]
  split_ifs with last
  · rw [show j = n by omega]
  · rw [← before j (by omega)]
    congr 1
    omega

end FPGame.Ioss
