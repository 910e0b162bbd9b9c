import FPGame.Ioss.ClockDivider

/-!
# `snes_controller`

The controller is polled with every tick of a 60 Hz timer: the latch is raised
for one period of the divided clock, and then 16 falling edges of the divided
clock are passed on, each of which samples the serial line. The timer and the
divider run freely, so a poll begins with the first rising edge of the divided
clock after the tick (`pollStart`), whatever their phases are.

`Stage` says where in its poll the FSM is in clock `t`, and `At` adds what the
registers hold there.
-/

set_option autoImplicit false

namespace FPGame.Ioss.SnesController

open FPGame.Foundation

/-- `PERIOD_60HZ` -/
def period60Hz : ℕ := 833333

/-- `LEVEL_WIDTH_SNES` -/
def levelWidthSnes : ℕ := 300

/-- `enum { INIT, WAIT_CLOCK, PULSE, SAMPLE }` -/
inductive Phase where
  | init
  | waitClock
  | pulse
  | sample
deriving DecidableEq, Repr

/-- The registers, with those of the timer, the divider and the shift register. -/
structure State where
  state : Phase
  sampleCounter : BitVec 4
  conState : BitVec 16
  t0 : ℕ
  cdiv0 : ClockDiv
  sreg0 : BitVec 16
deriving DecidableEq, Repr

def reset : State where
  state := .init
  sampleCounter := 0
  conState := 0
  t0 := Timer.reset period60Hz
  cdiv0 := .reset levelWidthSnes
  sreg0 := 0

namespace State

variable (s : State)

def tick60 : Bool := Timer.tick s.t0

def posChange : Bool := s.cdiv0.posChange

def negChange : Bool := s.cdiv0.negChange

def conLatch : Bool := s.state == .pulse

def conClock : Bool :=
  match s.state with
  | .sample => s.cdiv0.divClk
  | _ => true

def sampleEn : Bool :=
  match s.state with
  | .sample => s.negChange
  | _ => false

def nextSampleCounter : BitVec 4 :=
  match s.state with
  | .sample => if s.posChange then s.sampleCounter + 1 else s.sampleCounter
  | _ => s.sampleCounter

def finish : Bool :=
  match s.state with
  | .sample => s.nextSampleCounter == 0 && s.posChange
  | _ => false

def nextState : Phase :=
  match s.state with
  | .init => if s.tick60 then .waitClock else .init
  | .waitClock => if s.posChange then .pulse else .waitClock
  | .pulse => if s.posChange then .sample else .pulse
  | .sample => if s.finish then .init else .sample

/-- The registers after a clock edge. -/
def next (conSerial : Bool) : State where
  state := s.nextState
  sampleCounter := s.nextSampleCounter
  conState := if s.finish then s.sreg0 else s.conState
  t0 := Timer.next period60Hz s.t0
  cdiv0 := s.cdiv0.next levelWidthSnes
  sreg0 := shiftReg s.sreg0 s.sampleEn conSerial

end State

def machine : Machine State Bool where
  reset := reset
  next := State.next

/-! ## The times of a poll -/

/-- The ticks of the 60 Hz timer before clock `t`. -/
@[irreducible] def polls (t : ℕ) : ℕ := (t - 1) / 833333

/-- The first rising edge of the divided clock after tick `k`. -/
@[irreducible] def pollStart (k : ℕ) : ℕ := 833333 * k + 1 + (900 - (833333 * k + 1) % 600) % 600

/-- The clock in which the line is sampled for the `j`-th time. -/
def fallingEdge (k j : ℕ) : ℕ := pollStart k + 900 + 600 * j

/-- The last clock of a poll. -/
def pollEnd (k : ℕ) : ℕ := pollStart k + 10200

theorem pollStart_spec (k : ℕ) :
    833333 * k < pollStart k ∧ pollStart k ≤ 833333 * k + 600 ∧ pollStart k % 600 = 300 := by
  rw [pollStart]
  omega

/-- The stage of poll `k` in clock `t`. -/
inductive Stage (k t : ℕ) : Phase → Prop where
  | init (over' : k = 0 ∨ pollEnd k < t) : Stage k t .init
  | waitClock (started : 1 ≤ k) (until' : t ≤ pollStart k) : Stage k t .waitClock
  | pulse (started : 1 ≤ k) (since : pollStart k < t) (until' : t ≤ pollStart k + 600) :
      Stage k t .pulse
  | sample (started : 1 ≤ k) (since : pollStart k + 600 < t) (until' : t ≤ pollEnd k) :
      Stage k t .sample

/-- The counter and the samples taken so far, `d` clocks after poll `k` began to
sample. -/
structure Sampling (serial : ℕ → Bool) (k d : ℕ) (s : State) : Prop where
  counter : s.sampleCounter.toNat = d / 600
  samples : ∀ j, j < (d + 300) / 600 →
    s.sreg0.getLsbD ((d + 300) / 600 - 1 - j) = serial (fallingEdge k j)

/-- The polls that are complete before clock `t`. -/
def complete (t : ℕ) : ℕ :=
  if pollEnd (polls t) < t then polls t else polls t - 1

/-- The result of poll `k`, the first sample in the highest bit. -/
def Result (serial : ℕ → Bool) (k : ℕ) (conState : BitVec 16) : Prop :=
  if k = 0 then conState = 0
  else ∀ j, j < 16 → conState.getLsbD (15 - j) = serial (fallingEdge k j)

/-- The registers in clock `t`. -/
structure At (serial : ℕ → Bool) (t : ℕ) (s : State) : Prop where
  timer : TimerAt period60Hz t s.t0
  divider : ClockDivAt levelWidthSnes t s.cdiv0
  stage : Stage (polls t) t s.state
  rests : s.state ≠ .sample → s.sampleCounter = 0
  sampling : s.state = .sample →
    ∃ d, t = pollStart (polls t) + 601 + d ∧ Sampling serial (polls t) d s
  result : Result serial (complete t) s.conState

section Clock

variable {serial : ℕ → Bool} {t : ℕ} {s : State}

theorem At.tick60_iff (at' : At serial t s) : s.tick60 = true ↔ 0 < t ∧ t % 833333 = 0 :=
  at'.timer.tick_iff (by decide)

theorem At.tick_iff (at' : At serial t s) :
    Timer.tick s.cdiv0.timer = true ↔ 0 < t ∧ t % 300 = 0 :=
  at'.divider.timer.tick_iff (by decide)

theorem At.level (at' : At serial t s) : s.cdiv0.level = decide ((t - 1) / 300 % 2 = 1) :=
  at'.divider.level

/-- A period of the divided clock is 600 clocks long. -/
theorem At.posChange_iff (at' : At serial t s) : s.posChange = true ↔ t % 600 = 300 := by
  rw [State.posChange, ClockDiv.posChange, Bool.and_eq_true, at'.tick_iff, at'.level,
    Bool.not_eq_true', decide_eq_false_iff_not]
  omega

theorem At.negChange_iff (at' : At serial t s) :
    s.negChange = true ↔ 0 < t ∧ t % 600 = 0 := by
  rw [State.negChange, ClockDiv.negChange, Bool.and_eq_true, at'.tick_iff, at'.level,
    decide_eq_true_eq]
  omega

theorem polls_zero : polls 0 = 0 := by
  rw [polls]

theorem polls_tick (late : 0 < t) (tick : t % 833333 = 0) :
    polls (t + 1) = polls t + 1 ∧ 833333 * polls (t + 1) = t := by
  simp only [polls]
  omega

theorem polls_quiet (quiet : ¬ (0 < t ∧ t % 833333 = 0)) : polls (t + 1) = polls t := by
  simp only [polls]
  omega

theorem lt_of_started (started : 1 ≤ polls t) : 833333 * polls t < t := by
  simp only [polls] at started ⊢
  omega

/-- The timer does not tick while a poll is going on. -/
theorem polls_busy (started : 1 ≤ polls t) (until' : t ≤ pollEnd (polls t)) :
    polls (t + 1) = polls t := by
  obtain ⟨-, bound, -⟩ := pollStart_spec (polls t)
  have since := lt_of_started started
  rw [pollEnd] at until'
  exact polls_quiet (by omega)

/-- The FSM samples for 16 periods of the divided clock. -/
theorem At.sample_le (at' : At serial t s) (state : s.state = .sample) :
    1 ≤ polls t ∧ t ≤ pollEnd (polls t) := by
  have stage := at'.stage
  rw [state] at stage
  obtain - | - | - | ⟨started, -, until'⟩ := stage
  exact ⟨started, until'⟩

theorem sample_of_finish (finish : s.finish = true) : s.state = .sample := by
  cases state : s.state with
  | sample => rfl
  | _ => simp [State.finish, state] at finish

/-- The counter wraps to zero with the rising edge that ends the poll. -/
theorem At.finish_iff (at' : At serial t s) (state : s.state = .sample) :
    s.finish = true ↔ t = pollEnd (polls t) := by
  obtain ⟨-, until'⟩ := at'.sample_le state
  obtain ⟨-, -, phase⟩ := pollStart_spec (polls t)
  obtain ⟨d, clock, counter, -⟩ := at'.sampling state
  have pos := at'.posChange_iff
  rw [pollEnd] at until' ⊢
  simp only [State.finish, State.nextSampleCounter, state, Bool.and_eq_true, beq_iff_eq]
  constructor
  · rintro ⟨wraps, edge⟩
    rw [if_pos edge, ← BitVec.toNat_inj, BitVec.toNat_add, counter] at wraps
    have edge' := pos.mp edge
    replace wraps : (d / 600 + 1) % 16 = 0 := wraps
    omega
  · intro last
    have edge := pos.mpr (by omega)
    refine ⟨?_, edge⟩
    rw [if_pos edge, ← BitVec.toNat_inj, BitVec.toNat_add, counter]
    show (d / 600 + 1) % 16 = 0
    omega

/-- **The FSM follows the stages of the poll.** -/
theorem At.stage_next (at' : At serial t s) : Stage (polls (t + 1)) (t + 1) s.nextState := by
  have stage := at'.stage
  have pos := at'.posChange_iff
  obtain ⟨after, bound, phase⟩ := pollStart_spec (polls t)
  cases state : s.state with
  | init =>
      rw [state] at stage
      obtain ⟨over'⟩ := stage
      simp only [State.nextState, state, at'.tick60_iff]
      split_ifs with tick
      · obtain ⟨one, now⟩ := polls_tick tick.1 tick.2
        have first := (pollStart_spec (polls (t + 1))).1
        exact .waitClock (by omega) (by omega)
      · rw [polls_quiet tick]
        exact .init (by omega)
  | waitClock =>
      rw [state] at stage
      obtain - | ⟨started, until'⟩ := stage
      have since := lt_of_started started
      rw [polls_busy started (by rw [pollEnd]; omega)]
      simp only [State.nextState, state, pos]
      split_ifs with edge
      · exact .pulse started (by omega) (by omega)
      · exact .waitClock started (by omega)
  | pulse =>
      rw [state] at stage
      obtain - | - | ⟨started, since, until'⟩ := stage
      rw [polls_busy started (by rw [pollEnd]; omega)]
      simp only [State.nextState, state, pos]
      split_ifs with edge
      · exact .sample started (by omega) (by rw [pollEnd]; omega)
      · exact .pulse started (by omega) (by omega)
  | sample =>
      have finish := at'.finish_iff state
      rw [state] at stage
      obtain - | - | - | ⟨started, since, until'⟩ := stage
      rw [polls_busy started until']
      simp only [State.nextState, state, finish]
      split_ifs with last
      · exact .init (.inr (by omega))
      · exact .sample started (by omega) (by omega)

/-- Outside of the sampling phase the counter is back at zero. -/
theorem At.rests_next (at' : At serial t s) (rests : s.nextState ≠ .sample) :
    s.nextSampleCounter = 0 := by
  cases state : s.state with
  | sample =>
      have over' : s.finish = true := by
        by_contra going
        simp only [State.nextState, state, if_neg going] at rests
        exact rests rfl
      simp only [State.finish, state, Bool.and_eq_true, beq_iff_eq] at over'
      exact over'.1
  | _ =>
      have zero := at'.rests (by simp [state])
      simp only [State.nextSampleCounter, state, zero]

section Sampling

variable {d : ℕ}

/-- The counter counts the rising edges. -/
theorem At.counter_next (at' : At serial t s) (state : s.state = .sample)
    (clock : t = pollStart (polls t) + 601 + d) (sampling : Sampling serial (polls t) d s)
    (going : t ≠ pollEnd (polls t)) : s.nextSampleCounter.toNat = (d + 1) / 600 := by
  obtain ⟨-, until'⟩ := at'.sample_le state
  obtain ⟨-, -, phase⟩ := pollStart_spec (polls t)
  rw [pollEnd] at until' going
  simp only [State.nextSampleCounter, state, at'.posChange_iff]
  split_ifs with edge
  · rw [BitVec.toNat_add, sampling.counter, show (1 : BitVec 4).toNat = 1 from rfl]
    omega
  · rw [sampling.counter]
    omega

/-- The line is sampled with the falling edges. -/
theorem At.samples_next (at' : At serial t s) (state : s.state = .sample)
    (clock : t = pollStart (polls t) + 601 + d) (sampling : Sampling serial (polls t) d s) :
    ∀ j, j < (d + 1 + 300) / 600 →
      (s.next (serial t)).sreg0.getLsbD ((d + 1 + 300) / 600 - 1 - j) =
        serial (fallingEdge (polls t) j) := by
  obtain ⟨-, until'⟩ := at'.sample_le state
  obtain ⟨-, -, phase⟩ := pollStart_spec (polls t)
  have samples := sampling.samples
  rw [pollEnd] at until'
  obtain ⟨n, taken⟩ : ∃ n, (d + 300) / 600 = n := ⟨_, rfl⟩
  rw [taken] at samples
  simp only [State.next, State.sampleEn, state]
  cases edge : s.negChange with
  | true =>
      have now := at'.negChange_iff.mp edge
      have grows : (d + 1 + 300) / 600 = n + 1 := by omega
      have here : t = fallingEdge (polls t) n := by
        rw [fallingEdge]
        omega
      rw [grows, show serial t = serial (fallingEdge (polls t) n) from congrArg serial here]
      exact @shifted_bits 16 n s.sreg0 (fun j => serial (fallingEdge (polls t) j)) samples
        (by omega)
  | false =>
      have quiet : ¬ (0 < t ∧ t % 600 = 0) := by
        rw [← at'.negChange_iff, edge]
        exact Bool.false_ne_true
      have kept : (d + 1 + 300) / 600 = n := by omega
      rw [kept]
      exact samples

end Sampling

theorem At.sampling_next (at' : At serial t s) (next : s.nextState = .sample) :
    ∃ d, t + 1 = pollStart (polls (t + 1)) + 601 + d ∧
      Sampling serial (polls (t + 1)) d (s.next (serial t)) := by
  have stage := at'.stage
  obtain ⟨-, -, phase⟩ := pollStart_spec (polls t)
  cases state : s.state with
  | init =>
      simp only [State.nextState, state] at next
      split_ifs at next
  | waitClock =>
      simp only [State.nextState, state] at next
      split_ifs at next
  | pulse =>
      rw [state] at stage
      obtain - | - | ⟨started, since, until'⟩ := stage
      rw [polls_busy started (by rw [pollEnd]; omega)]
      simp only [State.nextState, state, at'.posChange_iff] at next
      split_ifs at next with edge
      have zero := at'.rests (by simp [state])
      refine ⟨0, by omega, ?_, fun j early => absurd early (by omega)⟩
      simp only [State.next, State.nextSampleCounter, state, zero]
      rfl
  | sample =>
      obtain ⟨started, until'⟩ := at'.sample_le state
      obtain ⟨d, clock, sampling⟩ := at'.sampling state
      simp only [State.nextState, state] at next
      split_ifs at next with last
      have going := mt (at'.finish_iff state).mpr last
      rw [polls_busy started until']
      exact ⟨d + 1, by omega, at'.counter_next state clock sampling going,
        at'.samples_next state clock sampling⟩

/-- A poll is complete when it has ended. -/
theorem complete_next (t : ℕ) :
    complete (t + 1) = if t = pollEnd (polls t) then polls t else complete t := by
  obtain ⟨-, bound, -⟩ := pollStart_spec (polls t)
  by_cases tick : 0 < t ∧ t % 833333 = 0
  · obtain ⟨one, now⟩ := polls_tick tick.1 tick.2
    have first := (pollStart_spec (polls (t + 1))).1
    have ended : pollEnd (polls t) < t := by
      rw [pollEnd]
      omega
    have begins : ¬ pollEnd (polls (t + 1)) < t + 1 := by
      rw [pollEnd]
      omega
    rw [if_neg ended.ne', complete, if_neg begins, complete, if_pos ended, one, Nat.add_sub_cancel]
  · rw [complete, polls_quiet tick, complete]
    split_ifs <;> omega

theorem At.result_next (at' : At serial t s) :
    Result serial (complete (t + 1)) (s.next (serial t)).conState := by
  have stage := at'.stage
  rw [complete_next]
  cases finish : s.finish with
  | true =>
      have state := sample_of_finish finish
      have last := (at'.finish_iff state).mp finish
      obtain ⟨started, -⟩ := at'.sample_le state
      obtain ⟨d, clock, -, samples⟩ := at'.sampling state
      have all : (d + 300) / 600 = 16 := by
        rw [pollEnd] at last
        omega
      rw [all] at samples
      rw [if_pos last, State.next, finish, if_pos rfl, Result, if_neg (by omega)]
      exact samples
  | false =>
      rw [State.next, finish, if_neg Bool.false_ne_true]
      split_ifs with last
      · -- the last clock of poll 0, which is not a poll
        have none : polls t = 0 := by
          by_contra started
          have state : s.state = .sample := by
            rw [pollEnd] at last
            generalize s.state = phase at stage
            cases stage with
            | init over' => rw [pollEnd] at over'; omega
            | waitClock _ until' => omega
            | pulse _ _ until' => omega
            | sample => rfl
          rw [(at'.finish_iff state).mpr last] at finish
          cases finish
        have result := at'.result
        rw [complete, none] at result
        rw [none]
        split_ifs at result <;> exact result
      · exact at'.result

/-- **One clock of the controller.** -/
theorem At.next (at' : At serial t s) : At serial (t + 1) (s.next (serial t)) where
  timer := at'.timer.next (by decide)
  divider := at'.divider.next (by decide)
  stage := at'.stage_next
  rests := at'.rests_next
  sampling := at'.sampling_next
  result := at'.result_next

end Clock

theorem at_run (serial : ℕ → Bool) (t : ℕ) : At serial t (machine.run serial t) := by
  induction t with
  | zero =>
      exact
        { timer := .reset
          divider := .reset
          stage := .init (.inl polls_zero)
          rests := fun _ => rfl
          sampling := nofun
          result := by
            rw [complete, polls_zero, if_neg (Nat.not_lt_zero _)]
            rfl }
  | succ t ih => exact ih.next

/-! ## Polls as seen from outside -/

theorem polls_eq {k t : ℕ} (since : 833333 * k < t) (until' : t ≤ 833333 * (k + 1)) :
    polls t = k := by
  rw [polls]
  omega

/-- The stages of a poll exclude each other. -/
theorem Stage.unique {k t : ℕ} {phase phase' : Phase} (stage : Stage k t phase)
    (stage' : Stage k t phase') : phase = phase' := by
  have ends : pollEnd k = pollStart k + 10200 := rfl
  cases stage <;> cases stage' <;> first | rfl | omega

section Runs

variable {serial : ℕ → Bool} {k t : ℕ}

/-- The FSM is in the stage that the clock belongs to. -/
theorem state_eq {phase : Phase} (since : 833333 * k < t) (until' : t ≤ 833333 * (k + 1))
    (stage : Stage k t phase) : (machine.run serial t).state = phase := by
  have here := (at_run serial t).stage
  rw [polls_eq since until'] at here
  exact here.unique stage

theorem pulse_iff : (machine.run serial t).state = .pulse ↔
    ∃ k, 1 ≤ k ∧ pollStart k < t ∧ t ≤ pollStart k + 600 := by
  constructor
  · intro state
    have stage := (at_run serial t).stage
    rw [state] at stage
    obtain - | - | ⟨started, since, until'⟩ := stage
    exact ⟨polls t, started, since, until'⟩
  · rintro ⟨k, started, since, until'⟩
    obtain ⟨after, bound, -⟩ := pollStart_spec k
    exact state_eq (by omega) (by omega) (.pulse started since until')

theorem sample_iff : (machine.run serial t).state = .sample ↔
    ∃ k, 1 ≤ k ∧ pollStart k + 600 < t ∧ t ≤ pollEnd k := by
  constructor
  · intro state
    have stage := (at_run serial t).stage
    rw [state] at stage
    obtain - | - | - | ⟨started, since, until'⟩ := stage
    exact ⟨polls t, started, since, until'⟩
  · rintro ⟨k, started, since, until'⟩
    obtain ⟨after, bound, -⟩ := pollStart_spec k
    have ends : pollEnd k = pollStart k + 10200 := rfl
    exact state_eq (by omega) (by omega) (.sample started since until')

/-- The controller's clock is low in the lower half of the periods of the sampling
phase. -/
theorem conClock_low_iff : (machine.run serial t).conClock = false ↔
    (machine.run serial t).state = .sample ∧ (t - 1) / 300 % 2 = 0 := by
  have level := (at_run serial t).level
  rw [State.conClock]
  cases state : (machine.run serial t).state with
  | sample =>
      rw [ClockDiv.divClk, level, decide_eq_false_iff_not]
      simp only [true_and]
      omega
  | _ => simp

/-- **There are 16 falling edges in a poll**, and no others. -/
theorem falls_iff : (machine.run serial t).conClock = true ∧
      (machine.run serial (t + 1)).conClock = false ↔
    ∃ k j, 1 ≤ k ∧ j < 16 ∧ t = fallingEdge k j := by
  rw [← Bool.not_eq_false, conClock_low_iff, conClock_low_iff, sample_iff, sample_iff]
  simp only [fallingEdge, pollEnd]
  constructor
  · rintro ⟨high, ⟨k, started, since, until'⟩, low⟩
    obtain ⟨-, -, phase⟩ := pollStart_spec k
    have upper : pollStart k + 600 < t → (t - 1) / 300 % 2 ≠ 0 := fun inside low =>
      high ⟨⟨k, started, inside, by omega⟩, low⟩
    exact ⟨k, (t - pollStart k - 900) / 600, started, by omega, by omega⟩
  · rintro ⟨k, j, started, few, rfl⟩
    obtain ⟨-, -, phase⟩ := pollStart_spec k
    exact ⟨by omega, ⟨k, started, by omega, by omega⟩, by omega⟩

/-- What the controller shows is the result of the last complete poll. -/
theorem result_run (since : k = 0 ∨ pollEnd k < t) (until' : t ≤ pollEnd (k + 1)) :
    Result serial k (machine.run serial t).conState := by
  have result := (at_run serial t).result
  have last : complete t = k := by
    obtain ⟨after, bound, -⟩ := pollStart_spec k
    obtain ⟨after', bound', -⟩ := pollStart_spec (k + 1)
    rw [pollEnd] at since until'
    rw [complete]
    by_cases next : 833333 * (k + 1) < t
    · rw [polls_eq next (by omega), pollEnd, if_neg (by omega), Nat.add_sub_cancel]
    · by_cases first : 0 < t
      · rw [@polls_eq k t (by omega) (by omega), pollEnd]
        split_ifs <;> omega
      · rw [show t = 0 by omega, polls_zero]
        split_ifs <;> omega
  rwa [last] at result

end Runs

/-- **Polling.** For every waveform on the serial line: poll `k` follows the tick
`833333 * k` of the 60 Hz timer and ends before the next one. It raises the latch
for a period of the divided clock, which is 600 clocks long, and then clocks 16
falling edges; outside of the sampling phase the clock is high and the bit counter
at zero. The state changes with the end of a poll only, and holds the samples of
the last complete poll, the first of them in bit 15. -/
theorem polling (serial : ℕ → Bool) :
    let sys : ℕ → State := machine.run serial
    (∀ t, (sys t).tick60 = true ↔ 0 < t ∧ t % 833333 = 0) ∧
    (∀ t, (sys t).posChange = true ↔ t % 600 = 300) ∧
    (∀ k, 833333 * k < pollStart k ∧ pollStart k ≤ 833333 * k + 600 ∧
      pollStart k % 600 = 300 ∧ pollEnd k < 833333 * (k + 1)) ∧
    (∀ t, (sys t).conLatch = true ↔ ∃ k, 1 ≤ k ∧ pollStart k < t ∧ t ≤ pollStart k + 600) ∧
    (∀ t, (sys t).state = .sample ↔ ∃ k, 1 ≤ k ∧ pollStart k + 600 < t ∧ t ≤ pollEnd k) ∧
    (∀ t, (sys t).conClock = true ∧ (sys (t + 1)).conClock = false ↔
      ∃ k j, 1 ≤ k ∧ j < 16 ∧ t = fallingEdge k j) ∧
    (∀ t, (sys t).state ≠ .sample →
      (sys t).conClock = true ∧ (sys t).sampleCounter = 0) ∧
    (∀ t, (sys (t + 1)).conState ≠ (sys t).conState → ∃ k, 1 ≤ k ∧ t = pollEnd k) ∧
    (∀ t, t ≤ pollEnd 1 → (sys t).conState = 0) ∧
    ∀ k t, 1 ≤ k → pollEnd k < t → t ≤ pollEnd (k + 1) →
      ∀ j, j < 16 → (sys t).conState.getLsbD (15 - j) = serial (fallingEdge k j) := by
  intro sys
  refine ⟨fun t => (at_run serial t).tick60_iff, fun t => (at_run serial t).posChange_iff,
    fun k => ?_, fun t => beq_iff_eq.trans pulse_iff, fun t => sample_iff, fun t => falls_iff,
    fun t rests => ⟨?_, (at_run serial t).rests rests⟩, fun t changes => ?_,
    fun t early => ?_, fun k t started since until' => ?_⟩
  · obtain ⟨after, bound, phase⟩ := pollStart_spec k
    refine ⟨after, bound, phase, ?_⟩
    rw [pollEnd]
    omega
  · by_contra low
    exact rests (conClock_low_iff.mp (Bool.not_eq_true _ ▸ low)).1
  · have finish : (sys t).finish = true := by
      by_contra going
      exact changes (if_neg going)
    have state := sample_of_finish finish
    exact ⟨polls t, ((at_run serial t).sample_le state).1,
      ((at_run serial t).finish_iff state).mp finish⟩
  · exact result_run (.inl rfl) early
  · have result : Result serial k (sys t).conState := result_run (.inr since) until'
    rw [Result, if_neg (by omega)] at result
    exact result

end FPGame.Ioss.SnesController
