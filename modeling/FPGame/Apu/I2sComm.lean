import FPGame.Foundation.I2s

/-!
# `i2s_comm`

The serialiser of the APU. It shifts the active sample out, most significant bit
first, toggles the word select with the last bit of every word, and loads the
next sample at the end of the words whose word select is 1, so that every sample
is sent twice. `At` gives all registers as a function of the clock and of the
samples that were loaded.
-/

set_option autoImplicit false

namespace FPGame.Apu.I2sComm

open FPGame.Foundation

/-- `enum { INIT, RUNNING }` -/
inductive Phase where
  | init
  | running
deriving DecidableEq, Repr

/-- The registers, which change at the falling edge of the clock. -/
structure State where
  bitIdx : BitVec 4
  activeSample : BitVec 16
  state : Phase
  i2sWs : Bool
deriving DecidableEq, Repr

/-- `SAMPLE_MSB` -/
def sampleMsb : BitVec 4 := 15

def reset : State where
  bitIdx := sampleMsb
  activeSample := 0
  state := .init
  i2sWs := true

namespace State

variable (s : State) (sample : BitVec 16)

def switchSample : Bool := s.bitIdx == 0

def i2sOut : Bool := s.activeSample.getLsbD s.bitIdx.toNat

def nextActiveSample : BitVec 16 :=
  match s.state with
  | .init => s.activeSample
  | .running => if s.switchSample && s.i2sWs then sample else s.activeSample

def nextBitIdx : BitVec 4 :=
  match s.state with
  | .init => s.bitIdx
  | .running => if s.switchSample then sampleMsb else s.bitIdx - 1

def nextI2sWs : Bool :=
  match s.state with
  | .init => s.i2sWs
  | .running => if s.nextBitIdx == 0 then !s.i2sWs else s.i2sWs

/-- The registers after a clock edge. -/
def next : State where
  bitIdx := s.nextBitIdx
  activeSample := s.nextActiveSample sample
  state := .running
  i2sWs := s.nextI2sWs

/-- The serialiser consults `sample` in this clock. -/
def loads : Bool := s.state == .running && s.switchSample && s.i2sWs

/-- What the receiver sees. -/
def line : I2s.Line where
  ws := s.i2sWs
  data := s.i2sOut

end State

def machine : Machine State (BitVec 16) where
  reset := reset
  next := State.next

/-- The samples loaded in the first `t` clocks. -/
def loaded (sample : ℕ → BitVec 16) : ℕ → List (BitVec 16) :=
  takenSince (fun _ => false) fun t =>
    if (machine.run sample t).loads then some (sample t) else none

/-- The words that carry the loaded samples, with their channels: after a zero
word, each sample twice. -/
def sent (loaded : List (BitVec 16)) : List (Bool × BitVec 16) :=
  (false, 0) :: loaded.flatMap fun s => [(true, s), (false, s)]

/-! ## The registers as functions of the clock -/

/-- The sample that is being sent in clock `t`. -/
def sampleAt (sample : ℕ → BitVec 16) (t : ℕ) : BitVec 16 :=
  if (t - 1) / 32 = 0 then 0 else sample (32 * ((t - 1) / 32))

/-- The registers in clock `t`. -/
structure At (sample : ℕ → BitVec 16) (t : ℕ) (s : State) : Prop where
  bitIdx : s.bitIdx.toNat = 15 - (t - 1) % 16
  activeSample : s.activeSample = sampleAt sample t
  state : s.state = if t = 0 then .init else .running
  i2sWs : s.i2sWs = decide (t / 16 % 2 = 0)

section At

variable {sample : ℕ → BitVec 16} {t : ℕ} {s : State}

theorem At.reset : At sample 0 reset := ⟨rfl, rfl, rfl, rfl⟩

theorem At.switchSample (at' : At sample t s) : s.switchSample = decide ((t - 1) % 16 = 15) := by
  have index := at'.bitIdx
  have zero : s.bitIdx = 0 ↔ (t - 1) % 16 = 15 := by
    rw [← BitVec.toNat_inj, index]
    show 15 - (t - 1) % 16 = 0 ↔ _
    omega
  rw [State.switchSample, Bool.eq_iff_iff, beq_iff_eq, decide_eq_true_eq, zero]

/-- A sample is loaded in every 32nd clock. -/
theorem At.loads_iff (at' : At sample t s) : s.loads = true ↔ 0 < t ∧ t % 32 = 0 := by
  rw [State.loads, at'.switchSample, at'.i2sWs, at'.state, Bool.and_eq_true, Bool.and_eq_true,
    decide_eq_true_eq, decide_eq_true_eq, beq_iff_eq]
  by_cases first : t = 0
  · subst first
    simp
  · rw [if_neg first]
    simp only [true_and]
    omega

/-- **One clock of the serialiser.** -/
theorem At.next (at' : At sample t s) : At sample (t + 1) (s.next (sample t)) := by
  have index := at'.bitIdx
  by_cases first : t = 0
  · subst first
    have state : s.state = .init := at'.state
    refine ⟨?_, ?_, rfl, ?_⟩
    · simp only [State.next, State.nextBitIdx, state, index]
    · simp only [State.next, State.nextActiveSample, state, at'.activeSample]
      rfl
    · simp only [State.next, State.nextI2sWs, state, at'.i2sWs]
  · have state : s.state = .running := at'.state.trans (if_neg first)
    have nextIdx : s.nextBitIdx.toNat = 15 - t % 16 := by
      simp only [State.nextBitIdx, state, at'.switchSample, decide_eq_true_eq]
      split_ifs with last
      · show 15 = _
        omega
      · rw [BitVec.toNat_sub, index]
        show (2 ^ 4 - 1 + (15 - (t - 1) % 16)) % 2 ^ 4 = _
        omega
    refine ⟨nextIdx, ?_, rfl, ?_⟩
    · have loads : (s.switchSample && s.i2sWs) = decide (t % 32 = 0) := by
        rw [at'.switchSample, at'.i2sWs, Bool.eq_iff_iff, Bool.and_eq_true, decide_eq_true_eq,
          decide_eq_true_eq, decide_eq_true_eq]
        omega
      simp only [State.next, State.nextActiveSample, state, loads, at'.activeSample,
        decide_eq_true_eq, sampleAt, Nat.add_sub_cancel]
      by_cases boundary : t % 32 = 0
      · rw [if_pos boundary, if_neg (by omega)]
        congr 1
        omega
      · rw [if_neg boundary, show (t - 1) / 32 = t / 32 by omega]
    · have zero : (s.nextBitIdx == 0) = decide (t % 16 = 15) := by
        rw [Bool.eq_iff_iff, beq_iff_eq, decide_eq_true_eq, ← BitVec.toNat_inj, nextIdx]
        show 15 - t % 16 = 0 ↔ _
        omega
      simp only [State.next, State.nextI2sWs, state, zero, at'.i2sWs, decide_eq_true_eq]
      by_cases boundary : t % 16 = 15
      · rw [if_pos boundary, ← decide_not, decide_eq_decide]
        omega
      · rw [if_neg boundary, decide_eq_decide]
        omega

theorem at_run (sample : ℕ → BitVec 16) (t : ℕ) : At sample t (machine.run sample t) := by
  induction t with
  | zero => exact .reset
  | succ t ih => exact ih.next

end At

/-! ## The words on the bus -/

section Words

variable {sample : ℕ → BitVec 16}

/-- The word that begins in clock `17 + 16 * n`, with its channel. -/
def sentAt (sample : ℕ → BitVec 16) (n : ℕ) : Bool × BitVec 16 :=
  (decide (n % 2 = 1), if n = 0 then 0 else sample (32 * ((n + 1) / 2)))

/-- The word select changes with every 16th bit. -/
theorem framed (sample : ℕ → BitVec 16) :
    I2s.Framed (fun t => (machine.run sample t).line) 16 16 := by
  intro t
  show (machine.run sample (t + 1)).i2sWs ≠ (machine.run sample t).i2sWs ↔ _
  rw [(at_run sample (t + 1)).i2sWs, (at_run sample t).i2sWs, ne_eq, decide_eq_decide]
  omega

/-- A word on the bus is that of the sample loaded before. -/
theorem wordAt_eq (n : ℕ) :
    I2s.wordAt (fun t => (machine.run sample t).line) 16 16 n =
      ⟨(sentAt sample n).1, I2s.msbFirst (sentAt sample n).2⟩ := by
  rw [I2s.wordAt, I2s.msbFirst, sentAt]
  congr 1
  · show (machine.run sample (16 + 16 * n)).i2sWs = _
    rw [(at_run sample _).i2sWs, decide_eq_decide]
    omega
  · apply List.map_congr_left
    intro k within
    rw [List.mem_range] at within
    obtain ⟨t, t_eq⟩ : ∃ t, t = 16 + 1 + 16 * n + k := ⟨_, rfl⟩
    have here := at_run sample t
    have active : (machine.run sample t).activeSample =
        if n = 0 then 0 else sample (32 * ((n + 1) / 2)) := by
      rw [here.activeSample, sampleAt, show (t - 1) / 32 = (n + 1) / 2 by omega]
      congr 1
      rw [eq_iff_iff]
      omega
    show (machine.run sample (16 + 1 + 16 * n + k)).i2sOut = _
    rw [← t_eq, State.i2sOut, active, here.bitIdx, BitVec.getMsbD, decide_eq_true within,
      Bool.true_and]
    congr 1
    omega

/-- The loads are 32 clocks apart. -/
theorem loaded_eq (t : ℕ) :
    loaded sample t = (List.range ((t - 1) / 32)).map fun k => sample (32 * (k + 1)) := by
  induction t with
  | zero => rfl
  | succ t ih =>
      have loads := (at_run sample t).loads_iff
      rw [loaded, takenSince, if_neg Bool.false_ne_true, ← loaded, ih, Nat.add_sub_cancel]
      by_cases boundary : 0 < t ∧ t % 32 = 0
      · rw [if_pos (loads.mpr boundary)]
        obtain ⟨k, rfl⟩ : ∃ k, t = 32 * (k + 1) := ⟨t / 32 - 1, by omega⟩
        rw [show 32 * (k + 1) / 32 = k + 1 by omega, show (32 * (k + 1) - 1) / 32 = k by omega,
          List.range_succ, List.map_append]
        rfl
      · rw [if_neg (mt loads.mp boundary), show t / 32 = (t - 1) / 32 by omega]
        exact List.append_nil _

/-- The sent words in the order of the bus. -/
theorem sent_eq (m : ℕ) :
    sent ((List.range m).map fun k => sample (32 * (k + 1))) =
      (List.range (2 * m + 1)).map (sentAt sample) := by
  induction m with
  | zero => rfl
  | succ m ih =>
      rw [sent] at ih ⊢
      have two : List.range (2 * (m + 1) + 1) =
          List.range (2 * m + 1) ++ [2 * m + 1, 2 * m + 2] := by
        rw [show 2 * (m + 1) + 1 = 2 * m + 1 + 1 + 1 by omega, @List.range_succ (2 * m + 1 + 1),
          @List.range_succ (2 * m + 1), List.append_assoc]
        rfl
      have right : sentAt sample (2 * m + 1) = (true, sample (32 * (m + 1))) := by
        rw [sentAt, decide_eq_true (by omega), if_neg (by omega),
          show (2 * m + 1 + 1) / 2 = m + 1 by omega]
      have left : sentAt sample (2 * m + 2) = (false, sample (32 * (m + 1))) := by
        rw [sentAt, decide_eq_false (by omega), if_neg (by omega),
          show (2 * m + 2 + 1) / 2 = m + 1 by omega]
      have pair : [2 * m + 1, 2 * m + 2].map (sentAt sample) =
          [(true, sample (32 * (m + 1))), (false, sample (32 * (m + 1)))] := by
        rw [List.map_cons, List.map_singleton, right, left]
      rw [two, List.map_append, ← ih, pair, List.range_succ, List.map_append, List.flatMap_append]
      rfl

/-- The registers depend on the samples of the loads only. -/
theorem run_eq_of_loads {sample' : ℕ → BitVec 16}
    (same : ∀ t, (machine.run sample t).loads = true → sample' t = sample t) (t : ℕ) :
    machine.run sample' t = machine.run sample t := by
  induction t with
  | zero => rfl
  | succ t ih =>
      rw [Machine.run_succ, Machine.run_succ, ih]
      cases loads : (machine.run sample t).loads with
      | true => rw [same t loads]
      | false =>
          obtain ⟨s, s_eq⟩ : ∃ s, s = machine.run sample t := ⟨_, rfl⟩
          rw [← s_eq] at loads ⊢
          have kept : ∀ y, s.nextActiveSample y = s.activeSample := by
            intro y
            cases state : s.state with
            | init => simp only [State.nextActiveSample, state]
            | running =>
                rw [State.loads, state, beq_self_eq_true, Bool.true_and] at loads
                simp only [State.nextActiveSample, state, loads, Bool.false_eq_true, if_false]
          show s.next _ = s.next _
          rw [State.next, State.next, kept, kept]

/-- **The I2S round trip.** For every stream of samples and every length of a
run: a receiver of the bus has decoded the words that carry the loaded samples,
one word for every 16 clocks past the first 17, each of 16 bits: a zero word, and
then every sample in two words, the first of them with the word select at 1.
Samples are loaded in every 32nd clock and consulted in no other. -/
theorem i2s_round_trip (sample : ℕ → BitVec 16) :
    let sys := machine.run sample
    let received := fun t => (I2s.receiver.run (fun u => (sys u).line) t).words
    (∀ t, (sys t).loads = true ↔ 0 < t ∧ t % 32 = 0) ∧
    (∀ sample' : ℕ → BitVec 16, (∀ t, (sys t).loads = true → sample' t = sample t) →
      ∀ t, machine.run sample' t = sys t) ∧
    ∀ t, (received t).length = (t - 17) / 16 ∧
      (received t).map (fun word =>
          (word.channel, word.bits.length, (BitVec.ofBoolListBE word.bits).setWidth 16)) <+:
        (sent (loaded sample t)).map fun word => (word.1, 16, word.2) := by
  intro sys received
  refine ⟨fun t => (at_run sample t).loads_iff, fun sample' same => run_eq_of_loads same,
    fun t => ?_⟩
  have words : received t = (List.range ((t - 17) / 16)).map fun n =>
      ⟨(sentAt sample n).1, I2s.msbFirst (sentAt sample n).2⟩ := by
    by_cases early : t < 17
    · rw [show (t - 17) / 16 = 0 by omega]
      cases t with
      | zero => rfl
      | succ t =>
          exact congrArg I2s.Receiver.words
            ((framed sample).waiting (show t < 16 by omega))
    · obtain ⟨n, k, within, rfl⟩ : ∃ n k, k < 16 ∧ t = 16 + 1 + 16 * n + k :=
        ⟨(t - 17) / 16, (t - 17) % 16, Nat.mod_lt _ (by decide), by omega⟩
      have decoded := congrArg I2s.Receiver.words
        (I2s.received (framed sample) (by decide) n within)
      rw [show (16 + 1 + 16 * n + k - 17) / 16 = n by omega]
      refine decoded.trans (List.map_congr_left fun m _ => wordAt_eq m)
  rw [words]
  refine ⟨by rw [List.length_map, List.length_range], ?_⟩
  have decode : ∀ n : ℕ, ((sentAt sample n).1, (I2s.msbFirst (sentAt sample n).2).length,
      (BitVec.ofBoolListBE (I2s.msbFirst (sentAt sample n).2)).setWidth 16) =
        ((sentAt sample n).1, 16, (sentAt sample n).2) := by
    intro n
    rw [I2s.ofBoolListBE_msbFirst, I2s.length_msbFirst]
  obtain ⟨more, length⟩ : ∃ more, 2 * ((t - 1) / 32) + 1 = (t - 17) / 16 + more :=
    Nat.exists_eq_add_of_le (by omega)
  rw [loaded_eq, sent_eq, List.map_map, List.map_map, length, List.range_add, List.map_append]
  exact ⟨_, congrArg (· ++ _) (List.map_congr_left fun n _ => decode n)⟩

end Words

end FPGame.Apu.I2sComm
