import FPGame.Audio.AudioSystem

/-!
# Everything is played

In a run whose memory answers and whose bit clock ticks for ever, a starved player gets
the next chunk of what has been handed over (`Fair.fed`), and a player that has one is
asked for the next byte (`Fair.request`). So each byte that is handed over in a session
has its turn (`everything_is_heard`).
-/

set_option autoImplicit false

namespace FPGame.AudioSystem

open FPGame.Foundation FPGame.Apu FPGame.ApuDriver FPGame.Linux

section Steps

variable {Tid : Type} [DecidableEq Tid] {cfg : Config} {s s' : State Tid} {label : Label Tid}

theorem Step.of_tick (step : Step cfg s .tick s') :
    s.output.Rated ∧ s' = { s with output := s.output.tick s.kernel.hw.apu.apuEn } := by
  cases step with
  | tick rated => exact ⟨rated, rfl⟩

theorem Step.of_kernel {move : ApuDriver.Label Tid} (step : Step cfg s (.kernel move) s') :
    ApuDriver.Step cfg s.kernel move s'.kernel ∧ s.Wired move ∧
      s'.output = s.outputAfter cfg move := by
  cases step with
  | kernel _ _ step wired => exact ⟨step, wired, rfl⟩

/-- The inputs of a clock of the circuit. -/
def clockIn (cfg : Config) (s : State Tid) : Label Tid → Option (Option Mmio × Env)
  | .kernel move => clockOf cfg s.kernel move
  | .tick => none

/-- A step is a clock of the circuit, the memory looks something up, or the circuit waits. -/
theorem Step.cases_clock (step : Step cfg s label s') :
    (∃ mmio env, clockIn cfg s label = some (mmio, env) ∧ env.chunkAck = s.chunkAck ∧
      s'.kernel.hw = s.kernel.hw.clock mmio env ∧
      s'.output = s.output.clock s.fetcher.chunk s.fetcher.chunkValid) ∨
    (clockIn cfg s label = none ∧
      (s'.kernel.hw = s.kernel.hw ∨ s'.kernel.hw = s.kernel.hw.serve s.kernel.shared.ddr) ∧
      s'.output.now = s.output.now ∧ s'.output.chunks = s.output.chunks ∧
      s'.output.player = s.output.player) := by
  cases step with
  | tick rated => exact .inr ⟨rfl, .inl rfl, rfl, rfl, rfl⟩
  | kernel move kernel step wired =>
      rcases hw_of_step step with ⟨mmio, env, clock, hw⟩ | ⟨none, hw⟩
      · refine .inl ⟨mmio, env, clock, wired.chunkAck clock, hw, ?_⟩
        simp only [State.outputAfter, clock, Option.isSome_some, if_true]
      · have same : s.outputAfter cfg move = s.output := by
          rw [State.outputAfter, none, Option.isSome_none, if_neg Bool.false_ne_true]
        refine .inr ⟨none, hw, ?_, ?_, ?_⟩ <;> simp only [same]

/-- A session hands more over, and never takes anything back. -/
theorem Step.handed (step : Step cfg s label s') : s.kernel.handed <+: s'.kernel.handed := by
  cases step with
  | tick => exact List.prefix_rfl
  | kernel move kernel step wired =>
      cases step with
      | clock | serve | irq => exact List.prefix_rfl
      | thread => exact List.prefix_append _ _

/-- **The progress of the player never falls**, and while it plays a byte nothing but a
request moves it. -/
theorem Linked.now_next (linked : Linked cfg s) (step : Step cfg s label s') :
    s.output.now.Keeps s'.output.now ∨
      (s.output.now.starved = false ∧ s'.output.now.due = s.output.now.due + 1) := by
  rcases step.cases_clock with ⟨_, _, -, -, -, output⟩ | ⟨-, -, same, -, -⟩
  · rw [output]
    rcases Output.now_clock linked.played.playing with ⟨-, keeps⟩ | ⟨-, valid, moved⟩
    · exact .inl keeps
    · exact .inr ⟨valid, moved⟩
  · rw [same]
    exact .inl ⟨rfl, id⟩

end Steps

/-! ## A chunk on its way -/

/-- How far the next chunk is from the player. -/
def ahead (hw : Hardware) : ℕ :=
  if hw.apu.fetcher.chunkValid then 0
  else
    match hw.bus with
    | .served _ _ => 1
    | .accepted _ => 2
    | .free => if hw.apu.fetcher.addrValid then 3 else 4

section Ahead

variable {hw : Hardware} {chunks : List (BitVec 64)} {mmio : Option Mmio} {env : Env}

theorem Takes.busy (takes : Takes hw chunks) (notFree : hw.bus ≠ .free) :
    hw.apu.fetcher.ramState = .readWait := by
  cases state : hw.apu.fetcher.ramState with
  | idle => exact absurd (takes.idle.mpr state) notFree
  | readWait => rfl

/-- **A clock brings the chunk no further away**, and nearer if nobody stops it. -/
theorem ahead_clock (takes : Takes hw chunks) (empty : hw.apu.fetcher.chunkValid = false) :
    ahead (hw.clock mmio env) ≤ ahead hw ∧
      (env.answer = true → ahead hw = 1 → ahead (hw.clock mmio env) = 0) ∧
      (env.memWait = false → ahead hw = 3 → ahead (hw.clock mmio env) = 2) ∧
      (hw.apu.queuedBaseValid = true → ahead hw = 4 → ahead (hw.clock mmio env) = 3) := by
  have step : (hw.clock mmio env).apu.fetcher =
      SampleFetcher.next hw.apu.fetcher (fetcherInput hw.apu (hw.input env)) := rfl
  have bus : (hw.clock mmio env).bus = hw.bus.next env.answer (hw.accepts env) := rfl
  cases held : hw.bus with
  | free =>
      have state := takes.idle.mp held
      have valid : (hw.clock mmio env).apu.fetcher.chunkValid = false := by
        rw [step, SampleFetcher.next, state]
        simp [empty]
      have addr : (hw.clock mmio env).apu.fetcher.addrValid =
          (hw.apu.fetcher.addrValid || hw.apu.queuedBaseValid) := by
        rw [step]
        cases has : hw.apu.fetcher.addrValid <;> cases queued : hw.apu.queuedBaseValid <;>
          simp [SampleFetcher.next, SampleFetcher.baseAck, has, fetcherInput, queued,
            Hardware.input, held, Bus.memAck]
      have accepts : hw.accepts env = if hw.apu.fetcher.addrValid && !env.memWait then
          some (SampleFetcher.memAddr hw.apu.fetcher) else none := by
        rw [Hardware.accepts, SampleFetcher.memReadEn, state, empty]
        rfl
      rw [ahead, ahead, valid, empty, if_neg Bool.false_ne_true, if_neg Bool.false_ne_true, bus,
        held, accepts, addr]
      cases hw.apu.fetcher.addrValid <;> cases env.memWait <;> cases hw.apu.queuedBaseValid <;>
        simp [Bus.next, Bus.memAck]
  | accepted address =>
      have busy := takes.busy (fun free => Bus.noConfusion (held.symm.trans free))
      have valid : (hw.clock mmio env).apu.fetcher.chunkValid = false := by
        rw [step, SampleFetcher.next, busy]
        simp [fetcherInput, Hardware.input, held, Bus.memAck]
      rw [ahead, ahead, valid, empty, if_neg Bool.false_ne_true, if_neg Bool.false_ne_true, bus,
        held]
      cases hw.accepts env <;> simp [Bus.next, Bus.memAck]
  | served address data =>
      have busy := takes.busy (fun free => Bus.noConfusion (held.symm.trans free))
      have valid : (hw.clock mmio env).apu.fetcher.chunkValid = env.answer := by
        rw [step, SampleFetcher.next, busy]
        simp [fetcherInput, Hardware.input, held, Bus.memAck]
      rw [ahead, ahead, valid, empty, if_neg Bool.false_ne_true, bus, held]
      cases env.answer <;> cases hw.accepts env <;> simp [Bus.next, Bus.memAck]

/-- The memory looks the read up. -/
theorem ahead_serve (memory : ℕ → BitVec 8) :
    ahead (hw.serve memory) ≤ ahead hw ∧ (ahead hw = 2 → ahead (hw.serve memory) = 1) := by
  have same : (hw.serve memory).apu = hw.apu := rfl
  have bus : (hw.serve memory).bus = hw.bus.serve (doubleword memory) := rfl
  rw [ahead, ahead, same, bus]
  cases valid : hw.apu.fetcher.chunkValid <;> cases held : hw.bus <;>
    cases has : hw.apu.fetcher.addrValid <;> simp [Bus.serve]

end Ahead

/-! ## A starved player -/

section Starving

variable {Tid : Type} [DecidableEq Tid] {cfg : Config} {s s' : State Tid} {label : Label Tid}
  {d : ℕ}

/-- The player has played all its chunks, and more has been handed over. -/
structure Starving (d : ℕ) (s : State Tid) : Prop where
  idle : s.output.player.arrValid = false
  due : s.output.due = d
  more : d < apuBufSize * s.kernel.handed.length

/-- What brings the next chunk nearer. -/
def Helps (cfg : Config) (s : State Tid) (label : Label Tid) : Prop :=
  match ahead s.kernel.hw with
  | 1 => ∃ mmio env, clockIn cfg s label = some (mmio, env) ∧ env.answer = true
  | 2 => label = .kernel .serve
  | 3 => ∃ mmio env, clockIn cfg s label = some (mmio, env) ∧ env.memWait = false
  | _ => (clockIn cfg s label).isSome = true

theorem ahead_le (hw : Hardware) : ahead hw ≤ 4 := by
  rw [ahead]
  cases valid : hw.apu.fetcher.chunkValid <;> cases held : hw.bus <;>
    cases has : hw.apu.fetcher.addrValid <;> simp

theorem ahead_pos {hw : Hardware} (empty : hw.apu.fetcher.chunkValid = false) : 0 < ahead hw := by
  rw [ahead, empty]
  cases held : hw.bus <;> cases has : hw.apu.fetcher.addrValid <;> simp

/-- While more has been handed over, the fetcher has a base address or finds one. -/
theorem Linked.queued_of_starving (linked : Linked cfg s) {token : Token Tid}
    (streaming : Streaming cfg token s.kernel) (starving : Starving d s)
    (far : ahead s.kernel.hw = 4) : s.kernel.hw.apu.queuedBaseValid = true := by
  obtain ⟨empty, none⟩ : s.fetcher.chunkValid = false ∧ s.fetcher.addrValid = false := by
    rw [ahead] at far
    cases valid : s.kernel.hw.apu.fetcher.chunkValid <;> cases held : s.kernel.hw.bus <;>
      cases has : s.kernel.hw.apu.fetcher.addrValid <;> simp [valid, held, has] at far
    exact ⟨valid, has⟩
  have played : 8 * s.output.chunks.length = d :=
    (Output.due_of_starved starving.idle).symm.trans starving.due
  have returned := congrArg List.length linked.takes.taken
  rw [List.length_map, List.length_append, show s.kernel.hw.apu.fetcher.chunkValid = false from
    empty, if_neg Bool.false_ne_true, List.length_nil] at returned
  have more := starving.more
  have taken := streaming.feeding.fetching.taken
  have given := streaming.feeding.given
  have whole := streaming.feeding.fetching.between none
  rw [show s.kernel.hw.apu.fetcher.addrValid = false from none, Bool.toNat_false] at taken
  rw [apuBufSize] at more
  rw [SampleFetcher.bufChunks] at taken whole
  by_contra drained
  rw [Bool.not_eq_true] at drained
  rw [drained, Bool.toNat_false] at given
  omega

theorem Linked.starving_next (linked : Linked cfg s) {token : Token Tid}
    (streaming : Streaming cfg token s.kernel) (starving : Starving d s)
    (step : Step cfg s label s') :
    (s'.output.player.arrValid = true ∧ s'.output.due = d) ∨
    (Starving d s' ∧ ahead s'.kernel.hw ≤ ahead s.kernel.hw ∧
      (Helps cfg s label → ahead s'.kernel.hw < ahead s.kernel.hw)) := by
  have starved : s.output.now.starved = true := by simp [Output.now, starving.idle]
  have due : s'.output.due = d := by
    rcases linked.now_next step with ⟨same, -⟩ | ⟨valid, -⟩
    · exact same.trans starving.due
    · exact absurd (valid.symm.trans starved) Bool.false_ne_true
  have more : d < apuBufSize * s'.kernel.handed.length :=
    starving.more.trans_le (Nat.mul_le_mul_left _ step.handed.length_le)
  rcases step.cases_clock with ⟨mmio, env, clock, ack, hw, output⟩ | ⟨none, hw, -, -, player⟩
  · cases valid : s.fetcher.chunkValid with
    | true =>
        refine .inl ⟨?_, due⟩
        rw [output]
        simp [Output.clock, ChunkPlayer.next, ChunkPlayer.chunkAck, starving.idle, valid]
    | false =>
        refine .inr ⟨⟨?_, due, more⟩, ?_⟩
        · rw [output]
          have clocked := @ChunkPlayer.clocked_next s.output.player s.fetcher.chunk
            s.fetcher.chunkValid s.output.sampleReq
          rw [Output.clock]
          generalize ChunkPlayer.next _ _ _ _ = player' at clocked
          cases clocked with
          | takes ack => simp [ChunkPlayer.chunkAck, valid] at ack
          | ends => rfl
          | goesOn => exact starving.idle
          | waits => exact starving.idle
        · obtain ⟨low, answers, accepts, begins⟩ := @ahead_clock _ _ mmio env linked.takes valid
          rw [hw]
          refine ⟨low, fun helps => ?_⟩
          have clocked : ∀ other, clockIn cfg s label = some other → other = (mmio, env) :=
            fun other same => Option.some.inj (same.symm.trans clock)
          have bound := ahead_le s.kernel.hw
          rw [Helps] at helps
          split at helps
          · next here =>
              obtain ⟨_, other, same, answer⟩ := helps
              cases clocked _ same
              rw [here, answers answer here]
              decide
          · next here =>
              rw [helps] at clock
              cases clock
          · next here =>
              obtain ⟨_, other, same, accept⟩ := helps
              cases clocked _ same
              rw [here, accepts accept here]
              decide
          · next one two three =>
              have positive := ahead_pos valid
              have far : ahead s.kernel.hw = 4 := by
                rw [imp_false] at one two three
                omega
              rw [far, begins (linked.queued_of_starving streaming starving far) far]
              decide
  · refine .inr ⟨⟨by rw [player]; exact starving.idle, due, more⟩, ?_, fun helps => ?_⟩
    · rcases hw with hw | hw
      · rw [hw]
      · rw [hw]
        exact (ahead_serve _).1
    · rw [Helps, none] at helps
      split at helps
      · obtain ⟨_, _, clock, -⟩ := helps
        cases clock
      · next here =>
          subst helps
          cases step with
          | kernel _ kernel step wired =>
              cases step
              rw [here, show ahead _ = 1 from (ahead_serve s.kernel.shared.ddr).2 here]
              decide
      · obtain ⟨_, _, clock, -⟩ := helps
        cases clock
      · cases helps

end Starving

/-! ## Runs -/

section Runs

variable {Tid : Type} [DecidableEq Tid] {cfg : Config}

/-- The bit clock ticks, the memory looks reads up, and it neither stalls the circuit nor
holds its answers back for ever. -/
structure Fair (run : (system Tid cfg).Run) : Prop where
  ticks : ∀ n, ∃ m, n ≤ m ∧ run.label m = .tick
  serves : ∀ n, ∃ m, n ≤ m ∧ run.label m = .kernel .serve
  accepts : ∀ n, ∃ m, n ≤ m ∧ ∃ mmio env,
    clockIn cfg (run.state m) (run.label m) = some (mmio, env) ∧ env.memWait = false
  answers : ∀ n, ∃ m, n ≤ m ∧ ∃ mmio env,
    clockIn cfg (run.state m) (run.label m) = some (mmio, env) ∧ env.answer = true

variable {run : (system Tid cfg).Run} {n p d : ℕ}

theorem linked_run (run : (system Tid cfg).Run) (n : ℕ) : Linked cfg (run.state n) :=
  linked_of_reachable (run.reachable n)

/-- **A starved player is fed**, as long as more has been handed over. -/
theorem Fair.fed (fair : Fair run) (aligned : 8 ∣ cfg.dmaAddr)
    (addressable : cfg.dmaAddr + 2 * apuBufSize ≤ 2 ^ 32)
    (session : ∀ n, OneSession (run.state n).kernel.begun) (starving : Starving d (run.state n)) :
    ∃ m, n ≤ m ∧ (run.state (m + 1)).output.player.arrValid = true ∧
      (run.state (m + 1)).output.due = d := by
  have next : ∀ t, Starving d (run.state t) →
      ((run.state (t + 1)).output.player.arrValid = true ∧ (run.state (t + 1)).output.due = d) ∨
      (Starving d (run.state (t + 1)) ∧
        ahead (run.state (t + 1)).kernel.hw ≤ ahead (run.state t).kernel.hw ∧
        (Helps cfg (run.state t) (run.label t) →
          ahead (run.state (t + 1)).kernel.hw < ahead (run.state t).kernel.hw)) := by
    intro t starving
    obtain ⟨token, streaming⟩ :=
      streaming_of_reachable aligned addressable (linked_run run t).kernel (session t)
    exact (linked_run run t).starving_next streaming starving (run.step t)
  refine exists_of_helpful (fun t => ahead (run.state t).kernel.hw)
    (P := fun t => Starving d (run.state t)) (fun t holds => ?_) (fun t holds => ?_) n starving
  · rcases next t holds with done | ⟨following, low, -⟩
    · exact .inl done
    · exact .inr ⟨following, low⟩
  · -- the event that helps depends on where the chunk is
    have helpful : ∃ m, t ≤ m ∧ (ahead (run.state m).kernel.hw = ahead (run.state t).kernel.hw →
        Helps cfg (run.state m) (run.label m)) := by
      have clocked : ∃ m, t ≤ m ∧ (clockIn cfg (run.state m) (run.label m)).isSome = true := by
        obtain ⟨m, later, mmio, env, clock, -⟩ := fair.accepts t
        exact ⟨m, later, by rw [clock]; rfl⟩
      have bound := ahead_le (run.state t).kernel.hw
      generalize ahead (run.state t).kernel.hw = a at bound
      interval_cases a
      · obtain ⟨m, later, clock⟩ := clocked
        exact ⟨m, later, fun same => by rw [Helps, same]; exact clock⟩
      · obtain ⟨m, later, helps⟩ := fair.answers t
        exact ⟨m, later, fun same => by rw [Helps, same]; exact helps⟩
      · obtain ⟨m, later, helps⟩ := fair.serves t
        exact ⟨m, later, fun same => by rw [Helps, same]; exact helps⟩
      · obtain ⟨m, later, helps⟩ := fair.accepts t
        exact ⟨m, later, fun same => by rw [Helps, same]; exact helps⟩
      · obtain ⟨m, later, clock⟩ := clocked
        exact ⟨m, later, fun same => by rw [Helps, same]; exact clock⟩
    obtain ⟨m, later, helps⟩ := helpful
    refine ⟨m, later, fun here same => ?_⟩
    rcases next m here with done | ⟨following, -, falls⟩
    · exact .inl done
    · exact .inr ⟨following, falls (helps same)⟩

/-- The number of bit clocks. -/
def ticksAt (run : (system Tid cfg).Run) (n : ℕ) : ℕ := (run.state n).output.serial.ticks

def clocksAt (run : (system Tid cfg).Run) (n : ℕ) : ℕ := (run.state n).output.clocks

theorem counts_of_tick (tick : run.label n = .tick) :
    5 ≤ clocksAt run n ∧ ticksAt run (n + 1) = ticksAt run n + 1 ∧ clocksAt run (n + 1) = 0 := by
  have step := run.step n
  rw [tick] at step
  obtain ⟨rated, after⟩ := step.of_tick
  rw [ticksAt, ticksAt, clocksAt, clocksAt, after]
  exact ⟨rated, rfl, rfl⟩

theorem counts_of_kernel (other : run.label n ≠ .tick) :
    ticksAt run (n + 1) = ticksAt run n ∧
      ((clockIn cfg (run.state n) (run.label n)).isSome = true ∧
          clocksAt run (n + 1) = clocksAt run n + 1 ∨
        clocksAt run (n + 1) = clocksAt run n) := by
  have step := run.step n
  cases label : run.label n with
  | tick => exact absurd label other
  | kernel move =>
      rw [label] at step
      obtain ⟨-, -, output⟩ := step.of_kernel
      rw [ticksAt, ticksAt, clocksAt, clocksAt, output, State.outputAfter, clockIn]
      split_ifs with clock
      · exact ⟨rfl, .inl ⟨clock, rfl⟩⟩
      · exact ⟨rfl, .inr rfl⟩

/-- The word select rises again and again. -/
theorem Fair.rises (fair : Fair run) (n : ℕ) :
    ∃ m, n ≤ m ∧ run.label m = .tick ∧ ticksAt run (m + 1) % 32 = 0 := by
  refine exists_of_helpful (fun t => 31 - ticksAt run t % 32) (P := fun _ => True)
    (fun t _ => ?_) (fun t _ => ?_) n trivial
  · by_cases tick : run.label t = .tick
    · obtain ⟨-, counted, -⟩ := counts_of_tick tick
      by_cases rises : ticksAt run (t + 1) % 32 = 0
      · exact .inl ⟨tick, rises⟩
      · exact .inr ⟨trivial, by omega⟩
    · rw [(counts_of_kernel tick).1]
      exact .inr ⟨trivial, le_rfl⟩
  · obtain ⟨m, later, tick⟩ := fair.ticks t
    obtain ⟨-, counted, -⟩ := counts_of_tick tick
    refine ⟨m, later, fun _ _ => ?_⟩
    by_cases rises : ticksAt run (m + 1) % 32 = 0
    · exact .inl ⟨tick, rises⟩
    · exact .inr ⟨trivial, by omega⟩

/-- **A request comes**, and after it the sample is loaded. -/
theorem Fair.request (fair : Fair run) (n : ℕ) :
    ∃ u w, n ≤ u ∧ u < w ∧ (clockIn cfg (run.state u) (run.label u)).isSome = true ∧
      (run.state u).output.sampleReq = true ∧ run.label w = .tick ∧
      (run.state w).output.serial.i2s.loads = true := by
  obtain ⟨v, later, tick, rises⟩ := fair.rises n
  obtain ⟨-, counted, zero⟩ := counts_of_tick tick
  -- the next edge of the bit clock
  have again := fair.ticks (v + 1)
  classical
  obtain ⟨w, ⟨after, edge⟩, least⟩ : ∃ w, (v + 1 ≤ w ∧ run.label w = .tick) ∧
      ∀ k, k < w → ¬ (v + 1 ≤ k ∧ run.label k = .tick) :=
    ⟨Nat.find again, Nat.find_spec again, fun k => Nat.find_min again⟩
  have steady : ∀ k, v + 1 ≤ k → k ≤ w → ticksAt run k = ticksAt run (v + 1) := by
    intro k since
    induction k, since using Nat.le_induction with
    | base => exact fun _ => rfl
    | succ k since ih =>
        intro upTo
        exact (counts_of_kernel fun other => least k (by omega) ⟨since, other⟩).1.trans
          (ih (by omega))
  -- the fourth clock after the rise
  obtain ⟨rated, -, -⟩ := counts_of_tick edge
  have reaches : ∃ k, v + 1 ≤ k ∧ 4 ≤ clocksAt run k := ⟨w, after, by omega⟩
  obtain ⟨q, ⟨since, four⟩, first⟩ : ∃ q, (v + 1 ≤ q ∧ 4 ≤ clocksAt run q) ∧
      ∀ k, k < q → ¬ (v + 1 ≤ k ∧ 4 ≤ clocksAt run k) :=
    ⟨Nat.find reaches, Nat.find_spec reaches, fun k => Nat.find_min reaches⟩
  have upTo : q ≤ w := by
    by_contra far
    exact first w (by omega) ⟨after, by omega⟩
  have notFirst : q ≠ v + 1 := by
    rintro rfl
    omega
  obtain ⟨u, rfl⟩ : ∃ u, q = u + 1 := ⟨q - 1, by omega⟩
  have low : clocksAt run u ≤ 3 := by
    by_contra high
    exact first u (by omega) ⟨by omega, by omega⟩
  obtain ⟨-, ⟨clock, moved⟩ | same⟩ :=
    counts_of_kernel fun other => least u (by omega) ⟨by omega, other⟩
  · refine ⟨u, w, by omega, by omega, clock, ?_, edge, ?_⟩
    · refine (linked_run run u).inStep.sampleReq.mpr ⟨show clocksAt run u = 3 by omega, ?_⟩
      show ticksAt run u % 32 = 0
      rw [steady u (by omega) (by omega), rises]
    · refine (Serial.loads_iff (linked_run run w).inStep.reached).mpr ?_
      show 0 < ticksAt run w ∧ ticksAt run w % 32 = 0
      rw [steady w after le_rfl]
      exact ⟨by omega, rises⟩
  · omega

/-- The progress of the player along a run. -/
theorem due_mono {m : ℕ} (later : n ≤ m) :
    (run.state n).output.due ≤ (run.state m).output.due := by
  induction m, later using Nat.le_induction with
  | base => exact le_rfl
  | succ m later ih =>
      refine ih.trans ?_
      rcases (linked_run run m).now_next (run.step m) with ⟨same, -⟩ | ⟨-, moved⟩
      · exact (show (run.state (m + 1)).output.due = (run.state m).output.due from same).ge
      · have moved' : (run.state (m + 1)).output.due = (run.state m).output.due + 1 := moved
        omega

/-- A byte that is being played is played to its end. -/
theorem Fair.moves (fair : Fair run) (playing : (run.state n).output.player.arrValid = true) :
    ∃ m, n ≤ m ∧ (run.state n).output.due < (run.state (m + 1)).output.due := by
  by_contra moves
  have stuck : ∀ k, n ≤ k → (run.state (k + 1)).output.due ≤ (run.state n).output.due :=
    fun k later => Nat.le_of_not_lt fun moved => moves ⟨k, later, moved⟩
  have stays : ∀ k, n ≤ k → (run.state k).output.player.arrValid = true ∧
      (run.state k).output.due = (run.state n).output.due := by
    intro k since
    induction k, since using Nat.le_induction with
    | base => exact ⟨playing, rfl⟩
    | succ k since ih =>
        have bound := stuck k since
        have grows := @due_mono _ _ _ run n (k + 1) (by omega)
        refine ⟨?_, by omega⟩
        rcases (linked_run run k).now_next (run.step k) with ⟨-, still⟩ | ⟨-, moved⟩
        · have valid := still (by simp [Output.now, ih.1])
          simpa [Output.now] using valid
        · have moved' : (run.state (k + 1)).output.due = (run.state k).output.due + 1 := moved
          omega
  obtain ⟨u, -, later, -, clock, req, -⟩ := fair.request n
  obtain ⟨valid, -⟩ := stays u later
  rcases (run.step u).cases_clock with ⟨_, _, -, -, -, output⟩ | ⟨none, -⟩
  · have moves := @Output.now_clock (run.state u).output (run.state u).fetcher.chunk
      (run.state u).fetcher.chunkValid (linked_run run u).played.playing
    rcases moves with ⟨starved, -⟩ | ⟨-, -, moved⟩
    · have idle := starved req
      simp [Output.now, valid] at idle
    · rw [← output] at moved
      have moved' : (run.state (u + 1)).output.due = (run.state u).output.due + 1 := moved
      have bound := stuck u later
      have grows := @due_mono _ _ _ run n u later
      omega
  · rw [none] at clock
    cases clock

/-- Each byte that has been handed over is played to its end. -/
theorem Fair.played (fair : Fair run) (aligned : 8 ∣ cfg.dmaAddr)
    (addressable : cfg.dmaAddr + 2 * apuBufSize ≤ 2 ^ 32)
    (session : ∀ n, OneSession (run.state n).kernel.begun)
    (given : p < apuBufSize * (run.state n).kernel.handed.length) :
    ∃ m, n ≤ m ∧ p < (run.state m).output.due := by
  by_contra never
  have low : ∀ k, n ≤ k → (run.state k).output.due ≤ p :=
    fun k later => Nat.le_of_not_lt fun played => never ⟨k, later, played⟩
  have more : ∀ k, n ≤ k → p < apuBufSize * (run.state k).kernel.handed.length := by
    intro k since
    induction k, since using Nat.le_induction with
    | base => exact given
    | succ k since ih =>
        exact ih.trans_le (Nat.mul_le_mul_left _ (run.step k).handed.length_le)
  -- the progress rises without end
  have rises : ∀ d, ∃ k, n ≤ k ∧ d ≤ (run.state k).output.due := by
    intro d
    induction d with
    | zero => exact ⟨n, le_rfl, Nat.zero_le _⟩
    | succ d ih =>
        obtain ⟨k, since, reached⟩ := ih
        obtain ⟨t, later, playing, same⟩ : ∃ t, k ≤ t ∧
            (run.state t).output.player.arrValid = true ∧ d ≤ (run.state t).output.due := by
          cases valid : (run.state k).output.player.arrValid with
          | true => exact ⟨k, le_rfl, valid, reached⟩
          | false =>
              obtain ⟨m, later, playing, due⟩ := fair.fed aligned addressable session
                ⟨valid, rfl, (low k since).trans_lt (more k since)⟩
              exact ⟨m + 1, by omega, playing, by omega⟩
        obtain ⟨m, further, moved⟩ := fair.moves playing
        exact ⟨m + 1, by omega, by omega⟩
  obtain ⟨k, since, reached⟩ := rises (p + 1)
  exact absurd (low k since) (by omega)

/-- After each byte that has been handed over there is a sample on the bus. -/
theorem Fair.loaded (fair : Fair run) (aligned : 8 ∣ cfg.dmaAddr)
    (addressable : cfg.dmaAddr + 2 * apuBufSize ≤ 2 ^ 32)
    (session : ∀ n, OneSession (run.state n).kernel.begun)
    (given : p < apuBufSize * (run.state n).kernel.handed.length) :
    ∃ m, n ≤ m ∧ ∃ h ∈ (run.state m).output.heard, p < h.due := by
  obtain ⟨k, since, played⟩ := fair.played aligned addressable session given
  obtain ⟨u, w, after, before, -, -, tick, loads⟩ := fair.request k
  have step := run.step w
  rw [tick] at step
  have loaded : (run.state (w + 1)).output.heard =
      (run.state w).output.heard ++ [(run.state w).output.now] := by
    rw [step.of_tick.2]
    simp only [Output.tick, loads, if_true]
  have grows := @due_mono _ _ _ run k w (by omega)
  refine ⟨w + 1, by omega, (run.state w).output.now, ?_, played.trans_le grows⟩
  rw [loaded]
  exact List.mem_append_right _ (List.mem_singleton_self _)

/-- **Everything that is handed over is heard.** In every run of a session with a fair
environment, each byte that is handed over comes to the speaker, unless it is the first
one of a chunk that came between two samples of a starved player. (The first two bytes
may come before the first sample.) -/
theorem everything_is_heard (aligned : 8 ∣ cfg.dmaAddr)
    (addressable : cfg.dmaAddr + 2 * apuBufSize ≤ 2 ^ 32) (run : (system Tid cfg).Run)
    (fair : Fair run) (session : ∀ n, OneSession (run.state n).kernel.begun) (n p : ℕ)
    (later : 2 ≤ p) (given : p < apuBufSize * (run.state n).kernel.handed.length) :
    ∃ m, n ≤ m ∧
      ((∃ h ∈ (run.state m).output.heard, h.position = some p) ∨
        8 ∣ p ∧ ∃ i : ℕ, (run.state m).output.heard[i]? = some ⟨p, true⟩ ∧
          (run.state m).output.heard[i + 1]? = some ⟨p + 1, false⟩) := by
  obtain ⟨m, since, h, member, played⟩ := fair.loaded aligned addressable session given
  have whole := (linked_run run m).played
  exact ⟨m, since, Heard.heard_or_missed whole.chain whole.whole
    (fun h member => (whole.first h member).trans later) member played⟩

end Runs

/-! ## The session as a run -/

def sessionRun : (system Unit pageConfig).Run where
  state := session
  label n := turn n (session n)
  initial := initial_session
  step := step_session

/-- From the 800th step on it is the turn of the circuit. -/
theorem label_session {n : ℕ} (late : 800 ≤ n) :
    sessionRun.label n = circuitTurn n (session n) := if_neg (by omega)

theorem clock_session {n : ℕ} (late : 800 ≤ n) (place : n % 7 ≠ 0) (earlier : n % 7 ≠ 6) :
    sessionRun.label n = .kernel (.clock (quickEnv (session n))) := by
  rw [label_session late, circuitTurn, if_neg place, if_neg fun edge => earlier edge.1]

theorem fair_session : Fair sessionRun := by
  have clocks : ∀ n, ∃ m, n ≤ m ∧
      sessionRun.label m = .kernel (.clock (quickEnv (session m))) := fun n =>
    ⟨7 * (n + 800) + 1, by omega, clock_session (by omega) (by omega) (by omega)⟩
  refine ⟨fun n => ?_, fun n => ?_, fun n => ?_, fun n => ?_⟩
  · -- five clocks before each edge
    obtain ⟨k, k_eq⟩ : ∃ k, k = 7 * (n + 800) + 1 := ⟨_, rfl⟩
    have counted : ∀ j, j ≤ 5 → j ≤ clocksAt sessionRun (k + j) := by
      intro j within
      induction j with
      | zero => exact Nat.zero_le _
      | succ j ih =>
          have label := clock_session (n := k + j) (by omega) (by omega) (by omega)
          have step := sessionRun.step (k + j)
          rw [label] at step
          have output := step.of_kernel.2.2
          have before := ih (by omega)
          rw [clocksAt] at before ⊢
          rw [← Nat.add_assoc, output]
          exact Nat.succ_le_succ before
    refine ⟨k + 5, by omega, ?_⟩
    rw [label_session (by omega), circuitTurn, if_neg (by omega), if_pos]
    exact ⟨by omega, counted 5 le_rfl⟩
  · exact ⟨7 * (n + 800), by omega, by rw [label_session (by omega), circuitTurn, if_pos (by omega)]⟩
  · obtain ⟨m, later, label⟩ := clocks n
    exact ⟨m, later, none, _, by rw [label]; rfl, rfl⟩
  · obtain ⟨m, later, label⟩ := clocks n
    exact ⟨m, later, none, _, by rw [label]; rfl, rfl⟩

/-- Neither the handler nor the interrupt takes the turn of the process. -/
structure Undisturbed (s : State Unit) : Prop where
  irq : s.kernel.irq = .idle
  bufIrq : s.kernel.hw.apu.bufIrq = false
  irqEn : s.kernel.hw.apu.irqEn = false

theorem Undisturbed.next_session {n : ℕ} (undisturbed : Undisturbed (session n)) (early : 240 ≤ n)
    (late : n < 800) : session (n + 1) = perform (session n)
      (.kernel (.thread () (choiceOf (session n)) (quickEnv (session n)))) := by
  rw [session, turn, if_pos ⟨early, late⟩, processTurn, if_neg, if_neg]
  · rw [undisturbed.irqEn]
    decide
  · rw [undisturbed.irq, undisturbed.bufIrq]
    decide

/-- How far the `memset` of the unspecified samples is. -/
def padOf : Pc → Option ℕ
  | .writePad _ _ _ k => some k
  | _ => none

theorem padOf_eq {pc : Pc} {k : ℕ} (pad : padOf pc = some k) :
    ∃ buf len half, pc = .writePad buf len half k := by
  cases pc with
  | writePad buf len half j =>
      obtain rfl : j = k := Option.some.inj pad
      exact ⟨buf, len, half, rfl⟩
  | _ => cases pad

theorem padding_session (k : ℕ) (within : k ≤ 509) :
    padOf ((session (257 + k)).kernel.threads ()) = some (3 + k) ∧
      Undisturbed (session (257 + k)) := by
  induction k with
  | zero => exact ⟨by decide +kernel, by decide +kernel, by decide +kernel, by decide +kernel⟩
  | succ k ih =>
      obtain ⟨pad, undisturbed⟩ := ih (by omega)
      have next := undisturbed.next_session (by omega) (by omega)
      rw [← Nat.add_assoc, ← Nat.add_assoc, next]
      obtain ⟨irq, bufIrq, irqEn⟩ := undisturbed
      obtain ⟨buf, len, half, here⟩ := padOf_eq pad
      have more : 3 + k < apuBufSize := by
        rw [apuBufSize]
        omega
      refine ⟨?_, irq, ?_, ?_⟩ <;>
        simp [perform, performKernel, here, act, more, padOf, bufIrq, irqEn]

/-- The buffer is handed over, and with it the third byte. -/
theorem handed_session : ∃ n, 2 < apuBufSize * (sessionRun.state n).kernel.handed.length := by
  obtain ⟨n, n_eq⟩ : ∃ n, n = 257 + 509 := ⟨_, rfl⟩
  obtain ⟨pad, undisturbed⟩ := padding_session 509 le_rfl
  rw [← n_eq] at pad undisturbed
  obtain ⟨buf, len, half, here⟩ := padOf_eq pad
  have next := undisturbed.next_session (by omega) (by omega)
  have ends : ¬ 3 + 509 < apuBufSize := lt_irrefl _
  have sends : (session (n + 1)).kernel.threads () = .writeSend buf len := by
    rw [next]
    simp only [perform, performKernel, here, act, ends, if_false, after_threads,
      Function.update_self]
  have undisturbed' : Undisturbed (session (n + 1)) := by
    obtain ⟨irq, bufIrq, irqEn⟩ := undisturbed
    rw [next]
    refine ⟨irq, ?_, ?_⟩ <;> simp [perform, performKernel, here, act, ends, bufIrq, irqEn]
  refine ⟨n + 1 + 1, ?_⟩
  have some : 0 < (session (n + 1 + 1)).kernel.handed.length := by
    rw [undisturbed'.next_session (by omega) (by omega)]
    simp [perform, performKernel, sends, handsOver]
  show 2 < 512 * (session (n + 1 + 1)).kernel.handed.length
  omega

/-- There is a sample after the third byte of the session. -/
theorem loaded_session : ∃ m, ∃ h ∈ (session m).output.heard, 2 < h.due := by
  obtain ⟨n, given⟩ := handed_session
  obtain ⟨m, -, loaded⟩ := fair_session.loaded (by decide) (by decide) oneSession_session given
  exact ⟨m, loaded⟩

/-- What has been heard when three bytes of the process have been played. -/
theorem speaker_plays_stream_session : ∃ m, (∃ h ∈ (session m).output.heard, 2 < h.due) ∧
    (session m).output.serial.receiver.words.length =
      ((session m).output.serial.ticks - 17) / 16 ∧
    (session m).output.serial.receiver.words <+:
      (I2sComm.sent ((session m).output.heard.map (wordOf (session m).kernel.handed))).map
        fun word => ⟨word.1, I2s.msbFirst word.2⟩ := by
  obtain ⟨m, loaded⟩ := loaded_session
  obtain ⟨-, received, -⟩ := speaker_plays_stream (by decide) (by decide)
    (reachable_session m) (oneSession_session m)
  exact ⟨m, loaded, received⟩

/-- The third byte of the session is heard. -/
theorem everything_is_heard_session :
    ∃ m, ∃ h ∈ (session m).output.heard, h.position = some 2 := by
  obtain ⟨n, given⟩ := handed_session
  obtain ⟨m, -, heard | ⟨divides, -⟩⟩ := everything_is_heard (by decide) (by decide) sessionRun
    fair_session oneSession_session n 2 le_rfl given
  · exact ⟨m, heard⟩
  · exact absurd divides (by decide)

end FPGame.AudioSystem
