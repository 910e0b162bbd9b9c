import FPGame.Apu.Playback
import FPGame.Kernel.AudioStream

/-!
# The audio half of the console

The driver and the circuit of `ApuDriver`, with the output stage of `apu.sv` behind the
fetcher: `chunk_ack` is now that of the player, and the bit clock ticks between the
steps of the driver and the clocks of the circuit.

In a session, what a receiver of the bus decodes are the bytes that were handed to
`apu_write`, in order, one for each sample (`speaker_plays_stream`). Only a player that
has run out of chunks repeats a byte, and then it may miss one.
-/

set_option autoImplicit false

/-! ## The output is enabled -/

namespace FPGame.ApuDriver

open FPGame.Foundation FPGame.Apu FPGame.Linux

section Enabled

variable {Tid : Type} {cfg : Config} {s s' : State Tid}

/-- What comes of the first ioctl of a session finds the output enabled. -/
structure Enabled (s : State Tid) : Prop where
  irqEn : s.hw.apu.irqEn = true → s.hw.apu.apuEn = true
  setReq : s.irq = .setReq → s.hw.apu.apuEn = true
  req : s.shared.req = 1 → s.hw.apu.apuEn = true
  filling : ∀ tid, (s.threads tid).phase = some .filling → s.hw.apu.apuEn = true
  handed : s.handed ≠ [] → s.hw.apu.apuEn = true

theorem Enabled.of_apuEn (apuEn : s.hw.apu.apuEn = true) : Enabled s :=
  ⟨fun _ => apuEn, fun _ => apuEn, fun _ => apuEn, fun _ _ => apuEn, fun _ => apuEn⟩

theorem Enabled.initial (initial : Initial s) : Enabled s where
  irqEn armed := by
    rw [initial.hw] at armed
    cases armed
  setReq entered := by
    rw [initial.irq] at entered
    cases entered
  req one := by
    rw [initial.req] at one
    cases one
  filling tid filling := by
    rw [initial.threads tid] at filling
    cases filling
  handed some := absurd initial.handed some

/-- A step that moves nothing but a thread which does not come to fill a half. -/
theorem Enabled.carry (enabled : Enabled s) (apuEn : s'.hw.apu.apuEn = s.hw.apu.apuEn)
    (irqEn : s'.hw.apu.irqEn = s.hw.apu.irqEn) (irq : s'.irq = .setReq → s.irq = .setReq)
    (req : s'.shared.req = s.shared.req)
    (filling : ∀ tid, (s'.threads tid).phase = some .filling →
      (s.threads tid).phase = some .filling)
    (handed : s'.handed = s.handed) : Enabled s' where
  irqEn armed := apuEn.trans (enabled.irqEn (irqEn.symm.trans armed))
  setReq entered := apuEn.trans (enabled.setReq (irq entered))
  req one := apuEn.trans (enabled.req (req.symm.trans one))
  filling tid fills := apuEn.trans (enabled.filling tid (filling tid fills))
  handed some := apuEn.trans (enabled.handed (handed ▸ some))

/-- A clock without a store to the control register. -/
theorem clock_apuEn {hw : Hardware} {mmio : Option Mmio} {env : Env} (none : control mmio = none) :
    (hw.clock mmio env).apu.apuEn = hw.apu.apuEn := by
  simp only [Hardware.clock, Apu.next, none]

variable [DecidableEq Tid] {tid : Tid} {choice : Choice} {env : Env}

theorem Enabled.thread (enabled : Enabled s) (kept : (s.threads tid).releasing = false)
    (bit : s.shared.req = 0 ∨ s.shared.req = 1) :
    Enabled (s.after tid choice (act cfg s.shared (s.threads tid) choice) env) := by
  -- a thread that does not come to fill a half
  have others {pc : Pc} (now : pc.phase = some .filling → (s.threads tid).phase = some .filling)
      (other : Tid) (filling : (Function.update s.threads tid pc other).phase = some .filling) :
      (s.threads other).phase = some .filling := by
    by_cases here : other = tid
    · subst here
      rw [Function.update_self] at filling
      exact now filling
    · rwa [Function.update_of_ne here] at filling
  rcases act_effect cfg s.shared (s.threads tid) choice kept bit with
    ⟨-, phase, mmio, req, -, -, none, -⟩ | ⟨call, user, -, -, phase, mmio, shared⟩ |
    ⟨-, -, mmio, -⟩ | ⟨buf, len, here, one, out⟩ | ⟨before, -, mmio, -, -, -⟩ |
    ⟨buf, len, here, out⟩ | ⟨here, out⟩ | ⟨before, out, -⟩
  · refine enabled.carry ?_ ?_ id req (others (by rw [phase]; exact id)) ?_
    · rw [after_hw, mmio, drive_none]
    · rw [after_hw, mmio, drive_none]
    · rw [after_handed, none, List.append_nil]
  · refine enabled.carry ?_ ?_ id (by rw [after_shared, shared]) (others (by rw [phase]; nofun)) ?_
    · rw [after_hw, mmio, drive_none]
    · rw [after_hw, mmio, drive_none]
    · rw [after_handed, user]
      exact List.append_nil _
  · refine .of_apuEn ?_
    rw [after_hw, mmio]
    rfl
  · refine .of_apuEn ?_
    rw [after_hw, out]
    exact enabled.req one
  · refine .of_apuEn ?_
    rw [after_hw, mmio]
    exact enabled.filling tid before
  · refine .of_apuEn ?_
    rw [after_hw, out]
    exact (clock_apuEn (control_bufStore _)).trans
      (enabled.filling tid (by rw [here]; rfl))
  · refine enabled.carry ?_ ?_ id ?_ (others ?_) ?_
    · rw [after_hw, out, drive_none]
    · rw [after_hw, out, drive_none]
    · rw [after_shared, out]
    · rw [out]
      nofun
    · rw [after_handed, here]
      exact List.append_nil _
  · refine .of_apuEn ?_
    rw [after_hw, out]
    exact enabled.filling tid before

/-- **In a session nothing is handed over to a muted output.** -/
theorem enabled_of_reachable (aligned : 8 ∣ cfg.dmaAddr)
    (addressable : cfg.dmaAddr + 2 * apuBufSize ≤ 2 ^ 32)
    (reachable : (driver Tid cfg).Reachable s) (session : OneSession s.begun) : Enabled s := by
  induction reachable with
  | start starts => exact .initial starts
  | @next s s' label reachable step ih =>
      cases step with
      | clock env => exact (ih session).carry (clock_apuEn rfl) rfl id rfl (fun _ => id) rfl
      | serve => exact (ih session).carry rfl rfl id rfl (fun _ => id) rfl
      | thread tid choice env =>
          obtain ⟨token, streaming⟩ :=
            streaming_of_reachable aligned addressable reachable session.tail
          exact (ih session.tail).thread (streaming.kept tid) streaming.line.bit
      | irq env enters =>
          have enabled := ih session
          cases pc : s.irq with
          | idle | signal => exact enabled.carry rfl rfl nofun rfl (fun _ => id) rfl
          | ack => exact .of_apuEn rfl
          | setReq => exact .of_apuEn (enabled.setReq pc)

end Enabled

end FPGame.ApuDriver

/-! ## The system -/

namespace FPGame.AudioSystem

open FPGame.Foundation FPGame.Apu FPGame.ApuDriver FPGame.Linux

/-- The driver with the circuit up to the fetcher, and the output stage. -/
structure State (Tid : Type) where
  kernel : ApuDriver.State Tid
  output : Output

/-- Who takes a step: somebody in the driver's model, or the bit clock. -/
inductive Label (Tid : Type) where
  | kernel (label : ApuDriver.Label Tid)
  | tick

section System

variable {Tid : Type}

/-- The state of the fetcher, which the output stage is connected to. -/
def State.fetcher (s : State Tid) : SampleFetcher.State := s.kernel.hw.apu.fetcher

/-- `chunk_ack` -/
def State.chunkAck (s : State Tid) : Bool :=
  ChunkPlayer.chunkAck s.output.player s.fetcher.chunkValid

/-- The player drives `chunk_ack`. -/
def State.Wired (s : State Tid) : ApuDriver.Label Tid → Prop
  | .clock env | .thread _ _ env | .irq env => env.chunkAck = s.chunkAck
  | .serve => True

/-- The MMIO store of a step, and the inputs of its clock, if it is a clock of the circuit. -/
def clockOf (cfg : Config) (s : ApuDriver.State Tid) :
    ApuDriver.Label Tid → Option (Option Mmio × Env)
  | .clock env => some (none, env)
  | .serve => none
  | .thread tid choice env =>
      (act cfg s.shared (s.threads tid) choice).mmio.map fun store => (some store, env)
  | .irq env => (irqMmio s.irq).map fun store => (some store, env)

/-- The output stage after a step of the driver's model. -/
def State.outputAfter (cfg : Config) (s : State Tid) (label : ApuDriver.Label Tid) : Output :=
  if (clockOf cfg s.kernel label).isSome then s.output.clock s.fetcher.chunk s.fetcher.chunkValid
  else s.output

variable [DecidableEq Tid]

/-- The steps. The bit clock is slow: the circuit has five clocks and more between two
edges of it. -/
inductive Step (cfg : Config) : State Tid → Label Tid → State Tid → Prop where
  | kernel (s : State Tid) (label : ApuDriver.Label Tid) (kernel : ApuDriver.State Tid)
      (step : ApuDriver.Step cfg s.kernel label kernel) (wired : s.Wired label) :
      Step cfg s (.kernel label) { kernel := kernel, output := s.outputAfter cfg label }
  | tick (s : State Tid) (rated : s.output.Rated) :
      Step cfg s .tick { s with output := s.output.tick s.kernel.hw.apu.apuEn }

/-- The circuit is out of reset and the driver out of `apu_probe`. -/
structure Initial (s : State Tid) : Prop where
  kernel : ApuDriver.Initial s.kernel
  output : s.output = Output.reset

variable (Tid) in
/-- The driver and the whole APU. -/
def system (cfg : Config) : Transitions (State Tid) (Label Tid) where
  initial := Initial
  step := Step cfg

end System

/-! ## What the player takes -/

/-- The chunks that have been returned are those that the player has taken, and the one
that waits for it. -/
structure Takes (hw : Hardware) (chunks : List (BitVec 64)) : Prop where
  idle : hw.bus = .free ↔ hw.apu.fetcher.ramState = .idle
  waiting : hw.apu.fetcher.ramState = .readWait → hw.apu.fetcher.chunkValid = false
  taken : hw.log.map Prod.snd =
    chunks ++ if hw.apu.fetcher.chunkValid then [hw.apu.fetcher.chunk] else []

section Takes

variable {hw : Hardware} {chunks : List (BitVec 64)} {mmio : Option Mmio} {env : Env}

theorem Takes.reset : Takes Hardware.reset [] where
  idle := by decide
  waiting := nofun
  taken := rfl

theorem Takes.serve (takes : Takes hw chunks) (memory : ℕ → BitVec 8) :
    Takes (hw.serve memory) chunks := by
  refine ⟨Iff.trans ?_ takes.idle, takes.waiting, takes.taken⟩
  show hw.bus.serve _ = .free ↔ _
  cases hw.bus <;> simp [Bus.serve]

/-- **A clock of the circuit.** -/
theorem Takes.clock (takes : Takes hw chunks)
    (acks : env.chunkAck = true → hw.apu.fetcher.chunkValid = true) :
    Takes (hw.clock mmio env)
      (chunks ++ if env.chunkAck then [hw.apu.fetcher.chunk] else []) := by
  have taken := takes.taken
  have step : (hw.clock mmio env).apu.fetcher =
      SampleFetcher.next hw.apu.fetcher (fetcherInput hw.apu (hw.input env)) := rfl
  have log : (hw.clock mmio env).log = hw.log ++ (hw.bus.arrival env.answer).toList := rfl
  have bus : (hw.clock mmio env).bus = hw.bus.next env.answer (hw.accepts env) := rfl
  cases state : hw.apu.fetcher.ramState with
  | idle =>
      have free := takes.idle.mpr state
      have valid : (hw.clock mmio env).apu.fetcher.chunkValid =
          (!env.chunkAck && hw.apu.fetcher.chunkValid) := by
        rw [step, SampleFetcher.next, state]
        rfl
      have chunk : (hw.clock mmio env).apu.fetcher.chunk = hw.apu.fetcher.chunk := by
        rw [step, SampleFetcher.next, state]
      have ram : (hw.clock mmio env).apu.fetcher.ramState =
          if SampleFetcher.memReadEn hw.apu.fetcher && !env.memWait then .readWait else .idle := by
        rw [step, SampleFetcher.next, state]
        rfl
      refine ⟨?_, fun busy => ?_, ?_⟩
      · rw [bus, free, ram, Hardware.accepts]
        cases SampleFetcher.memReadEn hw.apu.fetcher && !env.memWait <;> simp [Bus.next, Bus.memAck]
      · rw [ram] at busy
        split_ifs at busy with reads
        rw [Bool.and_eq_true, SampleFetcher.memReadEn, Bool.and_eq_true, Bool.and_eq_true,
          Bool.not_eq_true'] at reads
        rw [valid, reads.1.1.2, Bool.and_false]
      · have silent : hw.bus.arrival env.answer = none := by
          rw [free]
          rfl
        rw [log, silent, valid, chunk, Option.toList_none, List.append_nil, taken]
        cases ack : env.chunkAck with
        | true => simp [acks ack]
        | false => simp
  | readWait =>
      have empty := takes.waiting state
      have none : env.chunkAck = false := by
        rw [Bool.eq_false_iff]
        exact fun ack => Bool.false_ne_true (empty.symm.trans (acks ack))
      have valid : (hw.clock mmio env).apu.fetcher.chunkValid = hw.bus.memAck env.answer := by
        rw [step, SampleFetcher.next, state]
        rfl
      have chunk : (hw.clock mmio env).apu.fetcher.chunk = hw.bus.memData env.memData := by
        rw [step, SampleFetcher.next, state]
        rfl
      have ram : (hw.clock mmio env).apu.fetcher.ramState =
          if hw.bus.memAck env.answer then .idle else .readWait := by
        rw [step, SampleFetcher.next, state]
        rfl
      rw [empty, if_neg Bool.false_ne_true, List.append_nil] at taken
      refine ⟨?_, fun busy => ?_, ?_⟩
      · have notFree : hw.bus ≠ .free := fun free => by
          rw [takes.idle.mp free] at state
          cases state
        rw [bus, ram]
        cases held : hw.bus with
        | free => exact absurd held notFree
        | accepted => simp [Bus.next, Bus.memAck]
        | served => cases env.answer <;> simp [Bus.next, Bus.memAck]
      · rw [ram] at busy
        rw [valid]
        split_ifs at busy with ack
        exact Bool.eq_false_iff.mpr ack
      · rw [log, List.map_append, taken, none, if_neg Bool.false_ne_true, List.append_nil, valid,
          chunk]
        cases held : hw.bus with
        | free | accepted => simp [Bus.arrival, Bus.memAck]
        | served address data => cases env.answer <;> simp [Bus.arrival, Bus.memAck, Bus.memData]

end Takes

/-! ## The invariant of the system -/

section Linked

variable {Tid : Type} [DecidableEq Tid] {cfg : Config} {s s' : State Tid}

/-- What a step of the driver's model does to the circuit. -/
theorem hw_of_step {s s' : ApuDriver.State Tid} {label : ApuDriver.Label Tid}
    (step : ApuDriver.Step cfg s label s') :
    (∃ mmio env, clockOf cfg s label = some (mmio, env) ∧ s'.hw = s.hw.clock mmio env) ∨
    (clockOf cfg s label = none ∧ (s'.hw = s.hw ∨ s'.hw = s.hw.serve s.shared.ddr)) := by
  cases step with
  | clock env => exact .inl ⟨none, env, rfl, rfl⟩
  | serve => exact .inr ⟨rfl, .inr rfl⟩
  | thread tid choice env =>
      cases mmio : (act cfg s.shared (s.threads tid) choice).mmio with
      | none =>
          refine .inr ⟨by rw [clockOf, mmio]; rfl, .inl ?_⟩
          rw [after_hw, mmio, drive_none]
      | some store =>
          refine .inl ⟨some store, env, by rw [clockOf, mmio]; rfl, ?_⟩
          rw [after_hw, mmio, drive_some]
  | irq env enters =>
      cases mmio : irqMmio s.irq with
      | none => exact .inr ⟨by rw [clockOf, mmio]; rfl, .inl rfl⟩
      | some store => exact .inl ⟨some store, env, by rw [clockOf, mmio]; rfl, rfl⟩

omit [DecidableEq Tid] in
/-- The player drives `chunk_ack` in a clock. -/
theorem State.Wired.chunkAck {label : ApuDriver.Label Tid} (wired : s.Wired label)
    {mmio : Option Mmio} {env : Env} (clock : clockOf cfg s.kernel label = some (mmio, env)) :
    env.chunkAck = s.chunkAck := by
  cases label with
  | clock other =>
      cases clock
      exact wired
  | serve => cases clock
  | thread tid choice other =>
      obtain ⟨_, -, same⟩ := Option.map_eq_some_iff.mp clock
      cases same
      exact wired
  | irq other =>
      obtain ⟨_, -, same⟩ := Option.map_eq_some_iff.mp clock
      cases same
      exact wired

/-- **The driver, the fetcher and the output stage.** -/
structure Linked (cfg : Config) (s : State Tid) : Prop where
  kernel : (driver Tid cfg).Reachable s.kernel
  takes : Takes s.kernel.hw s.output.chunks
  inStep : s.output.InStep
  played : s.output.Played

theorem linked_of_reachable (reachable : (system Tid cfg).Reachable s) : Linked cfg s := by
  refine reachable.invariant (P := Linked cfg) (fun s initial => ?_) fun s label s' linked step => ?_
  · obtain ⟨kernel, output⟩ := initial
    refine ⟨.start kernel, ?_, ?_, ?_⟩
    · rw [kernel.hw, output]
      exact .reset
    · rw [output]
      exact .reset
    · rw [output]
      exact .reset
  · cases step with
    | tick rated =>
        exact ⟨linked.kernel, linked.takes, linked.inStep.tick rated,
          linked.played.tick linked.inStep rated⟩
    | kernel label kernel step wired =>
        refine ⟨linked.kernel.next step, ?_, ?_, ?_⟩
        all_goals simp only [State.outputAfter]
        all_goals rcases hw_of_step step with ⟨mmio, env, clock, hw⟩ | ⟨none, hw⟩
        · have ack := wired.chunkAck clock
          rw [clock, Option.isSome_some, if_pos rfl, hw]
          have next : Takes (s.kernel.hw.clock mmio env) _ := linked.takes.clock fun high => by
            rw [ack, State.chunkAck, ChunkPlayer.chunkAck, Bool.and_eq_true] at high
            exact high.1
          rw [ack] at next
          exact next
        · rw [none, Option.isSome_none, if_neg Bool.false_ne_true]
          rcases hw with hw | hw
          · exact hw ▸ linked.takes
          · exact hw ▸ linked.takes.serve _
        · rw [clock, Option.isSome_some, if_pos rfl]
          exact linked.inStep.clock
        · rw [none, Option.isSome_none, if_neg Bool.false_ne_true]
          exact linked.inStep
        · rw [clock, Option.isSome_some, if_pos rfl]
          exact linked.played.clock linked.inStep
        · rw [none, Option.isSome_none, if_neg Bool.false_ne_true]
          exact linked.played

end Linked

/-! ## The bytes that are heard -/

/-- The byte at a position of what has been handed over. -/
def byteAt (handed : List Buffer) (p : ℕ) : BitVec 8 :=
  streamByte handed (p / apuBufSize) (p % apuBufSize)

/-- The sample for a byte, or silence. -/
def wordOf (handed : List Buffer) (h : Heard) : BitVec 16 :=
  match h.position with
  | some p => byteAt handed p ++ (0 : BitVec 8)
  | none => 0

theorem byteAt_append {handed later : List Buffer} {p : ℕ} (before : p < apuBufSize * handed.length) :
    byteAt (handed ++ later) p = byteAt handed p := by
  have place : p / apuBufSize < handed.length := Nat.div_lt_of_lt_mul before
  rw [byteAt, byteAt, streamByte, streamByte, List.getElem?_append_left place]

/-- What was loaded are the bytes of the stream. -/
structure Spoken (handed : List Buffer) (output : Output) : Prop where
  words : output.serial.loaded = output.heard.map (wordOf handed)
  within : ∀ h ∈ output.heard, ∀ p ∈ h.position, p < apuBufSize * handed.length

section Spoken

variable {Tid : Type} [DecidableEq Tid] {cfg : Config} {s s' : State Tid}

theorem Spoken.reset : Spoken [] Output.reset where
  words := rfl
  within _ member := by cases member

/-- More is handed over. -/
theorem Spoken.append {handed : List Buffer} {output : Output} (spoken : Spoken handed output)
    (later : List Buffer) : Spoken (handed ++ later) output := by
  refine ⟨?_, fun h member p position => ?_⟩
  · rw [spoken.words]
    refine List.map_congr_left fun h member => ?_
    have within := spoken.within h member
    rw [wordOf, wordOf]
    cases position : h.position with
    | none => rfl
    | some p => exact congrArg (· ++ (0 : BitVec 8)) (byteAt_append (within p position)).symm
  · have before := spoken.within h member p position
    rw [List.length_append, Nat.mul_add]
    omega

/-- A chunk of the player is one of the stream. -/
theorem Linked.chunk_eq (linked : Linked cfg s) {token : Token Tid}
    (streaming : Streaming cfg token s.kernel) {i : ℕ} {chunk : BitVec 64}
    (taken : s.output.chunks[i]? = some chunk) :
    i / SampleFetcher.bufChunks < s.kernel.handed.length ∧
      chunk = streamWord s.kernel.handed i := by
  have fetching := streaming.feeding.fetching
  have returned : (s.kernel.hw.log.map Prod.snd)[i]? = some chunk := by
    rw [linked.takes.taken, List.getElem?_append_left (List.getElem?_eq_some_iff.mp taken).1, taken]
  rw [fetching.log, List.map_map, List.getElem?_map, Option.map_eq_some_iff] at returned
  obtain ⟨j, here, rfl⟩ := returned
  obtain ⟨within, same⟩ := List.getElem?_eq_some_iff.mp here
  rw [List.length_range] at within
  rw [List.getElem_range] at same
  subst same
  refine ⟨?_, rfl⟩
  have taken' := fetching.taken
  have between := fetching.between
  have given := streaming.feeding.given
  rw [SampleFetcher.bufChunks] at taken' between ⊢
  cases valid : s.kernel.hw.apu.fetcher.addrValid with
  | true =>
      rw [valid, Bool.toNat_true] at taken'
      omega
  | false =>
      have whole := between valid
      omega

/-- **What the player holds is a byte that was handed over.** -/
theorem Linked.sample_eq (linked : Linked cfg s) {token : Token Tid}
    (streaming : Streaming cfg token s.kernel) {p : ℕ}
    (position : s.output.now.position = some p) :
    p < apuBufSize * s.kernel.handed.length ∧
      ChunkPlayer.sample s.output.player = byteAt s.kernel.handed p := by
  obtain ⟨taken, index⟩ := Output.held_of_position linked.played.playing position
  obtain ⟨within, chunk⟩ := linked.chunk_eq streaming taken
  rw [SampleFetcher.bufChunks] at within
  refine ⟨by rw [apuBufSize]; omega, ?_⟩
  rw [ChunkPlayer.sample, ← index, chunk, streamWord, byte_doubleword _ _
    (Nat.mod_lt _ (by decide)), byteAt, SampleFetcher.bufChunks, apuBufSize]
  congr 1 <;> omega

/-- **An edge of the bit clock.** -/
theorem Spoken.tick (spoken : Spoken s.kernel.handed s.output) (linked : Linked cfg s)
    {token : Token Tid} (streaming : Streaming cfg token s.kernel) (enabled : Enabled s.kernel) :
    Spoken s.kernel.handed (s.output.tick s.kernel.hw.apu.apuEn) := by
  have sample : s.output.i2sSample s.kernel.hw.apu.apuEn = wordOf s.kernel.handed s.output.now := by
    rw [wordOf, Output.i2sSample]
    cases position : s.output.now.position with
    | none =>
        rw [Output.silent_of_position linked.played.playing position]
        exact ite_self _
    | some p =>
        obtain ⟨within, byte⟩ := linked.sample_eq streaming position
        have some : s.kernel.handed ≠ [] := by
          intro none
          rw [none] at within
          exact Nat.not_lt_zero p within
        rw [enabled.handed some, byte]
        rfl
  cases load : s.output.serial.i2s.loads with
  | false =>
      have loaded : (s.output.tick s.kernel.hw.apu.apuEn).serial.loaded =
          s.output.serial.loaded := by simp [Output.tick, Serial.next, load]
      have heard : (s.output.tick s.kernel.hw.apu.apuEn).heard = s.output.heard := by
        simp [Output.tick, load]
      exact ⟨by rw [loaded, heard, spoken.words], by rw [heard]; exact spoken.within⟩
  | true =>
      have loaded : (s.output.tick s.kernel.hw.apu.apuEn).serial.loaded =
          s.output.serial.loaded ++ [s.output.i2sSample s.kernel.hw.apu.apuEn] := by
        simp [Output.tick, Serial.next, load]
      have heard : (s.output.tick s.kernel.hw.apu.apuEn).heard =
          s.output.heard ++ [s.output.now] := by simp [Output.tick, load]
      refine ⟨by rw [loaded, heard, List.map_append, spoken.words, sample]; rfl, ?_⟩
      rw [heard]
      intro h member p position
      rw [List.mem_append, List.mem_singleton] at member
      rcases member with before | rfl
      · exact spoken.within h before p position
      · exact (linked.sample_eq streaming position).1

theorem spoken_of_reachable (aligned : 8 ∣ cfg.dmaAddr)
    (addressable : cfg.dmaAddr + 2 * apuBufSize ≤ 2 ^ 32)
    (reachable : (system Tid cfg).Reachable s) (session : OneSession s.kernel.begun) :
    Spoken s.kernel.handed s.output := by
  induction reachable with
  | start starts =>
      rw [starts.kernel.handed, starts.output]
      exact .reset
  | @next s s' label reachable step ih =>
      have linked := linked_of_reachable reachable
      cases step with
      | tick rated =>
          obtain ⟨token, streaming⟩ :=
            streaming_of_reachable aligned addressable linked.kernel session
          exact (ih session).tick linked streaming
            (enabled_of_reachable aligned addressable linked.kernel session)
      | kernel label kernel step wired =>
          have carried : Spoken s.kernel.handed s.output →
              Spoken s.kernel.handed (s.outputAfter cfg label) := by
            intro spoken
            rw [State.outputAfter]
            split_ifs
            · exact ⟨spoken.words, spoken.within⟩
            · exact spoken
          cases step with
          | clock | serve | irq => exact carried (ih session)
          | thread => exact (carried (ih session.tail)).append _

end Spoken

/-! ## The main result -/

section Main

variable {Tid : Type} [DecidableEq Tid] {cfg : Config} {s : State Tid}

/-- **The speaker plays the stream.** In every state of a session, with any number of
threads, any order of their steps, the handler, the memory and the two clocks:

1. the circuit gives the driver an environment that its model allows;
2. a receiver of the bus has decoded one word in 16 bit clocks, and these words are a
   zero and then, twice each, the bytes at the positions that were heard, of what was
   handed to `apu_write`;
3. while the player is not starved, each of these positions is the one after the last;
   a player that is starved repeats the last byte of a chunk, and may miss the next;
4. a player is starved only when it has played all that the memory has returned, but
   for a chunk that has come in this clock. -/
theorem speaker_plays_stream (aligned : 8 ∣ cfg.dmaAddr)
    (addressable : cfg.dmaAddr + 2 * apuBufSize ≤ 2 ^ 32)
    (reachable : (system Tid cfg).Reachable s) (session : OneSession s.kernel.begun) :
    (driver Tid cfg).Reachable s.kernel ∧
    (s.output.serial.receiver.words.length = (s.output.serial.ticks - 17) / 16 ∧
      s.output.serial.receiver.words <+:
        (I2sComm.sent (s.output.heard.map (wordOf s.kernel.handed))).map fun word =>
          ⟨word.1, I2s.msbFirst word.2⟩) ∧
    (s.output.heard.IsChain Heard.Follows ∧
      (∀ h ∈ s.output.heard.head?, h.due ≤ 2) ∧
      (∀ h ∈ s.output.heard, (h.starved = true → 8 ∣ h.due) ∧
        ∀ p ∈ h.position, p < apuBufSize * s.kernel.handed.length) ∧
      ∀ (i n : ℕ) (a b : Heard), s.output.heard[i]? = some a → s.output.heard[i + n]? = some b →
        (∀ (k : ℕ) (h : Heard), k < n → s.output.heard[i + k]? = some h → h.starved = false) →
          b.due = a.due + n) ∧
    (s.output.now.starved = true → 8 * s.kernel.hw.log.length ≤ s.output.now.due + 8) := by
  have linked := linked_of_reachable reachable
  have played := linked.played
  have spoken := spoken_of_reachable aligned addressable reachable session
  have received := Serial.received_of_reached linked.inStep.reached
  rw [spoken.words] at received
  refine ⟨linked.kernel, received, ⟨played.chain, played.first,
    fun h member => ⟨played.whole h member, spoken.within h member⟩,
    fun i n a b first last fed => Heard.due_of_chain played.chain i n first last fed⟩,
    fun starved => ?_⟩
  have idle : s.output.player.arrValid = false := by simpa [Output.now] using starved
  have due : s.output.now.due = 8 * s.output.chunks.length := Output.due_of_starved idle
  have length := congrArg List.length linked.takes.taken
  rw [List.length_map, List.length_append] at length
  split_ifs at length with valid
  · rw [List.length_singleton] at length
    omega
  · rw [List.length_nil] at length
    omega

end Main

/-! ## A session -/

/-- A memory that does not let the circuit wait. -/
def quickEnv (s : State Unit) : Env where
  answer := true
  memWait := false
  chunkAck := s.chunkAck
  memData := 0

/-- A process registers itself and hands three bytes over. -/
def choiceOf (s : State Unit) : Choice :=
  match s.kernel.threads (), s.kernel.begun with
  | .user, [] => .call (.ioctl ioctlApuSetCallbackPid 7)
  | .user, [_] => if s.kernel.shared.req = 1 then .call (.write (some beep) 3) else .advance
  | _, _ => .advance

/-- The circuit and the bit clock take turns. -/
def circuitTurn (n : ℕ) (s : State Unit) : Label Unit :=
  if n % 7 = 0 then .kernel .serve
  else if n % 7 = 6 ∧ s.output.Rated then .tick
  else .kernel (.clock (quickEnv s))

/-- The handler goes first, and the process waits for it after the ioctl. -/
def processTurn (s : State Unit) : Label Unit :=
  if s.kernel.irq ≠ .idle ∨ s.kernel.hw.apu.bufIrq = true then .kernel (.irq (quickEnv s))
  else if s.kernel.hw.apu.irqEn = true then .kernel (.clock (quickEnv s))
  else .kernel (.thread () (choiceOf s) (quickEnv s))

def turn (n : ℕ) (s : State Unit) : Label Unit :=
  if 240 ≤ n ∧ n < 800 then processTurn s else circuitTurn n s

/-- The state after a step of the driver's model. -/
def performKernel (s : ApuDriver.State Unit) : ApuDriver.Label Unit → ApuDriver.State Unit
  | .clock env => { s with hw := s.hw.clock none env }
  | .serve => { s with hw := s.hw.serve s.shared.ddr }
  | .thread tid choice env =>
      s.after tid choice (act pageConfig s.shared (s.threads tid) choice) env
  | .irq env =>
      { s with
        shared := irqShared s.shared s.irq
        irq := irqPc s.irq
        hw := drive s.hw (irqMmio s.irq) env }

def perform (s : State Unit) : Label Unit → State Unit
  | .tick => { s with output := s.output.tick s.kernel.hw.apu.apuEn }
  | .kernel label =>
      { kernel := performKernel s.kernel label, output := s.outputAfter pageConfig label }

def session : ℕ → State Unit
  | 0 => { kernel := loaded, output := Output.reset }
  | n + 1 => perform (session n) (turn n (session n))

theorem step_session (n : ℕ) :
    Step pageConfig (session n) (turn n (session n)) (session (n + 1)) := by
  rw [session]
  generalize session n = s
  simp only [turn, processTurn, circuitTurn]
  split_ifs with process entered waits serve tick
  · refine .kernel s _ _ (.irq s.kernel _ fun idle => ?_) rfl
    exact entered.resolve_left (not_not_intro idle)
  · exact .kernel s _ _ (.clock s.kernel _) rfl
  · exact .kernel s _ _ (.thread s.kernel () _ _) rfl
  · exact .kernel s _ _ (.serve s.kernel) trivial
  · exact .tick s tick.2
  · exact .kernel s _ _ (.clock s.kernel _) rfl

theorem initial_session : Initial (session 0) where
  kernel := ⟨rfl, rfl, rfl, rfl, rfl, fun _ => rfl, rfl, rfl, rfl, rfl⟩
  output := rfl

theorem reachable_session (n : ℕ) : (system Unit pageConfig).Reachable (session n) := by
  induction n with
  | zero => exact .start initial_session
  | succ n ih => exact ih.next (step_session n)

/-- The process makes two calls. -/
theorem begun_session (n : ℕ) : (session n).kernel.begun = [] ∨
    (session n).kernel.begun = [.ioctl ioctlApuSetCallbackPid 7] ∨
    (session n).kernel.begun = [.write (some beep) 3, .ioctl ioctlApuSetCallbackPid 7] := by
  induction n with
  | zero => exact .inl rfl
  | succ n ih =>
      rw [session]
      generalize session n = s at ih
      simp only [turn, processTurn, circuitTurn]
      split_ifs
      · exact ih
      · exact ih
      · show begins (s.kernel.threads ()) (choiceOf s) ++ s.kernel.begun = [] ∨
          begins (s.kernel.threads ()) (choiceOf s) ++ s.kernel.begun = _ ∨
          begins (s.kernel.threads ()) (choiceOf s) ++ s.kernel.begun = _
        cases outside : s.kernel.threads () with
        | user =>
            rcases ih with none | one | two
            · simp [choiceOf, outside, none, begins]
            · simp only [choiceOf, outside, one]
              split_ifs
              · exact .inr (.inr rfl)
              · exact .inr (.inl rfl)
            · simp [choiceOf, outside, two, begins]
        | _ => exact ih
      · exact ih
      · exact ih
      · exact ih

theorem oneSession_session (n : ℕ) : OneSession (session n).kernel.begun := by
  rcases begun_session n with none | one | two
  · rw [none]
    exact ⟨by decide, nofun⟩
  · rw [one]
    exact ⟨by decide, by simp [Call.isRelease]⟩
  · rw [two]
    exact ⟨by decide, by simp [Call.isRelease]⟩

end FPGame.AudioSystem
