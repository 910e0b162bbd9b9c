import FPGame.Ppu.FrameHandoff

/-!
# DMA requests

The CPU may write the DMA source address at any time. `Kept` says that no
address is lost: the PIO holds it until the PPU takes it, and it is replaced
before that or becomes the source of a transfer that the engine accepts.

The PIO is acknowledged by its own `update_avail`, so it holds an address for
one clock. `requests_kept` is the exact condition: in that clock the PPU takes
the address and finds the engine idle one clock later, or the CPU writes again.
`request_dropped` is a run with two writes in which the second is lost because
the first image waits for the vertical blank.
-/

set_option autoImplicit false

namespace FPGame.FrameHandoff

open FPGame.Foundation FPGame.Vram FPGame.Dma FPGame.Ppu

/-! ## What is to be kept -/

/-- The PPU takes the address that the PIO holds. -/
def System.takes (s : System) (x : Input) : Bool := s.fsm.takes (s.fsmInput x)

section Kept

variable (sys : ℕ → System) (inputs : ℕ → Input)

/-- The CPU writes again before the address of clock `w` has been taken. -/
def Replaced (w : ℕ) : Prop :=
  ∃ w', w < w' ∧ (inputs w').write.isSome = true ∧
    ∀ u, w < u → u ≤ w' → (sys u).takes (inputs u) = false

/-- The address of clock `w` is taken, and the engine accepts a start with it. -/
def Accepted (w : ℕ) (src : BitVec 32) : Prop :=
  ∃ u, w < u ∧ (∀ v, w < v → v < u → (inputs v).write = none) ∧
    (sys u).takes (inputs u) = true ∧
    (sys (u + 1)).begins (inputs (u + 1)) = true ∧ (sys (u + 1)).fsm.dmaEngineSrcAddr = src

/-- `update_avail` stays high until the PPU takes the address, and no address is lost. -/
def Kept : Prop :=
  (∀ t, (sys t).pio.updateAvail = true → (sys t).takes (inputs t) = false →
    (sys (t + 1)).pio.updateAvail = true) ∧
  ∀ w src, (inputs w).write = some src → Replaced sys inputs w ∨ Accepted sys inputs w src

/-- In the clock after the write, no image waits for its copy and the engine
will be idle in the next one; or one waits, and the CPU writes again. -/
def Timely (w : ℕ) : Prop :=
  ((sys (w + 1)).fsm.dmaRdyForSync = false ∧ (sys (w + 2)).bus.engine.started = false) ∨
    ((sys (w + 1)).fsm.dmaRdyForSync = true ∧ (inputs (w + 1)).write.isSome = true)

end Kept

/-! ## The way of an address -/

section Step

variable {s : System} {x : Input}

/-- As it is wired, the PIO holds an address for one clock. -/
theorem next_updateAvail_eq : (s.next x).pio.updateAvail = x.write.isSome := by
  cases write : x.write with
  | none => exact next_updateAvail write
  | some src => simp [System.next, Pio.next, write]

theorem next_rddata {src : BitVec 32} (write : x.write = some src) :
    (s.next x).pio.rddata = src := by
  simp [System.next, Pio.next, write]

theorem takes_eq : s.takes x = (s.pio.updateAvail && !s.fsm.dmaRdyForSync) := rfl

theorem next_srcAddr (takes : s.takes x = true) :
    (s.next x).fsm.dmaEngineSrcAddr = s.pio.rddata := if_pos takes

theorem begins_eq : s.begins x = (s.fsm.dmaEngineStart && !s.bus.engine.started) := rfl

end Step

section Runs

variable {memArray : ℕ → BitVec 128} {vram : Vram.State} {inputs : ℕ → Input}

/-- The PIO shows the write of the clock before. -/
theorem updateAvail_succ (t : ℕ) :
    ((machine memArray vram).run inputs (t + 1)).pio.updateAvail = (inputs t).write.isSome :=
  next_updateAvail_eq

theorem takes_succ (t : ℕ) :
    ((machine memArray vram).run inputs (t + 1)).takes (inputs (t + 1)) =
      ((inputs t).write.isSome &&
        !((machine memArray vram).run inputs (t + 1)).fsm.dmaRdyForSync) := by
  rw [takes_eq, updateAvail_succ]

/-- An address that is taken is on its way to the engine in the clock after. -/
theorem accepted_of_takes {w : ℕ} {src : BitVec 32} (write : (inputs w).write = some src)
    (takes : ((machine memArray vram).run inputs (w + 1)).takes (inputs (w + 1)) = true)
    (idle : ((machine memArray vram).run inputs (w + 2)).bus.engine.started = false) :
    Accepted ((machine memArray vram).run inputs) inputs w src := by
  refine ⟨w + 1, Nat.lt_succ_self w, fun v after before => by omega, takes, ?_, ?_⟩
  · rw [begins_eq, idle, Bool.not_false, Bool.and_true]
    exact takes
  · exact (next_srcAddr takes).trans (next_rddata write)

/-- An address that is accepted was taken in the clock after its write. -/
theorem Accepted.takes {w : ℕ} {src : BitVec 32}
    (accepted : Accepted ((machine memArray vram).run inputs) inputs w src) :
    ((machine memArray vram).run inputs (w + 1)).takes (inputs (w + 1)) = true ∧
      ((machine memArray vram).run inputs (w + 2)).begins (inputs (w + 2)) = true := by
  obtain ⟨u, after, silent, takes, begins, -⟩ := accepted
  obtain ⟨v, rfl⟩ : ∃ v, u = v + 1 := ⟨u - 1, by omega⟩
  -- the PIO shows a write of the clock before, and there is none after `w`
  have here : v = w := by
    by_contra elsewhere
    rw [takes_succ, silent v (by omega) (Nat.lt_succ_self v)] at takes
    cases takes
  rw [here] at takes begins
  exact ⟨takes, begins⟩

/-- **Requests are kept** in a run if and only if every write of it is timely. -/
theorem requests_kept (memArray : ℕ → BitVec 128) (vram : Vram.State) (inputs : ℕ → Input) :
    Kept ((machine memArray vram).run inputs) inputs ↔
      ∀ w, (inputs w).write.isSome = true →
        Timely ((machine memArray vram).run inputs) inputs w := by
  constructor
  · rintro ⟨held, kept⟩ w write
    have avail : ((machine memArray vram).run inputs (w + 1)).pio.updateAvail = true :=
      (updateAvail_succ w).trans write
    cases rdy : ((machine memArray vram).run inputs (w + 1)).fsm.dmaRdyForSync with
    | true =>
        -- the PPU does not take the address, so a write has to hold `update_avail`
        have passes :
            ((machine memArray vram).run inputs (w + 1)).takes (inputs (w + 1)) = false := by
          rw [takes_succ, rdy, Bool.not_true, Bool.and_false]
        have again := held (w + 1) avail passes
        rw [updateAvail_succ] at again
        exact .inr ⟨rdy, again⟩
    | false =>
        have takes : ((machine memArray vram).run inputs (w + 1)).takes (inputs (w + 1)) = true := by
          rw [takes_succ, rdy, write]
          rfl
        obtain ⟨src, address⟩ := Option.isSome_iff_exists.mp write
        rcases kept w src address with ⟨w', after, -, passes⟩ | accepted
        · exact absurd (takes.symm.trans (passes (w + 1) (by omega) after)) (by simp)
        · have begins := accepted.takes.2
          rw [begins_eq, Bool.and_eq_true, Bool.not_eq_true'] at begins
          exact .inl ⟨rdy, begins.2⟩
  · intro timely
    refine ⟨fun t avail passes => ?_, fun w src write => ?_⟩
    · cases t with
      | zero => cases avail
      | succ w =>
          rw [updateAvail_succ] at avail ⊢
          rw [takes_succ, avail, Bool.true_and, Bool.not_eq_false'] at passes
          rcases timely w avail with ⟨rdy, -⟩ | ⟨-, again⟩
          · exact absurd (rdy.symm.trans passes) (by simp)
          · exact again
    · have written : (inputs w).write.isSome = true := by rw [write]; rfl
      rcases timely w written with ⟨rdy, idle⟩ | ⟨rdy, again⟩
      · refine .inr (accepted_of_takes write ?_ idle)
        rw [takes_succ, rdy, written]
        rfl
      · refine .inl ⟨w + 1, Nat.lt_succ_self w, again, fun u after bound => ?_⟩
        obtain rfl : u = w + 1 := by omega
        rw [takes_succ, rdy, Bool.not_true, Bool.and_false]

/-! ## An address that is lost -/

/-- An address that is written while an image waits, and not written again, is
dropped by the PIO. -/
theorem not_held_of_ready {w : ℕ} (write : (inputs w).write.isSome = true)
    (rdy : ((machine memArray vram).run inputs (w + 1)).fsm.dmaRdyForSync = true)
    (once : (inputs (w + 1)).write = none) :
    ((machine memArray vram).run inputs (w + 1)).pio.updateAvail = true ∧
      ((machine memArray vram).run inputs (w + 1)).takes (inputs (w + 1)) = false ∧
      ((machine memArray vram).run inputs (w + 2)).pio.updateAvail = false := by
  refine ⟨(updateAvail_succ w).trans write, ?_, ?_⟩
  · rw [takes_succ, rdy, Bool.not_true, Bool.and_false]
  · rw [updateAvail_succ, once]
    rfl

/-- The DMA engine with its bus, inside a run of the composition. -/
theorem run_bus (memArray : ℕ → BitVec 128) (vram : Vram.State) (inputs : ℕ → Input)
    (cpu : CpuFacing) (t : ℕ) :
    ((Dma.machine memArray cpu).run
        (fun u => ((machine memArray vram).run inputs u).busInput (inputs u)) t).bus =
      ((machine memArray vram).run inputs t).bus := by
  induction t with
  | zero => rfl
  | succ t ih =>
      rw [Machine.run_succ, Machine.run_succ]
      exact congrArg (fun bus : Bus => bus.next (((machine memArray vram).run inputs t).busInput
        (inputs t))) ih

/-- On a bus that does not stall, and with a memory that holds still, a start
that is accepted leads to `dma_engine_finish`. -/
theorem finish_of_begins {memory : BitVec 32 → BitVec 128} {t₀ : ℕ}
    (begins : ((machine memArray vram).run inputs t₀).begins (inputs t₀) = true)
    (still : ∀ t, (inputs t).memory = memory)
    (steady : ∀ t, (inputs t).readWaitrequest = false ∧ (inputs t).writeWaitrequest = false ∧
      (inputs t).respond = true) :
    ∃ t₁, ((machine memArray vram).run inputs t₁).bus.engine.done = true := by
  have bus := run_bus memArray vram inputs fun _ _ => 0
  rw [begins_eq, Bool.and_eq_true, Bool.not_eq_true'] at begins
  have starts : Starts memArray (fun _ _ => 0)
      (fun u => ((machine memArray vram).run inputs u).busInput (inputs u)) t₀ :=
    ⟨by rw [bus]; exact begins.2, begins.1⟩
  obtain ⟨t₁, finishes⟩ := starts.finishes (fun t _ => still t)
    ⟨fun t => ⟨t, le_rfl, (steady t).1⟩, fun t => ⟨t, le_rfl, (steady t).2.1⟩,
      fun t => ⟨t, le_rfl, (steady t).2.2⟩⟩
  have raised := finishes.2.1
  rw [System.finish, bus] at raised
  exact ⟨t₁, raised⟩

end Runs

/-- The frame of `firstFrame` comes to wait for the vertical blank. -/
theorem ready_firstFrame (memArray : ℕ → BitVec 128) (vram : Vram.State) :
    ∃ w frame, 0 < w ∧ Holds frame .ready ((machine memArray vram).run firstFrame w) := by
  have given := callersGuarantee_firstFrame memArray vram
  obtain ⟨begins, -⟩ := given.begins_of_write (w := 0) rfl
  obtain ⟨t₁, done⟩ := finish_of_begins begins (fun _ => rfl)
    fun _ => ⟨rfl, rfl, rfl⟩
  obtain ⟨stage, frame, w, tracks⟩ := given.tracks t₁
  have finished : stage = .finished := by
    rw [tracks.holds.done, decide_eq_true_eq] at done
    exact done
  subst finished
  have noWrite := given.write w t₁ (tracks.outstanding (by simp))
  exact ⟨t₁ + 1, frame, Nat.succ_pos t₁, (tracks.holds.next_finished noWrite).1⟩

/-- The CPU writes an address out of reset and another one in clock `w`. -/
def secondFrame (w t : ℕ) : Input :=
  { firstFrame t with write := if t = 0 then some 0x2000 else if t = w then some 0x3000 else none }

/-- The second address is lost when it is written while the first image waits. -/
theorem request_dropped :
    ∃ w, ¬ Kept ((machine (fun _ => 0) VramSyncWriter.numbered).run (secondFrame w))
      (secondFrame w) := by
  obtain ⟨w, frame, positive, holds⟩ := ready_firstFrame (fun _ => 0) VramSyncWriter.numbered
  have same : (machine (fun _ => 0) VramSyncWriter.numbered).run (secondFrame w) w =
      (machine (fun _ => 0) VramSyncWriter.numbered).run firstFrame w := by
    refine Machine.run_congr fun u before => ?_
    simp only [secondFrame, if_neg before.ne]
    rfl
  rw [← same] at holds
  have write : (secondFrame w w).write = some 0x3000 := by
    rw [secondFrame, if_neg positive.ne', if_pos rfl]
  have once : (secondFrame w (w + 1)).write = none := by
    rw [secondFrame, if_neg (Nat.succ_ne_zero w), if_neg (Nat.succ_ne_self w)]
  have rdy : ((machine (fun _ => 0) VramSyncWriter.numbered).run (secondFrame w)
      (w + 1)).fsm.dmaRdyForSync = true := by
    rw [Machine.run_succ]
    refine (next_fsm (holds.notDone (by simp))).1.trans ?_
    rw [holds.rdy]
    exact Bool.or_true _
  obtain ⟨avail, passes, drops⟩ := not_held_of_ready (by rw [write]; rfl) rdy once
  refine ⟨w, fun kept => ?_⟩
  exact Bool.false_ne_true (drops.symm.trans (kept.1 (w + 1) avail passes))

end FPGame.FrameHandoff
