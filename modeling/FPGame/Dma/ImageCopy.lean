import FPGame.Dma.Transfer

/-!
# The DMA engine copies a VRAM image

The engine, its read bus and the CPU-facing VRAM behind the interconnect run
together. A transfer is in flight from an accepted start until
`dma_engine_finish`. While it is in flight the CPU-facing VRAM holds the words
written so far over what it held at the start; when it finishes it holds the
image. Any later start that finds the engine idle begins such a transfer again.
-/

set_option autoImplicit false

namespace FPGame.Dma

open FPGame.Foundation FPGame.Vram

/-! ## The image in the CPU-facing VRAM -/

/-- The segment word that holds byte offset `o` of an image. -/
def byteLocate (o : ℕ) : Segment × ℕ :=
  if o < 0x4000 then (.tilram, o / 16)
  else if o < 0xC000 then (.patram, (o - 0x4000) / 16)
  else if o < 0xD000 then (.palram, (o - 0xC000) / 16)
  else (.sprram, (o - 0xD000) / 16)

theorem byteLocate_eq (k : ℕ) : byteLocate (16 * k) = locate k := by
  simp only [byteLocate, locate]
  split_ifs <;> first | omega | exact Prod.ext rfl (by dsimp only; omega)

/-- The CPU-facing copy after the first `w` quadwords of an image have been
written over `before`. -/
def landed (word : ℕ → BitVec 128) (before : CpuFacing) (w : ℕ) : CpuFacing := fun segment a =>
  if a ≤ segment.maxAddr ∧ place segment a < w then word (place segment a) else before segment a

section Landed

variable {word : ℕ → BitVec 128} {before : CpuFacing} {w : ℕ}

@[simp] theorem landed_zero : landed word before 0 = before := by
  funext segment a
  simp [landed]

/-- One more write lands one more word. -/
theorem landed_succ (more : w < imageWords) :
    h2fWrite (landed word before w) w true (word w) = landed word before (w + 1) := by
  funext segment a
  by_cases here : (segment, a) = locate w
  · obtain rfl : segment = (locate w).1 := congrArg Prod.fst here
    obtain rfl : a = (locate w).2 := congrArg Prod.snd here
    have located : place (locate w).1 (locate w).2 = w := place_locate more
    rw [h2fWrite_at more, landed, located, if_pos ⟨locate_le_maxAddr more, Nat.lt_succ_self w⟩]
  · rw [h2fWrite_of_ne more _ _ here]
    simp only [landed]
    have elsewhere : a ≤ segment.maxAddr → place segment a ≠ w := by
      rintro within rfl
      exact here (locate_place within).symm
    have same : (a ≤ segment.maxAddr ∧ place segment a < w) ↔
        (a ≤ segment.maxAddr ∧ place segment a < w + 1) := by
      refine and_congr_right fun within => ?_
      have := elsewhere within
      omega
    exact if_congr same rfl rfl

/-- Every word of a complete image is in its place. -/
theorem landed_byteLocate {o : ℕ} (within : o < 0xD140) (aligned : 16 ∣ o) :
    landed word before imageWords (byteLocate o).1 (byteLocate o).2 = word (o / 16) := by
  obtain ⟨k, rfl⟩ := aligned
  have bound : k < imageWords := by simp only [imageWords]; omega
  rw [byteLocate_eq, landed, place_locate bound, if_pos ⟨locate_le_maxAddr bound, bound⟩,
    Nat.mul_div_cancel_left k (by decide)]

/-- No other word is touched by a transfer. -/
theorem landed_of_ne {segment : Segment} {a : ℕ}
    (elsewhere : ∀ o, o < 0xD140 → 16 ∣ o → byteLocate o ≠ (segment, a)) (w : ℕ) :
    landed word before w segment a = before segment a := by
  rw [landed, if_neg]
  rintro ⟨within, -⟩
  have bound := place_lt within
  refine elsewhere (16 * place segment a) ?_ (Nat.dvd_mul_right 16 _) ?_
  · simp only [imageWords] at bound
    omega
  · rw [byteLocate_eq, locate_place within]

end Landed

/-- What the write bus does to the CPU-facing VRAM in one clock of a transfer. -/
theorem Moving.h2fWrite_landed {word : ℕ → BitVec 128} {src : BitVec 32} {a r w : ℕ} {s : Bus}
    (moving : Moving word src a r w s) (x : Bus.Input) (before : CpuFacing) :
    h2fWrite (landed word before w) s.wraddr (s.incWrite x) s.engine.writeWritedata =
      landed word before (w + (s.incWrite x).toNat) := by
  cases writes : s.incWrite x with
  | false => exact h2fWrite_false _ _ _
  | true =>
      have more := moving.more_of_incWrite writes
      have address : s.wraddr = w := by
        rw [Bus.wraddr, Engine.writeAddress, moving.writeaddress, writeaddressAt_toNat more]
        exact Nat.mul_div_cancel_left w (by decide)
      have data : s.engine.writeWritedata = word w :=
        moving.held.fifoRdData_eq (moving.held_of_incWrite writes)
      rw [address, data]
      exact landed_succ more

/-! ## Runs -/

/-- The engine on its buses and the CPU-facing VRAM. -/
structure System where
  bus : Bus
  cpu : CpuFacing

/-- One clock: the bus fabric presents to the VRAM the writes it accepts. -/
def System.next (s : System) (x : Bus.Input) : System where
  bus := s.bus.next x
  cpu := h2fWrite s.cpu s.bus.wraddr (s.bus.incWrite x) s.bus.engine.writeWritedata

/-- The machine, from any contents of the FIFO RAM and of the VRAM. -/
def machine (memArray : ℕ → BitVec 128) (cpu : CpuFacing) : Machine System Bus.Input where
  reset := { bus := Bus.reset memArray, cpu := cpu }
  next := System.next

/-- `dma_engine_finish`. -/
def System.finish (s : System) : Bool := s.bus.engine.dmaEngineFinish

/-- At time `t` the transfer that was started at `t₀` has not finished. -/
def InFlight (sys : ℕ → System) (t₀ t : ℕ) : Prop :=
  t₀ < t ∧ ∀ u, t₀ < u → u ≤ t → (sys u).finish = false

/-- The transfer that was started at `t₀` finishes at `t₁`. -/
def Finishes (sys : ℕ → System) (t₀ t₁ : ℕ) : Prop :=
  t₀ < t₁ ∧ (sys t₁).finish = true ∧ ∀ u, t₀ < u → u < t₁ → (sys u).finish = false

/-- No slave stalls for ever, and accepted reads are answered some time. -/
structure Fair (inputs : ℕ → Bus.Input) : Prop where
  read : ∀ t, ∃ u, t ≤ u ∧ (inputs u).readWaitrequest = false
  write : ∀ t, ∃ u, t ≤ u ∧ (inputs u).writeWaitrequest = false
  respond : ∀ t, ∃ u, t ≤ u ∧ (inputs u).respond = true

section Runs

variable {memArray : ℕ → BitVec 128} {cpu : CpuFacing} {inputs : ℕ → Bus.Input} {t₀ : ℕ}
  {memory : BitVec 32 → BitVec 128}

/-- Every state of a run, whatever the memory does meanwhile. -/
theorem phase_run (t : ℕ) : Phase ((machine memArray cpu).run inputs t).bus :=
  Machine.invariant_always (P := fun s : System => Phase s.bus) (.inl (Quiet.initial memArray))
    (fun _ x phase => phase.next x) inputs t

theorem run_succ_cpu (t : ℕ) :
    ((machine memArray cpu).run inputs (t + 1)).cpu =
      h2fWrite ((machine memArray cpu).run inputs t).cpu
        ((machine memArray cpu).run inputs t).bus.wraddr
        (((machine memArray cpu).run inputs t).bus.incWrite (inputs t))
        ((machine memArray cpu).run inputs t).bus.engine.writeWritedata := rfl

/-- A start that finds the engine idle. -/
structure Starts (memArray : ℕ → BitVec 128) (cpu : CpuFacing) (inputs : ℕ → Bus.Input)
    (t₀ : ℕ) : Prop where
  idle : ((machine memArray cpu).run inputs t₀).bus.engine.started = false
  start : (inputs t₀).dmaEngineStart = true

/-- The memory holds still while the transfer is in flight. -/
def HoldsStill (memory : BitVec 32 → BitVec 128) (memArray : ℕ → BitVec 128) (cpu : CpuFacing)
    (inputs : ℕ → Bus.Input) (t₀ : ℕ) : Prop :=
  ∀ t, InFlight ((machine memArray cpu).run inputs) t₀ t → (inputs t).memory = memory

/-- **The state of a transfer in flight.** -/
theorem Starts.moving (starts : Starts memArray cpu inputs t₀)
    (still : HoldsStill memory memArray cpu inputs t₀) {t : ℕ}
    (inFlight : InFlight ((machine memArray cpu).run inputs) t₀ t) :
    ∃ a r w, Moving (imageWord memory (inputs t₀).dmaEngineSrcAddr)
        (inputs t₀).dmaEngineSrcAddr a r w ((machine memArray cpu).run inputs t).bus ∧
      ((machine memArray cpu).run inputs t).cpu =
        landed (imageWord memory (inputs t₀).dmaEngineSrcAddr)
          ((machine memArray cpu).run inputs t₀).cpu w := by
  have quiet := (phase_run t₀).quiet starts.idle
  obtain ⟨after, unfinished⟩ := inFlight
  induction t, after using Nat.le_induction with
  | base =>
      refine ⟨0, 0, 0, quiet.next_start starts.start _, ?_⟩
      rw [landed_zero, run_succ_cpu, quiet.incWrite, h2fWrite_false]
  | succ t after ih =>
      have inFlight : InFlight ((machine memArray cpu).run inputs) t₀ t :=
        ⟨after, fun u later bound => unfinished u later (by omega)⟩
      obtain ⟨a, r, w, moving, image⟩ := ih inFlight.2
      have ordered := moving.order
      have more : w < imageWords := by
        refine lt_of_le_of_ne (by omega) fun finished => ?_
        have raised := (moving.finish (x := inputs t) finished).2.1
        have low := unfinished (t + 1) (by omega) le_rfl
        exact Bool.false_ne_true (low.symm.trans raised)
      refine ⟨_, _, _, moving.next (x := inputs t) ?_ more, ?_⟩
      · intro _
        rw [still t inFlight]
      · rw [run_succ_cpu, image]
        exact moving.h2fWrite_landed (inputs t) _

/-- What a finished transfer leaves. -/
theorem Starts.finished (starts : Starts memArray cpu inputs t₀)
    (still : HoldsStill memory memArray cpu inputs t₀) {t₁ : ℕ}
    (finishes : Finishes ((machine memArray cpu).run inputs) t₀ t₁) :
    Quiet ((machine memArray cpu).run inputs t₁).bus ∧
    ((machine memArray cpu).run inputs t₁).bus.accepted =
      readsUpTo (inputs t₀).dmaEngineSrcAddr imageWords ∧
    ((machine memArray cpu).run inputs t₁).bus.written =
      writesUpTo (imageWord memory (inputs t₀).dmaEngineSrcAddr) imageWords ∧
    ((machine memArray cpu).run inputs t₁).cpu =
      landed (imageWord memory (inputs t₀).dmaEngineSrcAddr)
        ((machine memArray cpu).run inputs t₀).cpu imageWords := by
  obtain ⟨after, raised, first⟩ := finishes
  have quiet := (phase_run t₀).quiet starts.idle
  obtain ⟨t, rfl⟩ : ∃ t, t₁ = t + 1 := ⟨t₁ - 1, by omega⟩
  rcases Nat.eq_or_lt_of_le (Nat.le_of_lt_succ after) with rfl | later
  · -- the first clock of a transfer cannot finish it
    have low := (quiet.next_start starts.start (fun _ => 0)).done
    exact absurd (low.symm.trans raised) Bool.false_ne_true
  · obtain ⟨a, r, w, moving, image⟩ :=
      starts.moving still ⟨later, fun u above bound => first u above (by omega)⟩
    have finished : w = imageWords := by
      by_contra unfinished
      have ordered := moving.order
      obtain ⟨_, following⟩ := moving.next_any (x := inputs t) (by omega)
      exact Bool.false_ne_true (following.done.symm.trans raised)
    obtain ⟨quiet', -, accepted, written⟩ := moving.finish (x := inputs t) finished
    refine ⟨quiet', accepted, written, ?_⟩
    have noWrite : ((machine memArray cpu).run inputs t).bus.incWrite (inputs t) = false := by
      rw [Bool.eq_false_iff]
      exact fun writes => (moving.more_of_incWrite writes).ne finished
    rw [run_succ_cpu, noWrite, h2fWrite_false, image, finished]

/-- Between transfers nothing moves and `dma_engine_finish` stays low. -/
theorem quiet_until {t₁ : ℕ} (quiet : Quiet ((machine memArray cpu).run inputs t₁).bus) {u : ℕ}
    (after : t₁ < u) (noStart : ∀ v, t₁ ≤ v → v < u → (inputs v).dmaEngineStart = false) :
    Quiet ((machine memArray cpu).run inputs u).bus ∧
    ((machine memArray cpu).run inputs u).finish = false ∧
    ((machine memArray cpu).run inputs u).bus.accepted =
      ((machine memArray cpu).run inputs t₁).bus.accepted ∧
    ((machine memArray cpu).run inputs u).bus.written =
      ((machine memArray cpu).run inputs t₁).bus.written ∧
    ((machine memArray cpu).run inputs u).cpu = ((machine memArray cpu).run inputs t₁).cpu := by
  have step : ∀ v, Quiet ((machine memArray cpu).run inputs v).bus →
      ((machine memArray cpu).run inputs (v + 1)).cpu =
        ((machine memArray cpu).run inputs v).cpu := by
    intro v quiet
    rw [run_succ_cpu, quiet.incWrite, h2fWrite_false]
  induction u, after using Nat.le_induction with
  | base =>
      obtain ⟨quiet', low, accepted, written⟩ := quiet.next_quiet (noStart t₁ le_rfl (by omega))
      exact ⟨quiet', low, accepted, written, step t₁ quiet⟩
  | succ u after ih =>
      obtain ⟨quietU, -, accepted, written, same⟩ :=
        ih fun v lower upper => noStart v lower (by omega)
      obtain ⟨quiet', low, accepted', written'⟩ :=
        quietU.next_quiet (noStart u (by omega) (by omega))
      exact ⟨quiet', low, accepted'.trans accepted, written'.trans written,
        (step u quietU).trans same⟩

/-! ## Progress -/

/-- Reads, answers and writes that are still to come. -/
def System.pending (s : System) : ℕ :=
  3 * imageWords - (s.bus.accepted.length + s.bus.returned + s.bus.written.length)

theorem pending_eq {word : ℕ → BitVec 128} {src : BitVec 32} {a r w : ℕ} {s : System}
    (moving : Moving word src a r w s.bus) : s.pending = 3 * imageWords - (a + r + w) := by
  rw [System.pending, moving.accepted, moving.returned, moving.written, length_readsUpTo,
    length_writesUpTo]

/-- A transfer in flight that does not advance keeps its counts, and then one of
the three strobes is only waiting for the bus. -/
theorem silent_of_steady {word : ℕ → BitVec 128} {src : BitVec 32} {a r w t : ℕ}
    (fair : Fair inputs) (more : w < imageWords)
    (steady : ∀ u, t ≤ u → Moving word src a r w ((machine memArray cpu).run inputs u).bus) :
    ∃ u, t ≤ u ∧ (((machine memArray cpu).run inputs u).bus.incRead (inputs u) = true ∨
      ((machine memArray cpu).run inputs u).bus.answers (inputs u) = true ∨
      ((machine memArray cpu).run inputs u).bus.incWrite (inputs u) = true) := by
  have ordered := (steady t le_rfl).order
  rcases Nat.lt_or_ge w r with held | drained
  · -- data are held: the next clock in which the VRAM takes a write
    obtain ⟨u, later, takes⟩ := fair.write t
    refine ⟨u, later, .inr (.inr ?_)⟩
    have valid := (steady u later).held.fifoDatavalid_iff.mpr held
    simp only [Bus.incWrite, Engine.incWrite, Engine.writeSelect, Bus.engineInput, valid, takes,
      Bool.not_false, Bool.and_true]
  · rcases Nat.lt_or_ge r a with outstanding | starved
    · -- a read is outstanding: the next clock in which the memory answers
      obtain ⟨u, later, answers⟩ := fair.respond t
      refine ⟨u, later, .inr (.inl ?_)⟩
      have moving := steady u later
      rw [Bus.answers, moving.requested, moving.returned, length_readsUpTo, answers,
        Bool.true_and, decide_eq_true_eq]
      omega
    · -- nothing is outstanding: the reader accesses, and waits for the read slave
      by_contra silent
      push Not at silent
      obtain ⟨u, later, takes⟩ := fair.read (t + 1)
      obtain ⟨v, rfl⟩ : ∃ v, u = v + 1 := ⟨u - 1, by omega⟩
      have quietAt := silent v (by omega)
      have noAccept := Bool.eq_false_iff.mpr quietAt.1
      have reads := (steady v (by omega)).next_memRead_of_starved (x := inputs v)
        (fun answers => absurd answers quietAt.2.1) noAccept (by omega) (by omega)
      have accepts : ((machine memArray cpu).run inputs (v + 1)).bus.incRead (inputs (v + 1)) =
          true := by
        rw [Machine.run_succ]
        simp only [Bus.incRead, MemRead.incRead, takes, Bool.not_false, Bool.and_true]
        exact congrArg MemRead.readSelect reads
      exact (silent (v + 1) (by omega)).1 accepts

/-- Under a fair bus a transfer in flight finishes or advances. -/
theorem Starts.advances (starts : Starts memArray cpu inputs t₀)
    (still : HoldsStill memory memArray cpu inputs t₀) (fair : Fair inputs) {t : ℕ}
    (inFlight : InFlight ((machine memArray cpu).run inputs) t₀ t) :
    ∃ u, t ≤ u ∧ (Finishes ((machine memArray cpu).run inputs) t₀ (u + 1) ∨
      (InFlight ((machine memArray cpu).run inputs) t₀ (u + 1) ∧
        ((machine memArray cpu).run inputs (u + 1)).pending <
          ((machine memArray cpu).run inputs t).pending)) := by
  by_contra stuck
  push Not at stuck
  obtain ⟨a, r, w, moving, -⟩ := starts.moving still inFlight
  -- one clock of a transfer that neither finishes nor advances
  have step : ∀ u, t ≤ u → InFlight ((machine memArray cpu).run inputs) t₀ u →
      Moving (imageWord memory (inputs t₀).dmaEngineSrcAddr) (inputs t₀).dmaEngineSrcAddr a r w
        ((machine memArray cpu).run inputs u).bus →
      w < imageWords ∧ InFlight ((machine memArray cpu).run inputs) t₀ (u + 1) ∧
      (((machine memArray cpu).run inputs u).bus.incRead (inputs u) = false ∧
        ((machine memArray cpu).run inputs u).bus.answers (inputs u) = false ∧
        ((machine memArray cpu).run inputs u).bus.incWrite (inputs u) = false) := by
    intro u later inFlight movingU
    obtain ⟨noFinish, noAdvance⟩ := stuck u later
    have after := inFlight.1
    have ordered := movingU.order
    have more : w < imageWords := by
      refine lt_of_le_of_ne (by omega) fun finished => noFinish ⟨by omega, ?_, ?_⟩
      · exact (movingU.finish (x := inputs u) finished).2.1
      · exact fun v above bound => inFlight.2 v above (by omega)
    have following := movingU.next (x := inputs u) (fun _ => by rw [still u inFlight]) more
    have inFlight' : InFlight ((machine memArray cpu).run inputs) t₀ (u + 1) := by
      refine ⟨by omega, fun v above bound => ?_⟩
      rcases Nat.lt_succ_iff_lt_or_eq.mp (Nat.lt_succ_of_le bound) with before | rfl
      · exact inFlight.2 v above (by omega)
      · exact following.done
    refine ⟨more, inFlight', ?_⟩
    have measured := noAdvance inFlight'
    rw [pending_eq moving, pending_eq (s := (machine memArray cpu).run inputs (u + 1)) following]
      at measured
    have ordered' := following.order
    have counts : ∀ b : Bool, b.toNat = 0 → b = false := by decide
    exact ⟨counts _ (by omega), counts _ (by omega), counts _ (by omega)⟩
  have steady : ∀ u, t ≤ u → InFlight ((machine memArray cpu).run inputs) t₀ u ∧
      Moving (imageWord memory (inputs t₀).dmaEngineSrcAddr) (inputs t₀).dmaEngineSrcAddr a r w
        ((machine memArray cpu).run inputs u).bus := by
    intro u later
    induction u, later using Nat.le_induction with
    | base => exact ⟨inFlight, moving⟩
    | succ u later ih =>
        obtain ⟨more, inFlight', noAccept, noAnswer, noWrite⟩ := step u later ih.1 ih.2
        have following := ih.2.next (x := inputs u) (fun _ => by rw [still u ih.1]) more
        rw [noAccept, noAnswer, noWrite] at following
        exact ⟨inFlight', following⟩
  obtain ⟨u, later, strobe⟩ :=
    silent_of_steady fair (step t le_rfl inFlight moving).1 fun u later => (steady u later).2
  obtain ⟨-, -, noAccept, noAnswer, noWrite⟩ := step u later (steady u later).1 (steady u later).2
  simp [noAccept, noAnswer, noWrite] at strobe

/-- **Under a fair bus every transfer finishes.** -/
theorem Starts.finishes (starts : Starts memArray cpu inputs t₀)
    (still : HoldsStill memory memArray cpu inputs t₀) (fair : Fair inputs) :
    ∃ t₁, Finishes ((machine memArray cpu).run inputs) t₀ t₁ := by
  have begun : InFlight ((machine memArray cpu).run inputs) t₀ (t₀ + 1) := by
    refine ⟨by omega, fun u above bound => ?_⟩
    obtain rfl : u = t₀ + 1 := by omega
    exact (((phase_run t₀).quiet starts.idle).next_start starts.start (fun _ => 0)).done
  obtain ⟨u, -, finishes⟩ := exists_of_recurrence
    (fun t => ((machine memArray cpu).run inputs t).pending)
    (fun t inFlight => starts.advances still fair inFlight) (t₀ + 1) begun
  exact ⟨u + 1, finishes⟩

/-! ## The main result -/

/-- **DMA image copy.** Take any start that finds the engine idle, in any run,
with any stalls and latencies, and a memory that holds still while the transfer
is in flight.

While it is in flight the reads accepted are the first ones of the image, in
order; at most `fifoDepth` of them are not written yet; the writes made are the
first ones of the image, in order and at byte addresses 0, 16, …; a write is
made only of a quadword that has returned and is held; and the CPU-facing VRAM
has changed by these writes only.

When it finishes, all reads and writes of the image have been made, each
quadword is in its segment word and no other word has changed;
`dma_engine_finish` falls after one clock and, until the next start, nothing
else happens.

If the slaves do not stall for ever, it finishes. -/
theorem image_copied (starts : Starts memArray cpu inputs t₀)
    (still : HoldsStill memory memArray cpu inputs t₀) :
    (∀ t, InFlight ((machine memArray cpu).run inputs) t₀ t →
      ∃ a r w, w ≤ r ∧ r ≤ a ∧ a ≤ imageWords ∧ a ≤ w + fifoDepth ∧
        ((machine memArray cpu).run inputs t).bus.accepted =
          readsUpTo (inputs t₀).dmaEngineSrcAddr a ∧
        ((machine memArray cpu).run inputs t).bus.returned = r ∧
        ((machine memArray cpu).run inputs t).bus.written =
          writesUpTo (imageWord memory (inputs t₀).dmaEngineSrcAddr) w ∧
        (((machine memArray cpu).run inputs t).bus.incWrite (inputs t) = true →
          ((machine memArray cpu).run inputs t).bus.engine.fifo.fifoEmpty = false ∧ w < r) ∧
        ((machine memArray cpu).run inputs t).cpu =
          landed (imageWord memory (inputs t₀).dmaEngineSrcAddr)
            ((machine memArray cpu).run inputs t₀).cpu w) ∧
    (∀ t₁, Finishes ((machine memArray cpu).run inputs) t₀ t₁ →
      ((machine memArray cpu).run inputs t₁).bus.accepted =
        readsUpTo (inputs t₀).dmaEngineSrcAddr imageWords ∧
      ((machine memArray cpu).run inputs t₁).bus.written =
        writesUpTo (imageWord memory (inputs t₀).dmaEngineSrcAddr) imageWords ∧
      (∀ o, o < 0xD140 → 16 ∣ o →
        ((machine memArray cpu).run inputs t₁).cpu (byteLocate o).1 (byteLocate o).2 =
          memory ((inputs t₀).dmaEngineSrcAddr + BitVec.ofNat 32 o)) ∧
      (∀ segment a, (∀ o, o < 0xD140 → 16 ∣ o → byteLocate o ≠ (segment, a)) →
        ((machine memArray cpu).run inputs t₁).cpu segment a =
          ((machine memArray cpu).run inputs t₀).cpu segment a) ∧
      ((machine memArray cpu).run inputs t₁).bus.engine.started = false ∧
      ((machine memArray cpu).run inputs (t₁ + 1)).finish = false ∧
      ∀ u, t₁ < u → (∀ v, t₁ ≤ v → v < u → (inputs v).dmaEngineStart = false) →
        ((machine memArray cpu).run inputs u).bus.engine.started = false ∧
        ((machine memArray cpu).run inputs u).finish = false ∧
        ((machine memArray cpu).run inputs u).bus.accepted =
          ((machine memArray cpu).run inputs t₁).bus.accepted ∧
        ((machine memArray cpu).run inputs u).bus.written =
          ((machine memArray cpu).run inputs t₁).bus.written ∧
        ((machine memArray cpu).run inputs u).cpu =
          ((machine memArray cpu).run inputs t₁).cpu) ∧
    (Fair inputs → ∃ t₁, Finishes ((machine memArray cpu).run inputs) t₀ t₁) := by
  refine ⟨fun t inFlight => ?_, fun t₁ finishes => ?_, starts.finishes still⟩
  · obtain ⟨a, r, w, moving, image⟩ := starts.moving still inFlight
    obtain ⟨written_le, returned_le, accepted_le⟩ := moving.order
    refine ⟨a, r, w, written_le, returned_le, accepted_le, moving.held.accepted_le,
      moving.accepted, moving.returned, moving.written, fun writes => ?_, image⟩
    have held := moving.held_of_incWrite writes
    exact ⟨by rw [moving.held.empty]; exact decide_eq_false held.ne', held⟩
  · obtain ⟨quiet, accepted, written, image⟩ := starts.finished still finishes
    refine ⟨accepted, written, fun o within aligned => ?_, fun segment a elsewhere => ?_,
      quiet.started, ?_, fun u later noStart => ?_⟩
    · rw [image, landed_byteLocate within aligned, imageWord, sourceAddress,
        Nat.mul_div_cancel' aligned]
    · rw [image, landed_of_ne elsewhere]
    · exact quiet.next_done
    · obtain ⟨quiet', low, same⟩ := quiet_until quiet later noStart
      exact ⟨quiet'.started, low, same⟩

/-- A start out of reset on a bus that never stalls. -/
def steadyInputs (t : ℕ) : Bus.Input where
  dmaEngineSrcAddr := 0x1000
  dmaEngineStart := t == 0
  readWaitrequest := false
  writeWaitrequest := false
  respond := true
  memory address := address.zeroExtend 128

theorem fair_steadyInputs : Fair steadyInputs where
  read t := ⟨t, le_rfl, rfl⟩
  write t := ⟨t, le_rfl, rfl⟩
  respond t := ⟨t, le_rfl, rfl⟩

/-- The first palette word of the image at `0x1000` arrives. -/
theorem image_copied_steadyInputs :
    ∃ t₁, ((machine (fun _ => 0) fun _ _ => 0).run steadyInputs t₁).cpu .palram 0 = 0xD000 := by
  have copied := @image_copied (fun _ => 0) (fun _ _ => 0) steadyInputs 0
    (fun address => address.zeroExtend 128) ⟨rfl, rfl⟩ fun _ _ => rfl
  obtain ⟨t₁, finishes⟩ := copied.2.2 fair_steadyInputs
  refine ⟨t₁, ?_⟩
  have word := (copied.2.1 t₁ finishes).2.2.1 0xC000 (by decide) (by decide)
  exact word

end Runs

end FPGame.Dma
