import FPGame.Vram.SyncWriter

/-!
# Runs of `sync_writer`

The writer with a source memory that answers two clocks after an address and a
destination that stores whole words. `Sound` is what every reachable state
satisfies, whenever `sync` and `clr_done` are given: an idle writer does not
write, and a busy one is in some clock of a copy. A copy takes `copyClocks`
clocks; `IsRun.copying` follows it with its data while the source holds still.
-/

set_option autoImplicit false

namespace FPGame.SyncWriter

open FPGame.Foundation

/-- The writer, the read port of the source, and the destination. -/
structure System (dataWidth : ℕ) where
  writer : State dataWidth
  port : ReadPort (BitVec dataWidth)
  destination : ℕ → BitVec dataWidth

/-- The inputs of a clock, with the words that the source holds in it. -/
structure Clock (dataWidth : ℕ) where
  control : Input
  source : ℕ → BitVec dataWidth

/-- The system, from any contents of the port and the destination. -/
def system {dataWidth : ℕ} (addrWidth maxAddr : ℕ) (port : ReadPort (BitVec dataWidth))
    (destination : ℕ → BitVec dataWidth) : Machine (System dataWidth) (Clock dataWidth) where
  reset := { writer := reset dataWidth, port := port, destination := destination }
  next s x :=
    { writer := next addrWidth maxAddr s.writer x.control
      port := s.port.next x.source s.writer.addrFrom
      destination := write id s.writer s.port s.destination }

/-- Clocks from a `sync` to `done`. -/
def copyClocks (maxAddr : ℕ) : ℕ := maxAddr + 4

/-! ## What holds in every clock -/

/-- An idle writer does not write, a busy one is in some clock of a copy. -/
structure Sound {dataWidth : ℕ} (maxAddr : ℕ) (s : State dataWidth) : Prop where
  idle : s.state = .idle → s.wrenTo = false
  busy : s.state = .sync →
    ∃ k, k ≤ maxAddr + 2 ∧ Counting maxAddr k s ∧ s.byteenaTo = BitVec.allOnes _
  addrFrom_le : s.addrFrom ≤ maxAddr

section Sound

variable {dataWidth addrWidth maxAddr : ℕ} {s : State dataWidth} {x : Input}

theorem Sound.reset : Sound maxAddr (reset dataWidth) where
  idle _ := rfl
  busy := nofun
  addrFrom_le := Nat.zero_le _

/-- A busy writer is in a later clock of its copy, or done. -/
theorem Counting.sound {k : ℕ} (counting : Counting maxAddr k s) (bound : k ≤ maxAddr + 2)
    (bytes : s.byteenaTo = BitVec.allOnes _) : Sound maxAddr s where
  idle idle := by
    rw [counting.state] at idle
    cases idle
  busy _ := ⟨k, bound, counting, bytes⟩
  addrFrom_le := counting.addrFrom_le

/-- **One clock of the writer**, whatever its inputs. -/
theorem Sound.next (sound : Sound maxAddr s) (positive : 0 < maxAddr)
    (fits : maxAddr < 2 ^ addrWidth) : Sound maxAddr (next addrWidth maxAddr s x) := by
  cases state : s.state with
  | idle =>
      cases sync : x.sync with
      | false =>
          rw [next_idle state sync]
          exact
            { idle := fun _ => sound.idle state
              busy := fun busy => by
                have idle : s.state = .sync := busy
                rw [state] at idle
                cases idle
              addrFrom_le := sound.addrFrom_le }
      | true =>
          refine (Counting.start state sync).sound (Nat.zero_le _) ?_
          rw [next_start state sync]
  | sync =>
      obtain ⟨k, bound, counting, bytes⟩ := sound.busy state
      by_cases last : k = maxAddr + 2
      · subst last
        rw [counting.finish]
        exact ⟨fun _ => rfl, nofun, sound.addrFrom_le⟩
      · refine (counting.next (by omega) positive fits).sound (by omega) ?_
        have address := counting.addrTo
        rw [next_copy state (by omega)]
        exact bytes

/-- A writer that writes is in a copy, and writes a whole word within its range. -/
theorem Sound.writes (sound : Sound maxAddr s) (wren : s.wrenTo = true) :
    s.state = .sync ∧ s.addrTo ≤ maxAddr ∧ s.byteenaTo = BitVec.allOnes _ := by
  have busy : s.state = .sync := by
    cases state : s.state with
    | idle =>
        rw [sound.idle state] at wren
        cases wren
    | sync => rfl
  obtain ⟨k, bound, counting, bytes⟩ := sound.busy busy
  have address := counting.addrTo
  exact ⟨busy, by omega, bytes⟩

end Sound

/-! ## Runs -/

/-- The parts of the system in a run that finds `contents` in the destination. -/
structure IsRun {dataWidth : ℕ} (addrWidth maxAddr : ℕ) (contents : ℕ → BitVec dataWidth)
    (x : ℕ → Clock dataWidth) (sys : ℕ → System dataWidth) : Prop where
  initial : (sys 0).writer = reset dataWidth ∧ (sys 0).destination = contents
  writer : ∀ t, (sys (t + 1)).writer = next addrWidth maxAddr (sys t).writer (x t).control
  port : ∀ t, (sys (t + 1)).port = (sys t).port.next (x t).source (sys t).writer.addrFrom
  destination : ∀ t,
    (sys (t + 1)).destination = write id (sys t).writer (sys t).port (sys t).destination

section Runs

variable {dataWidth addrWidth maxAddr : ℕ} {contents : ℕ → BitVec dataWidth}
  {x : ℕ → Clock dataWidth} {sys : ℕ → System dataWidth} {t : ℕ}

theorem IsRun.sound (run : IsRun addrWidth maxAddr contents x sys) (positive : 0 < maxAddr)
    (fits : maxAddr < 2 ^ addrWidth) (t : ℕ) : Sound maxAddr (sys t).writer := by
  induction t with
  | zero =>
      rw [run.initial.1]
      exact .reset
  | succ t ih =>
      rw [run.writer]
      exact ih.next positive fits

/-- No address past `MAX_ADDR` is ever written. -/
theorem IsRun.outside (run : IsRun addrWidth maxAddr contents x sys) (positive : 0 < maxAddr)
    (fits : maxAddr < 2 ^ addrWidth) {a : ℕ} (beyond : maxAddr < a) (t : ℕ) :
    (sys t).destination a = contents a := by
  induction t with
  | zero => rw [run.initial.2]
  | succ t ih =>
      rw [← ih, run.destination, write]
      cases wren : (sys t).writer.wrenTo with
      | false => rfl
      | true =>
          have address := ((run.sound positive fits t).writes wren).2.1
          exact store_of_ne _ _ _ _ (by omega)

/-- A copy goes on to its last clock. -/
theorem IsRun.counting (run : IsRun addrWidth maxAddr contents x sys) (positive : 0 < maxAddr)
    (fits : maxAddr < 2 ^ addrWidth) (idle : (sys t).writer.state = .idle)
    (sync : (x t).control.sync = true) {k : ℕ} (bound : k ≤ maxAddr + 2) :
    Counting maxAddr k (sys (t + 1 + k)).writer := by
  induction k with
  | zero =>
      rw [Nat.add_zero, run.writer]
      exact .start idle sync
  | succ k ih =>
      rw [← Nat.add_assoc, run.writer]
      exact (ih (by omega)).next (by omega) positive fits

/-- A copy of a source that holds still goes on with its data. -/
theorem IsRun.copying (run : IsRun addrWidth maxAddr contents x sys) (positive : 0 < maxAddr)
    (fits : maxAddr < 2 ^ addrWidth) (idle : (sys t).writer.state = .idle)
    (sync : (x t).control.sync = true) {source : ℕ → BitVec dataWidth} {k : ℕ}
    (still : ∀ u, t < u → u < t + 1 + k → (x u).source = source) (bound : k ≤ maxAddr + 2) :
    Copying maxAddr id source (sys (t + 1)).destination k (sys (t + 1 + k)).writer
      (sys (t + 1 + k)).port (sys (t + 1 + k)).destination := by
  induction k with
  | zero =>
      rw [Nat.add_zero, run.writer]
      exact .start idle sync
  | succ k ih =>
      have copying := ih (fun u after before => still u after (by omega)) (by omega)
      rw [← Nat.add_assoc, run.writer, run.port, run.destination (t + 1 + k),
        still (t + 1 + k) (by omega) (by omega)]
      exact copying.next (by omega) positive fits

/-- An idle writer waits for the next `sync` and writes nothing. -/
theorem IsRun.idle (run : IsRun addrWidth maxAddr contents x sys) (positive : 0 < maxAddr)
    (fits : maxAddr < 2 ^ addrWidth) (idle : (sys t).writer.state = .idle) {u : ℕ}
    (later : t ≤ u) (quiet : ∀ v, t ≤ v → v < u → (x v).control.sync = false) :
    (sys u).writer.state = .idle ∧ (sys u).writer.wrenTo = false ∧
      (sys u).destination = (sys t).destination := by
  induction u, later using Nat.le_induction with
  | base => exact ⟨idle, (run.sound positive fits t).idle idle, rfl⟩
  | succ u later ih =>
      obtain ⟨idle, wren, same⟩ := ih fun v after before => quiet v after (by omega)
      rw [run.writer, next_idle idle (quiet u later (Nat.lt_succ_self u)), run.destination, write,
        wren, store_false]
      exact ⟨idle, rfl, same⟩

end Runs

/-- **`sync_writer` copies.** For every width and size, any contents of the
memories and any stream of `sync` and `clr_done`: the writer reads and writes
within its range only, whole words and only while it is busy, and `done` is low
then. A `sync` that finds it idle makes it busy for the clocks of a copy and ends
with `done`; nothing is written from then on until the next `sync`, and the
destination holds the source, if the source held still meanwhile. -/
theorem sync_writer_copies {dataWidth : ℕ} (addrWidth maxAddr : ℕ) (positive : 1 ≤ maxAddr)
    (fits : maxAddr < 2 ^ addrWidth) (port : ReadPort (BitVec dataWidth))
    (destination : ℕ → BitVec dataWidth) (x : ℕ → Clock dataWidth) :
    let sys := (system addrWidth maxAddr port destination).run x
    (∀ t, (sys t).writer.addrFrom ≤ maxAddr ∧
      ((sys t).writer.state = .sync → (sys t).writer.done = false) ∧
      ((sys t).writer.wrenTo = true → (sys t).writer.state = .sync ∧
        (sys t).writer.addrTo ≤ maxAddr ∧ (sys t).writer.byteenaTo = BitVec.allOnes _) ∧
      ∀ a, maxAddr < a → (sys t).destination a = destination a) ∧
    ∀ t, (sys t).writer.state = .idle → (x t).control.sync = true →
      (∀ u, t < u → u < t + copyClocks maxAddr → (sys u).writer.state = .sync) ∧
      (sys (t + copyClocks maxAddr)).writer.state = .idle ∧
      (sys (t + copyClocks maxAddr)).writer.done = true ∧
      (∀ source, (∀ u, t < u → u < t + copyClocks maxAddr → (x u).source = source) →
        ∀ a, a ≤ maxAddr → (sys (t + copyClocks maxAddr)).destination a = source a) ∧
      ∀ u, t + copyClocks maxAddr ≤ u →
        (∀ v, t + copyClocks maxAddr ≤ v → v < u → (x v).control.sync = false) →
        (sys u).writer.state = .idle ∧ (sys u).writer.wrenTo = false ∧
          (sys u).destination = (sys (t + copyClocks maxAddr)).destination := by
  intro sys
  have run : IsRun addrWidth maxAddr destination x sys :=
    ⟨⟨rfl, rfl⟩, fun _ => rfl, fun _ => rfl, fun _ => rfl⟩
  refine ⟨fun t => ?_, fun t idle sync => ?_⟩
  · have sound := run.sound positive fits t
    refine ⟨sound.addrFrom_le, fun busy => ?_, sound.writes, fun a beyond =>
      run.outside positive fits beyond t⟩
    obtain ⟨k, -, counting, -⟩ := sound.busy busy
    exact counting.done
  · have ends : t + copyClocks maxAddr = t + 1 + (maxAddr + 2) + 1 := by
      rw [copyClocks]
      omega
    have last := run.writer (t + 1 + (maxAddr + 2))
    rw [(run.counting positive fits idle sync le_rfl).finish, ← ends] at last
    have idle' : (sys (t + copyClocks maxAddr)).writer.state = .idle := by
      rw [last]
    refine ⟨fun u after before => ?_, idle', by rw [last], fun source still a within => ?_,
      fun u later quiet => run.idle positive fits idle' later quiet⟩
    · obtain ⟨k, rfl⟩ := Nat.exists_eq_add_of_lt after
      rw [copyClocks] at before
      rw [show t + k + 1 = t + 1 + k by omega]
      exact (run.counting positive fits idle sync (by omega)).state
    · have copying := run.copying positive fits idle sync
        (fun u after before => still u after (by omega)) le_rfl
      have copied := (copying.finish addrWidth (x (t + 1 + (maxAddr + 2))).control).1
      rw [← run.destination, ← ends] at copied
      exact copied.copied a within

/-- Two words of one byte, copied by the first clock's `sync`. -/
theorem sync_writer_copies_two :
    let x : ℕ → Clock 8 := fun t => ⟨⟨t == 0, false⟩, fun a => BitVec.ofNat 8 (a + 5)⟩
    let sys := (system 1 1 ⟨0, 0⟩ fun _ => 0).run x
    (sys 5).writer.done = true ∧ (sys 5).destination 1 = 6 := by
  intro x sys
  obtain ⟨-, -, done, copied, -⟩ :=
    (sync_writer_copies 1 1 le_rfl (by decide) ⟨0, 0⟩ (fun _ => 0) x).2 0 rfl rfl
  exact ⟨done, (copied _ (fun _ _ _ => rfl) 1 le_rfl).trans rfl⟩

end FPGame.SyncWriter
