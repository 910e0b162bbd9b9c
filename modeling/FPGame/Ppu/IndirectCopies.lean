import FPGame.Foundation.Machine
import FPGame.Ppu.IndirectSyncWriter

/-!
# Runs of `indirect_sync_writer`

The writer with its address buffer, its source and its target. What the address
buffer holds is turned into an address of the source by any function `rddata`,
as by the lane selection of the tile engines. A run is idle, or in some clock of
the copy that the last accepted `sync` began (`IsRun.state`), so every accepted
`sync` is answered by one clock of `done` and there is no other (`IsRun.done`).
-/

set_option autoImplicit false

namespace FPGame.IndirectSyncWriter

open FPGame.Foundation

/-- The writer, the read ports of the address buffer and the source, and the
target. -/
structure System (α : Type) (dataWidth : ℕ) where
  writer : State
  abufPort : ReadPort α
  srcPort : ReadPort (BitVec dataWidth)
  target : ℕ → BitVec dataWidth

/-- The inputs of a clock, with the words that the two memories hold in it. -/
structure Clock (α : Type) (srcAddrWidth dataWidth : ℕ) where
  sync : Bool
  abuf : ℕ → α
  source : BitVec srcAddrWidth → BitVec dataWidth

/-- The parameters of the module. -/
structure Parameters where
  abufAddrWidth : ℕ
  abufNumAddr : ℕ
  targAddrWidth : ℕ

/-- The sizes for which the hard-coded delay of four clocks is right. -/
structure Parameters.Valid (size : Parameters) : Prop where
  enough : 5 ≤ size.abufNumAddr
  fits : size.abufNumAddr ≤ 2 ^ size.abufAddrWidth
  wide : size.abufAddrWidth ≤ size.targAddrWidth

/-- One clock of the system. -/
def System.next {α : Type} {srcAddrWidth dataWidth : ℕ} (size : Parameters)
    (rddata : α → BitVec srcAddrWidth) (s : System α dataWidth)
    (x : Clock α srcAddrWidth dataWidth) : System α dataWidth where
  writer :=
    IndirectSyncWriter.next size.abufAddrWidth size.targAddrWidth size.abufNumAddr s.writer x.sync
  abufPort := s.abufPort.next x.abuf s.writer.addrAbuf
  srcPort := s.srcPort.next x.source (rddata s.abufPort.q)
  target := write s.writer s.srcPort.q s.target

/-- The system, from any contents of the ports and the target. -/
def system {α : Type} {srcAddrWidth dataWidth : ℕ} (size : Parameters)
    (rddata : α → BitVec srcAddrWidth) (abufPort : ReadPort α)
    (srcPort : ReadPort (BitVec dataWidth)) (target : ℕ → BitVec dataWidth) :
    Machine (System α dataWidth) (Clock α srcAddrWidth dataWidth) where
  reset := { writer := reset, abufPort := abufPort, srcPort := srcPort, target := target }
  next := System.next size rddata

/-- Clocks from a `sync` to `done`. -/
def Parameters.copyClocks (size : Parameters) : ℕ := size.abufNumAddr + 5

/-! ## Runs -/

section Runs

variable {α : Type} {srcAddrWidth dataWidth : ℕ} {size : Parameters}
  {rddata : α → BitVec srcAddrWidth} {x : ℕ → Clock α srcAddrWidth dataWidth}
  {sys : ℕ → System α dataWidth} {t : ℕ}

/-- The system in a run out of reset. -/
structure IsRun (size : Parameters) (rddata : α → BitVec srcAddrWidth)
    (x : ℕ → Clock α srcAddrWidth dataWidth) (sys : ℕ → System α dataWidth) : Prop where
  initial : (sys 0).writer = reset
  step : ∀ t, sys (t + 1) = (sys t).next size rddata (x t)

/-- A `sync` is accepted in IDLE. -/
def Accepted (x : ℕ → Clock α srcAddrWidth dataWidth) (sys : ℕ → System α dataWidth) (t : ℕ) :
    Prop :=
  (sys t).writer.state = .idle ∧ (x t).sync = true

theorem IsRun.writer (run : IsRun size rddata x sys) (t : ℕ) :
    (sys (t + 1)).writer =
      next size.abufAddrWidth size.targAddrWidth size.abufNumAddr (sys t).writer (x t).sync := by
  rw [run.step]
  rfl

/-- The copy that a `sync` begins goes on to its last clock. -/
theorem IsRun.counting (run : IsRun size rddata x sys) (valid : size.Valid)
    (accepted : Accepted x sys t) {k : ℕ} (bound : k ≤ size.abufNumAddr + 3) :
    Counting size.abufNumAddr k (sys (t + 1 + k)).writer := by
  induction k with
  | zero =>
      rw [Nat.add_zero, run.writer, accepted.2]
      exact .start accepted.1
  | succ k ih =>
      rw [← Nat.add_assoc, run.writer]
      exact (ih (by omega)).next (by omega) valid.enough valid.fits valid.wide

/-- The clock after a copy. -/
theorem IsRun.finish (run : IsRun size rddata x sys) (valid : size.Valid)
    (accepted : Accepted x sys t) :
    (sys (t + size.copyClocks)).writer.state = .idle ∧
      (sys (t + size.copyClocks)).writer.done = true := by
  have enough := valid.enough
  have last := run.counting valid accepted le_rfl
  have ends : t + size.copyClocks = t + 1 + (size.abufNumAddr + 3) + 1 := by
    rw [Parameters.copyClocks]
    omega
  rw [ends, run.writer, last.finish (by omega)]
  exact ⟨rfl, rfl⟩

/-- **A run is idle or in a copy** that an accepted `sync` has begun. -/
theorem IsRun.state (run : IsRun size rddata x sys) (valid : size.Valid) (t : ℕ) :
    ((sys t).writer.state = .idle ∧ (sys t).writer.wrenTarg = false) ∨
      ∃ t₀ k, t = t₀ + 1 + k ∧ k ≤ size.abufNumAddr + 3 ∧ Accepted x sys t₀ := by
  have enough := valid.enough
  induction t with
  | zero =>
      rw [run.initial]
      exact .inl ⟨rfl, rfl⟩
  | succ t ih =>
      rcases ih with ⟨idle, -⟩ | ⟨t₀, k, rfl, bound, accepted⟩
      · cases sync : (x t).sync with
        | true => exact .inr ⟨t, 0, rfl, Nat.zero_le _, idle, sync⟩
        | false =>
            rw [run.writer, sync, next_quiet idle]
            exact .inl ⟨rfl, rfl⟩
      · by_cases last : k = size.abufNumAddr + 3
        · subst last
          rw [run.writer, (run.counting valid accepted le_rfl).finish (by omega)]
          exact .inl ⟨rfl, rfl⟩
        · exact .inr ⟨t₀, k + 1, rfl, by omega, accepted⟩

/-- **`done` answers the accepted syncs**, each once and at a fixed distance. -/
theorem IsRun.done (run : IsRun size rddata x sys) (valid : size.Valid) (u : ℕ) :
    (sys u).writer.done = true ↔ ∃ t, u = t + size.copyClocks ∧ Accepted x sys t := by
  constructor
  · intro done
    cases u with
    | zero =>
        rw [run.initial] at done
        cases done
    | succ u =>
        rcases run.state valid u with ⟨idle, -⟩ | ⟨t, k, rfl, bound, accepted⟩
        · have low : (sys (u + 1)).writer.done = false := by
            rw [run.writer, IndirectSyncWriter.next, idle]
          rw [low] at done
          cases done
        · by_cases last : k = size.abufNumAddr + 3
          · refine ⟨t, ?_, accepted⟩
            rw [Parameters.copyClocks]
            omega
          · have low := (run.counting valid accepted (by omega : k + 1 ≤ _)).done
            rw [← Nat.add_assoc, done] at low
            cases low
  · rintro ⟨t, rfl, accepted⟩
    exact (run.finish valid accepted).2

/-- No clock writes past the last address of the buffer. -/
theorem IsRun.addrTarg_lt (run : IsRun size rddata x sys) (valid : size.Valid)
    (wren : (sys t).writer.wrenTarg = true) :
    (sys t).writer.state = .sync ∧ (sys t).writer.addrTarg < size.abufNumAddr := by
  have enough := valid.enough
  rcases run.state valid t with ⟨-, low⟩ | ⟨t, k, rfl, bound, accepted⟩
  · rw [low] at wren
    cases wren
  · have counting := run.counting valid accepted bound
    have address := counting.addrTarg
    exact ⟨counting.state, by omega⟩

theorem IsRun.outside (run : IsRun size rddata x sys) (valid : size.Valid) {n : ℕ}
    (beyond : size.abufNumAddr ≤ n) (t : ℕ) : (sys t).target n = (sys 0).target n := by
  induction t with
  | zero => rfl
  | succ t ih =>
      rw [← ih, run.step]
      show store _ _ _ _ n = _
      cases wren : (sys t).writer.wrenTarg with
      | false => rfl
      | true =>
          have address := (run.addrTarg_lt valid wren).2
          exact store_of_ne _ _ _ _ (by omega)

/-- The copy goes on with its data while the memories hold still. -/
theorem IsRun.copying (run : IsRun size rddata x sys) (valid : size.Valid)
    (accepted : Accepted x sys t) {abuf : ℕ → α} {source : BitVec srcAddrWidth → BitVec dataWidth}
    {k : ℕ} (still : ∀ u, t < u → u < t + 1 + k → (x u).abuf = abuf ∧ (x u).source = source)
    (bound : k ≤ size.abufNumAddr + 3) :
    Copying size.abufNumAddr abuf (source ∘ rddata) id (sys (t + 1)).target k
      (sys (t + 1 + k)).abufPort (sys (t + 1 + k)).srcPort (sys (t + 1 + k)).target := by
  have enough := valid.enough
  induction k with
  | zero => exact .start
  | succ k ih =>
      have copying := (ih (fun u after before => still u after (by omega)) (by omega)).next
        (run.counting valid accepted (by omega)) (by omega) (by omega)
      obtain ⟨sameAbuf, sameSource⟩ := still (t + 1 + k) (by omega) (by omega)
      rw [← Nat.add_assoc, run.step (t + 1 + k), System.next, sameAbuf, sameSource]
      exact copying

end Runs

/-- **`indirect_sync_writer` copies.** For every valid size, any function between
the two memories and any contents: the target is written within its range only,
and only while the writer is busy. Every `sync` accepted in IDLE is answered by
one clock of `done`, and there is no other; the target then holds what the source
holds at the addresses of the buffer, if both held still meanwhile. -/
theorem indirect_copies {α : Type} {srcAddrWidth dataWidth : ℕ} (size : Parameters)
    (valid : size.Valid) (rddata : α → BitVec srcAddrWidth) (abufPort : ReadPort α)
    (srcPort : ReadPort (BitVec dataWidth)) (target : ℕ → BitVec dataWidth)
    (x : ℕ → Clock α srcAddrWidth dataWidth) :
    let sys := (system size rddata abufPort srcPort target).run x
    (∀ t, ((sys t).writer.wrenTarg = true → (sys t).writer.state = .sync ∧
        (sys t).writer.addrTarg < size.abufNumAddr) ∧
      ∀ n, size.abufNumAddr ≤ n → (sys t).target n = target n) ∧
    (∀ u, (sys u).writer.done = true ↔ ∃ t, u = t + size.copyClocks ∧ Accepted x sys t) ∧
    ∀ t, Accepted x sys t →
      (∀ u, t < u → u < t + size.copyClocks → (sys u).writer.state = .sync) ∧
      (sys (t + size.copyClocks)).writer.state = .idle ∧
      ∀ abuf source,
        (∀ u, t < u → u < t + size.copyClocks → (x u).abuf = abuf ∧ (x u).source = source) →
        ∀ n, n < size.abufNumAddr →
          (sys (t + size.copyClocks)).target n = source (rddata (abuf n)) := by
  intro sys
  have run : IsRun size rddata x sys := ⟨rfl, fun _ => rfl⟩
  have enough := valid.enough
  refine ⟨fun t => ⟨run.addrTarg_lt valid, fun n beyond => run.outside valid beyond t⟩,
    run.done valid, fun t accepted => ⟨fun u after before => ?_, (run.finish valid accepted).1,
      fun abuf source still n within => ?_⟩⟩
  · obtain ⟨k, rfl⟩ := Nat.exists_eq_add_of_lt after
    rw [Parameters.copyClocks] at before
    rw [show t + k + 1 = t + 1 + k by omega]
    exact (run.counting valid accepted (by omega)).state
  · have ends : t + size.copyClocks = t + 1 + (size.abufNumAddr + 3) + 1 := by
      rw [Parameters.copyClocks]
      omega
    have copying := run.copying valid accepted
      (fun u after before => still u after (by omega)) le_rfl
    have copied := (copying.write_copied (run.counting valid accepted le_rfl) le_rfl
      (by omega)).1 n (by omega)
    rw [ends, run.step]
    exact copied

/-- Five words, each found at the address that the buffer holds for it. -/
theorem indirect_copies_five :
    let x : ℕ → Clock (BitVec 3) 3 8 := fun t =>
      ⟨t == 0, fun n => BitVec.ofNat 3 (n + 2), fun a => a.setWidth 8⟩
    let sys := (system ⟨3, 5, 3⟩ id ⟨0, 0⟩ ⟨0, 0⟩ fun _ => 0).run x
    (sys 10).writer.done = true ∧ (sys 10).target 4 = 6 := by
  intro x sys
  have valid : Parameters.Valid ⟨3, 5, 3⟩ := ⟨by decide, by decide, by decide⟩
  obtain ⟨-, done, copies⟩ := indirect_copies ⟨3, 5, 3⟩ valid id ⟨0, 0⟩ ⟨0, 0⟩ (fun _ => 0) x
  have accepted : Accepted x sys 0 := ⟨rfl, rfl⟩
  refine ⟨(done 10).mpr ⟨0, rfl, accepted⟩, ?_⟩
  exact ((copies 0 accepted).2.2 _ _ (fun _ _ _ => ⟨rfl, rfl⟩) 4 (by decide)).trans rfl

end FPGame.IndirectSyncWriter
