import FPGame.Vram.Interconnect
import FPGame.Vram.SyncWriter

/-!
# `vram_sync_writer`

On a `sync` pulse four writers copy the four CPU-facing segments to the
PPU-facing ones, each 128-bit word as two neighbouring 64-bit words. The copies
have very different lengths. Each writer holds its `done` until its next
`sync`, and the collector latches the four flags and answers with one clock of
`done` when it has seen all of them.

The writer is modelled together with the RAMs and the interconnect. `Busy`
is the invariant of a copy: how far each segment has come, and which flags have
been latched. A sync takes exactly `copyClocks` clocks, whatever the writers'
flags held before it.
-/

set_option autoImplicit false

namespace FPGame.VramSyncWriter

open FPGame.Foundation FPGame.Vram

/-- `enum { IDLE, SYNC }` -/
inductive Phase where
  | idle
  | sync
deriving DecidableEq, Repr

/-- The registers: the collector, its four "done signal seen" flags, and the
four segment writers. -/
structure State where
  state : Phase
  syncDone : Segment → Bool
  writers : Segment → SyncWriter.State 128

/-- The registers while reset is asserted. -/
def reset : State where
  state := .idle
  syncDone _ := false
  writers _ := SyncWriter.reset 128

/-- `done`: all four flags have been seen. -/
def State.done (s : State) : Bool :=
  s.syncDone .tilram && s.syncDone .patram && s.syncDone .palram && s.syncDone .sprram

/-- The registers after a clock edge. -/
def next (s : State) (sync : Bool) : State where
  state :=
    match s.state with
    | .idle => if sync then .sync else .idle
    | .sync => if s.done then .idle else .sync
  syncDone segment :=
    match s.state with
    | .idle => s.syncDone segment
    | .sync => if s.done then false else s.syncDone segment || (s.writers segment).done
  writers segment :=
    SyncWriter.next segment.addrWidth segment.maxAddr (s.writers segment)
      { sync := sync, clrDone := false }

/-- What the writer drives on port a of the CPU-facing RAMs: read addresses. -/
def State.ifC (s : State) (undriven : BitVec 128) (segment : Segment) : Port 128 where
  addr := (s.writers segment).addrFrom
  wrdata := undriven
  wren := (s.writers segment).wrenFrom

/-- What the writer drives on the PPU-facing ports: the lower half of the word
on port a, the upper half on port b. -/
def State.ifP (s : State) (rddata : Segment → BitVec 128) (segment : Segment) : Ports 64 where
  a :=
    { addr := 2 * (s.writers segment).addrTo
      wrdata := lane 64 0 (SyncWriter.wrdataTo (rddata segment))
      wren := (s.writers segment).wrenTo }
  b :=
    { addr := 2 * (s.writers segment).addrTo + 1
      wrdata := lane 64 1 (SyncWriter.wrdataTo (rddata segment))
      wren := (s.writers segment).wrenTo }

/-! ## The writer with the RAMs it is wired to -/

/-- The writer and both copies of the VRAM. -/
structure System where
  vsw : State
  vram : Vram.State

/-- The inputs of a clock: the sync pulse, the interconnect's select line, the
DMA engine's write bus, the PPU's addresses, and the values of undriven nets. -/
structure Input where
  sync : Bool
  syncActive : Bool
  wraddr : ℕ
  wren : Bool
  wrdata : BitVec 128
  ppuAddrA : Segment → ℕ
  ppuAddrB : Segment → ℕ
  undriven : BitVec 128
  undrivenP : BitVec 64

/-- The words that port a of the CPU-facing RAMs returns in a clock. -/
def System.rddata (s : System) (segment : Segment) : BitVec 128 := (s.vram.readA segment).q

/-- One clock of the writer, the interconnect and the RAMs. -/
def System.next (s : System) (x : Input) : System where
  vsw := VramSyncWriter.next s.vsw x.sync
  vram :=
    s.vram.next
      (assignC (s.vsw.ifC x.undriven) x.undriven x.wraddr x.wren x.wrdata)
      (assignP x.syncActive (s.vsw.ifP s.rddata)
        (ppuLogicPorts x.ppuAddrA x.ppuAddrB x.undrivenP))

/-- The machine, from any contents of the RAMs. -/
def machine (vram : Vram.State) : Machine System Input where
  reset := { vsw := reset, vram := vram }
  next := System.next

/-- Clocks from a sync pulse to `done`. -/
def copyClocks : ℕ := 2052

/-! ## The wiring -/

/-- No writer drives a write enable of the CPU-facing RAMs. -/
def ReadsOnly (s : State) : Prop := ∀ segment, (s.writers segment).wrenFrom = false

theorem ReadsOnly.next {s : State} (reads : ReadsOnly s) (sync : Bool) :
    ReadsOnly (next s sync) :=
  fun segment => SyncWriter.next_wrenFrom (reads segment)

section Wiring

variable {s : System} {x : Input}

/-- The CPU-facing copy changes by the DMA engine's port only. -/
theorem next_cpu (reads : ReadsOnly s.vsw) :
    (s.next x).vram.cpu = h2fWrite s.vram.cpu x.wraddr x.wren x.wrdata := by
  funext segment
  show (Ports.write _ _) = _
  simp only [Ports.write, assignC, State.ifC, reads segment, store_false]
  rfl

/-- While a sync is active, a segment of the PPU-facing copy changes as the
destination of its writer. -/
theorem next_ppu_active (active : x.syncActive = true) (segment : Segment) :
    pairs ((s.next x).vram.ppu segment) =
      SyncWriter.write halves (s.vsw.writers segment) (s.vram.readA segment)
        (pairs (s.vram.ppu segment)) := by
  have both := pair_store (s.vram.ppu segment) (s.vsw.writers segment).addrTo
    (s.vsw.writers segment).wrenTo (lane 64 0 (s.rddata segment)) (lane 64 1 (s.rddata segment))
  simp only [System.next, Vram.State.next, Ports.write, assignP, active, State.ifP, ↓reduceIte]
  exact both

/-- A writer that is not copying leaves its segment of the PPU-facing copy
alone, whoever holds the ports. -/
theorem next_ppu_quiet (segment : Segment) (quiet : (s.vsw.writers segment).wrenTo = false) :
    (s.next x).vram.ppu segment = s.vram.ppu segment := by
  cases active : x.syncActive <;>
    simp [System.next, Vram.State.next, Ports.write, assignP, ppuLogicPorts, State.ifP, active,
      quiet]

theorem next_readA (segment : Segment) :
    (s.next x).vram.readA segment =
      (s.vram.readA segment).next (s.vram.cpu segment) (s.vsw.writers segment).addrFrom := rfl

end Wiring

/-! ## The phases of the writer -/

/-- The writer is waiting: no flag is latched and no segment writer copies. -/
structure Idle (s : State) : Prop where
  state : s.state = .idle
  syncDone : ∀ segment, s.syncDone segment = false
  writers : ∀ segment, (s.writers segment).state = .idle
  wrenTo : ∀ segment, (s.writers segment).wrenTo = false

/-- Clock `k` of the copy of `cpu` over `before`. A flag is latched one clock
after its writer's `done`. -/
structure Busy (cpu : CpuFacing) (before : PpuFacing) (k : ℕ) (s : System) : Prop where
  state : s.vsw.state = .sync
  bound : k < copyClocks
  stage : ∀ segment, SyncWriter.Stage segment.maxAddr halves (cpu segment)
    (pairs (before segment)) k (s.vsw.writers segment) (s.vram.readA segment)
    (pairs (s.vram.ppu segment))
  syncDone : ∀ segment, s.vsw.syncDone segment = decide (segment.maxAddr + 4 ≤ k)
  cpu : s.vram.cpu = cpu

theorem idle_reset : Idle reset := ⟨rfl, fun _ => rfl, fun _ => rfl, fun _ => rfl⟩

theorem Idle.done {s : State} (idle : Idle s) : s.done = false := by
  simp [State.done, idle.syncDone]

section Phases

variable {s : System} {x : Input} {cpu : CpuFacing} {before : PpuFacing} {k : ℕ}

/-- The Pattern RAM copy is the longest, so its flag is the last one. -/
theorem Busy.done (busy : Busy cpu before k s) : s.vsw.done = decide (k + 1 = copyClocks) := by
  have bound := busy.bound
  rw [Bool.eq_iff_iff]
  simp only [State.done, busy.syncDone, Bool.and_eq_true, decide_eq_true_eq]
  simp only [Segment.maxAddr, copyClocks] at *
  omega

theorem Idle.next_quiet (idle : Idle s.vsw) (quiet : x.sync = false) :
    Idle (s.next x).vsw ∧ (s.next x).vram.ppu = s.vram.ppu := by
  have writer : ∀ segment, (s.next x).vsw.writers segment =
      { s.vsw.writers segment with done := (s.vsw.writers segment).done && !false } :=
    fun segment => SyncWriter.next_idle (x := ⟨x.sync, false⟩) (idle.writers segment) quiet
  refine ⟨⟨?_, ?_, ?_, ?_⟩, funext fun segment => next_ppu_quiet segment (idle.wrenTo segment)⟩
  · simp [System.next, VramSyncWriter.next, idle.state, quiet]
  · intro segment
    simp [System.next, VramSyncWriter.next, idle.state, idle.syncDone]
  · intro segment
    rw [writer]
    exact idle.writers segment
  · intro segment
    rw [writer]
    exact idle.wrenTo segment

/-- A sync pulse in IDLE begins the copy of what the CPU-facing copy holds from
then on. -/
theorem Idle.next_sync (idle : Idle s.vsw) (sync : x.sync = true) :
    Busy (s.next x).vram.cpu s.vram.ppu 0 (s.next x) where
  state := by simp [System.next, VramSyncWriter.next, idle.state, sync]
  bound := by decide
  stage segment := by
    refine .running (Nat.zero_le _) ?_
    rw [next_ppu_quiet segment (idle.wrenTo segment)]
    exact SyncWriter.Copying.start (x := ⟨x.sync, false⟩) (idle.writers segment) sync
  syncDone segment := by
    simp [System.next, VramSyncWriter.next, idle.state, idle.syncDone]
  cpu := rfl

/-- The segment copies advance at every clock of a sync. -/
theorem Busy.next_stage (busy : Busy cpu before k s) (quiet : x.sync = false)
    (active : x.syncActive = true) (segment : Segment) :
    SyncWriter.Stage segment.maxAddr halves (cpu segment) (pairs (before segment)) (k + 1)
      ((s.next x).vsw.writers segment) ((s.next x).vram.readA segment)
      (pairs ((s.next x).vram.ppu segment)) := by
  rw [next_ppu_active active, next_readA, busy.cpu]
  exact (busy.stage segment).next (x := ⟨x.sync, false⟩) segment.maxAddr_pos
    segment.maxAddr_lt quiet rfl

/-- **The step of a sync.** -/
theorem Busy.next (busy : Busy cpu before k s) (reads : ReadsOnly s.vsw)
    (more : k + 1 < copyClocks) (quiet : x.sync = false) (active : x.syncActive = true)
    (constant : x.wren = false) : Busy cpu before (k + 1) (s.next x) where
  state := by
    have running : s.vsw.done = false := by rw [busy.done]; exact decide_eq_false (by omega)
    simp [System.next, VramSyncWriter.next, busy.state, running]
  bound := more
  stage := busy.next_stage quiet active
  syncDone segment := by
    have running : s.vsw.done = false := by rw [busy.done]; exact decide_eq_false (by omega)
    have level := (busy.stage segment).done_eq
    simp only [System.next, VramSyncWriter.next, busy.state, running, Bool.false_eq_true,
      if_false, busy.syncDone, level, ← Bool.decide_or, decide_eq_decide]
    omega
  cpu := by rw [next_cpu reads, constant, h2fWrite_false, busy.cpu]

/-- The clock in which `done` is high ends the sync. -/
theorem Busy.next_last (busy : Busy cpu before k s) (last : k + 1 = copyClocks)
    (quiet : x.sync = false) (active : x.syncActive = true) : Idle (s.next x).vsw := by
  have finished : s.vsw.done = true := by rw [busy.done]; exact decide_eq_true last
  have copied : ∀ segment, SyncWriter.Copied segment.maxAddr halves (cpu segment)
      (pairs (before segment)) ((s.next x).vsw.writers segment)
      (pairs ((s.next x).vram.ppu segment)) := fun segment =>
    (busy.next_stage quiet active segment).copied (by
      have := segment.maxAddr_le
      simp only [copyClocks] at last
      omega)
  refine ⟨?_, ?_, fun segment => (copied segment).state, fun segment => (copied segment).wrenTo⟩
  · simp [System.next, VramSyncWriter.next, busy.state, finished]
  · intro segment
    simp [System.next, VramSyncWriter.next, busy.state, finished]

/-- When `done` is high every segment writer has finished. -/
theorem Busy.copied (busy : Busy cpu before k s) (last : k + 1 = copyClocks) (segment : Segment) :
    SyncWriter.Copied segment.maxAddr halves (cpu segment) (pairs (before segment))
      (s.vsw.writers segment) (pairs (s.vram.ppu segment)) :=
  (busy.stage segment).copied (by
    have := segment.maxAddr_le
    simp only [copyClocks] at last
    omega)

/-- When `done` is high the four segments have been copied. -/
theorem Busy.synced (busy : Busy cpu before k s) (last : k + 1 = copyClocks) :
    Synced s.vram.cpu s.vram.ppu := by
  intro segment a within
  rw [busy.cpu]
  exact (busy.copied last segment).copied a within

/-- The last clock of a sync writes nothing. -/
theorem Busy.next_ppu (busy : Busy cpu before k s) (last : k + 1 = copyClocks) :
    (s.next x).vram.ppu = s.vram.ppu :=
  funext fun segment => next_ppu_quiet segment (busy.copied last segment).wrenTo

end Phases

/-! ## Runs -/

/-- What the user of the writer guarantees: it pulses `sync` when the writer is
idle, gives it the PPU-facing ports for the whole copy, and keeps the
CPU-facing copy constant meanwhile. -/
structure Guarantees (vram : Vram.State) (inputs : ℕ → Input) : Prop where
  whenIdle : ∀ t, (inputs t).sync = true → ((machine vram).run inputs t).vsw.state = .idle
  active : ∀ t k, (inputs t).sync = true → k < copyClocks →
    (inputs (t + 1 + k)).syncActive = true
  constant : ∀ t k, (inputs t).sync = true → k < copyClocks → (inputs (t + 1 + k)).wren = false

section Runs

variable {vram : Vram.State} {inputs : ℕ → Input}

theorem readsOnly_run (t : ℕ) : ReadsOnly ((machine vram).run inputs t).vsw :=
  Machine.invariant_always (P := fun s : System => ReadsOnly s.vsw) (fun _ => rfl)
    (fun _ _ reads => reads.next _) inputs t

/-- A busy writer receives no sync pulse. -/
theorem Guarantees.quiet (given : Guarantees vram inputs) {t : ℕ}
    (busy : ((machine vram).run inputs t).vsw.state = .sync) : (inputs t).sync = false := by
  by_contra high
  have idle := given.whenIdle t (by simpa using high)
  rw [busy] at idle
  cases idle

/-- After a sync pulse given to an idle writer the copy runs its course. -/
theorem Guarantees.busy_after (given : Guarantees vram inputs) {t₀ : ℕ}
    (sync : (inputs t₀).sync = true) (idle : Idle ((machine vram).run inputs t₀).vsw) :
    ∀ k, k < copyClocks → Busy ((machine vram).run inputs (t₀ + 1)).vram.cpu
      ((machine vram).run inputs t₀).vram.ppu k ((machine vram).run inputs (t₀ + 1 + k)) := by
  intro k
  induction k with
  | zero => exact fun _ => idle.next_sync sync
  | succ k ih =>
      intro bound
      have busy := ih (by omega)
      exact busy.next (readsOnly_run _) bound (given.quiet busy.state)
        (given.active t₀ k sync (by omega)) (given.constant t₀ k sync (by omega))

/-- At every time the writer is waiting or some clocks into a copy. -/
theorem Guarantees.phase (given : Guarantees vram inputs) (t : ℕ) :
    Idle ((machine vram).run inputs t).vsw ∨
      ∃ t₀ k, t = t₀ + 1 + k ∧ (inputs t₀).sync = true ∧
        Idle ((machine vram).run inputs t₀).vsw ∧
        Busy ((machine vram).run inputs (t₀ + 1)).vram.cpu
          ((machine vram).run inputs t₀).vram.ppu k ((machine vram).run inputs t) := by
  induction t with
  | zero => exact .inl idle_reset
  | succ t ih =>
      rcases ih with idle | ⟨t₀, k, rfl, sync, idle, busy⟩
      · cases sync : (inputs t).sync with
        | false => exact .inl (idle.next_quiet sync).1
        | true => exact .inr ⟨t, 0, rfl, sync, idle, idle.next_sync sync⟩
      · by_cases last : k + 1 = copyClocks
        · exact .inl (busy.next_last last (given.quiet busy.state)
            (given.active t₀ k sync busy.bound))
        · have bound : k + 1 < copyClocks := by have := busy.bound; omega
          exact .inr ⟨t₀, k + 1, rfl, sync, idle, given.busy_after sync idle _ bound⟩

theorem Guarantees.idle_of_sync (given : Guarantees vram inputs) {t : ℕ}
    (sync : (inputs t).sync = true) : Idle ((machine vram).run inputs t).vsw := by
  rcases given.phase t with idle | ⟨_, _, _, _, _, busy⟩
  · exact idle
  · rw [given.quiet busy.state] at sync
    cases sync

/-- `done` is high exactly `copyClocks` clocks after each sync pulse. -/
theorem Guarantees.done_iff (given : Guarantees vram inputs) (t : ℕ) :
    ((machine vram).run inputs t).vsw.done = true ↔
      ∃ t₀, (inputs t₀).sync = true ∧ t = t₀ + copyClocks := by
  constructor
  · intro done
    rcases given.phase t with idle | ⟨t₀, k, rfl, sync, _, busy⟩
    · rw [idle.done] at done
      cases done
    · rw [busy.done, decide_eq_true_eq] at done
      exact ⟨t₀, sync, by omega⟩
  · rintro ⟨t₀, sync, rfl⟩
    have busy := given.busy_after sync (given.idle_of_sync sync) (copyClocks - 1) (by decide)
    rw [show t₀ + copyClocks = t₀ + 1 + (copyClocks - 1) by simp only [copyClocks],
      busy.done, decide_eq_true_eq]
    rfl

/-- No clock changes a PPU-facing word past the end of its segment. -/
theorem Guarantees.outside (given : Guarantees vram inputs) (t : ℕ) (segment : Segment) {a : ℕ}
    (beyond : segment.maxAddr < a) :
    pairs (((machine vram).run inputs t).vram.ppu segment) a = pairs (vram.ppu segment) a := by
  induction t with
  | zero => rfl
  | succ t ih =>
      rw [← ih]
      rcases given.phase t with idle | ⟨t₀, k, rfl, sync, _, busy⟩
      · rw [Machine.run_succ]
        exact congrArg (fun memory => pairs memory a)
          (next_ppu_quiet segment (idle.wrenTo segment))
      · have after := busy.next_stage (given.quiet busy.state)
          (given.active t₀ k sync busy.bound) segment
        exact (after.outside beyond).trans ((busy.stage segment).outside beyond).symm

/-- **VRAM synchronisation.** Whatever the RAMs hold and however often the
writer is used: `done` is high for the one clock that ends a sync; at that
clock every segment copy is complete and the two copies of the VRAM agree; the
CPU-facing copy has not changed since the sync began; no word past the end of
a segment is ever written; and the writer never drives a write enable of the
CPU-facing RAMs. -/
theorem sync_copies (given : Guarantees vram inputs) :
    (∀ t, ((machine vram).run inputs t).vsw.done = true ↔
      ∃ t₀, (inputs t₀).sync = true ∧ t = t₀ + copyClocks) ∧
    (∀ t, ((machine vram).run inputs t).vsw.done = true →
      (∀ segment, (((machine vram).run inputs t).vsw.writers segment).state = .idle) ∧
      ∀ segment a, a ≤ segment.maxAddr →
        ((machine vram).run inputs t).vram.ppu segment (2 * a) =
          lane 64 0 (((machine vram).run inputs t).vram.cpu segment a) ∧
        ((machine vram).run inputs t).vram.ppu segment (2 * a + 1) =
          lane 64 1 (((machine vram).run inputs t).vram.cpu segment a)) ∧
    (∀ t₀ k, (inputs t₀).sync = true → k < copyClocks →
      ((machine vram).run inputs (t₀ + 1 + k)).vram.cpu =
        ((machine vram).run inputs (t₀ + 1)).vram.cpu) ∧
    (∀ t segment n, 2 * segment.maxAddr + 1 < n →
      ((machine vram).run inputs t).vram.ppu segment n = vram.ppu segment n) ∧
    ∀ t undriven segment, (((machine vram).run inputs t).vsw.ifC undriven segment).wren = false := by
  refine ⟨given.done_iff, ?_, ?_, ?_, fun t _ segment => readsOnly_run t segment⟩
  · intro t done
    rcases given.phase t with idle | ⟨_, k, _, _, _, busy⟩
    · rw [idle.done] at done
      cases done
    · rw [busy.done, decide_eq_true_eq] at done
      exact ⟨fun segment => (busy.copied done segment).state,
        fun segment a within => Prod.mk.inj (busy.synced done segment a within)⟩
  · intro t₀ k sync bound
    exact (given.busy_after sync (given.idle_of_sync sync) k bound).cpu
  · intro t segment n beyond
    have same := given.outside t segment (a := n / 2) (by omega)
    obtain ⟨even, odd⟩ := Prod.mk.inj same
    rcases Nat.mod_two_eq_zero_or_one n with parity | parity
    · rwa [show 2 * (n / 2) = n by omega] at even
    · rwa [show 2 * (n / 2) + 1 = n by omega] at odd

/-- One sync pulse out of reset, and a write to the last word of Sprite RAM after it. -/
def singleSync (t : ℕ) : Input where
  sync := t == 0
  syncActive := true
  wraddr := place .sprram 19
  wren := t == 2500
  wrdata := 0x0123456789ABCDEFFEDCBA9876543210
  ppuAddrA _ := 0
  ppuAddrB _ := 0
  undriven := 0
  undrivenP := 0

/-- A second pulse follows. -/
def twoSyncs (t : ℕ) : Input := { singleSync t with sync := t == 0 || t == 3000 }

/-- RAMs whose CPU-facing words are their own addresses. -/
def numbered : Vram.State where
  cpu _ a := BitVec.ofNat 128 a
  ppu _ _ := 0
  readA _ := { fetched := 0, q := 0 }

theorem guarantees_singleSync : Guarantees numbered singleSync where
  whenIdle t sync := by
    obtain rfl : t = 0 := beq_iff_eq.mp sync
    rfl
  active _ _ _ _ := rfl
  constant t k sync within := by
    obtain rfl : t = 0 := beq_iff_eq.mp sync
    rw [copyClocks] at within
    exact beq_false_of_ne (by omega)

theorem guarantees_twoSyncs : Guarantees numbered twoSyncs where
  whenIdle t sync := by
    obtain first | second := Bool.or_eq_true_iff.mp sync
    · obtain rfl : t = 0 := beq_iff_eq.mp first
      rfl
    · obtain rfl : t = 3000 := beq_iff_eq.mp second
      have same : ∀ u, u < 3000 → twoSyncs u = singleSync u := fun u before => by
        have other : (u == 3000) = false := beq_false_of_ne before.ne
        simp only [twoSyncs, other, Bool.or_false]
        rfl
      rw [Machine.run_congr same]
      rcases guarantees_singleSync.phase 3000 with idle | ⟨t₀, k, later, sync, -, busy⟩
      · exact idle.state
      · obtain rfl : t₀ = 0 := beq_iff_eq.mp sync
        have bound := busy.bound
        rw [copyClocks] at bound
        omega
  active _ _ _ _ := rfl
  constant t k sync within := by
    rw [copyClocks] at within
    refine beq_false_of_ne ?_
    obtain first | second := Bool.or_eq_true_iff.mp sync
    · have zero : t = 0 := beq_iff_eq.mp first
      omega
    · have later : t = 3000 := beq_iff_eq.mp second
      omega

/-- What the CPU-facing copy holds. -/
theorem cpu_twoSyncs (t : ℕ) : ((machine numbered).run twoSyncs t).vram.cpu =
    h2fWrite numbered.cpu (place .sprram 19) (decide (2500 < t))
      0x0123456789ABCDEFFEDCBA9876543210 := by
  induction t with
  | zero => exact (h2fWrite_false _ _ _).symm
  | succ t ih =>
      rw [Machine.run_succ]
      refine (next_cpu (readsOnly_run t)).trans ?_
      rw [ih]
      show h2fWrite _ _ (t == 2500) _ = _
      rcases lt_trichotomy t 2500 with before | rfl | after
      · rw [decide_eq_false (by omega), decide_eq_false (by omega), beq_false_of_ne before.ne,
          h2fWrite_false, h2fWrite_false]
      · exact congrArg (h2fWrite · _ _ _) (h2fWrite_false _ _ _)
      · rw [decide_eq_true after, decide_eq_true (after.trans (Nat.lt_succ_self t)),
          beq_false_of_ne after.ne', h2fWrite_false]

/-- The second sync copies what was written after the first one. -/
theorem sync_copies_twoSyncs :
    (((machine numbered).run twoSyncs copyClocks).vsw.done = true ∧
      ((machine numbered).run twoSyncs copyClocks).vram.ppu .sprram 38 = 19) ∧
    ((machine numbered).run twoSyncs (3000 + copyClocks)).vsw.done = true ∧
      ((machine numbered).run twoSyncs (3000 + copyClocks)).vram.ppu .sprram 38 =
        0xFEDCBA9876543210 := by
  obtain ⟨ends, copied, -⟩ := sync_copies guarantees_twoSyncs
  have first := (ends copyClocks).mpr ⟨0, rfl, (Nat.zero_add _).symm⟩
  have second := (ends (3000 + copyClocks)).mpr ⟨3000, rfl, rfl⟩
  have word := ((copied copyClocks first).2 .sprram 19 (by decide)).1
  have word' := ((copied (3000 + copyClocks) second).2 .sprram 19 (by decide)).1
  rw [cpu_twoSyncs] at word word'
  exact ⟨⟨first, word.trans (by decide)⟩, second, word'.trans (by decide)⟩

end Runs

end FPGame.VramSyncWriter
