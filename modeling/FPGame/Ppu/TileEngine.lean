import FPGame.Foundation.Machine
import FPGame.Ppu.IndirectSyncWriter
import FPGame.Ppu.TileRow
import FPGame.Vram.SyncWriter

/-!
# `tile_engine`

Upon `prep` the engine copies eleven words of Tile RAM into `tilram_rbuf` and
then, for each of the 44 tile entries there, two pixel rows of its pattern into
`patram_rbuf`. The mirror bits of an entry are delayed so that they meet the
pattern rows that the entry named. Then `done` is high for one clock and the
pixel mixer may read.

The control registers do not depend on any data, so the engine is busy for 64
clocks (`Underway`) and `done` follows two clocks later (`done_iff`). The data
follow the two copies (`Fetching`), and afterwards the buffers stay prepared
until the next `prep`, which gives the pixels (`refines`).
-/

set_option autoImplicit false

namespace FPGame.TileEngine

open FPGame.Foundation FPGame.Ppu

/-- `enum {TILENG_IDLE, TILENG_PREP}` -/
inductive Phase where
  | idle
  | prep
deriving DecidableEq, Repr

/-- The inputs of a clock, with the contents of the two RAMs. -/
structure Input where
  prep : Bool
  nextRow : BitVec 8
  scroll : BitVec 32
  enable : Bool
  pmxrPixelAddr : BitVec 9
  tileRam : TileRam
  patRam : PatternRam

/-- What reset does not touch: the row buffers and the registers of RAM ports. -/
structure Memories where
  buffers : RowBuffers
  ports : RowPorts
  tileRamPort : ReadPort (BitVec 64)
  patRamPort : ReadPort (BitVec 64)

/-- The registers. -/
structure State extends Memories where
  state : Phase
  nDone : Bool
  done : Bool
  tilramFetcherStart : Bool
  xMirrorBuf1 : Bool
  xMirrorBuf2 : Bool
  yMirrorBuf1 : Bool
  yMirrorBuf2 : Bool
  tilramFetcher : SyncWriter.State 64
  patramFetcher : IndirectSyncWriter.State

def reset (powerUp : Memories) : State where
  toMemories := powerUp
  state := .idle
  nDone := false
  done := false
  tilramFetcherStart := false
  xMirrorBuf1 := false
  xMirrorBuf2 := false
  yMirrorBuf1 := false
  yMirrorBuf2 := false
  tilramFetcher := SyncWriter.reset 64
  patramFetcher := IndirectSyncWriter.reset

/-- `tilram_rbuf_rdaddr` -/
def tilramRbufRdaddr (s : State) (x : Input) : ℕ :=
  match s.state with
  | .prep => s.patramFetcher.addrAbuf
  | .idle => (pmxrTileAddr x.scroll x.pmxrPixelAddr).toNat

/-- The row buffers and the RAM ports after a clock edge. -/
def nextMemories (fg : Bool) (s : State) (x : Input) : Memories where
  buffers :=
    { tilram := SyncWriter.write id s.tilramFetcher s.tileRamPort s.buffers.tilram
      patram :=
        IndirectSyncWriter.write s.patramFetcher
          (wrdataFinal s.patRamPort.q s.yMirrorBuf2 s.xMirrorBuf2) s.buffers.patram }
  ports :=
    { tilram := s.ports.tilram.next (narrow 16 s.buffers.tilram) (tilramRbufRdaddr s x)
      patram :=
        s.ports.patram.next (narrow 4 s.buffers.patram)
          (patramRbufRdaddr x.scroll x.nextRow x.pmxrPixelAddr).toNat }
  tileRamPort :=
    s.tileRamPort.next (fun a => x.tileRam (tilramAddr fg x.scroll x.nextRow a))
      s.tilramFetcher.addrFrom
  patRamPort := s.patRamPort.next x.patRam (patramAddr x.scroll x.nextRow s.ports.tilram.q)

/-- One clock. -/
def next (fg : Bool) (s : State) (x : Input) : State where
  toMemories := nextMemories fg s x
  state :=
    match s.state with
    | .idle => if x.prep then .prep else .idle
    | .prep => if s.patramFetcher.done then .idle else .prep
  nDone :=
    match s.state with
    | .idle => false
    | .prep => if s.patramFetcher.done then true else s.nDone
  -- `done` follows one clock later, when the engine is idle
  done := s.nDone
  tilramFetcherStart :=
    match s.state with
    | .idle => if x.prep then true else s.tilramFetcherStart
    | .prep => false
  xMirrorBuf1 := tileXMirror s.ports.tilram.q
  xMirrorBuf2 := s.xMirrorBuf1
  yMirrorBuf1 := tileYMirror s.ports.tilram.q
  yMirrorBuf2 := s.yMirrorBuf1
  tilramFetcher :=
    SyncWriter.next 4 10 s.tilramFetcher ⟨s.tilramFetcherStart, s.tilramFetcher.done⟩
  patramFetcher := IndirectSyncWriter.next 6 6 44 s.patramFetcher s.tilramFetcher.done

/-- `pmxr_pixel_data` -/
def pmxrPixelData (s : State) (x : Input) : BitVec 8 :=
  TileLayer.pmxrPixelData ⟨x.enable, x.scroll, x.nextRow, s.buffers⟩ s.ports

/-- The engine out of reset. -/
def machine (fg : Bool) (powerUp : Memories) : Machine State Input where
  reset := reset powerUp
  next := next fg

/-- A `prep` that the engine takes. -/
def Accepts (s : State) (x : Input) : Prop := s.state = .idle ∧ x.prep = true

instance (s : State) (x : Input) : Decidable (Accepts s x) :=
  inferInstanceAs (Decidable (_ ∧ _))

/-! ## The control registers -/

/-- A fetcher of tile entries that is not copying. -/
structure Resting (done : Bool) (s : SyncWriter.State 64) : Prop where
  state : s.state = .idle
  wrenTo : s.wrenTo = false
  done : s.done = done

theorem Resting.next {done : Bool} {s : SyncWriter.State 64} (resting : Resting done s) :
    Resting false (SyncWriter.next 4 10 s ⟨false, s.done⟩) := by
  rw [SyncWriter.next_idle resting.state rfl]
  exact ⟨resting.state, resting.wrenTo, Bool.and_not_self _⟩

/-- The two fetchers `j` clocks after a `prep` was taken. -/
inductive Fetchers (j : ℕ) (tilram : SyncWriter.State 64) (patram : IndirectSyncWriter.State) :
    Prop where
  | starting (clock : j = 1) (tiles : Resting false tilram)
      (patterns : patram = IndirectSyncWriter.reset)
  | tiles (k : ℕ) (clock : j = k + 2) (bound : k ≤ 12) (tiles : SyncWriter.Counting 10 k tilram)
      (patterns : patram = IndirectSyncWriter.reset)
  | turning (clock : j = 15) (tiles : Resting true tilram)
      (patterns : patram = IndirectSyncWriter.reset)
  | patterns (k : ℕ) (clock : j = k + 16) (bound : k ≤ 47) (tiles : Resting false tilram)
      (patterns : IndirectSyncWriter.Counting 44 k patram)
  | ending (clock : j = 64) (tiles : Resting false tilram) (idle : patram.state = .idle)
      (wrenTarg : patram.wrenTarg = false) (done : patram.done = true)

section Fetchers

variable {j : ℕ} {tilram : SyncWriter.State 64} {patram : IndirectSyncWriter.State}

/-- **The step of the fetchers.** -/
theorem Fetchers.next (fetchers : Fetchers j tilram patram) (busy : j < 64) :
    Fetchers (j + 1) (SyncWriter.next 4 10 tilram ⟨decide (j = 1), tilram.done⟩)
      (IndirectSyncWriter.next 6 6 44 patram tilram.done) := by
  cases fetchers with
  | starting clock tiles patterns =>
      subst clock patterns
      refine .tiles 0 rfl (by decide) (.start tiles.state rfl) ?_
      rw [tiles.done]
      rfl
  | tiles k clock bound tiles patterns =>
      subst clock patterns
      have quiet : IndirectSyncWriter.next 6 6 44 IndirectSyncWriter.reset tilram.done =
          IndirectSyncWriter.reset := by
        rw [tiles.done]
        rfl
      rw [quiet]
      by_cases last : k = 12
      · subst last
        refine .turning rfl ?_ rfl
        rw [tiles.finish]
        exact ⟨rfl, rfl, rfl⟩
      · exact .tiles (k + 1) rfl (by omega) (tiles.next (by omega) (by decide) (by decide)) rfl
  | turning clock tiles patterns =>
      subst clock patterns
      refine .patterns 0 rfl (by decide) tiles.next ?_
      rw [tiles.done]
      exact .start rfl
  | patterns k clock bound tiles patterns =>
      subst clock
      have resting :
          Resting false (SyncWriter.next 4 10 tilram ⟨decide (k + 16 = 1), tilram.done⟩) := by
        rw [decide_eq_false (by omega)]
        exact tiles.next
      by_cases last : k = 47
      · subst last
        refine .ending rfl resting ?_ ?_ ?_ <;> rw [patterns.finish (by decide)]
      · exact .patterns (k + 1) rfl (by omega) resting
          (patterns.next (by omega) (by decide) (by decide) le_rfl)
  | ending clock tiles idle wrenTarg done => omega

/-- The fetchers after the last clock of a preparation. -/
theorem Fetchers.finish (fetchers : Fetchers 64 tilram patram) :
    Resting false (SyncWriter.next 4 10 tilram ⟨false, tilram.done⟩) ∧
      IndirectSyncWriter.next 6 6 44 patram tilram.done = IndirectSyncWriter.reset := by
  cases fetchers with
  | ending clock tiles idle wrenTarg done =>
      refine ⟨tiles.next, ?_⟩
      rw [tiles.done]
      exact IndirectSyncWriter.next_quiet idle
  | starting clock | tiles k clock | turning clock | patterns k clock => omega

theorem Fetchers.resting (fetchers : Fetchers j tilram patram) (past : 15 ≤ j) :
    tilram.wrenTo = false := by
  cases fetchers with
  | turning clock tiles | patterns k clock bound tiles | ending clock tiles => exact tiles.wrenTo
  | starting clock | tiles k clock => omega

theorem Fetchers.patterns_counting {k : ℕ} (fetchers : Fetchers (k + 16) tilram patram)
    (bound : k ≤ 47) : IndirectSyncWriter.Counting 44 k patram := by
  cases fetchers with
  | patterns k' clock bound' tiles patterns =>
      obtain rfl : k = k' := by omega
      exact patterns
  | starting clock | tiles k' clock | turning clock | ending clock => omega

/-- The second fetcher reports at the end only. -/
theorem Fetchers.done_eq (fetchers : Fetchers j tilram patram) : patram.done = decide (j = 64) := by
  cases fetchers with
  | starting clock tiles patterns | turning clock tiles patterns =>
      rw [patterns, decide_eq_false (by omega)]
      rfl
  | tiles k clock bound tiles patterns =>
      rw [patterns, decide_eq_false (by omega)]
      rfl
  | patterns k clock bound tiles patterns =>
      rw [patterns.done, decide_eq_false (by omega)]
  | ending clock tiles idle wrenTarg done => rw [done, decide_eq_true clock]

end Fetchers

/-- The control registers while no row is prepared. -/
structure Ready (s : State) : Prop where
  state : s.state = .idle
  start : s.tilramFetcherStart = false
  tilram : Resting false s.tilramFetcher
  patram : s.patramFetcher = IndirectSyncWriter.reset

/-- The control registers `j` clocks after a `prep` was taken. -/
structure Underway (j : ℕ) (s : State) : Prop where
  state : s.state = .prep
  nDone : s.nDone = false
  start : s.tilramFetcherStart = decide (j = 1)
  fetchers : Fetchers j s.tilramFetcher s.patramFetcher

section Control

variable {fg : Bool} {j : ℕ} {s : State} {x : Input}

theorem Ready.next (ready : Ready s) (quiet : x.prep = false) : Ready (TileEngine.next fg s x) where
  state := by simp only [TileEngine.next, ready.state, quiet, Bool.false_eq_true, if_false]
  start := by
    simp only [TileEngine.next, ready.state, quiet, Bool.false_eq_true, if_false, ready.start]
  tilram := by
    simp only [TileEngine.next, ready.start]
    exact ready.tilram.next
  patram := by
    simp only [TileEngine.next, ready.patram, ready.tilram.done]
    rfl

/-- A `prep` in IDLE begins a preparation. -/
theorem Ready.accept (ready : Ready s) (prep : x.prep = true) :
    Underway 1 (TileEngine.next fg s x) where
  state := by simp only [TileEngine.next, ready.state, prep, if_true]
  nDone := by simp only [TileEngine.next, ready.state]
  start := by
    simp only [TileEngine.next, ready.state, prep, if_true]
    rfl
  fetchers := by
    refine .starting rfl ?_ ?_
    · simp only [TileEngine.next, ready.start]
      exact ready.tilram.next
    · simp only [TileEngine.next, ready.patram, ready.tilram.done]
      rfl

theorem Underway.next (underway : Underway j s) (busy : j < 64) (began : 1 ≤ j) :
    Underway (j + 1) (TileEngine.next fg s x) := by
  have more : s.patramFetcher.done = false := by
    rw [underway.fetchers.done_eq, decide_eq_false (by omega)]
  refine ⟨?_, ?_, ?_, ?_⟩
  · simp only [TileEngine.next, underway.state, more, Bool.false_eq_true, if_false]
  · simp only [TileEngine.next, underway.state, more, underway.nDone, Bool.false_eq_true, if_false]
  · simp only [TileEngine.next, underway.state]
    exact (decide_eq_false (by omega)).symm
  · simp only [TileEngine.next, underway.start]
    exact underway.fetchers.next busy

/-- The last clock of a preparation. -/
theorem Underway.finish (underway : Underway 64 s) :
    Ready (TileEngine.next fg s x) ∧ (TileEngine.next fg s x).nDone = true := by
  have last : s.patramFetcher.done = true := underway.fetchers.done_eq
  have start : s.tilramFetcherStart = false := underway.start
  obtain ⟨tilram, patram⟩ := underway.fetchers.finish
  refine ⟨⟨?_, ?_, ?_, ?_⟩, ?_⟩
  · simp only [TileEngine.next, underway.state, last, if_true]
  · simp only [TileEngine.next, underway.state]
  · simp only [TileEngine.next, start]
    exact tilram
  · exact patram
  · simp only [TileEngine.next, underway.state, last, if_true]

end Control

/-! ## The control registers along a run -/

section Run

variable {fg : Bool} {powerUp : Memories} {inputs : ℕ → Input}

/-- **The two phases.** The engine is ready, or a `prep` was taken at most 64
clocks ago. -/
theorem phases (fg : Bool) (powerUp : Memories) (inputs : ℕ → Input) (t : ℕ) :
    Ready ((machine fg powerUp).run inputs t) ∨
      ∃ s j, t = s + j ∧ 1 ≤ j ∧ j ≤ 64 ∧
        Accepts ((machine fg powerUp).run inputs s) (inputs s) ∧
        Underway j ((machine fg powerUp).run inputs t) := by
  induction t with
  | zero => exact .inl ⟨rfl, rfl, ⟨rfl, rfl, rfl⟩, rfl⟩
  | succ t ih =>
      rw [Machine.run_succ]
      rcases ih with ready | ⟨s, j, clock, began, bound, accepted, underway⟩
      · cases prep : (inputs t).prep with
        | false => exact .inl (ready.next prep)
        | true =>
            exact .inr ⟨t, 1, rfl, le_rfl, by decide, ⟨ready.state, prep⟩, ready.accept prep⟩
      · by_cases last : j = 64
        · subst last
          exact .inl underway.finish.1
        · exact .inr ⟨s, j + 1, by omega, by omega, by omega, accepted,
            underway.next (by omega) began⟩

variable {t : ℕ}

/-- An engine that takes a `prep` is busy for 64 clocks. -/
theorem underway_of_accepts
    (accepted : Accepts ((machine fg powerUp).run inputs t) (inputs t)) {j : ℕ} (began : 1 ≤ j)
    (bound : j ≤ 64) : Underway j ((machine fg powerUp).run inputs (t + j)) := by
  induction j, began using Nat.le_induction with
  | base =>
      rcases phases fg powerUp inputs t with ready | ⟨s, j, -, -, -, -, underway⟩
      · exact ready.accept accepted.2
      · have idle := accepted.1
        rw [underway.state] at idle
        contradiction
  | succ j began ih => exact (ih (by omega)).next (by omega) began

/-- The clocks in which a preparation has just ended. -/
theorem nDone_iff :
    ((machine fg powerUp).run inputs t).nDone = true ↔
      ∃ s, t = s + 65 ∧ Accepts ((machine fg powerUp).run inputs s) (inputs s) := by
  constructor
  · intro high
    cases t with
    | zero => exact absurd high Bool.false_ne_true
    | succ t =>
        rw [Machine.run_succ] at high
        rcases phases fg powerUp inputs t with ready | ⟨s, j, clock, began, bound, accepted, underway⟩
        · have low : (next fg ((machine fg powerUp).run inputs t) (inputs t)).nDone = false := by
            simp only [next, ready.state]
          exact absurd (high.symm.trans low) (by decide)
        · by_cases last : j = 64
          · exact ⟨s, by omega, accepted⟩
          · have low := (@Underway.next fg _ _ (inputs t) underway (by omega) began).nDone
            exact absurd (high.symm.trans low) (by decide)
  · rintro ⟨s, rfl, accepted⟩
    exact (underway_of_accepts accepted (by decide) le_rfl).finish.2

/-- **`done`.** Every `prep` that is taken is answered by one clock of `done`,
66 clocks later, and there is no other. -/
theorem done_iff :
    ((machine fg powerUp).run inputs t).done = true ↔
      ∃ s, t = s + 66 ∧ Accepts ((machine fg powerUp).run inputs s) (inputs s) := by
  cases t with
  | zero =>
      refine ⟨fun high => absurd high Bool.false_ne_true, ?_⟩
      rintro ⟨s, clock, -⟩
      omega
  | succ t =>
      rw [Machine.run_succ]
      refine nDone_iff.trans ⟨?_, ?_⟩
      · rintro ⟨s, rfl, accepted⟩
        exact ⟨s, rfl, accepted⟩
      · rintro ⟨s, clock, accepted⟩
        exact ⟨s, by omega, accepted⟩

end Run

/-! ## The data -/

/-- Two clocks in which a row is prepared from the same data. -/
structure Held (x y : Input) : Prop where
  nextRow : y.nextRow = x.nextRow
  scroll : y.scroll = x.scroll
  tileRam : y.tileRam = x.tileRam
  patRam : y.patRam = x.patRam

/-- What the first fetcher copies. -/
def tileSource (fg : Bool) (x : Input) (a : ℕ) : BitVec 64 :=
  x.tileRam (tilramAddr fg x.scroll x.nextRow a)

/-- What the second fetcher gets for a tile entry: the word of two pattern rows
and the mirror bits. -/
def answer (x : Input) (entry : BitVec 16) : BitVec 64 × Bool × Bool :=
  (x.patRam (patramAddr x.scroll x.nextRow entry), tileYMirror entry, tileXMirror entry)

/-- The word that is stored for an answer. -/
def mirrorForm (reply : BitVec 64 × Bool × Bool) : BitVec 64 :=
  wrdataFinal reply.1 reply.2.1 reply.2.2

/-- The RAM port and the delayed mirror bits, as one port. -/
def answerPort (s : State) : ReadPort (BitVec 64 × Bool × Bool) where
  fetched := (s.patRamPort.fetched, s.yMirrorBuf1, s.xMirrorBuf1)
  q := (s.patRamPort.q, s.yMirrorBuf2, s.xMirrorBuf2)

section Data

variable {fg : Bool} {s : State} {x y : Input}

/-- The mirror bits meet the pattern rows of their entry. -/
theorem answerPort_next (held : Held x y) :
    answerPort (next fg s y) = (answerPort s).next (answer x) s.ports.tilram.q := by
  rw [ReadPort.next, answer, ← held.patRam, ← held.scroll, ← held.nextRow]
  rfl

end Data

section Fetch

/-! A run in which a `prep` was taken at time `t` and the data are held from the
next clock on. -/

variable {fg : Bool} {run : ℕ → State} {inputs : ℕ → Input} {data : Input} {t : ℕ}
  (steps : ∀ v, run (v + 1) = next fg (run v) (inputs v))
  (underway : ∀ j, 1 ≤ j → j ≤ 64 → Underway j (run (t + j)))
  (held : ∀ v, t < v → v < t + 64 → Held data (inputs v))

include steps underway held

/-- The first fetcher copies the tile entries of the row. -/
theorem tiles_copying {k : ℕ} (bound : k ≤ 12) :
    ∃ before,
      SyncWriter.Copying 10 id (tileSource fg data) before k
        (run (t + (k + 2))).tilramFetcher (run (t + (k + 2))).tileRamPort
        (run (t + (k + 2))).buffers.tilram := by
  induction k with
  | zero =>
      obtain ⟨-, -, start, fetchers⟩ := underway 1 le_rfl (by decide)
      have idle : (run (t + 1)).tilramFetcher.state = .idle := by
        cases fetchers with
        | starting clock tiles => exact tiles.state
        | tiles k clock | turning clock | patterns k clock | ending clock => omega
      refine ⟨(run (t + 2)).buffers.tilram, ?_⟩
      have begins : (run (t + 2)).tilramFetcher =
          SyncWriter.next 4 10 (run (t + 1)).tilramFetcher
            ⟨true, (run (t + 1)).tilramFetcher.done⟩ := by
        rw [steps (t + 1), next, start]
        rfl
      rw [begins]
      exact .start idle rfl
  | succ k ih =>
      obtain ⟨before, copying⟩ := ih (by omega)
      have same := held (t + (k + 2)) (by omega) (by omega)
      have source : (fun a => (inputs (t + (k + 2))).tileRam
          (tilramAddr fg (inputs (t + (k + 2))).scroll (inputs (t + (k + 2))).nextRow a)) =
          tileSource fg data := by
        rw [same.tileRam, same.scroll, same.nextRow]
        rfl
      refine ⟨before, ?_⟩
      rw [show t + (k + 1 + 2) = t + (k + 2) + 1 by omega, steps, ← source]
      rw [← source] at copying
      exact copying.next (by omega) (by decide) (by decide)

/-- The tile entries when the second fetcher starts. -/
theorem tilram_copied {a : ℕ} (within : a ≤ 10) :
    (run (t + 15)).buffers.tilram a = tileSource fg data a := by
  obtain ⟨before, copying⟩ := tiles_copying steps underway held le_rfl
  have written := (copying.write_copied le_rfl).1 a (by omega)
  rw [show t + 15 = t + (12 + 2) + 1 from rfl, steps]
  exact written

omit held in
/-- They stay while the second fetcher runs. -/
theorem tilram_kept {j : ℕ} (past : 15 ≤ j) (bound : j ≤ 65) :
    (run (t + j)).buffers.tilram = (run (t + 15)).buffers.tilram := by
  induction j, past using Nat.le_induction with
  | base => rfl
  | succ j past ih =>
      have low := (underway j (by omega) (by omega)).fetchers.resting past
      rw [← ih (by omega), ← Nat.add_assoc, steps]
      simp only [next, nextMemories, SyncWriter.write, low, store_false]

/-- The second fetcher copies the pattern rows of the tiles. -/
theorem patterns_copying {k : ℕ} (bound : k ≤ 47) :
    ∃ before,
      IndirectSyncWriter.Copying 44 (narrow 16 (run (t + 15)).buffers.tilram) (answer data)
        mirrorForm before k (run (t + (k + 16))).ports.tilram (answerPort (run (t + (k + 16))))
        (run (t + (k + 16))).buffers.patram := by
  induction k with
  | zero => exact ⟨_, .start⟩
  | succ k ih =>
      obtain ⟨before, copying⟩ := ih (by omega)
      have now := underway (k + 16) (by omega) (by omega)
      have counting := now.fetchers.patterns_counting (by omega)
      have kept := tilram_kept steps underway (j := k + 16) (by omega) (by omega)
      have step := copying.next counting (by omega) (by decide)
      refine ⟨before, ?_⟩
      rw [show t + (k + 1 + 16) = t + (k + 16) + 1 by omega, steps (t + (k + 16)),
        answerPort_next (held (t + (k + 16)) (by omega) (by omega))]
      have port : (next fg (run (t + (k + 16))) (inputs (t + (k + 16)))).ports.tilram =
          (run (t + (k + 16))).ports.tilram.next (narrow 16 (run (t + 15)).buffers.tilram)
            (run (t + (k + 16))).patramFetcher.addrAbuf := by
        rw [← kept]
        simp only [next, nextMemories, tilramRbufRdaddr, now.state]
      rw [port]
      exact step

/-- **The row is prepared** when the second fetcher reports. -/
theorem prepared :
    Prepared fg data.scroll data.nextRow data.tileRam data.patRam (run (t + 64)).buffers where
  tilram a within := by
    rw [tilram_kept steps underway (by decide) (by decide)]
    exact tilram_copied steps underway held within
  patram n within := by
    obtain ⟨before, copying⟩ := patterns_copying steps underway held le_rfl
    have counting := (underway 63 (by decide) (by decide)).fetchers.patterns_counting (k := 47)
      le_rfl
    have written := (copying.write_copied counting le_rfl (by decide)).1 n (by omega)
    rw [tilram_kept steps underway (by decide) (by decide)]
    rw [show t + 64 = t + 63 + 1 from rfl, steps]
    exact written

end Fetch

/-! ## The refinement -/

section Refinement

variable {fg : Bool} {s : State} {x y : Input}

/-- A ready engine leaves its row buffers alone. -/
theorem Ready.buffers_next (ready : Ready s) : (TileEngine.next fg s x).buffers = s.buffers := by
  simp only [TileEngine.next, nextMemories, SyncWriter.write, ready.tilram.wrenTo, ready.patram]
  rfl

/-- So does the last clock of a preparation. -/
theorem Underway.buffers_finish (underway : Underway 64 s) :
    (TileEngine.next fg s x).buffers = s.buffers := by
  have tilram := underway.fetchers.resting (by decide)
  have patram : s.patramFetcher.wrenTarg = false := by
    cases underway.fetchers with
    | ending clock tiles idle wrenTarg done => exact wrenTarg
    | starting clock | tiles k clock | turning clock | patterns k clock => omega
  simp only [TileEngine.next, nextMemories, SyncWriter.write, IndirectSyncWriter.write, tilram,
    patram, store_false]

/-- **Two clocks.** The engine answers with the pixel of the address that was
presented when it was ready, even if it takes a `prep` meanwhile. -/
theorem Ready.pmxrPixelData_next (ready : Ready s) (z : Input) :
    pmxrPixelData (TileEngine.next fg (TileEngine.next fg s x) y) z =
      TileLayer.pixel ⟨z.enable, x.scroll, x.nextRow, s.buffers⟩ x.pmxrPixelAddr := by
  simp only [pmxrPixelData, TileLayer.pmxrPixelData, TileLayer.pixel, TileEngine.next,
    nextMemories, tilramRbufRdaddr, ready.state, ReadPort.next_q, ReadPort.next_fetched]
  rfl

variable {powerUp : Memories} {inputs : ℕ → Input} {t u : ℕ}

/-- From the end of a preparation to the next `prep` the engine is ready and
keeps its row. -/
theorem keeps_row (accepted : Accepts ((machine fg powerUp).run inputs t) (inputs t))
    (past : t + 65 ≤ u)
    (alone : ∀ v, t < v → v < u → ¬ Accepts ((machine fg powerUp).run inputs v) (inputs v)) :
    Ready ((machine fg powerUp).run inputs u) ∧
      ((machine fg powerUp).run inputs u).buffers =
        ((machine fg powerUp).run inputs (t + 64)).buffers := by
  have last := underway_of_accepts accepted (j := 64) (by decide) le_rfl
  induction u, past using Nat.le_induction with
  | base => exact ⟨last.finish.1, last.buffers_finish⟩
  | succ u past ih =>
      obtain ⟨ready, kept⟩ := ih fun v after before => alone v after (by omega)
      have quiet : (inputs u).prep = false := by
        have refused := alone u (by omega) (by omega)
        rw [Accepts, not_and, Bool.not_eq_true] at refused
        exact refused ready.state
      exact ⟨ready.next quiet, ready.buffers_next.trans kept⟩

/-- A visible pixel address that is presented while a row is on show is answered
with the pixel of the map. -/
theorem answered {fg : Bool} {powerUp : Memories} {inputs : ℕ → Input} {t u : ℕ}
    (accepted : Accepts ((machine fg powerUp).run inputs t) (inputs t)) (past : t + 66 ≤ u)
    (alone : ∀ v, t < v → v < u → ¬ Accepts ((machine fg powerUp).run inputs v) (inputs v))
    (held : ∀ v, t ≤ v → v ≤ u → Held (inputs t) (inputs v))
    (visible : (inputs u).pmxrPixelAddr.toNat < 320) :
    pmxrPixelData ((machine fg powerUp).run inputs (u + 2)) (inputs (u + 2)) =
      if (inputs (u + 2)).enable then
        tilePixel fg (inputs t).tileRam (inputs t).patRam (scrollX (inputs t).scroll).toNat
          (scrollY (inputs t).scroll).toNat (inputs t).nextRow.toNat
          (inputs u).pmxrPixelAddr.toNat
      else 0 := by
  obtain ⟨ready, kept⟩ := keeps_row accepted (by omega) alone
  have row := @prepared fg ((machine fg powerUp).run inputs) inputs (inputs t) t
    (Machine.run_succ inputs) (fun j began bound => underway_of_accepts accepted began bound)
    (fun v after before => held v after.le (by omega))
  have same := held u (by omega) le_rfl
  rw [← kept] at row
  rw [Machine.run_succ, Machine.run_succ]
  refine (ready.pmxrPixelData_next _).trans ?_
  rw [same.scroll, same.nextRow]
  exact row.pixel_eq visible _

/-- **The tile engine refines the tile map.** For either layer, any contents of
the RAMs and any run: `done` is high for one clock for each `prep` that is
taken in IDLE, 66 clocks after it. And for a row whose data are held from its
`prep` on, every visible pixel address that is presented after `done` and
before the next row is answered, two clocks later, with the pixel of the map. -/
theorem refines (fg : Bool) (powerUp : Memories) (inputs : ℕ → Input) :
    (∀ u, ((machine fg powerUp).run inputs u).done = true ↔
      ∃ t, u = t + 66 ∧ Accepts ((machine fg powerUp).run inputs t) (inputs t)) ∧
    ∀ t u, Accepts ((machine fg powerUp).run inputs t) (inputs t) → t + 66 ≤ u →
      (∀ v, t < v → v < u → ¬ Accepts ((machine fg powerUp).run inputs v) (inputs v)) →
      (∀ v, t ≤ v → v ≤ u → Held (inputs t) (inputs v)) →
      (inputs u).pmxrPixelAddr.toNat < 320 →
      pmxrPixelData ((machine fg powerUp).run inputs (u + 2)) (inputs (u + 2)) =
        if (inputs (u + 2)).enable then
          tilePixel fg (inputs t).tileRam (inputs t).patRam (scrollX (inputs t).scroll).toNat
            (scrollY (inputs t).scroll).toNat (inputs t).nextRow.toNat
            (inputs u).pmxrPixelAddr.toNat
        else 0 := by
  refine ⟨fun u => done_iff, ?_⟩
  intro t u accepted past alone held visible
  exact answered accepted past alone held visible

end Refinement

/-- One row is prepared; its tiles have palette 5 and are mirrored both ways. -/
def mirroredRow (v : ℕ) : Input where
  prep := decide (v = 0)
  nextRow := 5
  scroll := 0x000301FD
  enable := true
  pmxrPixelAddr := 4
  tileRam := fun _ => 0x0057005700570057
  patRam := fun a => if a = 7 then 0x0A00000000000000 else 0

theorem refines_mirroredRow (powerUp : Memories) :
    ((machine true powerUp).run mirroredRow 66).done = true ∧
      pmxrPixelData ((machine true powerUp).run mirroredRow 68) (mirroredRow 68) = 0x5A := by
  obtain ⟨done, pixel⟩ := refines true powerUp mirroredRow
  have accepted : Accepts ((machine true powerUp).run mirroredRow 0) (mirroredRow 0) := ⟨rfl, rfl⟩
  refine ⟨(done 66).mpr ⟨0, rfl, accepted⟩, ?_⟩
  refine (pixel 0 66 accepted le_rfl ?_ (fun v _ _ => ⟨rfl, rfl, rfl, rfl⟩) (by decide)).trans ?_
  · intro v after _ again
    have prep : decide (v = 0) = true := again.2
    exact absurd (of_decide_eq_true prep) (by omega)
  · decide

end FPGame.TileEngine
