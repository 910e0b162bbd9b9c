import FPGame.Ppu.SpriteLayer

/-!
# A preparation that begins during another one

`prep` may rise while the engine is busy. All modules are cleared then, except
for the two pipes that delay the read strobes, and the scanner's next state
depends on the state that it leaves. The engine restarts as if it had been idle
if the scanner was neither about to read an entry nor waiting for the last one
(`Restartable`). A read in the clock of the clear puts the entry that it fetches
in the place of entry 0, and a scanner that waits for the last entry goes back
to `INIT`, which it leaves with the next preparation only.
-/

set_option autoImplicit false

namespace FPGame.Ppu.SpriteEngine

open FPGame.Foundation

/-! ## What a restart is compared with -/

/-- The clocks of a preparation: `prep` rises in the first one and does not rise
again, and the RAMs hold still. -/
structure Preparation (sprram patram : ℕ → BitVec 64) (inputs : ℕ → Input) : Prop where
  begins : (inputs 0).prep = true
  single : ∀ t, (inputs (t + 1)).prep = true → (inputs t).prep = true
  still : ∀ t, (inputs t).sprram = sprram ∧ (inputs t).patram = patram

/-- The engine from the clock after `prep` rose in `s`. -/
def prepared (ports : Ports) (s : State) (inputs : ℕ → Input) : ℕ → State :=
  (machine ports).runFrom (next s (inputs 0)) fun t => inputs (t + 1)

/-- Two units show the same sprite: the rows past its width are not shown. -/
def SameSprite (a b : SpriteReg) : Prop :=
  a.conf = b.conf ∧ ∀ k : Fin 4, k.val ≤ a.conf.w.toNat → a.pat k = b.pat k

/-- An engine becomes ready and holds the sprites of another one from then on. -/
structure EndsLike (sys idle : ℕ → State) : Prop where
  ready : ∃ t, done (sys t) = true
  idleReady : ∃ u, done (idle u) = true
  held : ∀ t u, done (sys t) = true → done (idle u) = true → ∀ t' u', t ≤ t' → u ≤ u' →
    List.Forall₂ SameSprite (SpriteFile.contents (sys t').chain)
      (SpriteFile.contents (idle u').chain)

/-- A preparation that begins in `s` ends as one that begins in an idle engine,
for every row and all contents of the RAMs. -/
def RestartsAsIdle (ports : Ports) (s : State) : Prop :=
  ∀ sprram patram inputs, Preparation sprram patram inputs →
    ∀ idle, Idle idle → idle.lastPrep = false →
      EndsLike (prepared ports s inputs) (prepared ports idle inputs)

/-- The scanner does not read in this clock and does not wait for the last entry. -/
def Restartable (s : State) : Prop :=
  oamRead s = false ∧ (s.scanner.state = .memReq → s.scanner.moreConf = true)

instance (s : State) : Decidable (Restartable s) := inferInstanceAs (Decidable (_ ∧ _))

/-! ## The end of a walk -/

section Walk

variable {ports : Ports} {sprram patram : ℕ → BitVec 64} {row : BitVec 8} {phase : Phase}
  {i n : ℕ} {s : State} {inputs : ℕ → Input}

/-- The engine becomes ready, and holds `confs` from then on. -/
structure Outcome (patram : ℕ → BitVec 64) (row : BitVec 8) (confs : List SpriteConf)
    (sys : ℕ → State) : Prop where
  ready : ∃ t, done (sys t) = true
  held : ∀ t t', done (sys t) = true → t ≤ t' →
    List.Forall₂ (Loaded patram row) confs (SpriteFile.contents (sys t').chain)

/-- **The outcome of a walk.** -/
theorem Walks.outcome (walks : Walks sprram patram row i s phase n) (going : phase.ended = false)
    (quiet : ∀ u, clear ((machine ports).runFrom s inputs u) (inputs u) = false)
    (rams : ∀ u, (∀ k, i ≤ k → oamEntry (inputs u).sprram k = oamEntry sprram k) ∧
      (inputs u).patram = patram) :
    Outcome patram row (spritesOnRow (oamEntry sprram) row.toNat)
      ((machine ports).runFrom s inputs) where
  ready := by
    obtain ⟨k, i', n', -, signal, -⟩ := walks.inPhase.signals going fun u _ => quiet u
    exact ⟨k, beq_iff_eq.mpr signal.manager⟩
  held := by
    intro t t' ready later
    obtain ⟨phase', i', n', -, walks'⟩ :=
      walks.runFrom (t := t) (fun u _ => quiet u) fun u _ => rams u
    have ended := walks'.inPhase.ended_of_done ready
    obtain ⟨d, rfl⟩ := Nat.exists_eq_add_of_le later
    obtain ⟨phase'', ended'', walks''⟩ := walks'.runFrom_ended (t := d) ended fun u _ => by
      rw [← Machine.runFrom_add]
      exact quiet (t + u)
    rw [← Machine.runFrom_add] at walks''
    exact walks''.held ended''

/-- Sprites loaded for the same entries are the same. -/
theorem sameSprite_of_loaded {confs : List SpriteConf} {regs regs' : List SpriteReg}
    (loaded : List.Forall₂ (Loaded patram row) confs regs)
    (loaded' : List.Forall₂ (Loaded patram row) confs regs') :
    List.Forall₂ SameSprite regs regs' := by
  induction loaded generalizing regs' with
  | nil =>
      cases loaded'
      exact .nil
  | cons here rest ih =>
      obtain - | ⟨here', rest'⟩ := loaded'
      refine .cons ⟨here.conf.trans here'.conf.symm, fun k within => ?_⟩ (ih rest')
      rw [here.conf] at within
      rw [here.pat k within, here'.pat k within]

/-- Two engines with one outcome end alike. -/
theorem Outcome.endsLike {confs : List SpriteConf} {sys idle : ℕ → State}
    (outcome : Outcome patram row confs sys) (outcome' : Outcome patram row confs idle) :
    EndsLike sys idle where
  ready := outcome.ready
  idleReady := outcome'.ready
  held t u ready ready' t' u' later later' :=
    sameSprite_of_loaded (outcome.held t t' ready later) (outcome'.held u u' ready' later')

end Walk

/-! ## The pipes do not remember -/

section Settle

variable {s : State} {x x' : Input}

/-- An engine whose pipes have run empty, except for a read of OAM in the clock
before. -/
def settle (s : State) : State :=
  { s with
    oam := { s.oam with ackPipe := ⟨s.oam.ackPipe.mid, false⟩ }
    pat := { s.pat with ackPipe := ⟨false, false⟩ } }

/-- An engine that is told that a pattern row has arrived, or not. -/
def answered (s : State) (avail : Bool) : State :=
  { s with pat := { s.pat with ackPipe := ⟨s.pat.ackPipe.mid, avail⟩ } }

/-- The manager looks at the pattern pipe in `PAT_READ` only. -/
theorem next_patternAvail {m : SpriteManager} (y : SpriteManager.Input)
    (looks : m.state = .confRead) (avail : Bool) :
    m.next { y with patternAvail := avail } = m.next y := by
  have elsewhere : m.state ≠ .patRead := by simp [looks]
  have still : (ManagerState.confRead == ManagerState.patRead) = false := rfl
  simp [SpriteManager.next, SpriteManager.nextState, SpriteManager.nextSpriteConf,
    SpriteManager.nextPatBuf_of_ne elsewhere, looks, still]

/-- A stale answer of Pattern RAM does not reach the manager. -/
theorem next_answered (looks : s.manager.state = .confRead) (avail : Bool) :
    next (answered s avail) x = next s x :=
  congrArg (fun m => { next s x with manager := m })
    (next_patternAvail (managerInput s x) looks avail)

/-- A scanner at rest and a manager without an entry do not look at their pipes. -/
theorem next_settle (looks : s.manager.state = .confRead) (rests : s.scanner.state = .standby) :
    next s x = answered (next (settle s) x) s.pat.ackPipe.mid := by
  have scanner : (next s x).scanner = (next (settle s) x).scanner := by
    show s.scanner.next _ _ _ = s.scanner.next _ _ _
    simp only [OamScanner.next, rests]
    rfl
  have noAck : s.scanner.confAck false s.row s.oam.oamData =
      s.scanner.confAck s.oam.oamAvail s.row s.oam.oamData := by
    simp only [OamScanner.confAck, rests]
  have input : managerInput (settle s) x = { managerInput s x with patternAvail := false } :=
    congrArg (fun ack => { managerInput s x with confAck := ack, patternAvail := false }) noAck
  have manager : (next s x).manager = (next (settle s) x).manager :=
    ((congrArg s.manager.next input).trans (next_patternAvail _ looks false)).symm
  calc next s x
      = { answered (next (settle s) x) s.pat.ackPipe.mid with
          scanner := (next s x).scanner
          manager := (next s x).manager } := rfl
    _ = answered (next (settle s) x) s.pat.ackPipe.mid := by
      rw [scanner, manager]
      rfl

/-- **What is left in the pipes** of an engine that looks for its next entry is
gone after two clocks. -/
theorem next_next_settle (looks : s.manager.state = .confRead) (rests : s.scanner.state = .standby)
    (looks' : (next s x).manager.state = .confRead) :
    next (next s x) x' = next (next (settle s) x) x' := by
  have looks'' : (next (settle s) x).manager.state = .confRead := by
    rw [next_settle looks rests] at looks'
    exact looks'
  rw [next_settle looks rests, next_answered looks'']

end Settle

/-! ## A restart that is right -/

section Right

variable {ports : Ports} {sprram patram : ℕ → BitVec 64} {inputs : ℕ → Input} {s : State}

/-- No other preparation begins. -/
theorem Preparation.quiet (preparation : Preparation sprram patram inputs) (d : ℕ)
    (last : s.lastPrep = (inputs d).prep) (u : ℕ) :
    clear ((machine ports).runFrom s (fun t => inputs (t + (d + 1))) u)
      (inputs (u + (d + 1))) = false := by
  have last' : ((machine ports).runFrom s (fun t => inputs (t + (d + 1))) u).lastPrep =
      (inputs (u + d)).prep := by
    cases u with
    | zero => rw [Nat.zero_add]; exact last
    | succ u => rw [Nat.add_right_comm]; rfl
  rw [clear, last']
  cases prep : (inputs (u + (d + 1))).prep with
  | false => rfl
  | true => rw [preparation.single (u + d) prep]; rfl

/-- Every clock sees the same entries. -/
theorem Preparation.rams (preparation : Preparation sprram patram inputs) (i t : ℕ) :
    (∀ k, i ≤ k → oamEntry (inputs t).sprram k = oamEntry sprram k) ∧
      (inputs t).patram = patram :=
  ⟨fun k _ => by rw [(preparation.still t).1], (preparation.still t).2⟩

/-- A preparation that begins in an idle engine. -/
theorem Idle.outcome (preparation : Preparation sprram patram inputs) (idle : Idle s)
    (low : s.lastPrep = false) :
    Outcome patram (inputs 0).nextRow (spritesOnRow (oamEntry sprram) (inputs 0).nextRow.toNat)
      (prepared ports s inputs) := by
  have begins : clear s (inputs 0) = true := by
    rw [clear, preparation.begins, low]
    rfl
  exact (idle.walks begins).outcome rfl
    (preparation.quiet 0 ((clear_next begins).lastPrep.trans preparation.begins.symm))
    fun u => preparation.rams 0 (u + 1)

/-- After a restart the settled engine begins a walk. -/
theorem Restartable.walks {x : Input} (restartable : Restartable s)
    (units : s.chain.length = maxSpritesPerLine) (begins : clear s x = true) :
    Walks sprram patram x.nextRow 0 (settle (next s x)) .scan 0 := by
  have cleared := clear_next begins
  have scanner := clear_scanner begins
  rw [if_neg fun waits => by
    have more := restartable.2 waits.1
    rw [waits.2] at more
    cases more] at scanner
  have looking : Looking x.nextRow (settle (next s x)) :=
    ⟨cleared.manager, cleared.spriteCount, cleared.contents, cleared.register⟩
  refine ⟨looking.inPhase scanner (congrArg BitVec.toNat cleared.oamAddr) (by decide) ?_ rfl
    (units_next.trans units), cleared.register, trivial, ?_⟩
  · exact congrArg (fun read => (⟨read, false⟩ : Debounce Bool)) restartable.1
  · show List.Forall₂ _ [] (SpriteFile.contents (next s x).chain)
    rw [cleared.contents]
    exact .nil

/-- Two engines that run alike after some clocks in which they are not ready have
one outcome. -/
theorem Outcome.shift {row : BitVec 8} {confs : List SpriteConf} {sys sys' : ℕ → State} (d e : ℕ)
    (outcome : Outcome patram row confs sys) (same : ∀ t, sys' (t + e) = sys (t + d))
    (early : ∀ t, t < d → done (sys t) = false) (early' : ∀ t, t < e → done (sys' t) = false) :
    Outcome patram row confs sys' where
  ready := by
    obtain ⟨t, ready⟩ := outcome.ready
    have late : d ≤ t := by
      by_contra before
      rw [early t (by omega)] at ready
      cases ready
    obtain ⟨k, rfl⟩ := Nat.exists_eq_add_of_le' late
    exact ⟨k + e, by rw [same, ready]⟩
  held := by
    intro t t' ready later
    have late : e ≤ t := by
      by_contra before
      rw [early' t (by omega)] at ready
      cases ready
    obtain ⟨k, rfl⟩ := Nat.exists_eq_add_of_le' late
    obtain ⟨k', rfl⟩ := Nat.exists_eq_add_of_le' (late.trans later)
    rw [same] at ready ⊢
    exact outcome.held _ _ ready (by omega)

/-- **An engine that looks for its next entry** ends as the settled one. -/
theorem settled_outcome {row : BitVec 8} {i n : ℕ} {x : ℕ → Input}
    (walks : Walks sprram patram row i (settle s) .scan n) (more : i < 64) (room : n < 16)
    (quiet : ∀ u, clear ((machine ports).runFrom (settle s) x u) (x u) = false)
    (rams : ∀ u, (∀ k, i ≤ k → oamEntry (x u).sprram k = oamEntry sprram k) ∧
      (x u).patram = patram) :
    Outcome patram row (spritesOnRow (oamEntry sprram) row.toNat)
      ((machine ports).runFrom s x) := by
  have looks : s.manager.state = .confRead := walks.inPhase.manager
  have rests : s.scanner.state = .standby := walks.inPhase.scanner.trans (if_pos more)
  have fetch := walks.inPhase.scan_next (quiet 0) more room
  have settled : (next (settle s) (x 0)).manager.state = .confRead := fetch.manager
  have looks' : (next s (x 0)).manager.state = .confRead := by
    rw [next_settle looks rests]
    exact settled
  have notReady : ∀ w : State, w.manager.state = .confRead → done w = false := by
    intro w here
    rw [done, SpriteManager.ready, here]
    rfl
  refine (walks.outcome rfl quiet rams).shift 2 2 (fun t => ?_) (fun t early => ?_)
    fun t early => ?_
  · induction t with
    | zero => exact next_next_settle looks rests looks'
    | succ t ih => exact congrArg (fun w => next w (x (t + 2))) ih
  · obtain rfl | rfl : t = 0 ∨ t = 1 := by omega
    · exact notReady _ looks
    · exact notReady _ settled
  · obtain rfl | rfl : t = 0 ∨ t = 1 := by omega
    · exact notReady _ looks
    · exact notReady _ looks'

/-- A restartable engine restarts as an idle one. -/
theorem Restartable.outcome (restartable : Restartable s)
    (units : s.chain.length = maxSpritesPerLine) (low : s.lastPrep = false)
    (preparation : Preparation sprram patram inputs) :
    Outcome patram (inputs 0).nextRow (spritesOnRow (oamEntry sprram) (inputs 0).nextRow.toNat)
      (prepared ports s inputs) := by
  have begins : clear s (inputs 0) = true := by
    rw [clear, preparation.begins, low]
    rfl
  exact settled_outcome (restartable.walks units begins) (by decide) (by decide)
    (preparation.quiet 0 ((clear_next begins).lastPrep.trans preparation.begins.symm))
    fun u => preparation.rams 0 (u + 1)

end Right

/-! ## The scanner that waits for the last entry -/

section Stuck

variable {ports : Ports} {s : State} {x : Input}

/-- The manager looks for an entry, and the scanner has not been started. -/
structure Stuck (row : BitVec 8) (s : State) : Prop extends Looking row s where
  scanner : s.scanner = OamScanner.reset

theorem Stuck.next {row : BitVec 8} (stuck : Stuck row s) (quiet : clear s x = false) :
    Stuck row (next s x) := by
  obtain ⟨scanner, more, noAck⟩ := unstarted_next stuck.scanner quiet
  exact ⟨stuck.toLooking.next quiet more noAck, scanner⟩

/-- **The engine hangs.** A preparation that begins while the scanner waits for the
last entry never ends. -/
theorem never_ready {sprram patram : ℕ → BitVec 64} {inputs : ℕ → Input}
    (preparation : Preparation sprram patram inputs) (low : s.lastPrep = false)
    (waits : s.scanner.state = .memReq) (last : s.scanner.moreConf = false) (t : ℕ) :
    done (prepared ports s inputs t) = false := by
  have begins : clear s (inputs 0) = true := by
    rw [clear, preparation.begins, low]
    rfl
  have cleared := clear_next begins
  have stuck : Stuck (inputs 0).nextRow (prepared ports s inputs t) := by
    induction t with
    | zero =>
        have init := clear_scanner begins
        rw [if_pos ⟨waits, last⟩] at init
        have scanner : (SpriteEngine.next s (inputs 0)).scanner = ⟨.init, 0⟩ := by
          rw [← init, ← cleared.oamAddr]
        exact ⟨cleared.toLooking, scanner⟩
    | succ t ih =>
        exact ih.next (preparation.quiet 0 (cleared.lastPrep.trans preparation.begins.symm) t)
  exact stuck.not_done

end Stuck

/-! ## The scanner that reads in the clock of the clear -/

section Reading

variable {ports : Ports} {s : State} {x : Input}

/-- In a reachable state the entry that is read is the first one in the clock after
a clear only. -/
structure Begun (s : State) : Prop where
  memReq : s.scanner.state = .memReq → s.scanner.oamAddr ≠ 0
  standby : s.scanner.state = .standby → s.scanner.oamAddr = 0 →
    s.lastPrep = true ∧ s.manager.state = .confRead ∧ s.manager.spriteCount = 0

theorem Begun.reset (ports : Ports) : Begun (reset ports) := ⟨nofun, nofun⟩

/-- A scanner at rest reads the next entry that there is. -/
theorem oamRead_lt (reads : oamRead s = true) :
    s.scanner.state = .standby ∧ s.scanner.oamAddr.toNat < 64 := by
  rw [oamRead, OamScanner.oamRead] at reads
  cases state : s.scanner.state with
  | standby =>
      simp only [state, Bool.and_eq_true, OamScanner.confExists, OamScanner.moreConf,
        decide_eq_true_eq] at reads
      exact ⟨rfl, reads.2⟩
  | _ => simp [state] at reads

theorem Begun.next (begun : Begun s) : Begun (next s x) := by
  cases begins : clear s x with
  | true =>
      have cleared := clear_next begins
      have scanner := clear_scanner begins
      refine ⟨fun waits => ?_, fun _ _ => ⟨cleared.lastPrep, cleared.manager, cleared.spriteCount⟩⟩
      rw [waits] at scanner
      split_ifs at scanner
  | false =>
      have scanner : (SpriteEngine.next s x).scanner =
          s.scanner.next (confReq s) s.oam.oamAvail false :=
        congrArg (s.scanner.next (confReq s) s.oam.oamAvail) begins
      cases state : s.scanner.state with
      | init =>
          have rests : (SpriteEngine.next s x).scanner.state = .init := by
            rw [scanner]
            simp [OamScanner.next, state]
          exact ⟨fun waits => by simp [rests] at waits, fun waits => by simp [rests] at waits⟩
      | standby =>
          cases reads : s.scanner.oamRead (confReq s) with
          | true =>
              have bound := (oamRead_lt reads).2
              have moves : (SpriteEngine.next s x).scanner = ⟨.memReq, s.scanner.oamAddr + 1⟩ := by
                rw [scanner, OamScanner.next, state, reads]
                rfl
              have nonzero : s.scanner.oamAddr + 1 ≠ 0 := by
                intro zero
                have zero' := congrArg BitVec.toNat zero
                rw [BitVec.toNat_add] at zero'
                replace zero' : (s.scanner.oamAddr.toNat + 1) % 128 = 0 := zero'
                omega
              refine ⟨fun _ => ?_, fun rests => ?_⟩
              · rw [moves]
                exact nonzero
              · rw [moves] at rests
                cases rests
          | false =>
              have stays : (SpriteEngine.next s x).scanner.state = .standby ∧
                  (SpriteEngine.next s x).scanner.oamAddr = s.scanner.oamAddr := by
                rw [scanner, OamScanner.next, state, reads]
                exact ⟨rfl, rfl⟩
              refine ⟨fun waits => ?_, fun _ zero => ?_⟩
              · rw [stays.1] at waits
                cases waits
              rw [stays.2] at zero
              obtain ⟨-, looks, none⟩ := begun.standby state zero
              have reads' : s.scanner.oamRead (confReq s) = true := by
                simp [OamScanner.oamRead, state, confReq, SpriteManager.confReq, looks, none,
                  OamScanner.confExists, OamScanner.moreConf, zero]
              rw [reads] at reads'
              cases reads'
      | memReq =>
          have address : (SpriteEngine.next s x).scanner.oamAddr = s.scanner.oamAddr := by
            rw [scanner, OamScanner.next, OamScanner.oamRead, state]
            rfl
          exact ⟨fun _ => address ▸ begun.memReq state,
            fun _ zero => absurd (address.symm.trans zero) (begun.memReq state)⟩

theorem Begun.run (ports : Ports) (inputs : ℕ → Input) (t : ℕ) :
    Begun ((machine ports).run inputs t) :=
  Machine.invariant_always (Begun.reset ports) (fun _ _ begun => begun.next) inputs t

/-- An entry is on its way through the ports of Sprite RAM. -/
structure Fetching (conf : SpriteConf) (s : State) : Prop where
  strobe : s.oam.ackPipe.mid = true
  data : SpriteConf.ofBits
      (lane 32 s.oam.mainSel.mid s.oam.sprramA.fetched ++
        lane 8 s.oam.extSel.mid s.oam.sprramB.fetched) = conf

theorem fetching_next (reads : oamRead s = true) :
    Fetching (oamEntry x.sprram s.scanner.oamAddr.toNat) (next s x) := ⟨reads, rfl⟩

/-- The scanner takes what arrives for the answer to its first read. -/
structure Misread (row : BitVec 8) (conf : SpriteConf) (s : State) : Prop
    extends Looking row s where
  scanner : s.scanner = ⟨.memReq, 1⟩
  avail : s.oam.oamAvail = true
  data : s.oam.oamData = conf

/-- The entry of an aborted scan arrives one clock early. -/
theorem Fetching.misread {row : BitVec 8} {conf : SpriteConf} (fetching : Fetching conf s)
    (looking : Looking row s) (scanner : s.scanner = ⟨.standby, 0⟩) (quiet : clear s x = false) :
    Misread row conf (next s x) where
  toLooking := looking.next quiet (by simp [OamScanner.confExists, scanner, OamScanner.moreConf])
    (by simp [OamScanner.confAck, scanner])
  scanner := by
    have req : confReq s = true := by
      rw [confReq_of_none looking.manager looking.spriteCount, scanner]
      rfl
    show s.scanner.next (confReq s) s.oam.oamAvail (clear s x) = _
    rw [quiet, req, scanner]
    rfl
  avail := fetching.strobe
  data := fetching.data

/-- An entry that is out of range is passed, and the answer to the first read is
not waited for. -/
theorem Misread.next {row : BitVec 8} {conf : SpriteConf} (misread : Misread row conf s)
    (outside : conf.inRange row = false) (quiet : clear s x = false) :
    Looking row (next s x) ∧ (next s x).scanner = ⟨.standby, 1⟩ ∧
      (next s x).oam.ackPipe.mid = false := by
  have scanner := misread.scanner
  refine ⟨misread.toLooking.next quiet ?_ ?_, ?_, ?_⟩
  · simp [OamScanner.confExists, scanner]
  · simp [OamScanner.confAck, scanner, misread.register, misread.data, outside]
  · show s.scanner.next (confReq s) s.oam.oamAvail (clear s x) = _
    rw [quiet, misread.avail, scanner]
    rfl
  · show s.scanner.oamRead (confReq s) = false
    rw [scanner]
    rfl

/-- After a walk has passed its first entry. -/
theorem Looking.walks {sprram patram : ℕ → BitVec 64} {row : BitVec 8} (looking : Looking row s)
    (units : s.chain.length = maxSpritesPerLine) (scanner : s.scanner = ⟨.standby, 1⟩)
    (strobe : s.oam.ackPipe.mid = false) (outside : (oamEntry sprram 0).inRange row = false) :
    Walks sprram patram row 1 (settle s) .scan 0 := by
  have settled : Looking row (settle s) :=
    ⟨looking.manager, looking.spriteCount, looking.contents, looking.register⟩
  refine ⟨settled.inPhase (congrArg OamScanner.state scanner)
    (congrArg (fun c : OamScanner => c.oamAddr.toNat) scanner) (by decide) ?_ rfl units,
    looking.register, trivial, ?_⟩
  · exact congrArg (fun read => (⟨read, false⟩ : Debounce Bool)) strobe
  · show List.Forall₂ _ (selected sprram row (0 + 1)) (SpriteFile.contents s.chain)
    rw [looking.contents, selected_succ, outside]
    exact .nil

/-- **An entry of the aborted scan takes the place of entry 0.** If it is out of
range, the sprites held are those of an OAM whose entry 0 is out of range. -/
theorem misread_outcome {sprram patram passed : ℕ → BitVec 64} {inputs : ℕ → Input}
    (preparation : Preparation sprram patram inputs) (low : s.lastPrep = false)
    (units : s.chain.length = maxSpritesPerLine) (reads : oamRead s = true)
    (aborted : (oamEntry sprram s.scanner.oamAddr.toNat).inRange (inputs 0).nextRow = false)
    (first : (oamEntry passed 0).inRange (inputs 0).nextRow = false)
    (others : ∀ k, 1 ≤ k → oamEntry sprram k = oamEntry passed k) :
    Outcome patram (inputs 0).nextRow (spritesOnRow (oamEntry passed) (inputs 0).nextRow.toNat)
      (prepared ports s inputs) := by
  have begins : clear s (inputs 0) = true := by
    rw [clear, preparation.begins, low]
    rfl
  have cleared := clear_next begins
  have quiet : ∀ u, clear (prepared ports s inputs u) (inputs (u + 1)) = false :=
    preparation.quiet 0 (cleared.lastPrep.trans preparation.begins.symm)
  have scanner : (SpriteEngine.next s (inputs 0)).scanner = ⟨.standby, 0⟩ := by
    have standby := clear_scanner begins
    rw [if_neg fun waits => by rw [(oamRead_lt reads).1] at waits; cases waits.1] at standby
    rw [← standby, ← cleared.oamAddr]
  have fetching := fetching_next (x := inputs 0) reads
  rw [(preparation.still 0).1] at fetching
  have misread := fetching.misread cleared.toLooking scanner (quiet 0)
  obtain ⟨looking, scanner', strobe⟩ := misread.next aborted (quiet 1)
  have units' : (prepared ports s inputs 2).chain.length = maxSpritesPerLine :=
    units_next.trans (units_next.trans (units_next.trans units))
  have walks : Walks passed patram (inputs 0).nextRow 1 (settle (prepared ports s inputs 2))
      .scan 0 := looking.walks units' scanner' strobe first
  have outcome : Outcome patram (inputs 0).nextRow
      (spritesOnRow (oamEntry passed) (inputs 0).nextRow.toNat)
      ((machine ports).runFrom (prepared ports s inputs 2) fun t => inputs (t + 3)) := by
    refine settled_outcome walks (by decide) (by decide) (preparation.quiet 2 rfl) fun u => ?_
    rw [(preparation.still (u + 3)).1]
    exact ⟨others, (preparation.still (u + 3)).2⟩
  refine outcome.shift 0 2 (fun t => ?_) (fun t early => absurd early t.not_lt_zero)
    fun t early => ?_
  · induction t with
    | zero => rfl
    | succ t ih => exact congrArg (fun w => SpriteEngine.next w (inputs (t + 3))) ih
  · obtain rfl | rfl : t = 0 ∨ t = 1 := by omega
    · exact cleared.not_done
    · exact misread.not_done

/-- Sprite RAM with one sprite on row 8, at entry 0. -/
def firstOnly (a : ℕ) : BitVec 64 := if a = 0 then 4096 else 0

theorem oamEntry_zero (k : ℕ) : oamEntry (fun _ => 0) k = SpriteConf.ofBits 0 := by
  simp [oamEntry, oamData, lane]

theorem oamEntry_firstOnly {k : ℕ} (later : 1 ≤ k) :
    oamEntry firstOnly k = oamEntry (fun _ => 0) k := by
  have ext : firstOnly (oamExtWord k) = 0 :=
    if_neg (by simp only [oamExtWord, oamExtOffset]; omega)
  have main : (lane 32 (oamMainLane k) (firstOnly (oamMainWord k)) : BitVec 32) =
      lane 32 (oamMainLane k) (0 : BitVec 64) := by
    obtain rfl | above := later.eq_or_lt
    · decide
    · rw [firstOnly, if_neg (by simp only [oamMainWord]; omega)]
  rw [oamEntry, oamEntry, oamData, oamData, main, ext]

/-- A preparation for row 8 with this RAM. -/
def firstOnlyPrep (t : ℕ) : Input where
  prep := t == 0
  nextRow := 8
  sprram := firstOnly
  patram _ := 0
  pmxrPixelAddr := 0

theorem preparation_firstOnly : Preparation firstOnly (fun _ => 0) firstOnlyPrep where
  begins := rfl
  single t rises := by simp [firstOnlyPrep] at rises
  still _ := ⟨rfl, rfl⟩

/-- **A read in the clock of the clear** loses entry 0. -/
theorem not_restartsAsIdle_of_oamRead (reads : oamRead s = true) (low : s.lastPrep = false)
    (begun : Begun s) (units : s.chain.length = maxSpritesPerLine) : ¬ RestartsAsIdle ports s := by
  intro restarts
  have later : 1 ≤ s.scanner.oamAddr.toNat := by
    by_contra none
    have zero : s.scanner.oamAddr = 0 := BitVec.eq_of_toNat_eq (Nat.lt_one_iff.mp (not_le.mp none))
    rw [(begun.standby (oamRead_lt reads).1 zero).1] at low
    cases low
  have outside (k : ℕ) : (oamEntry (fun _ => 0) k).inRange 8 = false := by
    rw [oamEntry_zero]
    rfl
  have missing : Outcome (fun _ => 0) 8 (spritesOnRow (oamEntry fun _ => 0) 8)
      (prepared ports s firstOnlyPrep) :=
    misread_outcome preparation_firstOnly low units reads
      ((congrArg (SpriteConf.inRange · 8) (oamEntry_firstOnly later)).trans (outside _))
      (outside 0) fun k above => oamEntry_firstOnly above
  have shown : Outcome (fun _ => 0) 8 (spritesOnRow (oamEntry firstOnly) 8)
      (prepared ports (reset ports) firstOnlyPrep) :=
    (Fresh.reset ports).idle.outcome preparation_firstOnly rfl
  obtain ⟨t, ready⟩ := missing.ready
  obtain ⟨u, ready'⟩ := shown.ready
  have alike := restarts _ _ _ preparation_firstOnly _ (Fresh.reset ports).idle rfl
  have length := (alike.held t u ready ready' t u le_rfl le_rfl).length_eq
  rw [← (missing.held t t ready le_rfl).length_eq,
    ← (shown.held u u ready' le_rfl).length_eq] at length
  revert length
  decide +kernel

end Reading

/-! ## Which restarts are right -/

/-- A scanner that waits for the last entry does not become ready again. -/
theorem not_restartsAsIdle_of_memReq {ports : Ports} {s : State} (low : s.lastPrep = false)
    (waits : s.scanner.state = .memReq) (last : s.scanner.moreConf = false) :
    ¬ RestartsAsIdle ports s := by
  intro restarts
  obtain ⟨t, ready⟩ :=
    (restarts _ _ _ preparation_firstOnly _ (Fresh.reset ports).idle rfl).ready
  rw [never_ready preparation_firstOnly low waits last t] at ready
  cases ready

/-- **Which restarts are right.** In every reachable state in which `prep` may rise,
the engine restarts as an idle one exactly if it is restartable. -/
theorem restarts_as_idle_iff (ports : Ports) (inputs : ℕ → Input) (t : ℕ)
    (low : ((machine ports).run inputs t).lastPrep = false) :
    RestartsAsIdle ports ((machine ports).run inputs t) ↔
      Restartable ((machine ports).run inputs t) := by
  have units := (Sane.run ports inputs t).units
  have begun := Begun.run ports inputs t
  constructor
  · intro restarts
    refine ⟨?_, fun waits => ?_⟩
    · by_contra reads
      exact not_restartsAsIdle_of_oamRead (Bool.not_eq_false _ ▸ reads) low begun units restarts
    · by_contra last
      exact not_restartsAsIdle_of_memReq low waits (Bool.not_eq_true _ ▸ last) restarts
  · intro restartable sprram patram inputs' preparation idle idles idleLow
    exact (restartable.outcome units low preparation).endsLike
      (idles.outcome preparation idleLow)

/-- With one sprite held and the pattern of the next one being read, a restart is right. -/
theorem restarts_as_idle_iff_midScan :
    let s := (machine ⟨⟨0, 0⟩, ⟨0, 0⟩, ⟨0, 0⟩⟩).run overlappingPrep 14
    (s.manager.state = .patRead ∧ (SpriteFile.contents s.chain).length = 1) ∧
      RestartsAsIdle ⟨⟨0, 0⟩, ⟨0, 0⟩, ⟨0, 0⟩⟩ s :=
  ⟨by decide +kernel, (restarts_as_idle_iff ⟨⟨0, 0⟩, ⟨0, 0⟩, ⟨0, 0⟩⟩ overlappingPrep 14
    (by decide +kernel)).mpr (by decide +kernel)⟩

/-- The only preparation begins in the first clock, for a row without a sprite. -/
def blankPrep (t : ℕ) : Input where
  prep := t == 0
  nextRow := 8
  sprram _ := 0
  patram _ := 0
  pmxrPixelAddr := 0

/-- After four clocks the scanner reads entry 1, and after 191 it waits for entry 63. -/
theorem not_restarts_as_idle :
    let sys := (machine ⟨⟨0, 0⟩, ⟨0, 0⟩, ⟨0, 0⟩⟩).run blankPrep
    ((sys 4).lastPrep = false ∧ ¬ RestartsAsIdle ⟨⟨0, 0⟩, ⟨0, 0⟩, ⟨0, 0⟩⟩ (sys 4)) ∧
      (sys 191).lastPrep = false ∧ ¬ RestartsAsIdle ⟨⟨0, 0⟩, ⟨0, 0⟩, ⟨0, 0⟩⟩ (sys 191) := by
  intro sys
  have reads : oamRead (sys 4) = true := by decide +kernel
  have waits : (sys 191).scanner.state = .memReq ∧ (sys 191).scanner.moreConf = false := by
    decide +kernel
  refine ⟨⟨rfl, ?_⟩, rfl, not_restartsAsIdle_of_memReq rfl waits.1 waits.2⟩
  exact not_restartsAsIdle_of_oamRead reads rfl (Begun.run _ _ 4) (Sane.run _ _ 4).units

end FPGame.Ppu.SpriteEngine
