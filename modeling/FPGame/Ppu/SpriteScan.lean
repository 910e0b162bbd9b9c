import FPGame.Ppu.SpriteEngine

/-!
# The walk through OAM

`Phase` lists what the sprite engine does for an entry of OAM and `InPhase` what
its control registers are in each phase, whatever the RAMs return. Out of a
preparation that finds the engine idle every clock but the last makes `rank`
smaller, so the engine is ready after less than `budget 0 0` clocks, for all
contents of the RAMs (`InPhase.signals`).
-/

set_option autoImplicit false

namespace FPGame.Ppu

open FPGame.Foundation

/-! ## One clock of the manager -/

namespace SpriteManager

variable {s : SpriteManager} {x : Input}

/-- Pattern rows are stored in `PAT_READ` only. -/
theorem nextPatBuf_of_ne (elsewhere : s.state ≠ .patRead) : s.nextPatBuf x = s.patBuf := by
  funext k
  simp [nextPatBuf, elsewhere]

theorem next_confRead (here : s.state = .confRead) (quiet : x.clear = false) :
    s.next x =
      { s with
        state :=
          if !s.confReq x.confExists then .signal else if x.confAck then .patRead else .confRead
        spriteConf := if s.confReq x.confExists && x.confAck then x.conf else s.spriteConf
        readReqCount := 0
        readAckCount := 0 } := by
  simp [next, nextState, nextSpriteConf, here, quiet, patCntClear, spriteValid, counterNext,
    nextPatBuf_of_ne]

theorem next_patRead (here : s.state = .patRead) (quiet : x.clear = false) :
    s.next x =
      { s with
        state := if s.spriteConf.w.zeroExtend 3 < s.readAckCount then .sendSprite else .patRead
        patBuf := s.nextPatBuf x
        readReqCount :=
          if s.readReqCount ≤ s.spriteConf.w.zeroExtend 3 then s.readReqCount + 1
          else s.readReqCount
        readAckCount := if x.patternAvail then s.readAckCount + 1 else s.readAckCount } := by
  simp [next, nextState, nextSpriteConf, here, quiet, patternRead, patCntClear, spriteValid,
    counterNext]

theorem next_sendSprite (here : s.state = .sendSprite) (quiet : x.clear = false) :
    s.next x =
      { s with
        state := if x.spriteAck then .confRead else .sendSprite
        spriteCount := if x.spriteAck then s.spriteCount + 1 else s.spriteCount } := by
  simp [next, nextState, nextSpriteConf, here, quiet, patternRead, patCntClear, spriteValid,
    counterNext, nextPatBuf_of_ne]

theorem next_idle (here : s.state = .signal ∨ s.state = .done) (quiet : x.clear = false) :
    s.next x = { s with state := .done } := by
  rcases here with here | here <;>
    simp [next, nextState, nextSpriteConf, here, quiet, patternRead, patCntClear, spriteValid,
      counterNext, nextPatBuf_of_ne]

end SpriteManager

/-! ## The phases -/

namespace SpriteEngine

/-- What the engine does: it looks at the next entry of OAM, waits two clocks for
it, reads the pattern rows of a sprite in range for `p` clocks, offers it to the
sprite file, and signals that it is ready. -/
inductive Phase where
  | scan
  | fetch
  | answer
  | pattern (p : ℕ)
  | send
  | signal
  | done
deriving DecidableEq, Repr

namespace Phase

def manager : Phase → ManagerState
  | .scan | .fetch | .answer => .confRead
  | .pattern _ => .patRead
  | .send => .sendSprite
  | .signal => .signal
  | .done => .done

/-- The scanner rests at entry `i`. -/
def scanner (i : ℕ) : Phase → ScanState
  | .fetch | .answer => .memReq
  | _ => if i < 64 then .standby else .init

def oamPipe : Phase → Debounce Bool
  | .fetch => ⟨true, false⟩
  | .answer => ⟨false, true⟩
  | _ => ⟨false, false⟩

/-- The reads of the pattern rows `0` to `w`. -/
def patPipe (w : ℕ) : Phase → Debounce Bool
  | .pattern p => ⟨decide (1 ≤ p ∧ p ≤ w + 1), decide (2 ≤ p ∧ p ≤ w + 2)⟩
  | _ => ⟨false, false⟩

/-- An entry is being looked at or a sprite is on its way. -/
def busy : Phase → Bool
  | .fetch | .answer | .pattern _ | .send => true
  | _ => false

def ended : Phase → Bool
  | .signal | .done => true
  | _ => false

end Phase

/-- The engine has asked for `i` entries and sent `n` sprites. -/
structure InPhase (phase : Phase) (i n : ℕ) (s : State) : Prop where
  manager : s.manager.state = phase.manager
  scanner : s.scanner.state = phase.scanner i
  oamAddr : s.scanner.oamAddr.toNat = i
  entries : i ≤ 64
  oamPipe : s.oam.ackPipe = phase.oamPipe
  patPipe : s.pat.ackPipe = phase.patPipe s.manager.spriteConf.w.toNat
  counters : ∀ p, phase = .pattern p → p ≤ s.manager.spriteConf.w.toNat + 3 ∧
    s.manager.readReqCount.toNat = min p (s.manager.spriteConf.w.toNat + 1) ∧
    s.manager.readAckCount.toNat = min (p - 2) (s.manager.spriteConf.w.toNat + 1)
  count : s.manager.spriteCount.toNat = n
  contents : (SpriteFile.contents s.chain).length = n
  units : s.chain.length = maxSpritesPerLine
  room : phase.busy = true → n < 16 ∧ 0 < i
  le : n ≤ 16
  all : phase.ended = true → i = 64 ∨ n = 16

section Steps

variable {i n : ℕ} {s : State} {x : Input}

/-- The manager asks for the next entry while there is one and the line is not full. -/
theorem confReq_eq {phase : Phase} (here : InPhase phase i n s)
    (looks : phase.manager = .confRead) :
    confReq s = (s.scanner.confExists && decide (n < 16)) := by
  have count : s.manager.spriteCount < 16 ↔ n < 16 := by
    rw [← here.count]
    exact Iff.rfl
  simp only [confReq, SpriteManager.confReq, here.manager, looks, count]

/-- A clock in which nothing is offered. -/
theorem chain_next (quiet : clear s x = false) (notSending : s.manager.state ≠ .sendSprite) :
    SpriteFile.contents (next s x).chain = SpriteFile.contents s.chain := by
  have nothing : s.manager.spriteValid = false := beq_eq_false_iff_ne.mpr notSending
  show SpriteFile.contents (SpriteFile.next (clear s x) _ _ false s.chain) = _
  rw [quiet, nothing, (SpriteFile.next_contents s.chain).1, SpriteFile.inAck_quiet]
  exact List.append_nil _

theorem units_next : (next s x).chain.length = s.chain.length :=
  SpriteFile.length_next _ _ _

theorem oamPipe_next : (next s x).oam.ackPipe = ⟨oamRead s, s.oam.ackPipe.mid⟩ := rfl

theorem patPipe_next :
    (next s x).pat.ackPipe = ⟨s.manager.patternRead, s.pat.ackPipe.mid⟩ := rfl

/-- The pattern pipe stays empty outside of `PAT_READ`. -/
theorem patPipe_quiet {phase : Phase} (here : InPhase phase i n s)
    (elsewhere : phase.manager ≠ .patRead) : (next s x).pat.ackPipe = ⟨false, false⟩ := by
  have noRead : s.manager.patternRead = false := by
    rw [SpriteManager.patternRead, here.manager]
    cases phase <;> first | rfl | exact absurd rfl elsewhere
  have empty : s.pat.ackPipe.mid = false := by
    rw [here.patPipe]
    cases phase <;> first | rfl | exact absurd rfl elsewhere
  rw [patPipe_next, noRead, empty]

/-- The scanner reads only in `CONF_READ`. -/
theorem oamRead_of_ne (elsewhere : s.manager.state ≠ .confRead) : oamRead s = false := by
  have noReq : confReq s = false := by
    rw [confReq, SpriteManager.confReq]
    cases state : s.manager.state <;> first | rfl | exact absurd state elsewhere
  rw [oamRead, noReq, OamScanner.oamRead]
  cases s.scanner.state <;> rfl

/-- Outside of `CONF_READ` the scanner rests and its pipe is empty. -/
theorem scanner_rests {phase : Phase} (here : InPhase phase i n s) (quiet : clear s x = false)
    (elsewhere : phase.manager ≠ .confRead) :
    (next s x).scanner.state = s.scanner.state ∧
      (next s x).scanner.oamAddr = s.scanner.oamAddr ∧
      (next s x).oam.ackPipe = ⟨false, false⟩ := by
  have noRead : oamRead s = false := oamRead_of_ne (by rw [here.manager]; exact elsewhere)
  have scanner : (next s x).scanner = s.scanner.next (confReq s) s.oam.oamAvail false :=
    congrArg (s.scanner.next (confReq s) s.oam.oamAvail) quiet
  have noRead' : s.scanner.oamRead (confReq s) = false := noRead
  have waits : s.scanner.state ≠ .memReq := by
    rw [here.scanner]
    cases phase <;> first
      | exact absurd rfl elsewhere
      | (simp only [Phase.scanner]; split_ifs <;> simp)
  have empty : s.oam.ackPipe.mid = false := by
    rw [here.oamPipe]
    cases phase <;> first | rfl | exact absurd rfl elsewhere
  refine ⟨?_, ?_, by rw [oamPipe_next, noRead, empty]⟩
  · rw [scanner, OamScanner.next, noRead']
    cases state : s.scanner.state <;> first | rfl | exact absurd state waits
  · rw [scanner, OamScanner.next, noRead']
    rfl

/-- A free engine asks for the next entry. -/
theorem InPhase.scan_next (here : InPhase .scan i n s) (quiet : clear s x = false)
    (more : i < 64) (room : n < 16) : InPhase .fetch (i + 1) n (next s x) := by
  have standby : s.scanner.state = .standby := here.scanner.trans (if_pos more)
  have exists' : s.scanner.confExists = true := by
    rw [OamScanner.confExists, standby, OamScanner.moreConf, decide_eq_true_eq, BitVec.lt_def,
      here.oamAddr]
    exact more
  have req : confReq s = true := by
    rw [confReq_eq here rfl, exists', decide_eq_true room]
    rfl
  have read : oamRead s = true := by
    rw [oamRead, OamScanner.oamRead, standby, req, exists']
    rfl
  have scanner : (next s x).scanner = { state := .memReq, oamAddr := s.scanner.oamAddr + 1 } := by
    have read' : s.scanner.oamRead (confReq s) = true := read
    show s.scanner.next (confReq s) s.oam.oamAvail (clear s x) = _
    rw [quiet, OamScanner.next, standby, read']
    rfl
  have manager := SpriteManager.next_confRead (x := managerInput s x) here.manager quiet
  rw [show s.manager.confReq (managerInput s x).confExists = true from req,
    show (managerInput s x).confAck = false by
      simp only [managerInput, OamScanner.confAck, standby]] at manager
  have address : (s.scanner.oamAddr + 1).toNat = i + 1 := by
    rw [BitVec.toNat_add, here.oamAddr]
    exact Nat.mod_eq_of_lt (show i + 1 < 128 by omega)
  refine
    { manager := (congrArg SpriteManager.state manager).trans rfl
      scanner := by rw [scanner]; rfl
      oamAddr := by rw [scanner]; exact address
      entries := more
      oamPipe := by rw [oamPipe_next, read, here.oamPipe]; rfl
      patPipe := patPipe_quiet here (by simp [Phase.manager])
      counters := nofun
      count := (congrArg (fun m : SpriteManager => m.spriteCount.toNat) manager).trans here.count
      contents := by rw [chain_next quiet (by simp [here.manager, Phase.manager]), here.contents]
      units := units_next.trans here.units
      room := fun _ => ⟨room, Nat.succ_pos i⟩
      le := here.le
      all := nofun }

/-- The engine is ready when there is no entry left or the line is full. -/
theorem InPhase.scan_end (here : InPhase .scan i n s) (quiet : clear s x = false)
    (all : i = 64 ∨ n = 16) : InPhase .signal i n (next s x) := by
  have noReq : confReq s = false := by
    rw [confReq_eq here rfl]
    rcases all with last | full
    · have none : s.scanner.confExists = false := by
        have rests : s.scanner.state = .init := here.scanner.trans (if_neg (by omega))
        rw [OamScanner.confExists, rests, OamScanner.moreConf, decide_eq_false_iff_not,
          BitVec.lt_def, here.oamAddr, last]
        exact lt_irrefl 64
      rw [none, Bool.false_and]
    · rw [decide_eq_false (by omega), Bool.and_false]
  have noRead : s.scanner.oamRead (confReq s) = false := by
    rw [OamScanner.oamRead, noReq]
    cases s.scanner.state <;> rfl
  have scanner : (next s x).scanner = s.scanner.next (confReq s) s.oam.oamAvail false :=
    congrArg (s.scanner.next (confReq s) s.oam.oamAvail) quiet
  have manager := SpriteManager.next_confRead (x := managerInput s x) here.manager quiet
  rw [show s.manager.confReq (managerInput s x).confExists = false from noReq] at manager
  refine
    { manager := (congrArg SpriteManager.state manager).trans rfl
      scanner := ?_
      oamAddr := ?_
      entries := here.entries
      oamPipe := by rw [oamPipe_next, oamRead, noRead, here.oamPipe]; rfl
      patPipe := patPipe_quiet here (by simp [Phase.manager])
      counters := nofun
      count := (congrArg (fun m : SpriteManager => m.spriteCount.toNat) manager).trans here.count
      contents := by rw [chain_next quiet (by simp [here.manager, Phase.manager]), here.contents]
      units := units_next.trans here.units
      room := nofun
      le := here.le
      all := fun _ => all }
  · rw [scanner, OamScanner.next, noRead, here.scanner]
    by_cases more : i < 64
    · simp only [Phase.scanner, if_pos more]
      rfl
    · simp only [Phase.scanner, if_neg more]
      rfl
  · rw [scanner, OamScanner.next, noRead]
    exact here.oamAddr

/-- While an entry is on its way the scanner asks for nothing else. -/
theorem memReq_req {phase : Phase} (here : InPhase phase i n s)
    (waits : phase = .fetch ∨ phase = .answer) :
    s.scanner.state = .memReq ∧ confReq s = true ∧ s.scanner.oamRead (confReq s) = false := by
  have state : s.scanner.state = .memReq := by
    rw [here.scanner]
    rcases waits with rfl | rfl <;> rfl
  have looks : phase.manager = .confRead := by rcases waits with rfl | rfl <;> rfl
  have room := here.room (by rcases waits with rfl | rfl <;> rfl)
  refine ⟨state, ?_, by rw [OamScanner.oamRead, state]⟩
  rw [confReq_eq here looks, OamScanner.confExists, state, decide_eq_true room.1]
  rfl

/-- An entry takes two clocks. -/
theorem InPhase.fetch_next (here : InPhase .fetch i n s) (quiet : clear s x = false) :
    InPhase .answer i n (next s x) := by
  obtain ⟨state, req, noRead⟩ := memReq_req here (.inl rfl)
  have notYet : s.oam.oamAvail = false := congrArg Debounce.out here.oamPipe
  have scanner : (next s x).scanner = s.scanner.next (confReq s) s.oam.oamAvail false :=
    congrArg (s.scanner.next (confReq s) s.oam.oamAvail) quiet
  have manager := SpriteManager.next_confRead (x := managerInput s x) here.manager quiet
  rw [show s.manager.confReq (managerInput s x).confExists = true from req,
    show (managerInput s x).confAck = false by
      simp only [managerInput, OamScanner.confAck, state, notYet, Bool.and_false]] at manager
  exact
    { manager := (congrArg SpriteManager.state manager).trans rfl
      scanner := by rw [scanner, OamScanner.next, state, notYet]; rfl
      oamAddr := by rw [scanner, OamScanner.next, noRead]; exact here.oamAddr
      entries := here.entries
      oamPipe := by rw [oamPipe_next, oamRead, noRead, here.oamPipe]; rfl
      patPipe := patPipe_quiet here (by simp [Phase.manager])
      counters := nofun
      count := (congrArg (fun m : SpriteManager => m.spriteCount.toNat) manager).trans here.count
      contents := by rw [chain_next quiet (by simp [here.manager, Phase.manager]), here.contents]
      units := units_next.trans here.units
      room := fun _ => here.room rfl
      le := here.le
      all := nofun }

/-- What the scanner does when an entry has arrived. -/
theorem answer_scanner (here : InPhase .answer i n s) (quiet : clear s x = false) :
    (next s x).scanner.state = (if i < 64 then .standby else .init) ∧
      (next s x).scanner.oamAddr = s.scanner.oamAddr ∧
      (next s x).oam.ackPipe = ⟨false, false⟩ := by
  obtain ⟨state, req, noRead⟩ := memReq_req here (.inr rfl)
  have avail : s.oam.oamAvail = true := congrArg Debounce.out here.oamPipe
  have more : s.scanner.moreConf = decide (i < 64) := by
    rw [OamScanner.moreConf, decide_eq_decide, BitVec.lt_def, here.oamAddr]
    exact Iff.rfl
  have scanner : (next s x).scanner = s.scanner.next (confReq s) s.oam.oamAvail false :=
    congrArg (s.scanner.next (confReq s) s.oam.oamAvail) quiet
  refine ⟨?_, ?_, by rw [oamPipe_next, oamRead, noRead, here.oamPipe]; rfl⟩
  · rw [scanner, OamScanner.next, state, avail, more]
    simp
  · rw [scanner, OamScanner.next, noRead]
    rfl

/-- What the manager does when an entry has arrived. -/
theorem answer_manager (here : InPhase .answer i n s) (quiet : clear s x = false) :
    (next s x).manager =
      { s.manager with
        state := if s.oam.oamData.inRange s.row then .patRead else .confRead
        spriteConf := if s.oam.oamData.inRange s.row then s.oam.oamData else s.manager.spriteConf
        readReqCount := 0
        readAckCount := 0 } := by
  obtain ⟨state, req, -⟩ := memReq_req here (.inr rfl)
  have avail : s.oam.oamAvail = true := congrArg Debounce.out here.oamPipe
  have manager := SpriteManager.next_confRead (x := managerInput s x) here.manager quiet
  rw [show s.manager.confReq (managerInput s x).confExists = true from req,
    show (managerInput s x).confAck = s.oam.oamData.inRange s.row by
      simp only [managerInput, OamScanner.confAck, state, avail, Bool.and_true]] at manager
  exact manager.trans rfl

/-- An entry out of range is passed. -/
theorem InPhase.answer_skip (here : InPhase .answer i n s) (quiet : clear s x = false)
    (outside : s.oam.oamData.inRange s.row = false) : InPhase .scan i n (next s x) := by
  obtain ⟨state, address, pipe⟩ := answer_scanner here quiet
  have manager := answer_manager here quiet
  rw [outside] at manager
  exact
    { manager := (congrArg SpriteManager.state manager).trans rfl
      scanner := state
      oamAddr := by rw [address]; exact here.oamAddr
      entries := here.entries
      oamPipe := pipe
      patPipe := patPipe_quiet here (by simp [Phase.manager])
      counters := nofun
      count := (congrArg (fun m : SpriteManager => m.spriteCount.toNat) manager).trans here.count
      contents := by rw [chain_next quiet (by simp [here.manager, Phase.manager]), here.contents]
      units := units_next.trans here.units
      room := nofun
      le := here.le
      all := nofun }

/-- The sprite of an entry in range is taken. -/
theorem InPhase.answer_take (here : InPhase .answer i n s) (quiet : clear s x = false)
    (inside : s.oam.oamData.inRange s.row = true) : InPhase (.pattern 0) i n (next s x) := by
  obtain ⟨state, address, pipe⟩ := answer_scanner here quiet
  have manager := answer_manager here quiet
  rw [inside] at manager
  refine
    { manager := (congrArg SpriteManager.state manager).trans rfl
      scanner := state
      oamAddr := by rw [address]; exact here.oamAddr
      entries := here.entries
      oamPipe := pipe
      patPipe := patPipe_quiet here (by simp [Phase.manager])
      counters := ?_
      count := (congrArg (fun m : SpriteManager => m.spriteCount.toNat) manager).trans here.count
      contents := by rw [chain_next quiet (by simp [here.manager, Phase.manager]), here.contents]
      units := units_next.trans here.units
      room := fun _ => here.room rfl
      le := here.le
      all := nofun }
  rintro _ ⟨⟩
  rw [manager]
  exact ⟨Nat.zero_le _, (Nat.zero_min _).symm, (Nat.zero_min _).symm⟩

/-- The manager in `PAT_READ`. -/
theorem pattern_manager {p : ℕ} (here : InPhase (.pattern p) i n s) (quiet : clear s x = false) :
    (next s x).manager.state =
        (if p = s.manager.spriteConf.w.toNat + 3 then .sendSprite else .patRead) ∧
      (next s x).manager.spriteConf = s.manager.spriteConf ∧
      (next s x).manager.patBuf = s.manager.nextPatBuf (managerInput s x) ∧
      (next s x).manager.readReqCount.toNat = min (p + 1) (s.manager.spriteConf.w.toNat + 1) ∧
      (next s x).manager.readAckCount.toNat = min (p - 1) (s.manager.spriteConf.w.toNat + 1) ∧
      (next s x).manager.spriteCount = s.manager.spriteCount ∧
      s.manager.patternRead = decide (p ≤ s.manager.spriteConf.w.toNat) := by
  obtain ⟨bound, req, ack⟩ := here.counters p rfl
  have width := s.manager.spriteConf.w.isLt
  have manager := SpriteManager.next_patRead (x := managerInput s x) here.manager quiet
  have wide : (s.manager.spriteConf.w.zeroExtend 3).toNat = s.manager.spriteConf.w.toNat := by
    rw [BitVec.toNat_setWidth]
    omega
  have avail : (managerInput s x).patternAvail =
      decide (2 ≤ p ∧ p ≤ s.manager.spriteConf.w.toNat + 2) := congrArg Debounce.out here.patPipe
  have manager' : (next s x).manager = s.manager.next (managerInput s x) := rfl
  rw [manager', manager]
  refine ⟨?_, rfl, rfl, ?_, ?_, rfl, ?_⟩
  · simp only [BitVec.lt_def, wide, ack]
    congr 1
    rw [eq_iff_iff]
    omega
  · simp only [BitVec.le_def, wide, req]
    split_ifs with reads
    · rw [BitVec.toNat_add, req, show (1 : BitVec 3).toNat = 1 from rfl]
      omega
    · rw [req]
      omega
  · simp only [avail, decide_eq_true_eq]
    split_ifs with arrives
    · rw [BitVec.toNat_add, ack, show (1 : BitVec 3).toNat = 1 from rfl]
      omega
    · rw [ack]
      omega
  · rw [SpriteManager.patternRead, here.manager]
    simp only [Phase.manager, BitVec.le_def, wide, req, decide_eq_decide]
    omega

/-- The pattern rows are read one after the other. -/
theorem InPhase.pattern_next {p : ℕ} (here : InPhase (.pattern p) i n s)
    (quiet : clear s x = false) (more : p < s.manager.spriteConf.w.toNat + 3) :
    InPhase (.pattern (p + 1)) i n (next s x) := by
  obtain ⟨state, conf, -, req, ack, count, read⟩ := pattern_manager here quiet
  obtain ⟨scanner, address, pipe⟩ := scanner_rests here quiet (by simp [Phase.manager])
  refine
    { manager := state.trans (if_neg more.ne)
      scanner := scanner.trans here.scanner
      oamAddr := by rw [address]; exact here.oamAddr
      entries := here.entries
      oamPipe := pipe
      patPipe := ?_
      counters := ?_
      count := by rw [count]; exact here.count
      contents := by rw [chain_next quiet (by simp [here.manager, Phase.manager]), here.contents]
      units := units_next.trans here.units
      room := fun _ => here.room rfl
      le := here.le
      all := nofun }
  · rw [patPipe_next, read, here.patPipe, conf, Phase.patPipe, Phase.patPipe]
    congr 1
    · rw [decide_eq_decide]
      omega
    · rw [decide_eq_decide]
      omega
  · rintro _ ⟨⟩
    rw [conf]
    exact ⟨more, req, ack⟩

/-- When all rows have arrived the sprite is offered. -/
theorem InPhase.pattern_end {p : ℕ} (here : InPhase (.pattern p) i n s)
    (quiet : clear s x = false) (last : p = s.manager.spriteConf.w.toNat + 3) :
    InPhase .send i n (next s x) := by
  obtain ⟨state, conf, -, -, -, count, read⟩ := pattern_manager here quiet
  obtain ⟨scanner, address, pipe⟩ := scanner_rests here quiet (by simp [Phase.manager])
  refine
    { manager := state.trans (if_pos last)
      scanner := scanner.trans here.scanner
      oamAddr := by rw [address]; exact here.oamAddr
      entries := here.entries
      oamPipe := pipe
      patPipe := ?_
      counters := nofun
      count := by rw [count]; exact here.count
      contents := by rw [chain_next quiet (by simp [here.manager, Phase.manager]), here.contents]
      units := units_next.trans here.units
      room := fun _ => here.room rfl
      le := here.le
      all := nofun }
  rw [patPipe_next, read, here.patPipe]
  simp only [Phase.patPipe]
  rw [decide_eq_false (by omega), decide_eq_false (by omega)]

/-- The sprite file takes a sprite as soon as its last unit is empty. -/
theorem send_ack (here : InPhase .send i n s) (quiet : clear s x = false) :
    spriteAck s x = decide (SpriteFile.crowded s.chain = 0) ∧
      SpriteFile.contents (next s x).chain =
        SpriteFile.contents s.chain ++
          (if SpriteFile.crowded s.chain = 0 then [s.manager.sprite] else []) ∧
      (SpriteFile.crowded s.chain ≠ 0 →
        SpriteFile.crowded (next s x).chain + 1 = SpriteFile.crowded s.chain) := by
  have valid : s.manager.spriteValid = true := beq_iff_eq.mpr here.manager
  have some : s.chain ≠ [] := List.ne_nil_of_length_pos (by rw [here.units]; decide)
  have room := here.room rfl
  have hole : s.chain.all SpriteUnit.outValid = false := SpriteFile.hole_of_contents (by
    rw [here.contents, here.units]
    exact room.1)
  have chain : (next s x).chain =
      SpriteFile.next false s.manager.sprite true false s.chain := by
    show SpriteFile.next (clear s x) _ s.manager.spriteValid false s.chain = _
    rw [quiet, valid]
  refine ⟨?_, ?_, fun busy => ?_⟩
  · rw [spriteAck, quiet, valid, SpriteFile.inAck_eq some]
  · rw [chain, (SpriteFile.next_contents s.chain).1, SpriteFile.inAck_eq some]
    simp only [decide_eq_true_eq]
  · rw [chain]
    exact (SpriteFile.next_crowded false hole busy).1

/-- The sprite waits for the last unit. -/
theorem InPhase.send_wait (here : InPhase .send i n s) (quiet : clear s x = false)
    (busy : SpriteFile.crowded s.chain ≠ 0) : InPhase .send i n (next s x) := by
  obtain ⟨ack, contents, -⟩ := send_ack here quiet
  obtain ⟨scanner, address, pipe⟩ := scanner_rests here quiet (by simp [Phase.manager])
  have manager := SpriteManager.next_sendSprite (x := managerInput s x) here.manager quiet
  rw [show (managerInput s x).spriteAck = false from ack.trans (decide_eq_false busy)] at manager
  rw [if_neg busy, List.append_nil] at contents
  exact
    { manager := (congrArg SpriteManager.state manager).trans rfl
      scanner := scanner.trans here.scanner
      oamAddr := by rw [address]; exact here.oamAddr
      entries := here.entries
      oamPipe := pipe
      patPipe := patPipe_quiet here (by simp [Phase.manager])
      counters := nofun
      count := (congrArg (fun m : SpriteManager => m.spriteCount.toNat) manager).trans here.count
      contents := by rw [contents, here.contents]
      units := units_next.trans here.units
      room := fun _ => here.room rfl
      le := here.le
      all := nofun }

/-- The sprite is taken. -/
theorem InPhase.send_next (here : InPhase .send i n s) (quiet : clear s x = false)
    (free : SpriteFile.crowded s.chain = 0) : InPhase .scan i (n + 1) (next s x) := by
  obtain ⟨ack, contents, -⟩ := send_ack here quiet
  obtain ⟨scanner, address, pipe⟩ := scanner_rests here quiet (by simp [Phase.manager])
  have manager := SpriteManager.next_sendSprite (x := managerInput s x) here.manager quiet
  rw [show (managerInput s x).spriteAck = true from ack.trans (decide_eq_true free)] at manager
  rw [if_pos free] at contents
  have room := here.room rfl
  exact
    { manager := (congrArg SpriteManager.state manager).trans rfl
      scanner := scanner.trans here.scanner
      oamAddr := by rw [address]; exact here.oamAddr
      entries := here.entries
      oamPipe := pipe
      patPipe := patPipe_quiet here (by simp [Phase.manager])
      counters := nofun
      count := by
        refine (congrArg (fun m : SpriteManager => m.spriteCount.toNat) manager).trans ?_
        show (s.manager.spriteCount + 1).toNat = n + 1
        rw [BitVec.toNat_add, here.count]
        exact Nat.mod_eq_of_lt (show n + 1 < 32 by omega)
      contents := by rw [contents, List.length_append, here.contents]; rfl
      units := units_next.trans here.units
      room := nofun
      le := room.1
      all := nofun }

/-- The signal lasts for one clock; then nothing moves. -/
theorem InPhase.ended_next {phase : Phase} (here : InPhase phase i n s)
    (quiet : clear s x = false) (ended : phase.ended = true) : InPhase .done i n (next s x) := by
  have rests : phase.manager ≠ .confRead ∧ phase.manager ≠ .patRead ∧
      phase.manager ≠ .sendSprite := by
    cases phase <;> simp [Phase.ended, Phase.manager] at ended ⊢
  have idle : s.manager.state = .signal ∨ s.manager.state = .done := by
    rw [here.manager]
    cases phase <;> simp [Phase.ended, Phase.manager] at ended ⊢
  obtain ⟨scanner, address, pipe⟩ := scanner_rests here quiet rests.1
  have manager := SpriteManager.next_idle (x := managerInput s x) idle quiet
  exact
    { manager := congrArg SpriteManager.state manager
      scanner := by
        rw [scanner, here.scanner]
        cases phase <;> first | rfl | cases ended
      oamAddr := by rw [address]; exact here.oamAddr
      entries := here.entries
      oamPipe := pipe
      patPipe := patPipe_quiet here rests.2.1
      counters := nofun
      count := (congrArg (fun m : SpriteManager => m.spriteCount.toNat) manager).trans here.count
      contents := by
        rw [chain_next quiet (by rw [here.manager]; exact rests.2.2), here.contents]
      units := units_next.trans here.units
      room := nofun
      le := here.le
      all := fun _ => here.all ended }

end Steps

/-! ## Progress -/

/-- The phase that follows a phase when no preparation begins. -/
inductive Follows (s : State) : Phase → ℕ → ℕ → Phase → ℕ → ℕ → Prop where
  | fetch {i n : ℕ} (more : i < 64) (room : n < 16) : Follows s .scan i n .fetch (i + 1) n
  | signal {i n : ℕ} (all : i = 64 ∨ n = 16) : Follows s .scan i n .signal i n
  | answer {i n : ℕ} : Follows s .fetch i n .answer i n
  | skip {i n : ℕ} (outside : s.oam.oamData.inRange s.row = false) : Follows s .answer i n .scan i n
  | take {i n : ℕ} (inside : s.oam.oamData.inRange s.row = true) :
      Follows s .answer i n (.pattern 0) i n
  | row {p i n : ℕ} (more : p < s.manager.spriteConf.w.toNat + 3) :
      Follows s (.pattern p) i n (.pattern (p + 1)) i n
  | offer {p i n : ℕ} (last : p = s.manager.spriteConf.w.toNat + 3) :
      Follows s (.pattern p) i n .send i n
  | wait {i n : ℕ} (busy : SpriteFile.crowded s.chain ≠ 0) : Follows s .send i n .send i n
  | sent {i n : ℕ} (free : SpriteFile.crowded s.chain = 0) : Follows s .send i n .scan i (n + 1)
  | rest {phase : Phase} {i n : ℕ} (ended : phase.ended = true) : Follows s phase i n .done i n

/-- Clocks that the entries and sprites to come can take: three for an entry, and
for a sprite seven for its rows and as many as there are units to be taken. -/
def budget (i n : ℕ) : ℕ := 3 * (64 - i) + 40 * (16 - n) + 2

/-- An upper bound of the clocks that are left. -/
def rank (phase : Phase) (i n : ℕ) (s : State) : ℕ :=
  match phase with
  | .scan => budget i n
  | .fetch => budget i n + 2
  | .answer => budget i n + 1
  | .pattern p => budget i (n + 1) + 17 + (s.manager.spriteConf.w.toNat + 4 - p)
  | .send => budget i (n + 1) + 1 + SpriteFile.crowded s.chain
  | .signal => 1
  | .done => 0

section Progress

variable {phase phase' : Phase} {i i' n n' : ℕ} {s : State} {x : Input}

/-- **One clock of the walk.** -/
theorem InPhase.next (here : InPhase phase i n s) (quiet : clear s x = false) :
    ∃ phase' i' n', Follows s phase i n phase' i' n' ∧ InPhase phase' i' n' (next s x) := by
  cases phase with
  | scan =>
      by_cases all : i = 64 ∨ n = 16
      · exact ⟨.signal, i, n, .signal all, here.scan_end quiet all⟩
      · have entries := here.entries
        have le := here.le
        have more : i < 64 := by omega
        have room : n < 16 := by omega
        exact ⟨.fetch, i + 1, n, .fetch more room, here.scan_next quiet more room⟩
  | fetch => exact ⟨.answer, i, n, .answer, here.fetch_next quiet⟩
  | answer =>
      cases inside : s.oam.oamData.inRange s.row with
      | false => exact ⟨.scan, i, n, .skip inside, here.answer_skip quiet inside⟩
      | true => exact ⟨.pattern 0, i, n, .take inside, here.answer_take quiet inside⟩
  | pattern p =>
      obtain ⟨bound, -, -⟩ := here.counters p rfl
      by_cases last : p = s.manager.spriteConf.w.toNat + 3
      · exact ⟨.send, i, n, .offer last, here.pattern_end quiet last⟩
      · have more : p < s.manager.spriteConf.w.toNat + 3 := by omega
        exact ⟨.pattern (p + 1), i, n, .row more, here.pattern_next quiet more⟩
  | send =>
      by_cases free : SpriteFile.crowded s.chain = 0
      · exact ⟨.scan, i, n + 1, .sent free, here.send_next quiet free⟩
      · exact ⟨.send, i, n, .wait free, here.send_wait quiet free⟩
  | signal => exact ⟨.done, i, n, .rest rfl, here.ended_next quiet rfl⟩
  | done => exact ⟨.done, i, n, .rest rfl, here.ended_next quiet rfl⟩

/-- Every clock of a walk makes the rank smaller. -/
theorem Follows.rank_lt (follows : Follows s phase i n phase' i' n') (here : InPhase phase i n s)
    (quiet : clear s x = false) (going : phase.ended = false)
    (following : InPhase phase' i' n' (SpriteEngine.next s x)) :
    rank phase' i' n' (SpriteEngine.next s x) < rank phase i n s := by
  have entries := here.entries
  have le := here.le
  cases follows with
  | fetch | signal | answer | skip => simp only [rank, budget]; omega
  | take =>
      have room := (here.room rfl).1
      have width := (SpriteEngine.next s x).manager.spriteConf.w.isLt
      simp only [rank, budget]
      omega
  | row more =>
      have conf := (pattern_manager here quiet).2.1
      simp only [rank, conf]
      omega
  | offer last =>
      have crowded := SpriteFile.crowded_le (SpriteEngine.next s x).chain
      have units := following.units
      simp only [rank, maxSpritesPerLine] at units ⊢
      omega
  | wait busy =>
      have moves := (send_ack here quiet).2.2 busy
      simp only [rank]
      omega
  | sent free => simp only [rank, free]; omega
  | rest ended => rw [going] at ended; cases ended

/-- A walk ends with its signal. -/
theorem Follows.ne_done (follows : Follows s phase i n phase' i' n')
    (going : phase.ended = false) : phase' ≠ .done := by
  rintro rfl
  cases follows with
  | rest ended => rw [going] at ended; cases ended

/-- An engine that is ready has ended its walk. -/
theorem InPhase.ended_of_done (here : InPhase phase i n s) (ready : done s = true) :
    phase.ended = true := by
  have signal : phase.manager = .signal := here.manager.symm.trans (beq_iff_eq.mp ready)
  cases phase <;> first | rfl | cases signal

/-- A walk has not yet signalled. -/
def Going (s : State) : Prop := ∃ phase i n, InPhase phase i n s ∧ phase.ended = false

/-- **The engine signals** before its rank has run out, and not earlier than that
it is ready. -/
theorem InPhase.signals {ports : Ports} {inputs : ℕ → Input} (here : InPhase phase i n s)
    (going : phase.ended = false)
    (quiet : ∀ u, u < rank phase i n s →
      clear ((machine ports).runFrom s inputs u) (inputs u) = false) :
    ∃ k i' n', k < rank phase i n s ∧
      InPhase .signal i' n' ((machine ports).runFrom s inputs k) ∧
      ∀ j, j < k → Going ((machine ports).runFrom s inputs j) := by
  suffices all : ∀ r phase i n u, rank phase i n ((machine ports).runFrom s inputs u) ≤ r →
      InPhase phase i n ((machine ports).runFrom s inputs u) → phase ≠ .done →
      (∀ v, u ≤ v → v < u + r → clear ((machine ports).runFrom s inputs v) (inputs v) = false) →
      ∃ k i' n', u ≤ k ∧ k < u + r ∧
        InPhase .signal i' n' ((machine ports).runFrom s inputs k) ∧
        ∀ j, u ≤ j → j < k → Going ((machine ports).runFrom s inputs j) by
    obtain ⟨k, i', n', -, bound, signal, before⟩ := all (rank phase i n s) phase i n 0 le_rfl here
      (by rintro rfl; cases going) fun v _ bound => quiet v (by omega)
    exact ⟨k, i', n', by omega, signal, fun j earlier => before j (Nat.zero_le j) earlier⟩
  intro r
  induction r with
  | zero =>
      intro phase i n u bound here notDone
      exfalso
      cases phase <;> simp only [rank, budget] at bound <;> first | omega | exact notDone rfl
  | succ r ih =>
      intro phase i n u bound here notDone quiet
      by_cases ended : phase.ended = true
      · have signal : phase = .signal := by
          cases phase with
          | signal => rfl
          | done => exact absurd rfl notDone
          | _ => cases ended
        subst signal
        exact ⟨u, i, n, le_rfl, by omega, here, fun j after before => by omega⟩
      · have going : phase.ended = false := Bool.not_eq_true _ ▸ ended
        obtain ⟨phase', i', n', follows, following⟩ := here.next (quiet u le_rfl (by omega))
        have falls := follows.rank_lt here (quiet u le_rfl (by omega)) going following
        have notDone' := follows.ne_done going
        have less : rank phase' i' n' ((machine ports).runFrom s inputs (u + 1)) ≤ r :=
          Nat.le_of_lt_succ (lt_of_lt_of_le falls bound)
        obtain ⟨k, i'', n'', after, earlier, signal, before⟩ :=
          ih phase' i' n' (u + 1) less following notDone' fun v later sooner =>
            quiet v (by omega) (by omega)
        refine ⟨k, i'', n'', by omega, by omega, signal, fun j later sooner => ?_⟩
        rcases Nat.eq_or_lt_of_le later with rfl | following'
        · exact ⟨phase, i, n, here, going⟩
        · exact before j following' sooner

end Progress

/-! ## A clock in which no entry arrives -/

section Looking

variable {row : BitVec 8} {s : State} {x : Input}

/-- The manager looks for an entry of the row and has found none. -/
structure Looking (row : BitVec 8) (s : State) : Prop where
  manager : s.manager.state = .confRead
  spriteCount : s.manager.spriteCount = 0
  contents : SpriteFile.contents s.chain = []
  register : s.row = row

/-- A manager without a sprite asks for an entry as long as there is one. -/
theorem confReq_of_none (looks : s.manager.state = .confRead) (none : s.manager.spriteCount = 0) :
    confReq s = s.scanner.confExists := by
  simp [confReq, SpriteManager.confReq, looks, none]

/-- The manager goes on looking. -/
theorem manager_looks (looks : s.manager.state = .confRead) (none : s.manager.spriteCount = 0)
    (quiet : clear s x = false) (more : s.scanner.confExists = true)
    (noAck : s.scanner.confAck s.oam.oamAvail s.row s.oam.oamData = false) :
    (next s x).manager.state = .confRead ∧ (next s x).manager.spriteCount = 0 := by
  have manager : (next s x).manager = _ :=
    SpriteManager.next_confRead (x := managerInput s x) looks quiet
  rw [show s.manager.confReq (managerInput s x).confExists = true from
      (confReq_of_none looks none).trans more,
    show (managerInput s x).confAck = false from noAck] at manager
  rw [manager]
  exact ⟨rfl, none⟩

theorem Looking.not_done (looking : Looking row s) : done s = false := by
  rw [done, SpriteManager.ready, looking.manager]
  rfl

theorem Looking.next (looking : Looking row s) (quiet : clear s x = false)
    (more : s.scanner.confExists = true)
    (noAck : s.scanner.confAck s.oam.oamAvail s.row s.oam.oamData = false) :
    Looking row (next s x) := by
  obtain ⟨state, none⟩ := manager_looks looking.manager looking.spriteCount quiet more noAck
  refine ⟨state, none, ?_, ?_⟩
  · rw [chain_next quiet (by simp [looking.manager]), looking.contents]
  · exact (if_neg (by rw [quiet]; exact Bool.false_ne_true)).trans looking.register

/-- A scanner at rest and pipes that have run empty make it the `scan` phase. -/
theorem Looking.inPhase {i : ℕ} (looking : Looking row s) (rests : s.scanner.state = .standby)
    (address : s.scanner.oamAddr.toNat = i) (more : i < 64)
    (oamPipe : s.oam.ackPipe = ⟨false, false⟩) (patPipe : s.pat.ackPipe = ⟨false, false⟩)
    (units : s.chain.length = maxSpritesPerLine) : InPhase .scan i 0 s where
  manager := looking.manager
  scanner := rests.trans (if_pos more).symm
  oamAddr := address
  entries := more.le
  oamPipe := oamPipe
  patPipe := patPipe
  counters := nofun
  count := congrArg BitVec.toNat looking.spriteCount
  contents := congrArg List.length looking.contents
  units := units
  room := nofun
  le := Nat.zero_le _
  all := nofun

/-- A scanner that has not been started offers an entry and never answers. -/
theorem unstarted_next (unstarted : s.scanner = OamScanner.reset) (quiet : clear s x = false) :
    (next s x).scanner = OamScanner.reset ∧ s.scanner.confExists = true ∧
      s.scanner.confAck s.oam.oamAvail s.row s.oam.oamData = false := by
  refine ⟨?_, ?_, ?_⟩
  · show s.scanner.next (confReq s) s.oam.oamAvail (clear s x) = _
    rw [quiet, unstarted]
    rfl
  · rw [unstarted]
    rfl
  · rw [unstarted]
    rfl

end Looking

/-! ## The clock of the clear -/

section Clear

variable {s : State} {x : Input}

/-- What `clear` leaves in the registers, in any state. -/
structure Cleared (row : BitVec 8) (s : State) : Prop extends Looking row s where
  oamAddr : s.scanner.oamAddr = 0
  lastPrep : s.lastPrep = true

theorem clear_next (begins : clear s x = true) : Cleared x.nextRow (next s x) := by
  have manager : (next s x).manager = s.manager.next (managerInput s x) := rfl
  have cleared : (managerInput s x).clear = true := begins
  refine ⟨⟨?_, ?_, ?_, if_pos begins⟩, ?_, ?_⟩
  · rw [manager, SpriteManager.next]
    cases state : s.manager.state <;> simp [SpriteManager.nextState, state, cleared]
  · rw [manager, SpriteManager.next, cleared]
    rfl
  · show SpriteFile.contents (SpriteFile.next (clear s x) _ _ false s.chain) = []
    rw [begins]
    exact SpriteFile.contents_clear _ _
  · show counterNext _ _ (clear s x) = 0
    rw [begins]
    rfl
  · rw [clear, Bool.and_eq_true] at begins
    exact begins.1

/-- The scanner begins with the first entry, unless it waits for the last one. -/
theorem clear_scanner (begins : clear s x = true) :
    (next s x).scanner.state =
      if s.scanner.state = .memReq ∧ s.scanner.moreConf = false then .init else .standby := by
  have scanner : (next s x).scanner = s.scanner.next (confReq s) s.oam.oamAvail true :=
    congrArg (s.scanner.next (confReq s) s.oam.oamAvail) begins
  rw [scanner]
  cases state : s.scanner.state <;> cases more : s.scanner.moreConf <;>
    simp [OamScanner.next, state, more]

end Clear

/-! ## An idle engine -/

/-- The engine is between preparations, or has never had one. -/
structure Idle (s : State) : Prop where
  scanner : s.scanner.state ≠ .memReq
  noRead : oamRead s = false
  noPattern : s.manager.patternRead = false
  state : s.manager.state = .confRead ∨ s.manager.state = .done
  oamPipe : s.oam.ackPipe.mid = false
  patPipe : s.pat.ackPipe.mid = false
  units : s.chain.length = maxSpritesPerLine

variable {s : State} {x : Input}

/-- **A preparation begins** with the first entry, an empty file and the row. -/
theorem Idle.start (idle : Idle s) (begins : clear s x = true) :
    InPhase .scan 0 0 (next s x) ∧ (next s x).row = x.nextRow := by
  have cleared := clear_next begins
  have scanner := clear_scanner begins
  rw [if_neg fun waits => idle.scanner waits.1] at scanner
  refine ⟨cleared.inPhase scanner (congrArg BitVec.toNat cleared.oamAddr) (by decide) ?_ ?_
    (units_next.trans idle.units), cleared.register⟩
  · rw [oamPipe_next, idle.noRead, idle.oamPipe]
  · rw [patPipe_next, idle.noPattern, idle.patPipe]

/-- What holds in every run, whenever `prep` rises. -/
structure Sane (s : State) : Prop where
  memReq : s.scanner.state = .memReq → s.manager.state = .confRead ∧ s.manager.spriteCount < 16
  ended : s.manager.state = .signal ∨ s.manager.state = .done →
    s.oam.ackPipe.mid = false ∧ s.pat.ackPipe.mid = false
  units : s.chain.length = maxSpritesPerLine

theorem Sane.reset (ports : Ports) : Sane (reset ports) where
  memReq := nofun
  ended := by rintro (h | h) <;> cases h
  units := rfl

theorem Sane.next (sane : Sane s) : Sane (next s x) := by
  refine ⟨fun waits => ?_, fun ended => ?_, units_next.trans sane.units⟩
  · have scanner : (SpriteEngine.next s x).scanner =
        s.scanner.next (confReq s) s.oam.oamAvail (clear s x) := rfl
    have manager : (SpriteEngine.next s x).manager = s.manager.next (managerInput s x) := rfl
    rw [scanner] at waits
    have facts : clear s x = false ∧ confReq s = true ∧ (managerInput s x).confAck = false := by
      cases state : s.scanner.state with
      | init =>
          simp only [OamScanner.next, state] at waits
          split_ifs at waits
      | standby =>
          by_cases reads : (s.scanner.oamRead (confReq s) && !clear s x) = true
          · rw [Bool.and_eq_true, Bool.not_eq_true'] at reads
            refine ⟨reads.2, ?_, by simp only [managerInput, OamScanner.confAck, state]⟩
            have strobe := reads.1
            simp only [OamScanner.oamRead, state, Bool.and_eq_true] at strobe
            exact strobe.1
          · have stays : (s.scanner.next (confReq s) s.oam.oamAvail (clear s x)).state =
                .standby := by
              simp only [OamScanner.next, state]
              exact if_neg reads
            rw [stays] at waits
            cases waits
      | memReq =>
          by_cases leaves : (s.oam.oamAvail || clear s x) = true
          · have moves : (s.scanner.next (confReq s) s.oam.oamAvail (clear s x)).state =
                if s.scanner.moreConf then .standby else .init := by
              simp only [OamScanner.next, state]
              exact if_pos leaves
            rw [moves] at waits
            split_ifs at waits
          · rw [Bool.or_eq_true, not_or, Bool.not_eq_true, Bool.not_eq_true] at leaves
            obtain ⟨looks, room⟩ := sane.memReq state
            refine ⟨leaves.2, ?_, ?_⟩
            · simp only [confReq, SpriteManager.confReq, looks, OamScanner.confExists, state,
                decide_eq_true room, Bool.and_self]
            · simp only [managerInput, OamScanner.confAck, leaves.1, Bool.and_false]
              split <;> rfl
    obtain ⟨quiet, req, noAck⟩ := facts
    have looks : s.manager.state = .confRead ∧ s.manager.spriteCount < 16 := by
      cases state : s.manager.state <;>
        simp [confReq, SpriteManager.confReq, state] at req
      exact ⟨rfl, req.2⟩
    rw [manager, SpriteManager.next_confRead looks.1 quiet, noAck,
      show s.manager.confReq (managerInput s x).confExists = true from req]
    exact ⟨rfl, looks.2⟩
  · have manager : (SpriteEngine.next s x).manager = s.manager.next (managerInput s x) := rfl
    rw [manager] at ended
    have silent : oamRead s = false ∧ s.manager.patternRead = false := by
      cases state : s.manager.state with
      | confRead =>
          have noReq : confReq s = false := by
            by_contra req
            rw [Bool.not_eq_false] at req
            have req' : s.manager.confReq (managerInput s x).confExists = true := req
            simp only [SpriteManager.next, SpriteManager.nextState, state, req', Bool.not_true,
              Bool.false_eq_true, if_false] at ended
            split_ifs at ended <;> rcases ended with h | h <;> cases h
          refine ⟨?_, by simp only [SpriteManager.patternRead, state]⟩
          rw [oamRead, noReq, OamScanner.oamRead]
          cases s.scanner.state <;> rfl
      | patRead =>
          simp only [SpriteManager.next, SpriteManager.nextState, state] at ended
          split_ifs at ended <;> rcases ended with h | h <;> cases h
      | sendSprite =>
          simp only [SpriteManager.next, SpriteManager.nextState, state] at ended
          split_ifs at ended <;> rcases ended with h | h <;> cases h
      | signal =>
          exact ⟨oamRead_of_ne (by simp [state]), by simp only [SpriteManager.patternRead, state]⟩
      | done =>
          exact ⟨oamRead_of_ne (by simp [state]), by simp only [SpriteManager.patternRead, state]⟩
    exact ⟨congrArg Debounce.mid (oamPipe_next.trans (by rw [silent.1])),
      congrArg Debounce.mid (patPipe_next.trans (by rw [silent.2]))⟩

theorem Sane.run (ports : Ports) (inputs : ℕ → Input) (t : ℕ) :
    Sane ((machine ports).run inputs t) :=
  Machine.invariant_always (Sane.reset ports) (fun _ _ sane => sane.next) inputs t

/-- An engine that is done is idle, whatever happened before. -/
theorem Sane.idle (sane : Sane s) (done : s.manager.state = .done) : Idle s where
  scanner waits := by
    have looks := (sane.memReq waits).1
    rw [done] at looks
    cases looks
  noRead := oamRead_of_ne (by simp [done])
  noPattern := by simp only [SpriteManager.patternRead, done]
  state := .inr done
  oamPipe := (sane.ended (.inr done)).1
  patPipe := (sane.ended (.inr done)).2
  units := sane.units

/-- The engine has never been started. -/
structure Fresh (s : State) : Prop where
  manager : s.manager.state = .confRead ∧ s.manager.spriteCount = 0
  scanner : s.scanner = OamScanner.reset
  oamPipe : s.oam.ackPipe = ⟨false, false⟩
  patPipe : s.pat.ackPipe = ⟨false, false⟩
  units : s.chain.length = maxSpritesPerLine

theorem Fresh.reset (ports : Ports) : Fresh (reset ports) := ⟨⟨rfl, rfl⟩, rfl, rfl, rfl, rfl⟩

theorem Fresh.idle (fresh : Fresh s) : Idle s where
  scanner := by simp [fresh.scanner, OamScanner.reset]
  noRead := by simp [oamRead, OamScanner.oamRead, fresh.scanner, OamScanner.reset]
  noPattern := by simp only [SpriteManager.patternRead, fresh.manager.1]
  state := .inl fresh.manager.1
  oamPipe := by rw [fresh.oamPipe]
  patPipe := by rw [fresh.patPipe]
  units := fresh.units

theorem Fresh.next (fresh : Fresh s) (quiet : clear s x = false) : Fresh (next s x) := by
  obtain ⟨scanner, more, noAck⟩ := unstarted_next fresh.scanner quiet
  refine ⟨manager_looks fresh.manager.1 fresh.manager.2 quiet more noAck, scanner, ?_, ?_,
    units_next.trans fresh.units⟩
  · rw [oamPipe_next, fresh.idle.noRead, fresh.oamPipe]
  · rw [patPipe_next, fresh.idle.noPattern, fresh.patPipe]

/-- The engine was never started, or it is done. -/
def IdleAt (ports : Ports) (inputs : ℕ → Input) (t : ℕ) : Prop :=
  (∀ u, u < t → clear ((machine ports).run inputs u) (inputs u) = false) ∨
    ((machine ports).run inputs t).manager.state = .done

/-- **Between preparations the engine is idle**, in every run. -/
theorem IdleAt.idle {ports : Ports} {inputs : ℕ → Input} {t : ℕ} (idle : IdleAt ports inputs t) :
    Idle ((machine ports).run inputs t) := by
  rcases idle with never | done
  · suffices fresh : Fresh ((machine ports).run inputs t) from fresh.idle
    induction t with
    | zero => exact .reset ports
    | succ t ih =>
        exact (ih fun u before => never u (Nat.lt_succ_of_lt before)).next
          (never t (Nat.lt_succ_self t))
  · exact (Sane.run ports inputs t).idle done

/-- **Readiness.** A preparation that begins in an idle engine and is not followed
by another one ends with the signal, for all contents of the RAMs. -/
theorem IdleAt.ready {ports : Ports} {inputs : ℕ → Input} {t₀ : ℕ}
    (idle : IdleAt ports inputs t₀)
    (begins : clear ((machine ports).run inputs t₀) (inputs t₀) = true)
    (quiet : ∀ t, t₀ < t → t ≤ t₀ + 834 →
      clear ((machine ports).run inputs t) (inputs t) = false) :
    ∃ t₁, t₀ < t₁ ∧ t₁ ≤ t₀ + 834 ∧ (∃ i n, InPhase .signal i n ((machine ports).run inputs t₁)) ∧
      ∀ t, t₀ < t → t < t₁ → Going ((machine ports).run inputs t) := by
  have inPhase : InPhase .scan 0 0 ((machine ports).run inputs (t₀ + 1)) :=
    (idle.idle.start begins).1
  have runs : ∀ u, (machine ports).runFrom ((machine ports).run inputs (t₀ + 1))
      (fun k => inputs (t₀ + 1 + k)) u = (machine ports).run inputs (t₀ + 1 + u) := fun u =>
    (Machine.runFrom_add _ inputs (t₀ + 1) u).symm
  obtain ⟨k, i, n, bound, signal, before⟩ := inPhase.signals rfl fun u sooner => by
    rw [runs]
    exact quiet _ (by omega) (by simp only [rank, budget] at sooner; omega)
  simp only [rank, budget] at bound
  rw [runs] at signal
  refine ⟨t₀ + 1 + k, by omega, by omega, ⟨i, n, signal⟩, fun t after sooner => ?_⟩
  have going := before (t - (t₀ + 1)) (by omega)
  rwa [runs, show t₀ + 1 + (t - (t₀ + 1)) = t by omega] at going

end SpriteEngine

end FPGame.Ppu
