import FPGame.Kernel.ApuDriver

/-!
# The token of the sample buffer

In a session that sets the callback pid once, at most one agent may hand the
next buffer over. The right is a token: it is born with the ioctl, waits in the
hardware as the armed interrupt, is taken up by the handler, lies in
`sample.req`, is held by the thread that fills and sends a buffer, and returns
to the hardware with the request that ends `apu_write`. A fault loses it.

`Line` relates the token to the interrupt logic, to `sample.req` and to the
handler. A token that is on its way to the next hand-over (`Token.waiting`)
means that the base queue is empty.
-/

set_option autoImplicit false

namespace FPGame.ApuDriver

open FPGame.Foundation FPGame.Apu FPGame.Linux

/-! ## What a thread does with the token -/

/-- What the thread that holds the token is doing. -/
inductive Phase where
  /-- It fills the half that is not active. -/
  | filling
  /-- It has sent the half and not yet switched. -/
  | flipping
  /-- It will request the next interrupt. -/
  | arming
deriving DecidableEq, Repr

/-- A thread at this place holds the token. -/
def Pc.phase : Pc → Option Phase
  | .writeArg _ _ | .writeCopy _ _ _ _ | .writeClear _ _ | .writePad _ _ _ _ | .writeSend _ _ =>
      some .filling
  | .writeFlip => some .flipping
  | .ioctlPid _ | .ioctlEnable | .writeUnlock | .writeEnable => some .arming
  | _ => none

/-- The thread is inside `apu_release`. -/
def Pc.releasing : Pc → Bool
  | .releasePid | .releaseReq | .releaseMute | .releaseTry => true
  | _ => false

/-- A length that has been checked. -/
def Pc.Sized : Pc → Prop
  | .writeTry _ len | .writeReq _ len | .writeArg _ len | .writeCopy _ len _ _
  | .writePad _ len _ _ | .writeSend _ len => len ≤ apuBufSize
  | _ => True

/-- The call that arms the interrupt for the first time. -/
def Call.setsPid : Call → Bool
  | .ioctl num _ => num == ioctlApuSetCallbackPid
  | _ => false

def Call.isRelease : Call → Bool
  | .release => true
  | _ => false

/-- The calls of one session: the pid is set once and the device is not
released. -/
def OneSession (begun : List Call) : Prop :=
  (begun.filter Call.setsPid).length ≤ 1 ∧ ∀ call ∈ begun, call.isRelease = false

theorem OneSession.tail {earlier later : List Call} (session : OneSession (later ++ earlier)) :
    OneSession earlier := by
  obtain ⟨once, kept⟩ := session
  refine ⟨?_, fun call member => kept call (List.mem_append_right later member)⟩
  rw [List.filter_append, List.length_append] at once
  omega

/-- The session's only ioctl finds that none has begun. -/
theorem OneSession.first {earlier : List Call} {call : Call} (sets : call.setsPid = true)
    (session : OneSession (call :: earlier)) : ∀ other ∈ earlier, other.setsPid = false := by
  have once := session.1
  rw [List.filter_cons_of_pos sets, List.length_cons] at once
  have none : earlier.filter Call.setsPid = [] := List.length_eq_zero_iff.mp (by omega)
  intro other member
  have absent := List.filter_eq_nil_iff.mp none other member
  exact Bool.eq_false_iff.mpr absent

/-- How a step outside the driver ends: a call is refused or goes to its first step. -/
inductive Entry : Choice → Pc → Prop where
  | stay {choice : Choice} : (∀ call, choice ≠ .call call) → Entry choice .user
  | openTry : Entry (.call .open) .openTry
  | refuse {call : Call} : call.setsPid = false → call.isRelease = false →
      Entry (.call call) (.returned (-EINVAL))
  | ioctlPid (param : ℕ) : Entry (.call (.ioctl ioctlApuSetCallbackPid param)) (.ioctlPid param)
  | writeTry (buf : ℕ → BitVec 8) (len : ℕ) : len ≤ apuBufSize →
      Entry (.call (.write (some buf) len)) (.writeTry buf len)
  | releasePid : Entry (.call .release) .releasePid

/-- **Entering the driver** changes nothing but the place of the thread. -/
theorem act_user (cfg : Config) (sh : Shared) (choice : Choice) :
    ∃ entered, act cfg sh .user choice = ⟨sh, entered, none⟩ ∧ Entry choice entered := by
  cases choice with
  | call call =>
      cases call with
      | «open» => exact ⟨_, rfl, .openTry⟩
      | ioctl num param =>
          by_cases known : num = ioctlApuSetCallbackPid
          · subst known
            exact ⟨_, rfl, .ioctlPid param⟩
          · exact ⟨.returned (-EINVAL), by rw [act, if_pos known],
              .refuse (beq_eq_false_iff_ne.mpr known) rfl⟩
      | write buf len =>
          cases buf with
          | none => exact ⟨_, rfl, .refuse rfl rfl⟩
          | some buf =>
              by_cases long : len > apuBufSize
              · exact ⟨.returned (-EINVAL), by rw [act, if_pos long], .refuse rfl rfl⟩
              · exact ⟨.writeTry buf len, by rw [act, if_neg long],
                  .writeTry buf len (Nat.le_of_not_lt long)⟩
      | release => exact ⟨_, rfl, .releasePid⟩
  | advance | fault => exact ⟨_, rfl, .stay nofun⟩

/-- The ways in which a step of a thread can treat the token. -/
inductive Effect (cfg : Config) (before : Shared) (pc : Pc) (choice : Choice)
    (after : Outcome) : Prop where
  /-- The step does nothing that matters to the stream. -/
  | neutral : pc.phase ≠ some .filling → after.pc.phase = pc.phase → after.mmio = none →
      after.shared.req = before.req → after.shared.activeBuf = before.activeBuf →
      after.shared.ddr = before.ddr → handsOver pc = [] →
      (∀ call, choice = .call call → pc = .user → call.setsPid = false) →
      Effect cfg before pc choice after
  /-- The ioctl begins. -/
  | ask (call : Call) : pc = .user → choice = .call call → call.setsPid = true →
      after.pc.phase = some .arming → after.mmio = none → after.shared = before →
      Effect cfg before pc choice after
  /-- The interrupt is requested. -/
  | arm : pc.phase = some .arming → after.pc.phase = none →
      after.mmio = some (configStore (apuEnable ||| apuIrqReq)) → after.shared = before →
      Effect cfg before pc choice after
  /-- The request is taken. -/
  | take (buf : ℕ → BitVec 8) (len : ℕ) : pc = .writeReq buf len → before.req = 1 →
      after = ⟨{ before with req := 0 }, .writeArg buf len, none⟩ →
      Effect cfg before pc choice after
  /-- The half is being filled. -/
  | fill : pc.phase = some .filling → after.pc.phase = some .filling → after.mmio = none →
      after.shared.req = before.req → after.shared.activeBuf = before.activeBuf →
      handsOver pc = [] → Effect cfg before pc choice after
  /-- The half is handed over. -/
  | send (buf : ℕ → BitVec 8) (len : ℕ) : pc = .writeSend buf len →
      after = ⟨before, .writeFlip,
        some (bufStore (BitVec.ofNat 32 (bufAddr cfg (!before.activeBuf))))⟩ →
      Effect cfg before pc choice after
  /-- The halves are switched. -/
  | flip : pc = .writeFlip →
      after = ⟨{ before with activeBuf := !before.activeBuf }, .writeUnlock, none⟩ →
      Effect cfg before pc choice after
  /-- After a fault the half is not handed over. -/
  | lose : pc.phase = some .filling → after = ⟨before, .writeFault, none⟩ → handsOver pc = [] →
      Effect cfg before pc choice after

/-- **The inversion lemma of the driver**, outside `apu_release`. -/
theorem act_effect (cfg : Config) (sh : Shared) (pc : Pc) (choice : Choice)
    (kept : pc.releasing = false) (bit : sh.req = 0 ∨ sh.req = 1) :
    Effect cfg sh pc choice (act cfg sh pc choice) := by
  cases pc with
  | user =>
      obtain ⟨entered, step, entry⟩ := act_user cfg sh choice
      rw [step]
      cases entry with
      | stay none =>
          exact .neutral nofun rfl rfl rfl rfl rfl rfl fun call made => absurd made (none call)
      | ioctlPid param => exact .ask (.ioctl ioctlApuSetCallbackPid param) rfl rfl rfl rfl rfl rfl
      | refuse other => exact .neutral nofun rfl rfl rfl rfl rfl rfl (by rintro _ ⟨⟩ -; exact other)
      | openTry | writeTry | releasePid =>
          exact .neutral nofun rfl rfl rfl rfl rfl rfl (by rintro _ ⟨⟩ -; rfl)
  | openTry | ioctlPid | writeBusy | writeFault | writeUnlock | returned =>
      exact .neutral nofun rfl rfl rfl rfl rfl rfl nofun
  | ioctlEnable | writeEnable => exact .arm rfl rfl rfl rfl
  | writeTry buf len =>
      refine .neutral nofun ?_ rfl rfl rfl rfl rfl nofun
      simp only [act]
      split_ifs <;> rfl
  | writeReq buf len =>
      rcases bit with none | one
      · refine .neutral nofun ?_ rfl none.symm rfl rfl rfl nofun
        simp [act, none, Pc.phase]
      · exact .take buf len rfl one (by simp [act, one])
  | writeArg buf len => exact .fill rfl rfl rfl rfl rfl rfl
  | writeCopy buf len half k =>
      cases choice <;> simp only [act] <;> split_ifs <;> exact .fill rfl rfl rfl rfl rfl rfl
  | writeClear half k =>
      simp only [act]
      split_ifs
      · exact .fill rfl rfl rfl rfl rfl rfl
      · exact .lose rfl rfl rfl
  | writePad buf len half k =>
      simp only [act]
      split_ifs <;> exact .fill rfl rfl rfl rfl rfl rfl
  | writeSend buf len => exact .send buf len rfl rfl
  | writeFlip => exact .flip rfl rfl
  | _ => cases kept

/-- A thread enters `apu_release` only by a call. -/
theorem act_kept (cfg : Config) (sh : Shared) (pc : Pc) (choice : Choice)
    (kept : pc.releasing = false)
    (noRelease : ∀ call ∈ begins pc choice, call.isRelease = false) :
    (act cfg sh pc choice).pc.releasing = false := by
  cases pc with
  | user =>
      obtain ⟨entered, step, entry⟩ := act_user cfg sh choice
      rw [step]
      cases entry with
      | releasePid => cases noRelease .release (List.mem_singleton_self _)
      | _ => rfl
  | releasePid | releaseReq | releaseMute | releaseTry => cases kept
  | writeCopy buf len half k => cases choice <;> simp only [act] <;> split_ifs <;> rfl
  | writeTry | writeReq | writeClear | writePad =>
      simp only [act]
      split_ifs <;> rfl
  | _ => rfl

/-- The length is checked before anything else. -/
theorem act_sized (cfg : Config) (sh : Shared) (pc : Pc) (choice : Choice) (sized : pc.Sized) :
    (act cfg sh pc choice).pc.Sized := by
  cases pc with
  | user =>
      obtain ⟨entered, step, entry⟩ := act_user cfg sh choice
      rw [step]
      cases entry with
      | writeTry buf len within => exact within
      | _ => trivial
  | writeCopy buf len half k =>
      cases choice <;> simp only [act] <;> split_ifs <;> trivial
  | writeTry | writeReq | writeClear | writePad =>
      simp only [act]
      split_ifs <;> trivial
  | writeArg => exact sized
  | _ => trivial

/-- The MMIO stores: to the control register, or the hand-over. -/
theorem act_mmio (cfg : Config) (sh : Shared) (pc : Pc) (choice : Choice) :
    (handsOver pc = [] ∧ ((act cfg sh pc choice).mmio = none ∨
      ∃ val, (act cfg sh pc choice).mmio = some (configStore val))) ∨
    ∃ buf len, pc = .writeSend buf len := by
  cases pc with
  | user =>
      obtain ⟨entered, step, -⟩ := act_user cfg sh choice
      rw [step]
      exact .inl ⟨rfl, .inl rfl⟩
  | ioctlEnable | writeEnable | releaseMute => exact .inl ⟨rfl, .inr ⟨_, rfl⟩⟩
  | writeCopy buf len half k =>
      refine .inl ⟨rfl, .inl ?_⟩
      cases choice <;> simp only [act] <;> split_ifs <;> rfl
  | writeClear | writePad =>
      refine .inl ⟨rfl, .inl ?_⟩
      simp only [act]
      split_ifs <;> rfl
  | writeSend buf len => exact .inr ⟨buf, len, rfl⟩
  | _ => exact .inl ⟨rfl, .inl rfl⟩

/-- The thread has handed its buffer over and not yet returned. -/
def Pc.sent : Pc → Bool
  | .writeFlip | .writeUnlock | .writeEnable => true
  | _ => false

/-- A call that has handed its buffer over succeeds. -/
theorem act_sent (cfg : Config) (sh : Shared) (pc : Pc) (choice : Choice)
    (sent : handsOver pc ≠ [] ∨ pc.sent = true) :
    (act cfg sh pc choice).pc.sent = true ∨ (act cfg sh pc choice).pc = .returned 0 := by
  cases pc with
  | writeSend | writeFlip | writeUnlock => exact .inl rfl
  | writeEnable => exact .inr rfl
  | _ => exact sent.elim (absurd rfl) nofun

/-! ## The token -/

/-- Where the token is. -/
inductive Token (Tid : Type) where
  /-- The pid has not been set. -/
  | unborn
  /-- The interrupt is enabled. -/
  | armed
  /-- The handler has acknowledged and not yet set `sample.req`. -/
  | acked
  /-- `sample.req` is 1. -/
  | requested
  /-- A thread holds it. -/
  | held (tid : Tid) (phase : Phase)
  /-- A write has failed. -/
  | lost

section Token

variable {Tid : Type}

/-- The thread that holds the token. -/
def Token.holder : Token Tid → Option Tid
  | .held tid _ => some tid
  | _ => none

/-- The token is on its way to the next hand-over. -/
def Token.waiting : Token Tid → Prop
  | .acked | .requested | .held _ .filling => True
  | _ => False

/-- The token and the variables of the interrupt agree. -/
structure Line (token : Token Tid) (req : ℕ) (apu : Apu.State) (irq : IrqPc) : Prop where
  requested : req = 1 ↔ token = .requested
  bit : req = 0 ∨ req = 1
  irqEn : apu.irqEn = true ↔ token = .armed
  bufIrq : apu.bufIrq = true → token = .armed ∧ apu.queuedBaseValid = false
  ack : irq = .ack → token = .armed ∧ apu.queuedBaseValid = false
  setReq : irq = .setReq ↔ token = .acked
  empty : token.waiting → apu.queuedBaseValid = false

variable {token : Token Tid} {req : ℕ} {apu : Apu.State} {irq : IrqPc}

theorem Line.reset : Line (.unborn : Token Tid) 0 Apu.reset .idle :=
  ⟨by simp, .inl rfl, by simp [Apu.reset], nofun, nofun, by simp, nofun⟩

/-- While the token is elsewhere the interrupt is disabled, and no handler is
about to take it. -/
theorem Line.idle (line : Line token req apu irq) (elsewhere : token ≠ .armed) :
    apu.irqEn = false ∧ apu.bufIrq = false ∧ irq ≠ .ack :=
  ⟨Bool.eq_false_iff.mpr (mt line.irqEn.mp elsewhere),
    Bool.eq_false_iff.mpr fun high => elsewhere (line.bufIrq high).1,
    fun entered => elsewhere (line.ack entered).1⟩

/-- A clock without a store. -/
theorem Line.clock (line : Line token req apu irq) (x : Apu.Input) :
    Line token req (Apu.next apu none x) irq := by
  obtain ⟨irqEn, bufIrq⟩ := next_of_no_control (s := apu) (x := x) control_none
  obtain ⟨-, queue⟩ := next_of_no_buf (s := apu) (x := x) bufBase_none
  have drains : apu.queuedBaseValid = false → (Apu.next apu none x).queuedBaseValid = false := by
    intro empty
    rw [queue, empty]
    rfl
  refine ⟨line.requested, line.bit, by rw [irqEn, line.irqEn], ?_, ?_, line.setReq,
    fun waiting => drains (line.empty waiting)⟩
  · intro high
    rw [bufIrq, Bool.and_eq_true, Bool.not_eq_true'] at high
    exact ⟨line.irqEn.mp high.1, drains high.2⟩
  · intro entered
    exact ⟨(line.ack entered).1, drains (line.ack entered).2⟩

/-- A token that leaves its holder, or changes hands, without a store. -/
theorem Line.move (line : Line token req apu irq) {token' : Token Tid} {req' : ℕ}
    (requested : req' = 1 ↔ token' = .requested) (bit : req' = 0 ∨ req' = 1)
    (elsewhere : token ≠ .armed ∧ token ≠ .acked)
    (elsewhere' : token' ≠ .armed ∧ token' ≠ .acked)
    (waits : token'.waiting → token.waiting) : Line token' req' apu irq := by
  obtain ⟨disabled, low, notEntered⟩ := line.idle elsewhere.1
  refine ⟨requested, bit, by simp [disabled, elsewhere'.1], by simp [low],
    fun entered => absurd entered notEntered, ?_, fun waiting => line.empty (waits waiting)⟩
  simp only [line.setReq, elsewhere.2, elsewhere'.2]

/-- The request that ends an ioctl or a write. -/
theorem Line.arm {tid : Tid} (line : Line (.held tid .arming) req apu irq) (x : Apu.Input) :
    Line (.armed : Token Tid) req
      (Apu.next apu (some (configStore (apuEnable ||| apuIrqReq))) x) irq := by
  obtain ⟨disabled, -, notEntered⟩ := line.idle nofun
  obtain ⟨irqEn, bufIrq⟩ := next_request (s := apu) (x := x)
  refine ⟨by simpa using line.requested, line.bit, by simp [irqEn], ?_,
    fun entered => absurd entered notEntered, by simpa using line.setReq, nofun⟩
  intro high
  rw [bufIrq, disabled] at high
  cases high

/-- The hand-over. -/
theorem Line.send {tid : Tid} (line : Line (.held tid .filling) req apu irq) (val : BitVec 32)
    (x : Apu.Input) :
    Line (.held tid .flipping) req (Apu.next apu (some (bufStore val)) x) irq := by
  obtain ⟨disabled, -, notEntered⟩ := line.idle nofun
  obtain ⟨irqEn, bufIrq⟩ := next_of_no_control (s := apu) (x := x) (control_bufStore val)
  refine ⟨by simpa using line.requested, line.bit, by simp [irqEn, disabled], ?_,
    fun entered => absurd entered notEntered, by simpa using line.setReq, nofun⟩
  intro high
  rw [bufIrq, disabled] at high
  cases high

/-- The handler is entered. -/
theorem Line.enter (line : Line token req apu .idle) (high : apu.bufIrq = true) :
    Line token req apu .ack := by
  obtain ⟨rfl, empty⟩ := line.bufIrq high
  exact { line with ack := fun _ => ⟨rfl, empty⟩, setReq := by simp }

/-- The handler acknowledges. -/
theorem Line.acknowledge (line : Line token req apu .ack) (x : Apu.Input) :
    token = .armed ∧ Line (.acked : Token Tid) req
      (Apu.next apu (some (configStore (apuIrqAck ||| apuEnable))) x) .setReq := by
  obtain ⟨rfl, empty⟩ := line.ack rfl
  obtain ⟨irqEn, bufIrq⟩ := next_acknowledge (s := apu) (x := x)
  obtain ⟨-, queue⟩ := next_of_no_buf (s := apu) (x := x)
    (bufBase_configStore (apuIrqAck ||| apuEnable))
  refine ⟨rfl, by simpa using line.requested, line.bit, by simp [irqEn], by simp [bufIrq], nofun,
    by simp, fun _ => ?_⟩
  rw [queue, empty]
  rfl

/-- The handler stores the request. -/
theorem Line.request (line : Line token req apu .setReq) :
    token = .acked ∧ Line (.requested : Token Tid) 1 apu .signal := by
  obtain rfl := line.setReq.mp rfl
  obtain ⟨disabled, low, -⟩ := line.idle nofun
  exact ⟨rfl, by simp, .inr rfl, by simp [disabled], by simp [low], nofun, by simp,
    fun _ => line.empty trivial⟩

/-- The handler returns. -/
theorem Line.leave (line : Line token req apu .signal) : Line token req apu .idle :=
  { line with ack := nofun, setReq := by simpa using line.setReq }

end Token

end FPGame.ApuDriver
