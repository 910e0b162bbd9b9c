import FPGame.Kernel.AudioStream
import FPGame.Kernel.AudioRequest

/-!
# The half that the hardware is playing

`sample.req` allows one hand-over, and every interrupt sets it. That is one
interrupt for each buffer that the hardware has taken, unless the interrupt is
enabled a second time: by another `IOCTL_APU_SET_CALLBACK_PID`, or because an
earlier owner has left it enabled. If such an interrupt is handled while
`apu_write` is between its exchange of `sample.req` and its store of the base,
the next `apu_write` finds a request that nothing has asked for, and overwrites
the half that is being fetched (`buffer_overwritten`).

In the runs in which the handler sets `sample.req` only while the base queue is
empty and no `apu_write` holds an earlier request, the half that is being filled
is never one that the hardware has (`buffers_in_use`).
-/

set_option autoImplicit false

namespace FPGame.ApuDriver

open FPGame.Foundation FPGame.Apu FPGame.Linux

/-! ## The two halves in the hardware -/

/-- The base address of a half. -/
def halfBase (cfg : Config) (half : Bool) : BitVec 29 :=
  (BitVec.ofNat 32 (bufAddr cfg half)).extractLsb' 3 29

theorem halfBase_ne (cfg : Config) {first second : Bool} (different : first ≠ second) :
    halfBase cfg first ≠ halfBase cfg second := by
  have toNat : ∀ half, (halfBase cfg half).toNat = bufAddr cfg half % 2 ^ 32 / 8 := by
    intro half
    rw [halfBase, BitVec.extractLsb'_toNat, BitVec.toNat_ofNat, Nat.shiftRight_eq_div_pow]
    omega
  have apart : (halfBase cfg true).toNat ≠ (halfBase cfg false).toNat := by
    rw [toNat, toNat]
    simp only [bufAddr, apuBufSize, if_true, Bool.false_eq_true, if_false]
    omega
  intro same
  cases first with
  | true =>
      cases second with
      | true => exact different rfl
      | false => exact apart (congrArg BitVec.toNat same)
  | false =>
      cases second with
      | true => exact apart (congrArg BitVec.toNat same.symm)
      | false => exact different rfl

/-- The base of a half is queued, or it is being fetched. -/
def InUse (cfg : Config) (hw : Hardware) (half : Bool) : Prop :=
  (hw.apu.queuedBaseValid = true ∧ hw.apu.queuedBase = halfBase cfg half) ∨
    (hw.apu.fetcher.addrValid = true ∧ hw.apu.fetcher.addr = halfBase cfg half)

/-- The half that the thread's next step may store into. -/
def Pc.target : Pc → Option Bool
  | .writeCopy _ _ half _ | .writeClear half _ | .writePad _ _ half _ => some half
  | _ => none

/-- Between the exchange that takes `write_lock` and the store that resets it. -/
def Pc.locked : Pc → Bool
  | .writeReq _ _ | .writeBusy | .writeArg _ _ | .writeCopy _ _ _ _ | .writeClear _ _ => true
  | .writeFault | .writePad _ _ _ _ | .writeSend _ _ | .writeFlip | .writeUnlock => true
  | _ => false

theorem Pc.locked_of_phase {pc : Pc}
    (phase : pc.phase = some .filling ∨ pc.phase = some .flipping) : pc.locked = true := by
  cases pc <;> first | rfl | exact phase.elim nofun nofun

theorem Pc.phase_of_target {pc : Pc} {half : Bool} (target : pc.target = some half) :
    pc.phase = some .filling := by
  cases pc <;> first | rfl | cases target

/-- The handler sets `sample.req` only while the base queue is empty and no
`apu_write` is between its exchange of `sample.req` and its store of the base. -/
def RequestsClear {Tid : Type} (s : State Tid) : Label Tid → Prop
  | .irq _ => s.irq = .setReq → s.hw.apu.queuedBaseValid = false ∧
      ∀ tid, (s.threads tid).phase ≠ some .filling
  | _ => True

/-! ## What a thread does with the lock and the half -/

section Threads

variable {cfg : Config} {sh : Shared} {pc : Pc} {choice : Choice}

/-- The ways in which a step of a thread can treat `write_lock`. -/
inductive LockEffect (before : Shared) (pc : Pc) (after : Outcome) : Prop where
  | keep : after.pc.locked = pc.locked → after.shared.writeLock = before.writeLock →
      LockEffect before pc after
  | acquire : before.writeLock = 0 → after.pc.locked = true → after.shared.writeLock = 1 →
      LockEffect before pc after
  | release : pc.locked = true → after.pc.locked = false → after.shared.writeLock = 0 →
      LockEffect before pc after

theorem act_lock (bit : sh.writeLock = 0 ∨ sh.writeLock = 1) :
    LockEffect sh pc (act cfg sh pc choice) := by
  cases pc with
  | user =>
      obtain ⟨entered, step, entry⟩ := act_user cfg sh choice
      rw [step]
      cases entry <;> exact .keep rfl rfl
  | writeTry buf len =>
      rcases bit with free | held
      · refine .acquire free ?_ rfl
        simp only [act, free, zero_ne_one, if_false]
        rfl
      · refine .keep ?_ ?_
        · simp only [act, held, if_true]
          rfl
        · simp only [act, held]
  | writeReq buf len =>
      refine .keep ?_ rfl
      simp only [act]
      split_ifs <;> rfl
  | writeBusy | writeFault | writeUnlock => exact .release rfl rfl rfl
  | writeCopy buf len half k =>
      cases choice <;> simp only [act] <;> split_ifs <;> exact .keep rfl rfl
  | writeClear | writePad =>
      simp only [act]
      split_ifs <;> exact .keep rfl rfl
  | _ => exact .keep rfl rfl

/-- A thread fills the half that is not active, and none other while the halves
are not switched. -/
theorem act_target {half : Bool} (inactive : (!sh.activeBuf) = half)
    (before : ∀ h, pc.target = some h → h = half) {h : Bool}
    (after : (act cfg sh pc choice).pc.target = some h) : h = half := by
  cases pc with
  | user =>
      obtain ⟨entered, step, entry⟩ := act_user cfg sh choice
      rw [step] at after
      cases entry <;> cases after
  | writeTry | writeReq =>
      simp only [act] at after
      split_ifs at after <;> cases after
  | writeArg buf len => exact (Option.some.inj after).symm.trans inactive
  | writeCopy buf len target k =>
      have this := before target rfl
      cases choice <;> simp only [act] at after <;> split_ifs at after <;>
        first
        | exact (Option.some.inj after).symm.trans inactive
        | exact (Option.some.inj after).symm.trans this
  | writeClear target k =>
      have this := before target rfl
      simp only [act] at after
      split_ifs at after
      · exact (Option.some.inj after).symm.trans this
      · cases after
  | writePad buf len target k =>
      have this := before target rfl
      simp only [act] at after
      split_ifs at after
      · exact (Option.some.inj after).symm.trans this
      · cases after
  | _ => cases after

end Threads

/-! ## The invariant -/

section Runs

variable {Tid : Type}

/-- What holds in every state of such a run. -/
structure Handing (cfg : Config) (holder : Option Tid) (s : State Tid) : Prop where
  sections : SoleHolder (fun pc : Pc => pc.locked = true) s.threads holder
  lock : s.shared.writeLock = if holder.isSome = true then 1 else 0
  bit : s.shared.req = 0 ∨ s.shared.req = 1
  granted : s.shared.req = 1 → s.hw.apu.queuedBaseValid = false ∧
    ∀ tid, (s.threads tid).phase ≠ some .filling
  empty : ∀ tid, (s.threads tid).phase = some .filling → s.hw.apu.queuedBaseValid = false
  flipping : ∀ tid, (s.threads tid).phase = some .flipping →
    s.shared.activeBuf = half s.handed.length
  inactive : (∀ tid, (s.threads tid).phase ≠ some .flipping) →
    (!s.shared.activeBuf) = half s.handed.length
  target : ∀ tid h, (s.threads tid).target = some h → h = half s.handed.length
  feeding : ∃ word, Feeding (base cfg) word s.handed.length s.hw

variable {cfg : Config} {holder : Option Tid} {s : State Tid}

/-- While a thread fills a half, no other thread does and none switches them. -/
theorem Handing.alone (handing : Handing cfg holder s) {tid : Tid}
    (filling : (s.threads tid).phase = some .filling) :
    (∀ other, (s.threads other).phase ≠ some .flipping) ∧
      ∀ other, (s.threads other).phase = some .filling → other = tid := by
  have mine : (s.threads tid).locked = true := Pc.locked_of_phase (.inl filling)
  constructor
  · intro other flipping
    obtain rfl : other = tid :=
      handing.sections.unique (Pc.locked_of_phase (.inr flipping)) mine
    rw [filling] at flipping
    cases flipping
  · intro other others
    exact handing.sections.unique (Pc.locked_of_phase (.inl others)) mine

/-- No thread but the one that has the lock fills or switches the halves. -/
theorem Handing.unlocked (handing : Handing cfg holder s) {tid : Tid}
    (mine : (s.threads tid).locked = true) {p : Phase} (either : p = .filling ∨ p = .flipping)
    (other : Tid) (others : other ≠ tid) : (s.threads other).phase ≠ some p := by
  intro phase
  refine others (handing.sections.unique (Pc.locked_of_phase ?_) mine)
  rcases either with rfl | rfl
  · exact .inl phase
  · exact .inr phase

/-- The circuit after a clock that hands nothing over. -/
theorem Handing.clocked (handing : Handing cfg holder s) {mmio : Option Mmio}
    (noBuf : bufBase mmio = none) (env : Env) :
    (s.hw.apu.queuedBaseValid = false → (s.hw.clock mmio env).apu.queuedBaseValid = false) ∧
    ∃ word, Feeding (base cfg) word s.handed.length (s.hw.clock mmio env) := by
  obtain ⟨word, feeding⟩ := handing.feeding
  refine ⟨fun queue => ?_, word, feeding.clock noBuf env⟩
  have drains := (next_of_no_buf (s := s.hw.apu) (x := s.hw.input env) noBuf).2
  rw [queue, Bool.false_and] at drains
  exact drains

/-- A clock without a store to the buffer register. -/
theorem Handing.clock (handing : Handing cfg holder s) {mmio : Option Mmio}
    (noBuf : bufBase mmio = none) (env : Env) :
    Handing cfg holder { s with hw := s.hw.clock mmio env } := by
  obtain ⟨drains, feeding⟩ := handing.clocked noBuf env
  exact
    { handing with
      granted := fun one => ⟨drains (handing.granted one).1, (handing.granted one).2⟩
      empty := fun tid filling => drains (handing.empty tid filling)
      feeding := feeding }

/-- The circuit after a step that hands nothing over. -/
theorem Handing.driven (handing : Handing cfg holder s) {mmio : Option Mmio}
    (noBuf : bufBase mmio = none) (env : Env) :
    (s.hw.apu.queuedBaseValid = false → (drive s.hw mmio env).apu.queuedBaseValid = false) ∧
    ∃ word, Feeding (base cfg) word s.handed.length (drive s.hw mmio env) := by
  cases mmio with
  | none => exact ⟨id, handing.feeding⟩
  | some store => exact handing.clocked noBuf env

theorem Handing.serve (handing : Handing cfg holder s) :
    Handing cfg holder { s with hw := s.hw.serve s.shared.ddr } := by
  obtain ⟨word, feeding⟩ := handing.feeding
  exact { handing with feeding := feeding.serve_any s.shared.ddr }

/-- The handler. -/
theorem Handing.interrupt (handing : Handing cfg holder s) (env : Env)
    (clear : s.irq = .setReq → s.hw.apu.queuedBaseValid = false ∧
      ∀ tid, (s.threads tid).phase ≠ some .filling) :
    Handing cfg holder
      { s with
        shared := irqShared s.shared s.irq
        irq := irqPc s.irq
        hw := drive s.hw (irqMmio s.irq) env } := by
  cases irq : s.irq with
  | idle | signal => exact { handing with }
  | ack => exact { handing.clock (bufBase_configStore (apuIrqAck ||| apuEnable)) env with }
  | setReq => exact { handing with bit := .inr rfl, granted := fun _ => clear irq }

variable [DecidableEq Tid] {tid : Tid} {choice : Choice}

/-- The lock after a step of a thread. -/
theorem Handing.relock (handing : Handing cfg holder s) {after : Outcome}
    (effect : LockEffect s.shared (s.threads tid) after) :
    ∃ holder', SoleHolder (fun pc : Pc => pc.locked = true)
        (Function.update s.threads tid after.pc) holder' ∧
      after.shared.writeLock = if holder'.isSome = true then 1 else 0 := by
  have lock := handing.lock
  rcases effect with ⟨same, kept⟩ | ⟨free, now, held⟩ | ⟨before, now, free⟩
  · exact ⟨holder, handing.sections.keep (by rw [same]), kept.trans lock⟩
  · cases holder with
    | none => exact ⟨some tid, handing.sections.acquire now, held⟩
    | some other => exact absurd (lock.symm.trans free) one_ne_zero
  · exact ⟨none, handing.sections.release before (by rw [now]; decide), free⟩

/-- A step that neither takes a request nor hands a buffer over nor switches the
halves. -/
theorem Handing.quiet (handing : Handing cfg holder s) {after : Outcome}
    (effect : LockEffect s.shared (s.threads tid) after)
    (filling : after.pc.phase = some .filling → (s.threads tid).phase = some .filling)
    (flipping : after.pc.phase = some .flipping ↔ (s.threads tid).phase = some .flipping)
    (target : ∀ h, after.pc.target = some h → h = half s.handed.length)
    (noBuf : bufBase after.mmio = none)
    (req : after.shared.req = s.shared.req ∨ after.shared.req = 0)
    (active : after.shared.activeBuf = s.shared.activeBuf)
    (none : handsOver (s.threads tid) = []) (env : Env) :
    ∃ holder', Handing cfg holder' (s.after tid choice after env) := by
  obtain ⟨holder', sections, lock⟩ := handing.relock effect
  obtain ⟨drains, feeding⟩ := handing.driven noBuf env
  have fills : ∀ other, (Function.update s.threads tid after.pc other).phase = some .filling →
      (s.threads other).phase = some .filling := by
    intro other phase
    by_cases here : other = tid
    · subst here
      rw [Function.update_self] at phase
      exact filling phase
    · rwa [Function.update_of_ne here] at phase
  have flips : ∀ other, (Function.update s.threads tid after.pc other).phase = some .flipping ↔
      (s.threads other).phase = some .flipping := by
    intro other
    by_cases here : other = tid
    · subst here
      rw [Function.update_self, flipping]
    · rw [Function.update_of_ne here]
  refine ⟨holder', sections, lock, ?_, ?_, ?_, ?_, ?_, ?_, ?_⟩
  · rw [after_shared]
    rcases req with same | zero
    · rw [same]
      exact handing.bit
    · exact .inl zero
  · rw [after_shared, after_hw, after_threads]
    intro one
    rcases req with same | zero
    · rw [same] at one
      exact ⟨drains (handing.granted one).1, fun other phase =>
        (handing.granted one).2 other (fills other phase)⟩
    · exact absurd (zero.symm.trans one) zero_ne_one
  · rw [after_hw, after_threads]
    exact fun other phase => drains (handing.empty other (fills other phase))
  · rw [after_shared, after_threads, after_handed, active, none, List.append_nil]
    exact fun other phase => handing.flipping other ((flips other).mp phase)
  · rw [after_shared, after_threads, after_handed, active, none, List.append_nil]
    exact fun others => handing.inactive fun other phase => others other ((flips other).mpr phase)
  · rw [after_threads, after_handed, none, List.append_nil]
    intro other h aims
    by_cases here : other = tid
    · subst here
      rw [Function.update_self] at aims
      exact target h aims
    · rw [Function.update_of_ne here] at aims
      exact handing.target other h aims
  · rw [after_handed, after_hw, none, List.append_nil]
    exact feeding

/-- The request is taken. -/
theorem Handing.take (handing : Handing cfg holder s) {buf : ℕ → BitVec 8} {len : ℕ}
    (here : s.threads tid = .writeReq buf len) (one : s.shared.req = 1) (env : Env) :
    ∃ holder', Handing cfg holder'
      (s.after tid choice ⟨{ s.shared with req := 0 }, .writeArg buf len, none⟩ env) := by
  have mine : (s.threads tid).locked = true := by rw [here]; rfl
  have nothing : handsOver (s.threads tid) = [] := by rw [here]; rfl
  have noFlip : ∀ other, (Function.update s.threads tid (Pc.writeArg buf len) other).phase ≠
      some .flipping :=
    forall_update (P := fun pc : Pc => pc.phase ≠ some .flipping)
      (handing.unlocked mine (.inr rfl)) nofun
  have quiet : ∀ other, (s.threads other).phase ≠ some .flipping := by
    intro other
    by_cases same : other = tid
    · rw [same, here]
      nofun
    · exact handing.unlocked mine (.inr rfl) other same
  refine ⟨holder, handing.sections.keep (by rw [here]; rfl), handing.lock, .inl rfl, nofun,
    fun _ _ => (handing.granted one).1, fun other flipping => absurd flipping (noFlip other), ?_,
    ?_, ?_⟩
  · rw [after_shared, after_handed, nothing, List.append_nil]
    exact fun _ => handing.inactive quiet
  · rw [after_threads, after_handed, nothing, List.append_nil]
    intro other h aims
    by_cases same : other = tid
    · subst same
      rw [Function.update_self] at aims
      cases aims
    · rw [Function.update_of_ne same] at aims
      exact handing.target other h aims
  · rw [after_handed, nothing, List.append_nil]
    exact handing.feeding

/-- The half is handed over. -/
theorem Handing.send (handing : Handing cfg holder s) {buf : ℕ → BitVec 8} {len : ℕ}
    (here : s.threads tid = .writeSend buf len) (env : Env) :
    ∃ holder', Handing cfg holder' (s.after tid choice ⟨s.shared, .writeFlip,
      some (bufStore (BitVec.ofNat 32 (bufAddr cfg (!s.shared.activeBuf))))⟩ env) := by
  have filling : (s.threads tid).phase = some .filling := by rw [here]; rfl
  have mine : (s.threads tid).locked = true := by rw [here]; rfl
  have hands : (s.handed ++ handsOver (s.threads tid)).length = s.handed.length + 1 := by
    rw [here, handsOver, List.length_append, List.length_singleton]
  obtain ⟨noFlip, -⟩ := handing.alone filling
  have inactive := handing.inactive noFlip
  have fills : ∀ other, (Function.update s.threads tid Pc.writeFlip other).phase ≠
      some .filling :=
    forall_update (P := fun pc : Pc => pc.phase ≠ some .filling)
      (handing.unlocked mine (.inl rfl)) nofun
  refine ⟨holder, handing.sections.keep (by rw [here]; rfl), handing.lock, handing.bit,
    fun one => absurd filling ((handing.granted one).2 tid),
    fun other phase => absurd phase (fills other), fun _ _ => ?_, fun others => ?_,
    fun other h aims => ?_, ?_⟩
  · rw [after_shared, after_handed, hands, half_succ, ← inactive, Bool.not_not]
  · refine absurd ?_ (others tid)
    rw [after_threads, Function.update_self]
    rfl
  · exact absurd (Pc.phase_of_target aims) (fills other)
  · obtain ⟨word, feeding⟩ := handing.feeding
    rw [after_handed, after_hw, hands, inactive]
    exact ⟨word, feeding.give (handing.empty tid filling) (bufBase_bufStore _) env⟩

/-- The halves are switched. -/
theorem Handing.flip (handing : Handing cfg holder s) (here : s.threads tid = .writeFlip)
    (env : Env) :
    ∃ holder', Handing cfg holder' (s.after tid choice
      ⟨{ s.shared with activeBuf := !s.shared.activeBuf }, .writeUnlock, none⟩ env) := by
  have flipping : (s.threads tid).phase = some .flipping := by rw [here]; rfl
  have mine : (s.threads tid).locked = true := by rw [here]; rfl
  have nothing : handsOver (s.threads tid) = [] := by rw [here]; rfl
  have fills : ∀ other, (Function.update s.threads tid Pc.writeUnlock other).phase ≠
      some .filling :=
    forall_update (P := fun pc : Pc => pc.phase ≠ some .filling)
      (handing.unlocked mine (.inl rfl)) nofun
  have flips : ∀ other, (Function.update s.threads tid Pc.writeUnlock other).phase ≠
      some .flipping :=
    forall_update (P := fun pc : Pc => pc.phase ≠ some .flipping)
      (handing.unlocked mine (.inr rfl)) nofun
  refine ⟨holder, handing.sections.keep (by rw [here]; rfl), handing.lock, handing.bit,
    fun one => ⟨(handing.granted one).1, fills⟩, fun other phase => absurd phase (fills other),
    fun other phase => absurd phase (flips other), fun _ => ?_,
    fun other h aims => absurd (Pc.phase_of_target aims) (fills other), ?_⟩
  · rw [after_shared, after_handed, nothing, List.append_nil, Bool.not_not]
    exact handing.flipping tid flipping
  · rw [after_handed, nothing, List.append_nil]
    exact handing.feeding

/-- **A step of a thread.** -/
theorem Handing.thread (handing : Handing cfg holder s) (tid : Tid) (choice : Choice) (env : Env) :
    ∃ holder', Handing cfg holder'
      (s.after tid choice (act cfg s.shared (s.threads tid) choice) env) := by
  have bit : s.shared.writeLock = 0 ∨ s.shared.writeLock = 1 := by
    rw [handing.lock]
    split_ifs
    · exact .inr rfl
    · exact .inl rfl
  have effect := @act_lock cfg s.shared (s.threads tid) choice bit
  -- what a step does that is not on the way of a hand-over
  have aside (filling : (s.threads tid).phase ≠ some .filling)
      (same : (act cfg s.shared (s.threads tid) choice).pc.phase = (s.threads tid).phase ∨
        (s.threads tid).phase ≠ some .flipping ∧
          ∀ p, p = .filling ∨ p = .flipping →
            (act cfg s.shared (s.threads tid) choice).pc.phase ≠ some p)
      (noBuf : bufBase (act cfg s.shared (s.threads tid) choice).mmio = none)
      (req : (act cfg s.shared (s.threads tid) choice).shared.req = s.shared.req ∨
        (act cfg s.shared (s.threads tid) choice).shared.req = 0)
      (active : (act cfg s.shared (s.threads tid) choice).shared.activeBuf = s.shared.activeBuf)
      (none : handsOver (s.threads tid) = []) :
      ∃ holder', Handing cfg holder'
        (s.after tid choice (act cfg s.shared (s.threads tid) choice) env) := by
    have notFilling : (act cfg s.shared (s.threads tid) choice).pc.phase ≠ some .filling := by
      rcases same with same | ⟨-, others⟩
      · rwa [same]
      · exact others .filling (.inl rfl)
    refine handing.quiet effect (fun phase => absurd phase notFilling) ?_
      (fun h aims => absurd (Pc.phase_of_target aims) notFilling) noBuf req active none env
    rcases same with same | ⟨notFlipping, others⟩
    · rw [same]
    · exact ⟨fun phase => absurd phase (others .flipping (.inr rfl)),
        fun phase => absurd phase notFlipping⟩
  by_cases kept : (s.threads tid).releasing = false
  · rcases act_effect cfg s.shared (s.threads tid) choice kept handing.bit with
      ⟨notFilling, phase, mmio, req, active, -, none, -⟩ |
      ⟨call, user, choose, -, phase, mmio, shared⟩ | ⟨before, phase, mmio, shared⟩ |
      ⟨buf, len, here, one, out⟩ | ⟨before, phase, mmio, req, active, none⟩ |
      ⟨buf, len, here, out⟩ | ⟨here, out⟩ | ⟨before, out, none⟩
    · exact aside notFilling (.inl phase) (by rw [mmio]; rfl) (.inl req) active none
    · refine aside (by rw [user]; nofun) (.inr ⟨by rw [user]; nofun, fun p either => ?_⟩)
        (by rw [mmio]; rfl) (.inl (by rw [shared])) (by rw [shared]) (by rw [user]; rfl)
      rw [phase]
      rcases either with rfl | rfl <;> nofun
    · have nothing : handsOver (s.threads tid) = [] := by
        cases here : s.threads tid <;> first | rfl | (rw [here] at before; cases before)
      exact aside (by rw [before]; nofun) (.inr ⟨by rw [before]; nofun, by rw [phase]; nofun⟩)
        (by rw [mmio]; rfl) (.inl (by rw [shared])) (by rw [shared]) nothing
    · rw [out]
      exact handing.take here one env
    · obtain ⟨noFlip, -⟩ := handing.alone before
      refine handing.quiet effect (fun _ => before) ?_ (fun h => ?_) (by rw [mmio]; rfl) (.inl req)
        active none env
      · rw [phase, before]
      · exact act_target (handing.inactive noFlip) (handing.target tid)
    · rw [out]
      exact handing.send here env
    · rw [out]
      exact handing.flip here env
    · refine handing.quiet effect (fun _ => before) ?_ (fun h aims => ?_) (by rw [out]; rfl)
        (.inl (by rw [out])) (by rw [out]) none env
      · rw [out, before]
        exact ⟨nofun, nofun⟩
      · rw [out] at aims
        cases aims
  · cases here : s.threads tid with
    | releasePid | releaseReq | releaseMute | releaseTry =>
        rw [here] at aside
        first
        | exact aside nofun (.inl rfl) rfl (.inl rfl) rfl rfl
        | exact aside nofun (.inl rfl) rfl (.inr rfl) rfl rfl
    | _ =>
        rw [here] at kept
        exact absurd rfl kept

theorem handing_of_reachable
    (reachable : ((driver Tid cfg).guarded RequestsClear).Reachable s) :
    ∃ holder, Handing cfg holder s := by
  refine reachable.invariant (P := fun s => ∃ holder, Handing cfg holder s) ?_ ?_
  · intro s (initial : Initial s)
    have outside : ∀ tid, (s.threads tid).phase = none := by
      intro tid
      rw [initial.threads tid]
      rfl
    refine ⟨none, fun tid => ?_, ?_, .inl initial.req, fun one => ?_, fun tid filling => ?_,
      fun tid flipping => ?_, fun _ => ?_, fun tid h aims => ?_, fun _ => 0, ?_⟩
    · rw [initial.threads tid]
      exact ⟨nofun, nofun⟩
    · rw [initial.writeLock]
      rfl
    · exact absurd (initial.req.symm.trans one) zero_ne_one
    · rw [outside tid] at filling
      cases filling
    · rw [outside tid] at flipping
      cases flipping
    · rw [initial.activeBuf, initial.handed]
      rfl
    · rw [initial.threads tid] at aims
      cases aims
    · rw [initial.handed, initial.hw]
      exact .reset
  · rintro s label s' ⟨holder, handing⟩ ⟨step, clear⟩
    cases step with
    | clock env => exact ⟨holder, handing.clock bufBase_none env⟩
    | serve => exact ⟨holder, handing.serve⟩
    | irq env enters => exact ⟨holder, handing.interrupt env clear⟩
    | thread tid choice env => exact handing.thread tid choice env

/-- **Buffers in use are not overwritten**, in every run in which the handler
sets `sample.req` only while the base queue is empty and no `apu_write` holds an
earlier request, for any number of threads and any calls:

1. the half that a thread's next step may store into is neither queued nor being
   fetched;
2. at most one buffer has been handed over and not been taken. -/
theorem buffers_in_use (reachable : ((driver Tid cfg).guarded RequestsClear).Reachable s) :
    (∀ tid half, (s.threads tid).target = some half → ¬ InUse cfg s.hw half) ∧
    s.handed.length ≤ s.hw.taken + 1 := by
  obtain ⟨holder, handing⟩ := handing_of_reachable reachable
  obtain ⟨word, feeding⟩ := handing.feeding
  constructor
  · intro tid target aims inUse
    have filling := Pc.phase_of_target aims
    have empty := handing.empty tid filling
    obtain rfl := handing.target tid target aims
    rcases inUse with ⟨queued, -⟩ | ⟨valid, fetched⟩
    · exact Bool.false_ne_true (empty.symm.trans queued)
    · -- the buffer being fetched is the one before the next
      have count := feeding.given
      have taken := feeding.fetching.taken
      rw [empty, Bool.toNat_false, Nat.add_zero] at count
      rw [valid, Bool.toNat_true, ← count] at taken
      have address := (feeding.fetching.addr valid).symm.trans fetched
      rw [taken] at address
      refine halfBase_ne cfg ?_ address
      rw [half_succ]
      exact (Bool.not_ne_self _).symm
  · rw [feeding.given]
    have queued := Bool.toNat_le s.hw.apu.queuedBaseValid
    omega

omit [DecidableEq Tid] in
/-- A session that sets the pid once is such a run. -/
theorem Streaming.requestsClear {token : Token Tid} (streaming : Streaming cfg token s)
    (label : Label Tid) : RequestsClear s label := by
  cases label with
  | irq env =>
      intro set
      obtain rfl := streaming.line.setReq.mp set
      refine ⟨streaming.line.empty trivial, fun tid filling => ?_⟩
      cases streaming.eq_held filling
  | _ => trivial

end Runs

/-! ## Sessions of one process -/

section Interrupt

variable {meets : FileState Unit → Label Unit → Prop}

/-- The handler, from the clock in which the interrupt is raised. -/
theorem reachable_interrupt (clock : ∀ s, meets s (.clock still)) {s : FileState Unit}
    (irq : ∀ s' : FileState Unit, s'.threads = s.threads →
      (s'.irq = .setReq → s'.hw = (s.hw.clock none still).clock
        (some (configStore (apuIrqAck ||| apuEnable))) still) → meets s' (.irq still))
    (idle : s.irq = .idle)
    (reachable : ((fileSystem Unit pageConfig).guarded meets).Reachable s)
    (raised : (s.hw.clock none still).apu.bufIrq = true) :
    ((fileSystem Unit pageConfig).guarded meets).Reachable
      { s with
        shared :=
          { s.shared with
            req := 1
            signals := if s.shared.pid ≠ 0 then s.shared.signals + 1 else s.shared.signals }
        hw := (s.hw.clock none still).clock
          (some (configStore (apuIrqAck ||| apuEnable))) still } := by
  obtain ⟨⟨shared, threads, place, hw, begun, handed⟩, files⟩ := s
  obtain rfl : place = .idle := idle
  have clocked := reachable_clock reachable still (clock _)
  have entered := reachable_irq clocked still (fun _ => raised) (irq _ rfl nofun)
  have acknowledged := reachable_irq entered still nofun (irq _ rfl nofun)
  have requested := reachable_irq acknowledged still nofun (irq _ rfl fun _ => rfl)
  exact reachable_irq requested still nofun (irq _ rfl nofun)

end Interrupt

/-- The circuit while the memory keeps the fetcher waiting for the first buffer. -/
def playing (irqEn queued half : Bool) : Hardware where
  apu :=
    { apuEn := true
      irqEn := irqEn
      bufIrq := false
      queuedBase := halfBase pageConfig half
      queuedBaseValid := queued
      fetcher :=
        { SampleFetcher.reset with
          addr := halfBase pageConfig true
          addrValid := true } }
  bus := .free
  log := []

/-- The process, between two calls or inside one. -/
def session (pc : Pc) (activeBuf : Bool) (req writeLock signals : ℕ) (ddr : ℕ → BitVec 8)
    (hw : Hardware) (begun : List Call) (handed : List Buffer) : FileState Unit where
  shared :=
    { activeBuf := activeBuf, req := req, pid := 7, apuLock := 1, writeLock := writeLock,
      signals := signals, ddr := ddr }
  threads _ := pc
  irq := .idle
  hw := hw
  begun := begun
  handed := handed
  files := 1

/-- The second write of a session, while the first half is being fetched. -/
theorem buffers_in_use_second : ∃ s : State Unit,
    ((driver Unit pageConfig).guarded RequestsClear).Reachable s ∧ s.handed.length = 1 ∧
      (s.threads ()).target = some false ∧ InUse pageConfig s.hw true ∧
      ¬ InUse pageConfig s.hw false := by
  let Runs (s : FileState Unit) : Prop := ((fileSystem Unit pageConfig).guarded
    fun s label => RequestsClear s.toState label).Reachable s
  have asked : Runs asked := reachable_asked (fun _ _ _ _ => trivial) (fun _ => trivial)
    fun s empty outside _ => ⟨empty, fun tid => by rw [outside tid]; nofun⟩
  have first := reachable_writeArg (fun _ _ _ _ => trivial) rfl Nat.one_pos rfl rfl asked
  obtain ⟨ddr, played⟩ := reachable_write (fun _ => trivial) rfl first
  have played : Runs (session .user true 0 0 1 ddr (playing true false true) _ _) := played
  -- the base queue is empty when the handler asks for the second buffer
  have second : Runs (session .user true 1 0 2 ddr (playing false false true) _ _) :=
    reachable_interrupt (fun _ => trivial)
      (fun s' threads hw set => ⟨by rw [hw set]; rfl, fun tid => by rw [threads]; nofun⟩) rfl
      played rfl
  have taken : Runs (session (.writeArg beep 0) true 0 1 2 ddr (playing false false true) _ _) :=
    reachable_writeArg (fun _ _ _ _ => trivial) rfl Nat.one_pos rfl rfl second
  have filling := reachable_driver (reachable_advance taken () still trivial)
  exact ⟨_, filling, rfl, rfl, .inr ⟨rfl, rfl⟩, (buffers_in_use filling).1 () false rfl⟩

/-- The half that the next `apu_write` stores into is being fetched, and the
buffer that it hands over replaces one that was not taken. -/
theorem buffer_overwritten :
    (∃ s : FileState Unit, (fileSystem Unit pageConfig).Reachable s ∧
      (s.threads ()).target = some true ∧ InUse pageConfig s.hw true) ∧
    ∃ s : FileState Unit, (fileSystem Unit pageConfig).Reachable s ∧
      s.hw.taken + 1 < s.handed.length := by
  let Runs (s : FileState Unit) : Prop :=
    ((fileSystem Unit pageConfig).guarded fun _ _ => True).Reachable s
  have asked : Runs asked := reachable_asked (fun _ _ _ _ => trivial) (fun _ => trivial)
    (fun _ _ _ => trivial)
  have first := reachable_writeArg (fun _ _ _ _ => trivial) rfl Nat.one_pos rfl rfl asked
  obtain ⟨ddr, played⟩ := reachable_write (fun _ => trivial) rfl first
  have played : Runs (session .user true 0 0 1 ddr (playing true false true) _ _) := played
  -- the buffer is being fetched, and the next one is asked for
  have second : Runs (session .user true 1 0 2 ddr (playing false false true) _ _) :=
    reachable_interrupt (fun _ => trivial) (fun _ _ _ => trivial) rfl played rfl
  -- the pid is set again
  have calling := reachable_thread second () (.call (.ioctl ioctlApuSetCallbackPid 7)) still
    (fun _ => Nat.one_pos) trivial
  have stored := reachable_advance calling () still trivial
  have armed := reachable_advance stored () still trivial
  have outside : Runs (session .user true 1 0 2 ddr (playing true false true) _ _) :=
    reachable_advance armed () still trivial
  have taken : Runs (session (.writeArg beep 0) true 0 1 2 ddr (playing true false true) _ _) :=
    reachable_writeArg (fun _ _ _ _ => trivial) rfl Nat.one_pos rfl rfl outside
  -- the write has taken its request when the interrupt is handled
  have again : Runs (session (.writeArg beep 0) true 1 1 3 ddr (playing false false true) _ _) :=
    reachable_interrupt (fun _ => trivial) (fun _ _ _ => trivial) rfl taken rfl
  obtain ⟨ddr', queued⟩ := reachable_write (fun _ => trivial) rfl again
  have queued : Runs (session .user false 1 0 3 ddr' (playing true true false) _ _) := queued
  have third : Runs (session (.writeArg beep 0) false 0 1 3 ddr' (playing true true false) _ _) :=
    reachable_writeArg (fun _ _ _ _ => trivial) rfl Nat.one_pos rfl rfl queued
  have storing : Runs (session (.writeCopy beep 0 true 0) false 0 1 3 ddr'
      (playing true true false) _ _) := reachable_advance third () still trivial
  obtain ⟨ddr'', replaced⟩ := reachable_write (fun _ => trivial) rfl third
  have replaced : Runs (session .user true 0 0 3 ddr'' (playing true true true) _ _) := replaced
  have one : (playing true true true).taken = 1 := by decide
  refine ⟨⟨_, storing.of_guarded, rfl, .inr ⟨rfl, rfl⟩⟩, _, replaced.of_guarded, ?_⟩
  show (playing true true true).taken + 1 < 3
  rw [one]
  decide

end FPGame.ApuDriver
