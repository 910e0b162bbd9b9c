import FPGame.Console.DrivenPpu

/-!
# An update on both sides

The driver assumes that the device raises one interrupt for each address, after it
has read the whole buffer, and the hardware assumes that nothing of a frame changes
while it is outstanding. Here the assumptions meet. `Linked` says how far the update
in flight has come on both sides. Every step of a thread, of the kernel and of the
hardware keeps it (`linked_of_reachable`), so both assumptions hold of the whole.
-/

set_option autoImplicit false

namespace FPGame.Console

open FPGame.Foundation FPGame.Ppu FPGame.PpuDriver
open FPGame.FrameHandoff (Frame Holds)
open FPGame.VramSyncWriter (copyClocks)

section Linked

variable {Tid : Type} [DecidableEq Tid] {alloc : Allocation} {powerUp : VideoSystem.PowerUp}
  {s : State Tid} {stage : FrameHandoff.Stage}

/-- The scene that the PPU holds outside of a copy. -/
def State.Shows (alloc : Allocation) (powerUp : VideoSystem.PowerUp) (s : State Tid) : Prop :=
  match s.shown with
  | none => s.video.scene = VideoSystem.sceneOf powerUp.vram.ppu CtrlRegs.reset
  | some snapshot =>
      ∃ ppu, HandedOver (snapshot.image alloc) ppu ∧
        s.video.scene = VideoSystem.sceneOf ppu (ctrlRegsOf snapshot.mmio)

/-- The frame that was sent last. -/
def State.frame (alloc : Allocation) (s : State Tid) : Frame :=
  (s.sent.getD default).frame alloc

/-- How far the update in flight has come. Its address is on its way, or the PPU
has it in a stage of the handoff, or its interrupt is latched. -/
structure Linked (alloc : Allocation) (powerUp : VideoSystem.PowerUp) (stage : FrameHandoff.Stage)
    (s : State Tid) : Prop where
  session : (fileSystem Tid alloc).Reachable s.kernel
  reached : (VideoSystem.machine powerUp).Reached s.video
  holds : Holds (s.frame alloc) stage s.video.handoff
  pending : s.kernel.shared.pending =
    s.posted.countP isUpdate + (decide (stage ≠ .waiting)).toNat + s.raised.toNat
  mmio : s.posted.foldl stored s.mmio = s.kernel.shared.mmio
  last : ∀ before store after, s.posted = before ++ store :: after → isUpdate store = true →
    store.2 = alloc.config.vramAddrP ∧ after = []
  taken : stage ≠ .waiting → s.posted = []
  sent : 0 < s.kernel.shared.pending →
    s.sent = some { vram := s.kernel.shared.vram, mmio := s.kernel.shared.mmio }
  answered : s.posted.countP isUpdate = 0 → stage = .waiting → s.shown = s.sent
  captured : s.raised = true → ∀ a, a < vramSize → (s.kernel.captured a).isSome = true
  pulse : stage = .pulse → s.video.video.tick = 2 * (800 * 515) + 1
  copying : ∀ k, stage = .copying k → s.video.video.tick = 2 * (800 * 515) + 2 + k
  shows : stage.syncing = false → s.Shows alloc powerUp

/-- At most one update is in flight, and no thread is inside meanwhile. -/
theorem Linked.discipline (linked : Linked alloc powerUp stage s) :
    s.kernel.shared.pending ≤ 1 ∧
      (0 < s.kernel.shared.pending → ∀ tid, (s.kernel.threads tid).pc.inside = false) := by
  obtain ⟨owner, owned⟩ := (session_of_reachable linked.session).owned
  refine ⟨?_, fun inFlight tid => ?_⟩
  · rw [owned.pending]
    cases owner <;> simp [Owner.pending]
  · rw [Bool.eq_false_iff]
    intro inside
    have mine :=
      owned.eq_thread (show (s.kernel.threads tid).pc.locked = true from Pc.locked_of_inside inside)
    rw [owned.pending, mine] at inFlight
    exact absurd inFlight (lt_irrefl 0)

/-- Without an update in flight there is none anywhere. -/
theorem Linked.of_idle (linked : Linked alloc powerUp stage s)
    (idle : s.kernel.shared.pending = 0) :
    s.posted.countP isUpdate = 0 ∧ stage = .waiting ∧ s.raised = false := by
  have parts := linked.pending
  rw [idle] at parts
  refine ⟨by omega, ?_, ?_⟩
  · by_contra busy
    rw [decide_eq_true busy] at parts
    simp only [Bool.toNat_true] at parts
    omega
  · rw [Bool.eq_false_iff]
    intro raised
    rw [raised] at parts
    simp only [Bool.toNat_true] at parts
    omega

/-- The frame in flight is what the kernel has. -/
theorem Linked.frame_eq (linked : Linked alloc powerUp stage s)
    (inFlight : 0 < s.kernel.shared.pending) :
    s.frame alloc =
      { src := alloc.config.vramAddrP
        memory := deviceMemory alloc s.kernel.shared.vram
        regs := ctrlRegsOf s.kernel.shared.mmio } := by
  rw [State.frame, linked.sent inFlight]
  rfl

theorem linked_initial (initial : Initial powerUp s) : Linked alloc powerUp .waiting s where
  session := .start initial.kernel
  reached := by rw [initial.video]; exact .reset
  holds := by rw [initial.video]; exact FrameHandoff.holds_reset _
  pending := by
    rw [initial.posted, initial.raised, initial.kernel.pending]
    rfl
  mmio := by rw [initial.posted, initial.mmio]; rfl
  last before store after split := by
    rw [initial.posted] at split
    simp at split
  taken other := absurd rfl other
  sent inFlight := by
    rw [initial.kernel.pending] at inFlight
    exact absurd inFlight (lt_irrefl 0)
  answered _ _ := by rw [initial.shown, initial.sent]
  captured raised := by
    rw [initial.raised] at raised
    cases raised
  pulse := nofun
  copying := nofun
  shows _ := by
    rw [State.Shows, initial.shown, initial.video]
    rfl

/-- **A step of a thread.** An update that begins is posted as the last store. -/
theorem Linked.thread (linked : Linked alloc powerUp stage s) (tid : Tid) (choice : Choice)
    (allowed : (s.kernel.threads tid).pc = .user → s.kernel.Allows choice) :
    Linked alloc powerUp stage (s.threadStep alloc tid choice) := by
  obtain ⟨single, excluded⟩ := linked.discipline
  obtain ⟨mmio, pending⟩ := act_mmioStore alloc.config s.kernel.shared (s.kernel.threads tid) choice
  have session := linked.session.next (.thread s.kernel tid choice allowed)
  cases stores : mmioStore alloc.config (s.kernel.threads tid) with
  | none =>
      -- nothing is posted, and an update in flight keeps the thread outside
      have posted : (s.threadStep alloc tid choice).posted = s.posted := by
        simp only [State.threadStep, stores, Option.toList_none, List.append_nil]
      have sent : (s.threadStep alloc tid choice).sent = s.sent := by
        simp only [State.threadStep, stores, Option.any_none, Bool.false_eq_true, if_false]
      rw [stores] at mmio pending
      have same : (s.threadStep alloc tid choice).kernel.shared.pending =
        s.kernel.shared.pending := pending
      exact
        { session := session
          reached := linked.reached
          holds := by rw [State.frame, sent]; exact linked.holds
          pending := by rw [same, posted]; exact linked.pending
          mmio := by rw [posted]; exact linked.mmio.trans mmio.symm
          last := by rw [posted]; exact linked.last
          taken := by rw [posted]; exact linked.taken
          sent := fun inFlight => by
            rw [same] at inFlight
            have vram := (act_frame alloc.config s.kernel.shared _ choice (excluded inFlight tid)).1
            rw [sent, linked.sent inFlight]
            exact congrArg some (congrArg₂ Snapshot.mk vram.symm mmio.symm)
          answered := by rw [posted, sent]; exact linked.answered
          captured := fun raised a within => by
            have kept : (s.threadStep alloc tid choice).kernel.captured = s.kernel.captured :=
              if_neg (by rw [same.symm]; exact lt_irrefl _)
            rw [kept]
            exact linked.captured raised a within
          pulse := linked.pulse
          copying := linked.copying
          shows := linked.shows }
  | some store =>
      have inside : (s.kernel.threads tid).pc.inside = true := by
        rw [← Bool.not_eq_false]
        intro outside
        rw [mmioStore_of_outside outside] at stores
        cases stores
      have idle : s.kernel.shared.pending = 0 := Nat.eq_zero_of_not_pos fun inFlight =>
        Bool.false_ne_true ((excluded inFlight tid).symm.trans inside)
      obtain ⟨none_posted, waiting, quiet⟩ := linked.of_idle idle
      have posted : (s.threadStep alloc tid choice).posted = s.posted ++ [store] := by
        simp only [State.threadStep, stores, Option.toList_some]
      rw [stores] at mmio pending
      have now : (s.threadStep alloc tid choice).kernel.shared.pending =
          (isUpdate store).toNat := by
        rw [← Nat.zero_add (isUpdate store).toNat, ← idle]
        exact pending
      subst waiting
      exact
        { session := session
          reached := linked.reached
          holds := linked.holds.of_waiting _
          pending := by
            rw [now, posted, List.countP_append, none_posted, List.countP_singleton]
            show _ = _ + _ + s.raised.toNat
            rw [quiet]
            cases isUpdate store <;> rfl
          mmio := by
            rw [posted, List.foldl_append]
            show stored (s.posted.foldl stored s.mmio) store = _
            rw [linked.mmio]
            exact mmio.symm
          last := fun before other after split update => by
            rw [posted] at split
            rcases List.eq_nil_or_concat after with rfl | ⟨rest, x, rfl⟩
            · have same := (List.append_inj' split rfl).2
              rw [List.cons.injEq] at same
              exact ⟨same.1 ▸ address_of_mmioStore stores (same.1 ▸ update), rfl⟩
            · -- every store before the last was posted earlier
              have earlier : s.posted = before ++ other :: rest := by
                have ends : s.posted ++ [store] = (before ++ other :: rest) ++ [x] := by
                  rw [split, List.append_assoc, List.cons_append, List.concat_eq_append]
                exact (List.append_inj' ends rfl).1
              have counted : 0 < s.posted.countP isUpdate :=
                List.countP_pos_iff.mpr ⟨other, by simp [earlier], update⟩
              omega
          taken := fun other => absurd rfl other
          sent := fun inFlight => by
            have update : isUpdate store = true := by
              by_contra other
              rw [now, Bool.eq_false_iff.mpr other] at inFlight
              exact absurd inFlight (lt_irrefl 0)
            simp only [State.threadStep, stores, Option.any_some, update, if_true]
          answered := fun none _ => by
            rw [posted, List.countP_append, List.countP_singleton] at none
            have other : isUpdate store = false := by
              by_contra update
              simp [update] at none
            have kept : (s.threadStep alloc tid choice).sent = s.sent := by
              simp only [State.threadStep, stores, Option.any_some, other, Bool.false_eq_true,
                if_false]
            rw [kept]
            exact linked.answered none_posted rfl
          captured := fun raised => absurd (quiet.symm.trans raised) Bool.false_ne_true
          pulse := nofun
          copying := nofun
          shows := linked.shows }

/-- **The interrupt.** It is due, and the device has read the whole buffer. -/
theorem Linked.irq (linked : Linked alloc powerUp stage s) (raised : s.raised = true) :
    Linked alloc powerUp stage s.irqStep := by
  obtain ⟨single, -⟩ := linked.discipline
  have parts := linked.pending
  rw [raised] at parts
  simp only [Bool.toNat_true] at parts
  have answered : s.irqStep.kernel.shared.pending = 0 :=
    show s.kernel.shared.pending - 1 = 0 by omega
  exact
    { session := linked.session.next (.irq s.kernel (by omega) (linked.captured raised))
      reached := linked.reached
      holds := linked.holds
      pending := by
        rw [answered]
        show 0 = s.posted.countP isUpdate + _ + 0
        omega
      mmio := linked.mmio
      last := linked.last
      taken := linked.taken
      sent := fun inFlight => absurd answered inFlight.ne'
      answered := linked.answered
      captured := nofun
      pulse := linked.pulse
      copying := linked.copying
      shows := linked.shows }

/-- The hardware in a clock of a run. -/
theorem timed_of_reached {video : VideoSystem.System}
    (reached : (VideoSystem.machine powerUp).Reached video) :
    Video.Timed video.video video.handoff.fsm := by
  obtain ⟨inputs, t, rfl⟩ := reached.exists_run
  exact VideoSystem.timed powerUp inputs t

theorem tick_of_next {video : VideoSystem.System}
    (reached : (VideoSystem.machine powerUp).Reached video) (x : VideoSystem.Input) :
    (video.next x).video.tick = (video.video.tick + 1) % Video.Generator.frameTicks :=
  Video.Generator.tick_next (timed_of_reached reached).inLine _ _

/-- The device fetches the whole buffer. -/
theorem reachable_fetched {k : FileState Tid} (reachable : (fileSystem Tid alloc).Reachable k)
    (inFlight : 0 < k.shared.pending) {n : ℕ} (within : n ≤ vramSize) :
    (fileSystem Tid alloc).Reachable
      { k with
        captured := fun a =>
          if a < n then
            some (dmaFetch alloc.vramBaseP k.shared.vram (alloc.config.vramAddrP.toNat + a))
          else k.captured a } := by
  induction n with
  | zero => simpa using reachable
  | succ n ih =>
      have next := (ih (by omega)).next (.fetch _ n inFlight within)
      refine (congrArg _ ?_).mp next
      simp only [FileState.fetchStep, FileState.mk.injEq, true_and, and_true]
      funext a
      by_cases here : a = n
      · subst here
        simp
      · rw [Function.update_of_ne here]
        simp only [show a < n + 1 ↔ a < n by omega]

/-- What is left to show of a clock. -/
theorem Linked.clock_of (linked : Linked alloc powerUp stage s) (c : Clock)
    {stage' : FrameHandoff.Stage}
    (holds : Holds (s.frame alloc) stage' (s.nextVideo alloc c).handoff)
    (pending : s.kernel.shared.pending = (s.clockStep alloc c).posted.countP isUpdate +
      (decide (stage' ≠ .waiting)).toNat + (s.raised || (s.nextVideo alloc c).irq).toNat)
    (taken : stage' ≠ .waiting → (s.clockStep alloc c).posted = [])
    (answered : (s.clockStep alloc c).posted.countP isUpdate = 0 → stage' = .waiting →
      (s.clockStep alloc c).shown = s.sent)
    (copying : ∀ k, stage' = .copying k →
      (s.nextVideo alloc c).video.tick = 2 * (800 * 515) + 2 + k)
    (shows : stage'.syncing = false → (s.clockStep alloc c).Shows alloc powerUp) :
    Linked alloc powerUp stage' (s.clockStep alloc c) := by
  have reached := linked.reached.next (s.videoInput alloc c)
  have same := s.clockStep_shared alloc c
  obtain ⟨mmio, -, arrived, split⟩ := s.clockStep_posted alloc c
  exact
    { session := by
        by_cases irq : (s.nextVideo alloc c).irq = true
        · have inFlight : 0 < s.kernel.shared.pending := by
            rw [irq, Bool.or_true, Bool.toNat_true] at pending
            omega
          simp only [State.clockStep, irq, if_true]
          exact reachable_fetched linked.session inFlight le_rfl
        · simp only [State.clockStep, irq, Bool.false_eq_true, if_false]
          exact linked.session
      reached := reached
      holds := holds
      pending := by rw [same]; exact pending
      mmio := by rw [mmio, same]; exact linked.mmio
      last := fun before store after cut update => by
        refine linked.last (arrived ++ before) store after ?_ update
        rw [split, cut, List.append_assoc]
      taken := taken
      sent := by rw [same]; exact linked.sent
      answered := answered
      captured := fun raised a within => by
        by_cases irq : (s.nextVideo alloc c).irq = true
        · simp [State.clockStep, irq, within]
        · have raised' : (s.raised || (s.nextVideo alloc c).irq) = true := raised
          rw [Bool.eq_false_iff.mpr irq, Bool.or_false] at raised'
          simp only [State.clockStep, irq, Bool.false_eq_true, if_false]
          exact linked.captured raised' a within
      pulse := fun here =>
        (timed_of_reached reached).vramSync (holds.vramSync.trans (decide_eq_true here))
      copying := copying
      shows := shows }

/-- Outside of a copy a clock without an interrupt changes nothing that is shown. -/
theorem Linked.shows_clock (linked : Linked alloc powerUp stage s) (c : Clock)
    (quiet : stage.syncing = false) (noIrq : (s.nextVideo alloc c).irq = false) :
    (s.clockStep alloc c).Shows alloc powerUp := by
  have scene : (s.clockStep alloc c).video.scene = s.video.scene :=
    VideoSystem.next_scene_of_stage linked.holds quiet
  have now := linked.shows quiet
  rw [State.Shows] at now ⊢
  rw [s.clockStep_shown c noIrq, scene]
  exact now

/-- A clock in which the PPU waits and no address arrives. -/
theorem Linked.clock_waiting (linked : Linked alloc powerUp .waiting s) (c : Clock)
    (noWrite : (s.videoInput alloc c).write = none) :
    Linked alloc powerUp .waiting (s.clockStep alloc c) ∧ (s.nextVideo alloc c).irq = false := by
  obtain ⟨-, counted, -⟩ := s.clockStep_posted alloc c
  have noUpdate : (s.arrival c).any isUpdate = false := by
    rw [← Option.isSome_filter, Option.map_eq_none_iff.mp noWrite]
    rfl
  obtain ⟨holds, noIrq⟩ :=
    linked.holds.next_waiting (x := s.video.handoffInput (s.videoInput alloc c)) noWrite
  have noIrq' : (s.nextVideo alloc c).irq = false := noIrq
  rw [noUpdate, Bool.toNat_false, Nat.add_zero] at counted
  refine ⟨linked.clock_of c holds ?_ (absurd rfl) (fun none _ => ?_) nofun
    fun quiet => linked.shows_clock c quiet noIrq', noIrq'⟩
  · rw [noIrq', Bool.or_false, linked.pending, counted]
  · rw [s.clockStep_shown c noIrq']
    exact linked.answered (counted.trans none) rfl

/-- While the PPU has a frame, nothing is posted and nothing is latched. -/
theorem Linked.of_busy (linked : Linked alloc powerUp stage s) (busy : stage ≠ .waiting) :
    s.posted = [] ∧ s.raised = false ∧ s.kernel.shared.pending = 1 := by
  obtain ⟨single, -⟩ := linked.discipline
  have empty := linked.taken busy
  have parts := linked.pending
  rw [empty, decide_eq_true busy] at parts
  simp only [List.countP_nil, Bool.toNat_true, Nat.zero_add] at parts
  have silent : s.raised = false := by
    rw [Bool.eq_false_iff]
    intro raised
    rw [raised, Bool.toNat_true] at parts
    omega
  rw [silent] at parts
  exact ⟨empty, silent, parts⟩

/-- The state says whether the PPU has a frame. -/
theorem Linked.busy_iff {stage' : FrameHandoff.Stage} (linked : Linked alloc powerUp stage s)
    (linked' : Linked alloc powerUp stage' s) : stage ≠ .waiting ↔ stage' ≠ .waiting := by
  have parts := linked.pending.symm.trans linked'.pending
  by_cases busy : stage ≠ .waiting <;> by_cases busy' : stage' ≠ .waiting
  · exact ⟨fun _ => busy', fun _ => busy⟩
  · rw [decide_eq_true busy, decide_eq_false busy'] at parts
    simp only [Bool.toNat_true, Bool.toNat_false] at parts
    omega
  · rw [decide_eq_false busy, decide_eq_true busy'] at parts
    simp only [Bool.toNat_true, Bool.toNat_false] at parts
    omega
  · exact ⟨(absurd · busy), (absurd · busy')⟩

/-- While an update is in flight, no thread sends another. -/
theorem Linked.sent_thread (linked : Linked alloc powerUp stage s)
    (inFlight : 0 < s.kernel.shared.pending) (tid : Tid) (choice : Choice) :
    (s.threadStep alloc tid choice).sent = s.sent := by
  simp [State.threadStep, mmioStore_of_outside (linked.discipline.2 inFlight tid)]

/-- The kernel hands over what it has. -/
theorem Linked.input_of_write (linked : Linked alloc powerUp stage s) (c : Clock) {src : BitVec 32}
    (write : (s.videoInput alloc c).write = some src) :
    stage = .waiting ∧ s.raised = false ∧ (s.clockStep alloc c).posted = [] ∧
      s.kernel.shared.pending = 1 ∧
      Frame.mk src (s.videoInput alloc c).memory (s.videoInput alloc c).regs = s.frame alloc := by
  obtain ⟨single, -⟩ := linked.discipline
  obtain ⟨store, arrives, rfl⟩ := Option.map_eq_some_iff.mp write
  obtain ⟨arrival, update⟩ := Option.filter_eq_some_iff.mp arrives
  obtain ⟨arrived, posted⟩ := s.posted_of_arrival c arrival
  obtain ⟨address, rfl⟩ := linked.last [] store arrived posted update
  have parts := linked.pending
  rw [posted, List.countP_singleton, update, if_pos rfl] at parts
  have waiting : stage = .waiting := by
    by_contra busy
    rw [(linked.of_busy busy).1] at posted
    cases posted
  have quiet : s.raised = false := by
    rw [Bool.eq_false_iff]
    intro raised
    rw [raised, Bool.toNat_true] at parts
    omega
  have here : c.arrives = true := by
    by_contra absent
    simp [State.arrival, absent] at arrival
  -- nothing has changed since the store was made
  have regs : ctrlRegsOf s.mmio = ctrlRegsOf s.kernel.shared.mmio := by
    have mmio := linked.mmio
    rw [posted] at mmio
    rw [← mmio]
    exact (ctrlRegsOf_stored s.mmio update).symm
  refine ⟨waiting, quiet, by simp [State.clockStep, here, posted], by omega, ?_⟩
  rw [linked.frame_eq (by omega), ← address, ← regs]
  rfl

/-- **A frame begins** when its address arrives. -/
theorem Linked.clock_write (linked : Linked alloc powerUp stage s) (c : Clock) {src : BitVec 32}
    (write : (s.videoInput alloc c).write = some src) :
    Linked alloc powerUp .written (s.clockStep alloc c) ∧ (s.nextVideo alloc c).irq = false := by
  obtain ⟨rfl, quiet, arrived, one, frame⟩ := linked.input_of_write c write
  obtain ⟨holds, noIrq⟩ :=
    linked.holds.next_write (x := s.video.handoffInput (s.videoInput alloc c)) write
  have noIrq' : (s.nextVideo alloc c).irq = false := noIrq
  refine ⟨linked.clock_of c (frame ▸ holds) ?_ (fun _ => arrived) nofun nofun
    fun _ => linked.shows_clock c rfl noIrq', noIrq'⟩
  rw [arrived, noIrq', quiet, one]
  rfl

/-- While the PPU has a frame it sees nothing but that. -/
theorem Linked.input_of_busy (linked : Linked alloc powerUp stage s) (busy : stage ≠ .waiting)
    (c : Clock) : (s.videoInput alloc c).write = none ∧
      (s.videoInput alloc c).memory = (s.frame alloc).memory ∧
      (s.videoInput alloc c).regs = (s.frame alloc).regs := by
  obtain ⟨empty, -, one⟩ := linked.of_busy busy
  have noArrival : s.arrival c = none := by
    rw [State.arrival, empty]
    cases c.arrives <;> rfl
  have mmio := linked.mmio
  rw [empty] at mmio
  rw [linked.frame_eq (by omega)]
  refine ⟨?_, rfl, congrArg ctrlRegsOf mmio⟩
  simp only [State.videoInput, noArrival, Option.filter_none, Option.map_none]

/-- A copy does not reach the end of the vertical blank. -/
theorem Linked.blank_lasts (linked : Linked alloc powerUp stage s) (syncing : stage.syncing = true)
    (more : ∀ k, stage = .copying k → k + 1 < copyClocks) :
    s.video.video.out.vblankEndSoon = false := by
  rw [Bool.eq_false_iff]
  intro ends
  have soon := (Video.Generator.vblankEndSoon_iff (timed_of_reached linked.reached).inLine).mp ends
  cases stage with
  | pulse =>
      rw [linked.pulse rfl] at soon
      omega
  | copying k =>
      have bound := more k rfl
      rw [copyClocks] at bound
      rw [linked.copying k rfl] at soon
      omega
  | waiting | written | requested | moving | finished | ready => cases syncing

/-- **A clock of the handoff.** The frame goes on, or its interrupt is raised and
the PPU shows it. -/
theorem Linked.clock_busy (linked : Linked alloc powerUp stage s)
    (aligned : 16 ∣ alloc.vramBaseP) (busy : stage ≠ .waiting) (c : Clock) :
    (∃ stage', stage' ≠ .waiting ∧ Linked alloc powerUp stage' (s.clockStep alloc c) ∧
      (s.nextVideo alloc c).irq = false) ∨
    (Linked alloc powerUp .waiting (s.clockStep alloc c) ∧ (s.nextVideo alloc c).irq = true ∧
      (s.clockStep alloc c).shown = s.sent) := by
  obtain ⟨empty, silent, one⟩ := linked.of_busy busy
  obtain ⟨noWrite, memory, regs⟩ := linked.input_of_busy busy c
  have tick := tick_of_next linked.reached (s.videoInput alloc c)
  have stays : (s.clockStep alloc c).posted = [] := by
    simp [State.clockStep, empty]
  rcases linked.holds.next (x := s.video.handoffInput (s.videoInput alloc c)) busy noWrite memory
    regs linked.blank_lasts with ⟨stage', follows, holds, noIrq, -⟩ | ⟨⟨k, rfl, last⟩, -, -⟩
  · have noIrq' : (s.nextVideo alloc c).irq = false := noIrq
    have busy' : stage' ≠ .waiting := by
      cases follows <;> simp
    refine .inl ⟨stage', busy', linked.clock_of c holds ?_ (fun _ => stays)
      (fun _ same => absurd same busy') ?_ ?_, noIrq'⟩
    · rw [stays, noIrq', silent, one, decide_eq_true busy']
      rfl
    · rintro k rfl
      have now : (s.nextVideo alloc c).video.tick = _ := tick
      rw [now, Video.Generator.frameTicks]
      cases follows with
      | copies => rw [linked.pulse rfl]
      | goesOn k more =>
          rw [copyClocks] at more
          rw [linked.copying k rfl]
          omega
    · intro quiet
      refine linked.shows_clock c ?_ noIrq'
      cases follows with
      | copies | goesOn => cases quiet
      | taken | begins | moves | finishes | recorded | waits | pulses => rfl
  · obtain ⟨holds, irq, synced, loaded, dbuf⟩ :=
      linked.holds.next_copied (x := s.video.handoffInput (s.videoInput alloc c)) noWrite last
    have irq' : (s.nextVideo alloc c).irq = true := irq
    have shown : (s.clockStep alloc c).shown = s.sent := by
      simp only [State.clockStep, irq', if_true]
    refine .inr ⟨linked.clock_of c holds ?_ (fun _ => stays) (fun _ _ => shown)
      (fun _ none => ?_) fun _ => ?_, irq', shown⟩
    · rw [stays, irq', silent, one]
      rfl
    · cases none
    · have sent := linked.sent (by omega)
      rw [State.Shows, shown, sent]
      rw [State.frame, sent] at loaded dbuf
      refine ⟨(s.nextVideo alloc c).ppu, handedOver_of_synced synced loaded fun k within =>
        Snapshot.imageWord_frame aligned _ within, ?_⟩
      show VideoSystem.sceneOf (s.nextVideo alloc c).ppu (s.nextVideo alloc c).handoff.dbuf = _
      exact congrArg _ dbuf

/-- **The invariant of both sides.** -/
theorem linked_of_reachable (aligned : 16 ∣ alloc.vramBaseP)
    (reachable : (console Tid alloc powerUp).Reachable s) :
    ∃ stage, Linked alloc powerUp stage s := by
  refine reachable.invariant (P := fun s => ∃ stage, Linked alloc powerUp stage s)
    (fun s initial => ⟨.waiting, linked_initial initial⟩) ?_
  rintro s label s' ⟨stage, linked⟩ step
  cases step with
  | thread tid choice allowed => exact ⟨stage, linked.thread tid choice allowed⟩
  | irq raised => exact ⟨stage, linked.irq raised⟩
  | clock c =>
      by_cases waiting : stage = .waiting
      · subst waiting
        cases write : (s.videoInput alloc c).write with
        | none => exact ⟨.waiting, (linked.clock_waiting c write).1⟩
        | some src => exact ⟨.written, (linked.clock_write c write).1⟩
      · rcases linked.clock_busy aligned waiting c with ⟨stage', -, linked', -⟩ | ⟨linked', -⟩
        · exact ⟨stage', linked'⟩
        · exact ⟨.waiting, linked'⟩

end Linked

end FPGame.Console
