import FPGame.Apu.Feeding
import FPGame.Kernel.AudioToken

/-!
# The audio stream of a session

The buffers that `apu_write` hands over lie in the two halves of the sample
buffer in turn. `Streaming` joins the token, the progress of the hardware and
the contents of the memory: what has been handed over and not been read stays
where the hardware reads it, because the thread that holds the token writes to
the other half.
-/

set_option autoImplicit false

namespace FPGame.ApuDriver

open FPGame.Foundation FPGame.Apu FPGame.Apu.SampleFetcher FPGame.Linux

/-! ## The two halves -/

/-- The half that buffer `n` lies in; the first one is `sample.buf[1]`. -/
def half (n : ℕ) : Bool := n % 2 == 0

theorem half_succ (n : ℕ) : half (n + 1) = !half n := by
  rcases Nat.mod_two_eq_zero_or_one n with even | odd
  · rw [half, half, even, Nat.succ_mod_two_eq_one_iff.mpr even]
    rfl
  · rw [half, half, odd, Nat.succ_mod_two_eq_zero_iff.mpr odd]
    rfl

/-- The base address that is sent for buffer `n`. -/
def base (cfg : Config) (n : ℕ) : BitVec 29 :=
  (BitVec.ofNat 32 (bufAddr cfg (half n))).extractLsb' 3 29

/-- A half holds a payload. -/
def Holds (cfg : Config) (ddr : ℕ → BitVec 8) (half : Bool) (payload : Buffer) : Prop :=
  ∀ j : Fin apuBufSize, ddr (bufAddr cfg half + j) = payload j

/-- The halves do not meet. -/
theorem bufAddr_ne (cfg : Config) {half other : Bool} (different : other ≠ half) {j k : ℕ}
    (within : j < apuBufSize) (within' : k < apuBufSize) :
    bufAddr cfg other + j ≠ bufAddr cfg half + k := by
  simp only [apuBufSize] at within within'
  cases half <;> cases other <;> simp [bufAddr, apuBufSize] at different ⊢ <;> omega

/-! ## The words of a stream -/

/-- Byte `j` of buffer `n`. -/
def streamByte (handed : List Buffer) (n j : ℕ) : BitVec 8 :=
  match handed[n]? with
  | some payload => if h : j < apuBufSize then payload ⟨j, h⟩ else 0
  | none => 0

/-- Chunk `i` of the stream. -/
def streamWord (handed : List Buffer) (i : ℕ) : BitVec 64 :=
  doubleword (streamByte handed (i / bufChunks)) (i % bufChunks)

/-- A hand-over does not change what was handed over before. -/
theorem streamWord_append (handed later : List Buffer) {i : ℕ}
    (before : i / bufChunks < handed.length) :
    streamWord (handed ++ later) i = streamWord handed i := by
  have same : streamByte (handed ++ later) (i / bufChunks) =
      streamByte handed (i / bufChunks) := by
    funext j
    rw [streamByte, streamByte, List.getElem?_append_left before]
  rw [streamWord, streamWord, same]

/-- The word that a chunk is read from. -/
theorem chunkAt_toNat {cfg : Config} (aligned : 8 ∣ cfg.dmaAddr)
    (addressable : cfg.dmaAddr + 2 * apuBufSize ≤ 2 ^ 32) (word : ℕ → BitVec 64) (i : ℕ) :
    8 * (chunkAt (base cfg) word i).1.toNat =
      bufAddr cfg (half (i / bufChunks)) + 8 * (i % bufChunks) := by
  have small : i % bufChunks < bufChunks := Nat.mod_lt _ (by decide)
  obtain ⟨d, eq⟩ := aligned
  have address : bufAddr cfg (half (i / bufChunks)) = 8 * (d + if half (i / bufChunks) then 64
      else 0) := by
    rw [bufAddr, eq]
    cases half (i / bufChunks)
    · simp
    · simp [apuBufSize]
      omega
  have room : (d + if half (i / bufChunks) then 64 else 0) + 64 ≤ 2 ^ 29 := by
    simp only [apuBufSize] at addressable
    cases half (i / bufChunks) <;> simp <;> omega
  simp only [bufChunks] at small address room ⊢
  rw [chunkAt, base, BitVec.toNat_add, BitVec.extractLsb'_toNat, BitVec.toNat_ofNat,
    BitVec.toNat_ofNat, bufChunks, address, Nat.shiftRight_eq_div_pow]
  generalize (d + if half (i / 64) then 64 else 0) = b at room ⊢
  omega

/-- A half that holds its payload holds the words of the stream. -/
theorem doubleword_of_holds {cfg : Config} (aligned : 8 ∣ cfg.dmaAddr)
    (addressable : cfg.dmaAddr + 2 * apuBufSize ≤ 2 ^ 32) {ddr : ℕ → BitVec 8}
    {handed : List Buffer} {payload : Buffer} {i : ℕ}
    (given : handed[i / bufChunks]? = some payload)
    (holds : Holds cfg ddr (half (i / bufChunks)) payload) :
    doubleword ddr (chunkAt (base cfg) (streamWord handed) i).1.toNat = streamWord handed i := by
  have small : i % bufChunks < bufChunks := Nat.mod_lt _ (by decide)
  apply doubleword_congr
  intro k within
  have inside : 8 * (i % bufChunks) + k < apuBufSize := by
    simp only [bufChunks] at small
    simp only [apuBufSize, bufChunks]
    omega
  rw [chunkAt_toNat aligned addressable, Nat.add_assoc, streamByte, given]
  simp only [dif_pos inside]
  exact holds ⟨8 * (i % bufChunks) + k, inside⟩

/-! ## What has been read -/

/-- The bytes of the chunks that were read for buffer `n`. -/
def readBuffer (log : List (BitVec 29 × BitVec 64)) (n : ℕ) : Buffer := fun j =>
  match log[bufChunks * n + j / 8]? with
  | some chunk => lane 8 (j % 8) chunk.2
  | none => 0

/-- The buffers that have been read completely. -/
def fullyRead (log : List (BitVec 29 × BitVec 64)) : List Buffer :=
  (List.range (log.length / bufChunks)).map (readBuffer log)

theorem length_fullyRead (log : List (BitVec 29 × BitVec 64)) :
    (fullyRead log).length = log.length / bufChunks := by
  rw [fullyRead, List.length_map, List.length_range]

/-- A log of the stream's chunks has read the stream's buffers. -/
theorem fullyRead_eq_take {b : ℕ → BitVec 29} {handed : List Buffer}
    {log : List (BitVec 29 × BitVec 64)}
    (chunks : log = (List.range log.length).map (chunkAt b (streamWord handed)))
    (lag : log.length / bufChunks ≤ handed.length) :
    fullyRead log = handed.take (log.length / bufChunks) := by
  apply List.ext_getElem
  · rw [length_fullyRead, List.length_take, Nat.min_eq_left lag]
  · intro n read given
    rw [length_fullyRead] at read
    have handedOver : n < handed.length := by omega
    have buffer : (fullyRead log)[n] = readBuffer log n := by simp [fullyRead]
    rw [List.getElem_take, buffer]
    funext j
    have small := j.isLt
    simp only [apuBufSize] at small
    have entry : bufChunks * n + j / 8 < log.length := by
      simp only [bufChunks] at read ⊢
      omega
    have spot : (bufChunks * n + j / 8) / bufChunks = n ∧
        (bufChunks * n + j / 8) % bufChunks = j / 8 := by
      simp only [bufChunks]
      omega
    have chunk : log[bufChunks * n + j / 8]? =
        some (chunkAt b (streamWord handed) (bufChunks * n + j / 8)) := by
      conv_lhs => rw [chunks]
      rw [List.getElem?_map, List.getElem?_range entry]
      rfl
    simp only [readBuffer, chunk, chunkAt]
    rw [streamWord, spot.1, spot.2, byte_doubleword _ _ (Nat.mod_lt _ (by decide)),
      streamByte, List.getElem?_eq_getElem handedOver]
    simp only [Nat.div_add_mod, j.isLt, dite_true]

/-! ## Filling a half -/

/-- How far the thread that fills a half is. -/
def Filled (cfg : Config) (ddr : ℕ → BitVec 8) (half : Bool) : Pc → Prop
  | .writeCopy buf len target k =>
      target = half ∧ k ≤ len ∧ ∀ j, j < k → ddr (bufAddr cfg half + j) = buf j
  | .writeClear target _ => target = half
  | .writePad buf len target k =>
      target = half ∧ len ≤ k ∧
        ∀ j, j < k → ddr (bufAddr cfg half + j) = if j < len then buf j else 0
  | .writeSend buf len => Holds cfg ddr half (zeroPadded buf len)
  | _ => True

section Fill

variable {cfg : Config} {sh : Shared} {pc : Pc} {choice : Choice} {half : Bool}

/-- The next byte of a half. -/
theorem stored_succ {ddr : ℕ → BitVec 8} {a k : ℕ} (value : ℕ → BitVec 8)
    (stored : ∀ j, j < k → ddr (a + j) = value j) :
    ∀ j, j < k + 1 → store ddr true (a + k) (value k) (a + j) = value j := by
  intro j within
  rcases Nat.lt_succ_iff_lt_or_eq.mp within with before | rfl
  · rw [store_of_ne _ _ _ _ (by omega)]
    exact stored j before
  · rw [store_true, Function.update_self]

/-- A step that fills the half keeps track of it and stays inside it. -/
theorem act_filled (sized : pc.Sized) (inactive : (!sh.activeBuf) = half)
    (filled : Filled cfg sh.ddr half pc) (filling : pc.phase = some .filling)
    (notSend : handsOver pc = []) :
    Filled cfg (act cfg sh pc choice).shared.ddr half (act cfg sh pc choice).pc ∧
      ∀ a, (∀ k, k < apuBufSize → a ≠ bufAddr cfg half + k) →
        (act cfg sh pc choice).shared.ddr a = sh.ddr a := by
  cases pc with
  | writeArg buf len =>
      have nothing : ∀ j, j < 0 → sh.ddr (bufAddr cfg half + j) = buf j := fun j before =>
        absurd before (Nat.not_lt_zero j)
      exact ⟨⟨inactive, Nat.zero_le len, nothing⟩, fun _ _ => rfl⟩
  | writeCopy buf len target k =>
      obtain ⟨rfl, bound, copied⟩ := filled
      have padded (ended : ¬ k < len) :
          Filled cfg sh.ddr target (.writePad buf len (!sh.activeBuf) len) := by
        refine ⟨inactive, le_rfl, fun j within => ?_⟩
        rw [if_pos within]
        exact copied j (by omega)
      by_cases more : k < len
      · have next : Filled cfg (store sh.ddr true (bufAddr cfg target + k) (buf k)) target
            (.writeCopy buf len target (k + 1)) := ⟨rfl, more, stored_succ buf copied⟩
        have frame : ∀ a, (∀ k, k < apuBufSize → a ≠ bufAddr cfg target + k) →
            store sh.ddr true (bufAddr cfg target + k) (buf k) a = sh.ddr a := fun a outside =>
          store_of_ne _ _ _ _ (outside k (Nat.lt_of_lt_of_le more sized))
        cases choice with
        | fault =>
            rw [act, if_pos more]
            exact ⟨inactive, fun _ _ => rfl⟩
        | _ =>
            rw [act, if_pos more]
            · exact ⟨next, frame⟩
            · exact fun other => by cases other
      · cases choice with
        | fault =>
            rw [act, if_neg more]
            exact ⟨padded more, fun _ _ => rfl⟩
        | _ =>
            rw [act, if_neg more]
            · exact ⟨padded more, fun _ _ => rfl⟩
            · exact fun other => by cases other
  | writeClear target k =>
      obtain rfl := filled
      rw [act]
      split_ifs with more
      · exact ⟨rfl, fun a outside => store_of_ne sh.ddr _ 0 true (outside k more)⟩
      · exact ⟨trivial, fun _ _ => rfl⟩
  | writePad buf len target k =>
      obtain ⟨rfl, bound, copied⟩ := filled
      rw [act]
      split_ifs with more
      · refine ⟨⟨rfl, by omega, ?_⟩, fun a outside => store_of_ne sh.ddr _ 0 true (outside k more)⟩
        have zero := stored_succ (fun j => if j < len then buf j else 0) copied
        simpa only [if_neg (Nat.not_lt.mpr bound)] using zero
      · exact ⟨fun j => copied j (by have := j.isLt; omega), fun _ _ => rfl⟩
  | writeSend buf len => cases notSend
  | _ => cases filling

end Fill

/-! ## The invariant -/

/-- Which half is active after `n` hand-overs: the last one handed over, and
the other one until the halves have been switched. -/
def Token.active {Tid : Type} (token : Token Tid) (n : ℕ) : Bool :=
  match token with
  | .held _ .flipping => half n
  | _ => !half n

section Streaming

variable {Tid : Type}

/-- The state of a session. -/
structure Streaming (cfg : Config) (token : Token Tid) (s : State Tid) : Prop where
  sections : SoleHolder (fun pc : Pc => pc.phase.isSome = true) s.threads token.holder
  phase : ∀ tid phase, token = .held tid phase → (s.threads tid).phase = some phase
  line : Line token s.shared.req s.hw.apu s.irq
  unborn : (∀ call ∈ s.begun, call.setsPid = false) → token = .unborn
  kept : ∀ tid, (s.threads tid).releasing = false
  sized : ∀ tid, (s.threads tid).Sized
  active : s.shared.activeBuf = token.active s.handed.length
  filled : ∀ tid, token = .held tid .filling →
    Filled cfg s.shared.ddr (half s.handed.length) (s.threads tid)
  window : ∀ n payload, s.handed[n]? = some payload → s.hw.log.length / bufChunks ≤ n →
    Holds cfg s.shared.ddr (half n) payload
  feeding : Feeding (base cfg) (streamWord s.handed) s.handed.length s.hw

variable {cfg : Config} {token : Token Tid} {s : State Tid}

theorem Streaming.initial (initial : Initial s) :
    Streaming cfg (.unborn : Token Tid) s where
  sections tid := by simp [initial.threads tid, Pc.phase, Token.holder]
  phase := nofun
  line := by
    rw [initial.req, initial.irq, initial.hw]
    exact .reset
  unborn _ := rfl
  kept tid := by
    rw [initial.threads tid]
    rfl
  sized tid := by
    rw [initial.threads tid]
    trivial
  active := by
    rw [initial.activeBuf, initial.handed]
    rfl
  filled := nofun
  window n payload given := by
    rw [initial.handed] at given
    cases given
  feeding := by
    rw [initial.handed, initial.hw]
    exact .reset

/-- A thread with the token is the holder. -/
theorem Streaming.eq_held (streaming : Streaming cfg token s) {tid : Tid} {phase : Phase}
    (holds : (s.threads tid).phase = some phase) : token = .held tid phase := by
  have holder := (streaming.sections tid).mp (by simp [holds])
  cases token with
  | held other phase' =>
      obtain rfl : other = tid := Option.some.inj holder
      rw [Option.some.inj ((streaming.phase other phase' rfl).symm.trans holds)]
  | _ => cases holder

/-- A clock only shrinks the window of buffers that must stay in place. -/
theorem Streaming.window_of_clock (streaming : Streaming cfg token s) (mmio : Option Mmio)
    (env : Env) : ∀ n payload, s.handed[n]? = some payload →
      (s.hw.clock mmio env).log.length / bufChunks ≤ n →
        Holds cfg s.shared.ddr (half n) payload := by
  intro n payload given read
  apply streaming.window n payload given
  exact le_trans (Nat.div_le_div_right (s.hw.length_le_clock mmio env)) read

/-- A clock of the circuit alone. -/
theorem Streaming.clock (streaming : Streaming cfg token s) (env : Env) :
    Streaming cfg token { s with hw := s.hw.clock none env } :=
  { streaming with
    line := streaming.line.clock _
    window := streaming.window_of_clock none env
    feeding := streaming.feeding.clock bufBase_none env }

/-- The memory looks up a chunk that is still in place. -/
theorem Streaming.serve (streaming : Streaming cfg token s) (aligned : 8 ∣ cfg.dmaAddr)
    (addressable : cfg.dmaAddr + 2 * apuBufSize ≤ 2 ^ 32) :
    Streaming cfg token { s with hw := s.hw.serve s.shared.ddr } := by
  refine { streaming with feeding := streaming.feeding.serve fun given => ?_ }
  have entry : s.handed[s.hw.log.length / bufChunks]? =
      some (s.handed[s.hw.log.length / bufChunks]) := List.getElem?_eq_getElem given
  exact doubleword_of_holds aligned addressable entry (streaming.window _ _ entry le_rfl)

/-- A step of the handler. -/
theorem Streaming.interrupt (streaming : Streaming cfg token s) (env : Env)
    (enters : s.irq = .idle → s.hw.apu.bufIrq = true) :
    ∃ token', Streaming cfg token'
      { s with
        shared := irqShared s.shared s.irq
        irq := irqPc s.irq
        hw := drive s.hw (irqMmio s.irq) env } := by
  have line := streaming.line
  cases entered : s.irq with
  | idle =>
      rw [entered] at line
      exact ⟨token, { streaming with line := line.enter (enters entered) }⟩
  | ack =>
      rw [entered] at line
      obtain ⟨rfl, acked⟩ := line.acknowledge (s.hw.input env)
      exact ⟨.acked, { streaming with
        phase := nofun
        line := acked
        unborn := fun none => nomatch streaming.unborn none
        filled := nofun
        window := streaming.window_of_clock _ env
        feeding := streaming.feeding.clock (bufBase_configStore _) env }⟩
  | setReq =>
      rw [entered] at line
      obtain ⟨rfl, requested⟩ := line.request
      exact ⟨.requested, { streaming with
        phase := nofun
        line := requested
        unborn := fun none => nomatch streaming.unborn none
        filled := nofun }⟩
  | signal =>
      rw [entered] at line
      exact ⟨token, { streaming with line := line.leave }⟩

/-- A call that is not the ioctl leaves the token where it is. -/
theorem Streaming.unborn_of_append (streaming : Streaming cfg token s) {calls : List Call}
    (unborn : ∀ call ∈ calls ++ s.begun, call.setsPid = false) : token = .unborn :=
  streaming.unborn fun call member => unborn call (List.mem_append_right calls member)

/-- The half that is being filled is not one that must stay in place. -/
theorem Streaming.half_ne {tid : Tid} (streaming : Streaming cfg (.held tid .filling) s) {n : ℕ}
    {payload : Buffer} (given : s.handed[n]? = some payload)
    (unread : s.hw.log.length / bufChunks ≤ n) : half n ≠ half s.handed.length := by
  have earlier : n < s.handed.length := by
    by_contra late
    rw [List.getElem?_eq_none (Nat.le_of_not_lt late)] at given
    cases given
  have lag := streaming.feeding.lag_of_empty (streaming.line.empty trivial)
  have last : s.handed.length = n + 1 := by omega
  rw [last, half_succ]
  cases half n <;> decide

/-! ## A step of a thread -/

variable [DecidableEq Tid] {tid : Tid} {choice : Choice} {out : Outcome}

theorem phase_update {threads : Tid → Pc} {p : Phase} {pc : Pc} (now : pc.phase = some p) :
    ∀ other phase, Token.held tid p = .held other phase →
      (Function.update threads tid pc other).phase = some phase := by
  rintro _ _ ⟨⟩
  rw [Function.update_self]
  exact now

theorem filled_update {threads : Tid → Pc} {p : Phase} {pc : Pc} {ddr : ℕ → BitVec 8}
    {target : Bool} (filled : p = .filling → Filled cfg ddr target pc) :
    ∀ other, Token.held tid p = .held other .filling →
      Filled cfg ddr target (Function.update threads tid pc other) := by
  rintro _ ⟨⟩
  rw [Function.update_self]
  exact filled rfl

/-- What every step keeps of the threads. -/
structure Kept (cfg : Config) (s : State Tid) (tid : Tid) (pc : Pc) : Prop where
  kept : ∀ other, (Function.update s.threads tid pc other).releasing = false
  sized : ∀ other, (Function.update s.threads tid pc other).Sized

theorem Streaming.keeps (streaming : Streaming cfg token s)
    (noRelease : ∀ call ∈ begins (s.threads tid) choice, call.isRelease = false) :
    Kept cfg s tid (act cfg s.shared (s.threads tid) choice).pc where
  kept := (Function.forall_update_iff s.threads fun _ pc => pc.releasing = false).mpr
    ⟨act_kept cfg _ _ _ (streaming.kept tid) noRelease, fun other _ => streaming.kept other⟩
  sized := (Function.forall_update_iff s.threads fun _ pc => pc.Sized).mpr
    ⟨act_sized cfg _ _ _ (streaming.sized tid), fun other _ => streaming.sized other⟩

/-- A step without a store, which leaves the memory and the histories alone. -/
theorem Streaming.move (streaming : Streaming cfg token s) (token' : Token Tid) (out : Outcome)
    (kept : Kept cfg s tid out.pc)
    (sections : SoleHolder (fun pc : Pc => pc.phase.isSome = true)
      (Function.update s.threads tid out.pc) token'.holder)
    (phase : ∀ other p, token' = .held other p →
      (Function.update s.threads tid out.pc other).phase = some p)
    (line : Line token' out.shared.req s.hw.apu s.irq)
    (unborn : (∀ call ∈ begins (s.threads tid) choice ++ s.begun, call.setsPid = false) →
      token' = .unborn)
    (active : out.shared.activeBuf = token'.active s.handed.length)
    (filled : ∀ other, token' = .held other .filling →
      Filled cfg s.shared.ddr (half s.handed.length)
        (Function.update s.threads tid out.pc other))
    (mmio : out.mmio = none) (ddr : out.shared.ddr = s.shared.ddr)
    (none : handsOver (s.threads tid) = []) (env : Env) :
    Streaming cfg token' (s.after tid choice out env) where
  sections := sections
  phase := phase
  line := by rwa [after_shared, after_hw, mmio]
  unborn := unborn
  kept := kept.kept
  sized := kept.sized
  active := by rwa [after_shared, after_handed, none, List.append_nil]
  filled := by rwa [after_shared, after_handed, after_threads, ddr, none, List.append_nil]
  window := by
    rw [after_shared, after_handed, after_hw, ddr, none, List.append_nil, mmio]
    exact streaming.window
  feeding := by
    rw [after_handed, after_hw, none, List.append_nil, mmio]
    exact streaming.feeding

/-- A step that does nothing to the stream. -/
theorem Streaming.neutral (streaming : Streaming cfg token s) (kept : Kept cfg s tid out.pc)
    (notFilling : (s.threads tid).phase ≠ some .filling)
    (phase : out.pc.phase = (s.threads tid).phase) (mmio : out.mmio = none)
    (req : out.shared.req = s.shared.req) (active : out.shared.activeBuf = s.shared.activeBuf)
    (ddr : out.shared.ddr = s.shared.ddr) (none : handsOver (s.threads tid) = [])
    (env : Env) : Streaming cfg token (s.after tid choice out env) := by
  refine streaming.move token out kept (streaming.sections.keep (by rw [phase])) ?_ ?_
    streaming.unborn_of_append (active.trans streaming.active) ?_ mmio ddr none env
  · rintro other phase' rfl
    have before := streaming.phase other phase' rfl
    by_cases here : other = tid
    · subst here
      rwa [Function.update_self, phase]
    · rwa [Function.update_of_ne here]
  · rw [req]
    exact streaming.line
  · rintro other rfl
    have elsewhere : other ≠ tid := by
      rintro rfl
      exact notFilling (streaming.phase other .filling rfl)
    rw [Function.update_of_ne elsewhere]
    exact streaming.filled other rfl

/-- The session's ioctl. -/
theorem Streaming.ask (streaming : Streaming cfg .unborn s) (kept : Kept cfg s tid out.pc)
    {call : Call} (user : s.threads tid = .user) (choose : choice = .call call)
    (sets : call.setsPid = true) (phase : out.pc.phase = some .arming) (mmio : out.mmio = none)
    (shared : out.shared = s.shared) (env : Env) :
    Streaming cfg (.held tid .arming) (s.after tid choice out env) := by
  refine streaming.move (.held tid .arming) out kept
    (streaming.sections.acquire (by rw [phase]; rfl)) (phase_update phase) ?_ ?_
    (by rw [shared]; exact streaming.active) (filled_update nofun) mmio (by rw [shared])
    (by rw [user]; rfl) env
  · rw [shared]
    exact streaming.line.move (by simpa using streaming.line.requested) streaming.line.bit
      ⟨nofun, nofun⟩ ⟨nofun, nofun⟩ nofun
  · intro unborn
    rw [user, choose] at unborn
    rw [unborn call (List.mem_cons_self ..)] at sets
    cases sets

/-- The request is taken. -/
theorem Streaming.take (streaming : Streaming cfg .requested s) {buf : ℕ → BitVec 8} {len : ℕ}
    (kept : Kept cfg s tid (.writeArg buf len)) (here : s.threads tid = .writeReq buf len)
    (env : Env) :
    Streaming cfg (.held tid .filling)
      (s.after tid choice ⟨{ s.shared with req := 0 }, .writeArg buf len, none⟩ env) := by
  refine streaming.move (.held tid .filling)
    ⟨{ s.shared with req := 0 }, .writeArg buf len, none⟩ kept
    (streaming.sections.acquire rfl) (phase_update rfl) ?_
    (fun unborn => nomatch streaming.unborn_of_append unborn) streaming.active
    (filled_update fun _ => trivial) rfl rfl (by rw [here]; rfl) env
  exact streaming.line.move (by simp) (.inl rfl) ⟨nofun, nofun⟩ ⟨nofun, nofun⟩ fun _ => trivial

/-- The halves are switched. -/
theorem Streaming.flip (streaming : Streaming cfg (.held tid .flipping) s)
    (kept : Kept cfg s tid .writeUnlock) (here : s.threads tid = .writeFlip) (env : Env) :
    Streaming cfg (.held tid .arming)
      (s.after tid choice
        ⟨{ s.shared with activeBuf := !s.shared.activeBuf }, .writeUnlock, none⟩ env) := by
  refine streaming.move (.held tid .arming)
    ⟨{ s.shared with activeBuf := !s.shared.activeBuf }, .writeUnlock, none⟩ kept
    (streaming.sections.keep (by rw [here]; rfl)) (phase_update rfl) ?_
    (fun unborn => nomatch streaming.unborn_of_append unborn) ?_ (filled_update nofun) rfl rfl
    (by rw [here]; rfl) env
  · exact streaming.line.move (by simpa using streaming.line.requested) streaming.line.bit
      ⟨nofun, nofun⟩ ⟨nofun, nofun⟩ nofun
  · exact congrArg not streaming.active

/-- After a fault the token is lost. -/
theorem Streaming.lose (streaming : Streaming cfg (.held tid .filling) s)
    (kept : Kept cfg s tid .writeFault) (none : handsOver (s.threads tid) = []) (env : Env) :
    Streaming cfg .lost (s.after tid choice ⟨s.shared, .writeFault, .none⟩ env) := by
  have before : (s.threads tid).phase.isSome = true := by
    rw [streaming.phase tid .filling rfl]
    rfl
  refine streaming.move .lost ⟨s.shared, .writeFault, .none⟩ kept
    (streaming.sections.release before nofun) nofun ?_
    (fun unborn => nomatch streaming.unborn_of_append unborn) streaming.active nofun rfl rfl none
    env
  exact streaming.line.move (by simpa using streaming.line.requested) streaming.line.bit
    ⟨nofun, nofun⟩ ⟨nofun, nofun⟩ nofun

/-- The request that ends an ioctl or a write. -/
theorem Streaming.arm (streaming : Streaming cfg (.held tid .arming) s)
    (kept : Kept cfg s tid out.pc) (phase : out.pc.phase = none)
    (mmio : out.mmio = some (configStore (apuEnable ||| apuIrqReq)))
    (shared : out.shared = s.shared) (none : handsOver (s.threads tid) = []) (env : Env) :
    Streaming cfg .armed (s.after tid choice out env) where
  sections := by
    refine streaming.sections.release ?_ (by rw [phase]; nofun)
    rw [streaming.phase tid .arming rfl]
    rfl
  phase := nofun
  line := by
    rw [after_shared, after_hw, after_irq, shared, mmio]
    exact streaming.line.arm _
  unborn unborn := nomatch streaming.unborn_of_append unborn
  kept := kept.kept
  sized := kept.sized
  active := by
    rw [after_shared, after_handed, shared, none, List.append_nil]
    exact streaming.active
  filled := nofun
  window := by
    rw [after_shared, after_handed, after_hw, shared, none, List.append_nil, mmio]
    exact streaming.window_of_clock _ env
  feeding := by
    rw [after_handed, after_hw, none, List.append_nil, mmio]
    exact streaming.feeding.clock (bufBase_configStore _) env

/-- The half is being filled. -/
theorem Streaming.fill (streaming : Streaming cfg (.held tid .filling) s)
    (kept : Kept cfg s tid (act cfg s.shared (s.threads tid) choice).pc)
    (phase : (act cfg s.shared (s.threads tid) choice).pc.phase = some .filling)
    (mmio : (act cfg s.shared (s.threads tid) choice).mmio = none)
    (req : (act cfg s.shared (s.threads tid) choice).shared.req = s.shared.req)
    (active : (act cfg s.shared (s.threads tid) choice).shared.activeBuf = s.shared.activeBuf)
    (none : handsOver (s.threads tid) = []) (env : Env) :
    Streaming cfg (.held tid .filling)
      (s.after tid choice (act cfg s.shared (s.threads tid) choice) env) := by
  have before := streaming.phase tid .filling rfl
  have inactive : (!s.shared.activeBuf) = half s.handed.length :=
    (congrArg not streaming.active).trans (Bool.not_not _)
  obtain ⟨filled, frame⟩ := @act_filled _ _ _ choice _ (streaming.sized tid) inactive
    (streaming.filled tid rfl) before none
  refine ⟨streaming.sections.keep (by rw [phase, before]), phase_update phase, ?_,
    streaming.unborn_of_append, kept.kept, kept.sized, ?_, ?_, ?_, ?_⟩
  · rw [after_shared, after_hw, req, mmio]
    exact streaming.line
  · rw [after_shared, after_handed, active, none, List.append_nil]
    exact streaming.active
  · rw [after_shared, after_handed, after_threads, none, List.append_nil]
    exact filled_update fun _ => filled
  · rw [after_shared, after_handed, after_hw, none, List.append_nil, mmio]
    intro n payload given unread j
    rw [frame _ fun k within => bufAddr_ne cfg (streaming.half_ne given unread) j.isLt within]
    exact streaming.window n payload given unread j
  · rw [after_handed, after_hw, none, List.append_nil, mmio]
    exact streaming.feeding

/-- The half is handed over. -/
theorem Streaming.send (streaming : Streaming cfg (.held tid .filling) s) {buf : ℕ → BitVec 8}
    {len : ℕ} (kept : Kept cfg s tid .writeFlip) (here : s.threads tid = .writeSend buf len)
    (env : Env) :
    Streaming cfg (.held tid .flipping)
      (s.after tid choice
        ⟨s.shared, .writeFlip,
          some (bufStore (BitVec.ofNat 32 (bufAddr cfg (!s.shared.activeBuf))))⟩ env) := by
  have inactive : (!s.shared.activeBuf) = half s.handed.length :=
    (congrArg not streaming.active).trans (Bool.not_not _)
  have hands : handsOver (s.threads tid) = [zeroPadded buf len] := by rw [here]; rfl
  have filled := streaming.filled tid rfl
  rw [here] at filled
  refine
    { sections := streaming.sections.keep (by rw [here]; rfl)
      phase := phase_update rfl
      line := streaming.line.send _ _
      unborn := fun unborn => nomatch streaming.unborn_of_append unborn
      kept := kept.kept
      sized := kept.sized
      active := ?_
      filled := filled_update nofun
      window := ?_
      feeding := ?_ }
  · rw [after_shared, after_handed, hands, List.length_append, List.length_singleton]
    refine streaming.active.trans ?_
    simp only [Token.active, half_succ]
  · rw [after_shared, after_handed, after_hw, hands]
    intro n payload given unread
    rcases Nat.lt_or_ge n s.handed.length with earlier | later
    · rw [List.getElem?_append_left earlier] at given
      exact streaming.window_of_clock _ env n payload given unread
    · rw [List.getElem?_append_right later, List.getElem?_singleton] at given
      split_ifs at given with first
      obtain rfl : n = s.handed.length := by omega
      exact Option.some.inj given ▸ filled
  · rw [after_handed, after_hw, hands, List.length_append, List.length_singleton, inactive]
    have before := streaming.feeding.congr fun i within =>
      streamWord_append s.handed [zeroPadded buf len] within
    exact before.give (streaming.line.empty trivial) (bufBase_bufStore _) env

/-- **Every step of a thread keeps the stream.** -/
theorem Streaming.thread (streaming : Streaming cfg token s) (env : Env)
    (session : OneSession (begins (s.threads tid) choice ++ s.begun)) :
    ∃ token', Streaming cfg token'
      (s.after tid choice (act cfg s.shared (s.threads tid) choice) env) := by
  have noRelease : ∀ call ∈ begins (s.threads tid) choice, call.isRelease = false :=
    fun call member => session.2 call (List.mem_append_left _ member)
  have kept := streaming.keeps noRelease
  rcases act_effect cfg s.shared (s.threads tid) choice (streaming.kept tid) streaming.line.bit with
    ⟨notFilling, phase, mmio, req, active, ddr, none, -⟩ |
    ⟨call, user, choose, sets, phase, mmio, shared⟩ | ⟨before, phase, mmio, shared⟩ |
    ⟨buf, len, here, one, out⟩ | ⟨before, phase, mmio, req, active, none⟩ |
    ⟨buf, len, here, out⟩ | ⟨here, out⟩ | ⟨before, out, none⟩
  · exact ⟨token, streaming.neutral kept notFilling phase mmio req active ddr none env⟩
  · obtain rfl : token = .unborn := by
      apply streaming.unborn
      rw [user, choose] at session
      exact session.first sets
    exact ⟨_, streaming.ask kept user choose sets phase mmio shared env⟩
  · obtain rfl := streaming.eq_held before
    have none : handsOver (s.threads tid) = [] := by
      cases here : s.threads tid <;> first | rfl | (rw [here] at before; cases before)
    exact ⟨_, streaming.arm kept phase mmio shared none env⟩
  · obtain rfl := streaming.line.requested.mp one
    rw [out] at kept ⊢
    exact ⟨_, streaming.take kept here env⟩
  · obtain rfl := streaming.eq_held before
    exact ⟨_, streaming.fill kept phase mmio req active none env⟩
  · obtain rfl := streaming.eq_held (show (s.threads tid).phase = some .filling by rw [here]; rfl)
    rw [out] at kept ⊢
    exact ⟨_, streaming.send kept here env⟩
  · obtain rfl := streaming.eq_held (show (s.threads tid).phase = some .flipping by rw [here]; rfl)
    rw [out] at kept ⊢
    exact ⟨_, streaming.flip kept here env⟩
  · obtain rfl := streaming.eq_held before
    rw [out] at kept ⊢
    exact ⟨_, streaming.lose kept none env⟩

/-- **The invariant of a session.** -/
theorem streaming_of_reachable (aligned : 8 ∣ cfg.dmaAddr)
    (addressable : cfg.dmaAddr + 2 * apuBufSize ≤ 2 ^ 32)
    (reachable : (driver Tid cfg).Reachable s) (session : OneSession s.begun) :
    ∃ token, Streaming cfg token s := by
  revert session
  refine reachable.invariant
    (P := fun s => OneSession s.begun → ∃ token, Streaming cfg token s) ?_ ?_
  · intro s (initial : Initial s) _
    exact ⟨.unborn, .initial initial⟩
  · intro s label s' holds step session
    cases step with
    | clock env =>
        obtain ⟨token, streaming⟩ := holds session
        exact ⟨token, streaming.clock env⟩
    | serve =>
        obtain ⟨token, streaming⟩ := holds session
        exact ⟨token, streaming.serve aligned addressable⟩
    | irq env enters =>
        obtain ⟨token, streaming⟩ := holds session
        exact streaming.interrupt env enters
    | thread tid choice env =>
        obtain ⟨token, streaming⟩ := holds session.tail
        exact streaming.thread env session

/-! ## The main result -/

/-- A buffer is queued only when the queue is empty. -/
theorem Streaming.queue (streaming : Streaming cfg token s) {label : Label Tid} {s' : State Tid}
    (step : Step cfg s label s') (queued : s.hw.apu.queuedBaseValid = true) :
    s'.hw.apu.queuedBase = s.hw.apu.queuedBase ∧ s'.handed = s.handed := by
  have clocked : ∀ {mmio : Option Mmio} (env : Env), bufBase mmio = none →
      (s.hw.clock mmio env).apu.queuedBase = s.hw.apu.queuedBase :=
    fun env noBuf => (next_of_no_buf noBuf).1
  cases step with
  | clock env => exact ⟨clocked env bufBase_none, rfl⟩
  | serve => exact ⟨rfl, rfl⟩
  | irq env enters =>
      refine ⟨?_, rfl⟩
      cases s.irq with
      | ack => exact clocked env (bufBase_configStore _)
      | _ => rfl
  | thread tid choice env =>
      rcases act_mmio cfg s.shared (s.threads tid) choice with ⟨none, mmio⟩ | ⟨buf, len, here⟩
      · rw [after_hw, after_handed, none, List.append_nil]
        rcases mmio with mmio | ⟨val, mmio⟩
        · rw [mmio]
          exact ⟨rfl, rfl⟩
        · rw [mmio]
          exact ⟨clocked env (bufBase_configStore val), rfl⟩
      · obtain rfl := streaming.eq_held
          (show (s.threads tid).phase = some .filling by rw [here]; rfl)
        rw [streaming.line.empty trivial] at queued
        cases queued

/-- **Audio stream integrity.** In every state that a session can reach, with
any number of threads, any calls of `apu_write` and any timing of the
interrupt, the clocks and the memory:

1. the buffers that have been read completely are the first ones of those that
   have been handed over, each padded with zeros, and at most two are missing;
2. the chunks were read one after the other, each from its own address, and
   none was read twice;
3. what has been handed over and not been read completely is in its half;
4. a step that finds a base address queued neither replaces it nor hands a
   buffer over;
5. a call that has handed its buffer over goes on to return 0. -/
theorem audio_stream (aligned : 8 ∣ cfg.dmaAddr)
    (addressable : cfg.dmaAddr + 2 * apuBufSize ≤ 2 ^ 32)
    (reachable : (driver Tid cfg).Reachable s) (session : OneSession s.begun) :
    fullyRead s.hw.log <+: s.handed ∧
    s.handed.length ≤ (fullyRead s.hw.log).length + 2 ∧
    s.hw.log = (List.range s.hw.log.length).map (chunkAt (base cfg) (streamWord s.handed)) ∧
    (∀ n payload, s.handed[n]? = some payload → (fullyRead s.hw.log).length ≤ n →
      Holds cfg s.shared.ddr (half n) payload) ∧
    (∀ label s', Step cfg s label s' → s.hw.apu.queuedBaseValid = true →
      s'.hw.apu.queuedBase = s.hw.apu.queuedBase ∧ s'.handed = s.handed) ∧
    ∀ tid choice, handsOver (s.threads tid) ≠ [] ∨ (s.threads tid).sent = true →
      (act cfg s.shared (s.threads tid) choice).pc.sent = true ∨
        (act cfg s.shared (s.threads tid) choice).pc = .returned 0 := by
  obtain ⟨token, streaming⟩ := streaming_of_reachable aligned addressable reachable session
  have chunks := streaming.feeding.fetching.log
  obtain ⟨read, lag⟩ := streaming.feeding.lag
  refine ⟨?_, ?_, chunks, ?_, fun label s' step => streaming.queue step,
    fun tid choice => act_sent cfg s.shared (s.threads tid) choice⟩
  · rw [fullyRead_eq_take chunks read]
    exact List.take_prefix _ _
  · rwa [length_fullyRead]
  · rw [length_fullyRead]
    exact streaming.window

/-! ## A session with one sample -/

/-- The rest of a half is cleared before it is sent. -/
theorem reachable_writeSend {buf : ℕ → BitVec 8} {len : ℕ} {target : Bool} (env : Env) (d k : ℕ)
    (rest : k + d = apuBufSize) {s : State Tid} (reachable : (driver Tid cfg).Reachable s)
    (here : s.threads tid = .writePad buf len target k) :
    ∃ s', (driver Tid cfg).Reachable s' ∧ s'.threads tid = .writeSend buf len ∧
      s'.begun = s.begun ∧ s'.handed = s.handed := by
  induction d generalizing k s with
  | zero =>
      have following := reachable.next (Step.thread s tid .advance env)
      obtain rfl : k = apuBufSize := rest
      refine ⟨_, following, ?_, ?_, ?_⟩
      · rw [after_threads, Function.update_self, here]
        rfl
      · rw [after_begun, here]
        rfl
      · rw [after_handed, here]
        exact List.append_nil _
  | succ d ih =>
      have following := reachable.next (Step.thread s tid .advance env)
      have more : k < apuBufSize := by omega
      obtain ⟨s', reachable', sends, begun, handed⟩ := ih (k + 1) (by omega) following (by
        rw [after_threads, Function.update_self, here, act, if_pos more])
      refine ⟨s', reachable', sends, begun.trans ?_, handed.trans ?_⟩
      · rw [after_begun, here]
        rfl
      · rw [after_handed, here]
        exact List.append_nil _

end Streaming

/-- The sample buffer of the examples. -/
def pageConfig : Config := { dmaAddr := 0x30000000 }

/-- A clock in which nobody answers. -/
def still : Env := { answer := false, memWait := true, chunkAck := false, memData := 0 }

def loaded : State Unit where
  shared :=
    { activeBuf := false, req := 0, pid := 0, apuLock := 0, writeLock := 0, signals := 0,
      ddr := fun _ => 0 }
  threads _ := .user
  irq := .idle
  hw := Hardware.reset
  begun := []
  handed := []

/-- One byte of sound. -/
def beep (_ : ℕ) : BitVec 8 := 0x55

/-- The ioctl, the first interrupt and a write of one byte, up to the `memset`. -/
theorem reachable_beep : ∃ s : State Unit, (driver Unit pageConfig).Reachable s ∧
    s.threads () = .writePad beep 1 true 1 ∧
    s.begun = [.write (some beep) 1, .ioctl ioctlApuSetCallbackPid 7] ∧ s.handed = [] := by
  have start : (driver Unit pageConfig).Reachable loaded :=
    .start ⟨rfl, rfl, rfl, rfl, rfl, fun _ => rfl, rfl, rfl, rfl, rfl⟩
  have armed := ((start.next (Step.thread _ () (.call (.ioctl ioctlApuSetCallbackPid 7)) still)).next
    (Step.thread _ () .advance still)).next (Step.thread _ () .advance still)
  have raised := armed.next (Step.clock _ still)
  have entered := raised.next (Step.irq _ still fun _ => rfl)
  have acknowledged := entered.next (Step.irq _ still nofun)
  have requested := acknowledged.next (Step.irq _ still nofun)
  have called := (requested.next (Step.thread _ () .advance still)).next
    (Step.thread _ () (.call (.write (some beep) 1)) still)
  have taken := (called.next (Step.thread _ () .advance still)).next
    (Step.thread _ () .advance still)
  have copied := ((taken.next (Step.thread _ () .advance still)).next
    (Step.thread _ () .advance still)).next (Step.thread _ () .advance still)
  exact ⟨_, copied, rfl, rfl, rfl⟩

theorem audio_stream_beep : ∃ s : State Unit, (driver Unit pageConfig).Reachable s ∧
    s.handed = [zeroPadded beep 1] ∧ fullyRead s.hw.log <+: [zeroPadded beep 1] := by
  obtain ⟨s, reachable, here, begun, handed⟩ := reachable_beep
  obtain ⟨s', reachable', sends, begun', handed'⟩ :=
    reachable_writeSend still 511 1 rfl reachable here
  have following := reachable'.next (Step.thread s' () .advance still)
  have given : (s'.after () .advance (act pageConfig s'.shared (s'.threads ()) .advance)
      still).handed = [zeroPadded beep 1] := by
    rw [after_handed, handed', handed, sends]
    rfl
  have calls : (s'.after () .advance (act pageConfig s'.shared (s'.threads ()) .advance)
      still).begun = [.write (some beep) 1, .ioctl ioctlApuSetCallbackPid 7] := by
    rw [after_begun, begun', begun, sends]
    rfl
  have streamed := audio_stream (by decide) (by decide) following (by
    rw [calls]
    exact ⟨by decide, by simp [Call.isRelease]⟩)
  exact ⟨_, following, given, given ▸ streamed.1⟩

end FPGame.ApuDriver
