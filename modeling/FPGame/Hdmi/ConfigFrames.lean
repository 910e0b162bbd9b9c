import FPGame.Hdmi.I2cHdmiConfig

/-!
# The transactions of the HDMI configuration

The writer is not told to stop: beyond the table it sends the last entry again and
again. Out of reset its first end is that of no transaction, so entry 0, which turns the
transmitter on, is counted without having been sent, and it is sent only after
`HDMI_TX_INT` has fallen. If it falls while the last entry is being repeated, the
transaction may be made of bytes of both entries.

`Joint` relates the transactions on the bus to the stage of the writer and the mode of
the configuration, and `frames_on_bus` reads off what the transmitter receives.
-/

set_option autoImplicit false

namespace FPGame.Hdmi

open FPGame.Foundation FPGame.Foundation.I2c

/-! ## The words of the table on the bus -/

/-- The bytes of a transaction that sends a word. -/
def payload (word : BitVec 16) : List (BitVec 8) :=
  [0x72, word.extractLsb' 8 8, word.extractLsb' 0 8]

/-- The upper byte of one word with the lower byte of another. -/
def torn (first second : BitVec 16) : BitVec 16 :=
  first.extractLsb' 8 8 ++ second.extractLsb' 0 8

theorem upper_torn (first second : BitVec 16) :
    (torn first second).extractLsb' 8 8 = first.extractLsb' 8 8 :=
  BitVec.extractLsb'_append_eq_left

theorem lower_torn (first second : BitVec 16) :
    (torn first second).extractLsb' 0 8 = second.extractLsb' 0 8 :=
  BitVec.extractLsb'_append_eq_right

theorem torn_self (word : BitVec 16) : torn word word = word :=
  (BitVec.extractLsb'_append_extractLsb'_eq_extractLsb' rfl).trans BitVec.extractLsb'_eq_self

theorem payload_torn (first second : BitVec 16) : payload (torn first second) =
    [0x72, first.extractLsb' 8 8, second.extractLsb' 0 8] := by
  rw [payload, upper_torn, lower_torn]

theorem address_packet (word : BitVec 16) : (packet word).extractLsb' 16 8 = 0x72 :=
  BitVec.extractLsb'_append_eq_left

theorem word_packet (word : BitVec 16) : (packet word).extractLsb' 0 16 = word :=
  BitVec.extractLsb'_append_eq_right

/-- The words that a transaction for entry `k` may carry. Beyond the table it is the last
one, and when the table begins again parts of the last one may be left. -/
def words (k : ℕ) : List (BitVec 16) :=
  if k = 0 then [lutData 22, torn (lutData 22) (lutData 0), lutData 0] else [lutData (min k 22)]

/-- Once an entry is being sent, each byte that is loaded is one of it. -/
theorem torn_mem_words {k : ℕ} {word : BitVec 16} (small : k < lutSize) (mem : word ∈ words k) :
    torn word (lutData k) ∈ words k := by
  rw [lutSize] at small
  rw [words] at mem ⊢
  by_cases zero : k = 0
  · rw [if_pos zero] at mem ⊢
    subst zero
    simp only [List.mem_cons, List.not_mem_nil, or_false] at mem
    rcases mem with rfl | rfl | rfl <;> decide
  · rw [if_neg zero, List.mem_singleton] at mem ⊢
    rw [Nat.min_eq_left (by omega)] at mem ⊢
    rw [mem, torn_self]

theorem lutData_mem_words {k : ℕ} (small : k < lutSize) : lutData k ∈ words k := by
  rw [lutSize] at small
  rw [words]
  by_cases zero : k = 0
  · rw [if_pos zero, zero]
    simp
  · rw [if_neg zero, List.mem_singleton, Nat.min_eq_left (by omega)]

/-! ## The transactions -/

/-- A transaction, and the entry for which the configuration counts it: 23 is that of the
repetitions beyond the table. -/
structure Frame where
  number : ℕ
  bytes : List Byte
deriving DecidableEq, Repr

namespace Frame

/-- Some byte was not acknowledged. -/
def nack (f : Frame) : Bool := f.bytes.any Byte.nack

/-- The bytes are those of a word for the entry. -/
def Carries (f : Frame) : Prop := ∃ word ∈ words f.number, f.bytes.map Byte.value = payload word

end Frame

/-- What is sent beyond the table, if `HDMI_TX_INT` never fell or did. -/
def beyond (fell : Bool) : List ℕ := if fell then [lutSize, 0] else [lutSize]

/-- The entries that may be sent when entry `k` is done. -/
def after (fell : Bool) (k : ℕ) : List ℕ := if k + 1 < lutSize then [k + 1] else beyond fell

/-- The entries that may be sent after a transaction: the same again if it was not
acknowledged, else the next one. Beyond the table, entry 0 may be counted while an
acknowledged repetition ends. -/
def Frame.followers (fell : Bool) (f : Frame) : List ℕ :=
  if f.number < lutSize then if f.nack then [f.number] else after fell f.number
  else if fell && !f.nack then [lutSize, 0, 1] else beyond fell

theorem Frame.followers_entry {fell : Bool} {f : Frame} (small : f.number < lutSize) :
    f.followers fell = if f.nack then [f.number] else after fell f.number :=
  if_pos small

theorem Frame.followers_beyond {fell : Bool} {f : Frame} (last : f.number = lutSize) :
    f.followers fell = if fell && !f.nack then [lutSize, 0, 1] else beyond fell :=
  if_neg last.not_lt

/-- The order of the transactions. -/
def Frame.Follows (fell : Bool) (f g : Frame) : Prop := g.number ∈ f.followers fell

/-- The next transaction may be that of entry `n`. -/
def Expects (fell : Bool) (frames : List Frame) (n : ℕ) : Prop :=
  match frames.getLast? with
  | none => n = 1
  | some f => n ∈ f.followers fell

/-! ## The configuration and the writer -/

namespace Mode

/-- The entries that the transaction under way may be counted for. -/
def numbers (fell : Bool) : Mode → List ℕ
  | fresh => []
  | waiting k => [k]
  | counted k => after fell k
  | ready k => [k]
  | idle => beyond fell
  | restarted => [0]

/-- The entries that may come next, while the writer is at its end. -/
def numbersReady (fell nack : Bool) : Mode → List ℕ
  | fresh => []
  | waiting k => if nack then [k] else after fell k
  | counted k => after fell k
  | ready k => if nack then [k] else after fell k
  | idle => beyond fell
  | restarted => if nack then [0] else after fell 0

/-- The entries that may come next, while the writer leaves its end. -/
def numbersLeaving (fell nack : Bool) : Mode → List ℕ
  | waiting k => if nack then [k] else after fell k
  | mode => mode.numbers fell

/-- The entry that a transaction is counted for when it ends. -/
def number : Mode → ℕ
  | waiting k => k
  | idle => lutSize
  | _ => 0

end Mode

/-- The entries that the next transaction, or the one under way, may be counted for. -/
def due (fell : Bool) : Stage → Mode → List ℕ
  | .reset _, _ => [1]
  | .ready nack, mode => mode.numbersReady fell nack
  | .leaving nack, mode => mode.numbersLeaving fell nack
  | _, mode => mode.numbers fell

/-- The clocks until the next transaction begins. -/
def toGo : Stage → Mode → ℕ
  | .reset false, _ => 4
  | .reset true, _ => 3
  | .ready _, .waiting _ => 3
  | .ready _, _ => 2
  | .leaving _, _ => 1
  | _, _ => 0

/-- The bits of a transaction. -/
def Frame.bits (f : Frame) : List Bool := f.bytes.flatMap Byte.bits

/-- What of the transaction has been loaded. An entry is given to the writer before the
writer looks at it. -/
def Loaded : Mode → Stage → Prop
  | .fresh, stage => stage = .reset false
  | .waiting k, stage => ∃ word ∈ words k, stage.values <+: payload word
  | .counted _, stage => stage.position = 0
  | .ready _, stage => stage.position ≤ 1 ∧ stage.values <+: [0x72]
  | .idle, stage => stage.values <+: payload (lutData 22)
  | .restarted, stage => stage.values <+: payload (lutData 22)

/-- The transactions, the stage and the mode after some clocks. -/
structure Joint (fell : Bool) (frames : List Frame) (mode : Mode) (stage : Stage) : Prop where
  chain : frames.IsChain (Frame.Follows fell)
  first : ∀ f ∈ frames.head?, f.number = 1
  carries : ∀ f ∈ frames, f.Carries
  fallen : ∀ f ∈ frames, f.number = 0 → fell = true
  due : ∀ n ∈ due fell stage mode, Expects fell frames n
  loaded : Loaded mode stage
  warm : ∀ w, stage = .reset w → mode = if w then .waiting 0 else .fresh

/-! ## What is loaded -/

section Loads

variable {stage : Stage} {mode : Mode} {s : Config} {go sdai txInt : Bool} {word : BitVec 16}

/-- Words that are closed under the loading of another one stay possible. -/
theorem prefix_next (shaped : stage.Shaped) {W : List (BitVec 16)} (own : word ∈ W)
    (closed : ∀ w ∈ W, torn w word ∈ W) (loaded : ∃ w ∈ W, stage.values <+: payload w) :
    ∃ w ∈ W, (stage.next go (packet word) sdai).values <+: payload w := by
  obtain ⟨w, mem, before⟩ := loaded
  rcases @Stage.values_next stage go sdai (packet word) shaped with
    same | none | ⟨-, address⟩ | ⟨one, upper⟩ | ⟨two, lower⟩
  · exact ⟨w, mem, same ▸ before⟩
  · exact ⟨w, mem, none ▸ List.nil_prefix⟩
  · refine ⟨w, mem, ?_⟩
    rw [address, address_packet]
    exact ⟨_, rfl⟩
  · refine ⟨word, own, ?_⟩
    have values : stage.values = [0x72] := by
      rw [List.prefix_iff_eq_take.mp before, one]
      rfl
    rw [upper, values, word_packet]
    exact ⟨[word.extractLsb' 0 8], rfl⟩
  · refine ⟨torn w word, closed w mem, ?_⟩
    have values : stage.values = [0x72, w.extractLsb' 8 8] := by
      rw [List.prefix_iff_eq_take.mp before, two]
      rfl
    rw [lower, values, word_packet, payload_torn]
    exact List.prefix_rfl

/-- Before the writer has sent a bit, it has looked at no more than the address. -/
theorem early_next (early : stage.position ≤ 1) (values : stage.values <+: [0x72]) :
    (stage.next go (packet word) sdai).values <+: [0x72] ∧
      (stage.position = 0 → (stage.next go (packet word) sdai).position ≤ 1) := by
  cases stage with
  | reset => cases go <;> exact ⟨values, fun _ => Nat.zero_le _⟩
  | ready => cases go <;> exact ⟨values, fun _ => Nat.zero_le _⟩
  | leaving => exact ⟨values, fun _ => Nat.zero_le _⟩
  | start =>
      refine ⟨?_, fun _ => le_rfl⟩
      rw [Stage.next, address_packet]
      exact List.prefix_rfl
  | bit p cell =>
      cases cell with
      | low => exact ⟨values, fun first => by simp only [Stage.position] at first; omega⟩
      | shift => simp only [Stage.position] at early; omega
      | high => simp only [Stage.position] at early; omega
      | sample => simp only [Stage.position] at early; omega
  | stop => simp only [Stage.position] at early; omega

/-- A word that is being sent alone stays it. -/
theorem prefix_same (shaped : stage.Shaped) (loaded : stage.values <+: payload word) :
    (stage.next go (packet word) sdai).values <+: payload word := by
  obtain ⟨w, mem, before⟩ := @prefix_next stage go sdai word shaped [word]
    (List.mem_singleton_self word)
    (fun w mem => by rw [List.mem_singleton.mp mem, torn_self]; exact List.mem_singleton_self word)
    ⟨word, List.mem_singleton_self word, loaded⟩
  rwa [List.mem_singleton.mp mem] at before

theorem values_of_position (none : stage.position = 0) : stage.values = [] := by
  cases stage with
  | reset | ready | leaving | start => rfl
  | bit p cell => cases cell <;> simp only [Stage.position] at none <;> omega
  | stop => simp only [Stage.position] at none; omega

theorem position_of_end (ended : stage.endOk = true) :
    (stage.next go (packet word) sdai).position = 0 := by
  cases stage with
  | reset | ready => cases go <;> rfl
  | leaving => rfl
  | start | bit | stop => cases ended

/-- **What is loaded stays part of what is being sent.** -/
theorem loaded_next (here : InMode mode s) (shaped : stage.Shaped) (loaded : Loaded mode stage) :
    Loaded (mode.next stage.endOk stage.nack txInt) (stage.next s.go s.data sdai) := by
  cases here with
  | fresh lutIndex setupSt go =>
      rw [Loaded] at loaded
      rw [loaded, go]
      exact ⟨lutData 0, by decide, List.nil_prefix⟩
  | @waiting _ k small lutIndex setupSt go data =>
      rw [data]
      cases ended : stage.endOk with
      | true =>
          have begins := @position_of_end stage s.go sdai (lutData k) ended
          cases stage.nack with
          | false => exact begins
          | true =>
              refine ⟨begins.trans_le (Nat.zero_le 1), ?_⟩
              rw [values_of_position begins]
              exact List.nil_prefix
      | false =>
          rw [Loaded] at loaded
          have grows := @prefix_next stage s.go sdai (lutData k) shaped (words k)
            (lutData_mem_words small) (fun w => torn_mem_words small) loaded
          rw [Mode.next, if_neg Bool.false_ne_true, Loaded]
          exact grows
  | @counted _ k small lutIndex setupSt go data =>
      rw [Loaded] at loaded
      rw [data, Mode.next, Mode.entry]
      obtain ⟨values, position⟩ := @early_next stage s.go sdai (lutData k)
        (loaded.trans_le (Nat.zero_le 1)) (values_of_position loaded ▸ List.nil_prefix)
      by_cases more : k + 1 < lutSize
      · rw [if_pos more]
        exact ⟨position loaded, values⟩
      · rw [if_neg more]
        exact values.trans ⟨_, rfl⟩
  | ready small lutIndex setupSt go data =>
      rw [data]
      obtain ⟨values, -⟩ := early_next loaded.1 loaded.2
      exact ⟨_, lutData_mem_words small, values.trans ⟨_, rfl⟩⟩
  | idle lutIndex setupSt go data =>
      rw [data]
      have last := @prefix_same stage s.go sdai (lutData 22) shaped loaded
      cases txInt with
      | false => exact last
      | true => exact last
  | restarted lutIndex setupSt go data =>
      rw [data]
      have last := @prefix_same stage s.go sdai (lutData 22) shaped loaded
      exact ⟨lutData 22, List.mem_cons_self, last⟩

end Loads

/-! ## A clock -/

/-- A transaction is under way. -/
def Stage.Sending : Stage → Prop
  | start => True
  | bit _ _ => True
  | stop _ _ => True
  | _ => False

section Clock

variable {fell : Bool} {frames : List Frame} {stage : Stage} {mode : Mode} {s : Config}
  {go sdai ackOk txInt : Bool} {data : BitVec 24} {done : List Byte} {n : ℕ}

theorem sending_next (sending : stage.Sending) :
    (stage.next go data sdai).Sending ∨ ∃ done, stage = .stop done 3 := by
  cases stage with
  | reset | ready | leaving => exact sending.elim
  | start => exact .inl trivial
  | bit p cell =>
      refine .inl ?_
      cases cell with
      | low | shift | high => trivial
      | sample =>
          rw [Stage.next, Stage.endByte]
          split_ifs <;> trivial
  | stop done k =>
      fin_cases k
      · exact .inl trivial
      · exact .inl trivial
      · exact .inl trivial
      · exact .inr ⟨done, rfl⟩

theorem due_of_sending (sending : stage.Sending) : due fell stage mode = mode.numbers fell := by
  cases stage with
  | reset | ready | leaving => exact sending.elim
  | start | bit | stop => rfl

theorem toGo_of_sending (sending : stage.Sending) : toGo stage mode = 0 := by
  cases stage with
  | reset | ready | leaving => exact sending.elim
  | start | bit | stop => rfl

theorem endOk_of_sending (sending : stage.Sending) : stage.endOk = false := by
  cases stage with
  | reset | ready | leaving => exact sending.elim
  | start | bit | stop => rfl

theorem numbers_entry (k : ℕ) : (Mode.entry (k + 1)).numbers fell = after fell k := by
  rw [Mode.entry, after]
  split_ifs <;> rfl

/-- Entry 0 comes up beyond the table when `HDMI_TX_INT` falls. -/
theorem numbers_beyond {endOk : Bool} (calm : txInt = false → fell = true)
    (mem : n ∈ (Mode.idle.next endOk ackOk txInt).numbers fell) : n ∈ beyond fell := by
  cases txInt with
  | true => exact mem
  | false =>
      rw [List.mem_singleton.mp mem, beyond, calm rfl]
      decide

/-- While a transaction is under way, the entry that it will be counted for is only
narrowed down. -/
theorem numbers_next (calm : txInt = false → fell = true) (clocked : mode ≠ .fresh)
    (mem : n ∈ (mode.next false ackOk txInt).numbers fell) : n ∈ mode.numbers fell := by
  cases mode with
  | fresh => exact absurd rfl clocked
  | waiting k => exact mem
  | counted k =>
      rw [Mode.next, numbers_entry] at mem
      exact mem
  | ready k => exact mem
  | idle => exact numbers_beyond calm mem
  | restarted => exact mem

/-- At its end the writer waits for the configuration, or leaves. -/
theorem due_ready (calm : txInt = false → fell = true) (clocked : mode ≠ .fresh) (nack : Bool)
    (mem : n ∈ due fell (Stage.next mode.go data sdai (.ready nack)) (mode.next true nack txInt)) :
    n ∈ mode.numbersReady fell nack := by
  cases mode with
  | fresh => exact absurd rfl clocked
  | waiting k => cases nack <;> exact mem
  | counted k =>
      have next : n ∈ (Mode.entry (k + 1)).numbersLeaving fell nack := mem
      show n ∈ after fell k
      rw [← numbers_entry, Mode.entry]
      rw [Mode.entry] at next
      split_ifs at next ⊢ <;> exact next
  | ready k => exact mem
  | idle =>
      refine @numbers_beyond fell nack txInt n true calm ?_
      cases txInt <;> exact mem
  | restarted => exact mem

/-- The configuration sees the end once more while the writer leaves it. -/
theorem due_leaving (calm : txInt = false → fell = true) (clocked : mode ≠ .fresh) (nack : Bool)
    (mem : n ∈ (mode.next true nack txInt).numbers fell) : n ∈ mode.numbersLeaving fell nack := by
  cases mode with
  | fresh => exact absurd rfl clocked
  | waiting k => cases nack <;> exact mem
  | counted k =>
      rw [Mode.next, numbers_entry] at mem
      exact mem
  | ready k => exact mem
  | idle => exact numbers_beyond calm mem
  | restarted => exact mem

/-- **No other entry than before may come**, in a clock that ends no transaction. -/
theorem due_next (calm : txInt = false → fell = true)
    (warm : ∀ w, stage = .reset w → mode = if w then .waiting 0 else .fresh)
    (clocked : mode = .fresh → stage = .reset false) (unfinished : ∀ done, stage ≠ .stop done 3)
    (mem : n ∈ due fell (stage.next mode.go data sdai) (mode.next stage.endOk stage.nack txInt)) :
    n ∈ due fell stage mode := by
  by_cases sending : stage.Sending
  · have fresh : mode ≠ .fresh := by
      intro fresh
      rw [clocked fresh] at sending
      exact sending
    rcases @sending_next stage mode.go sdai data sending with sends | ⟨done, last⟩
    · rw [due_of_sending sends, endOk_of_sending sending] at mem
      rw [due_of_sending sending]
      exact numbers_next calm fresh mem
    · exact absurd last (unfinished done)
  · cases stage with
    | start | bit | stop => exact absurd trivial sending
    | reset w =>
        rw [warm w rfl] at mem
        cases w <;> exact mem
    | ready nack =>
        exact due_ready calm (fun fresh => Stage.noConfusion (clocked fresh)) nack mem
    | leaving nack =>
        exact due_leaving calm (fun fresh => Stage.noConfusion (clocked fresh)) nack mem

/-- The next transaction comes nearer, or goes on. -/
theorem time_next (shaped : stage.Shaped)
    (warm : ∀ w, stage = .reset w → mode = if w then .waiting 0 else .fresh)
    (unfinished : ∀ done, stage ≠ .stop done 3) :
    toGo (stage.next mode.go data sdai) (mode.next stage.endOk stage.nack txInt) + 1 +
      stage.position ≤ toGo stage mode + (stage.next mode.go data sdai).position := by
  by_cases sending : stage.Sending
  · have begun : stage = .start ∨ 0 < stage.position := by
      cases stage with
      | reset | ready | leaving => exact sending.elim
      | start => exact .inl rfl
      | bit p cell => exact .inr (by cases cell <;> simp only [Stage.position] <;> omega)
      | stop => exact .inr (by simp only [Stage.position]; omega)
    rcases @sending_next stage mode.go sdai data sending with sends | ⟨done, last⟩
    · rcases @Stage.position_next stage mode.go sdai data shaped begun with next | ⟨done, last⟩
      · rw [toGo_of_sending sends, next]
        omega
      · exact absurd last (unfinished done)
    · exact absurd last (unfinished done)
  · cases stage with
    | start | bit | stop => exact absurd trivial sending
    | reset w =>
        rw [warm w rfl]
        cases w <;> exact Nat.le_refl _
    | ready nack => cases mode <;> cases nack <;> simp [Mode.go, Mode.next, Stage.next, toGo,
        Stage.position, Stage.endOk, Stage.nack]
    | leaving nack => simp [toGo, Stage.next, Stage.position]

/-- After a clock the writer is in reset only if it was and was not told to go. -/
theorem Stage.next_eq_reset {w : Bool} (next : stage.next go data sdai = .reset w) :
    (∃ v, stage = .reset v) ∧ go = false ∧ w = true := by
  cases stage with
  | reset v =>
      cases go with
      | false =>
          cases next
          exact ⟨⟨v, rfl⟩, rfl, rfl⟩
      | true => cases next
  | ready nack => cases go <;> cases next
  | leaving nack => cases next
  | start => cases next
  | bit p cell =>
      cases cell with
      | low | shift | high => cases next
      | sample =>
          rw [Stage.next, Stage.endByte] at next
          split_ifs at next
  | stop done k => fin_cases k <;> cases next

theorem warm_next (warm : ∀ w, stage = .reset w → mode = if w then .waiting 0 else .fresh) (w : Bool)
    (next : stage.next mode.go data sdai = .reset w) :
    mode.next stage.endOk stage.nack txInt = if w then .waiting 0 else .fresh := by
  obtain ⟨⟨v, rfl⟩, still, rfl⟩ := Stage.next_eq_reset next
  rw [warm v rfl] at still ⊢
  cases v with
  | false => rfl
  | true => cases still

theorem Expects.append {f : Frame} (mem : n ∈ f.followers fell) :
    Expects fell (frames ++ [f]) n := by
  rw [Expects, List.getLast?_append, List.getLast?_singleton]
  exact mem

theorem Expects.chain {f : Frame} (expects : Expects fell frames f.number)
    (chain : frames.IsChain (Frame.Follows fell)) :
    (frames ++ [f]).IsChain (Frame.Follows fell) := by
  rw [List.isChain_append]
  refine ⟨chain, List.isChain_singleton _, fun g last h first => ?_⟩
  rw [List.head?_singleton, Option.mem_some] at first
  rw [Expects, Option.mem_def.mp last] at expects
  rw [← first]
  exact expects

theorem Expects.first {f : Frame} (expects : Expects fell frames f.number)
    (first : ∀ g ∈ frames.head?, g.number = 1) : ∀ g ∈ (frames ++ [f]).head?, g.number = 1 := by
  intro g mem
  cases frames with
  | nil =>
      rw [List.nil_append, List.head?_singleton, Option.mem_some] at mem
      rw [← mem]
      exact expects
  | cons h frames => exact first g mem

/-- Entry 0 is sent only after `HDMI_TX_INT` has fallen. -/
theorem Expects.fallen (expects : Expects fell frames 0)
    (fallen : ∀ f ∈ frames, f.number = 0 → fell = true) : fell = true := by
  rw [Expects] at expects
  cases last : frames.getLast? with
  | none =>
      rw [last] at expects
      exact absurd expects Nat.zero_ne_one
  | some f =>
      rw [last] at expects
      have mem := List.mem_of_getLast? last
      by_contra never
      rw [Bool.not_eq_true] at never
      subst never
      have other : f.number ≠ 0 := fun zero => Bool.false_ne_true (fallen f mem zero)
      have expects' : 0 ∈ f.followers false := expects
      rw [Frame.followers, after, beyond, Bool.false_and] at expects'
      split_ifs at expects' <;> simp [lutSize] at expects' <;> omega

/-- The transaction is counted for the entry that the mode says. -/
theorem Joint.counts (joint : Joint fell frames mode (.stop done 3)) (all : done.length = 3)
    {mode' : Mode} (mem : mode.number ∈ mode.numbers fell)
    (carries : ∃ word ∈ words mode.number, done.map Byte.value <+: payload word)
    (due : ∀ n ∈ mode'.numbersReady fell (done.any Byte.nack),
      n ∈ Frame.followers fell ⟨mode.number, done⟩)
    (loaded : Loaded mode' (.ready (done.any Byte.nack))) :
    Joint fell (frames ++ [⟨mode.number, done⟩]) mode' (.ready (done.any Byte.nack)) := by
  have expects : Expects fell frames (Frame.mk mode.number done).number := joint.due _ mem
  refine ⟨expects.chain joint.chain, expects.first joint.first, ?_, ?_,
    fun n mem => Expects.append (due n mem), loaded, fun w same => Stage.noConfusion same⟩
  · intro f mem
    rcases List.mem_append.mp mem with before | now
    · exact joint.carries f before
    · obtain ⟨word, possible, start⟩ := carries
      rw [List.mem_singleton.mp now]
      refine ⟨word, possible, start.eq_of_length ?_⟩
      rw [List.length_map, all]
      rfl
  · intro f mem zero
    rcases List.mem_append.mp mem with before | now
    · exact joint.fallen f before zero
    · rw [List.mem_singleton.mp now] at zero
      rw [zero] at expects
      exact expects.fallen joint.fallen

/-- **A clock that ends a transaction.** -/
theorem Joint.finish (joint : Joint fell frames mode (.stop done 3)) (here : InMode mode s)
    (all : done.length = 3) (calm : txInt = false → fell = true) :
    Joint fell (frames ++ [⟨mode.number, done⟩]) (mode.next false ackOk txInt)
      (.ready (done.any Byte.nack)) := by
  have loaded := joint.loaded
  cases here with
  | fresh => cases loaded
  | @waiting _ k small lutIndex setupSt go data =>
      refine joint.counts all (List.mem_singleton_self k) loaded (fun n mem => ?_)
        ⟨lutData k, lutData_mem_words small, List.nil_prefix⟩
      show n ∈ Frame.followers fell ⟨k, done⟩
      rw [Frame.followers_entry small]
      exact mem
  | counted =>
      have stuck : 112 = 0 := loaded
      omega
  | ready =>
      have stuck : 112 ≤ 1 := loaded.1
      omega
  | idle lutIndex setupSt go data =>
      have last : ∃ word ∈ words lutSize, done.map Byte.value <+: payload word :=
        ⟨lutData 22, List.mem_singleton_self _, loaded⟩
      have mem : lutSize ∈ beyond fell := by cases fell <;> decide
      cases txInt with
      | true =>
          refine joint.counts all mem last (fun n mem => ?_) List.nil_prefix
          have here : n ∈ beyond fell := mem
          show n ∈ Frame.followers fell ⟨lutSize, done⟩
          rw [Frame.followers_beyond rfl]
          split_ifs with restarts
          · rw [beyond, (Bool.and_eq_true_iff.mp restarts).1] at here
            exact List.mem_append_left [1] here
          · exact here
      | false =>
          refine joint.counts all mem last (fun n mem => ?_) List.nil_prefix
          show n ∈ Frame.followers fell ⟨lutSize, done⟩
          rw [Frame.followers_beyond rfl, beyond, calm rfl, Frame.nack]
          rw [Mode.next, if_neg Bool.false_ne_true, Mode.numbersReady] at mem
          cases nack : done.any Byte.nack with
          | true =>
              rw [nack] at mem
              rw [List.mem_singleton.mp mem]
              decide
          | false =>
              rw [nack] at mem
              rw [List.mem_singleton.mp mem]
              decide
  | restarted lutIndex setupSt go data =>
      exact joint.counts all (List.mem_singleton_self 0) ⟨lutData 22, List.mem_cons_self, loaded⟩
        (fun n mem => mem) ⟨lutData 22, List.mem_cons_self, List.nil_prefix⟩

/-- **A clock that ends no transaction.** -/
theorem Joint.goes_on (joint : Joint fell frames mode stage) (here : InMode mode s)
    (shaped : stage.Shaped) (calm : txInt = false → fell = true)
    (unfinished : ∀ done, stage ≠ .stop done 3) :
    Joint fell frames (mode.next stage.endOk stage.nack txInt)
      (stage.next s.go s.data sdai) := by
  have loaded := @loaded_next stage mode s sdai txInt here shaped joint.loaded
  have clocked : mode = .fresh → stage = .reset false := by
    intro fresh
    have loaded := joint.loaded
    rw [fresh] at loaded
    exact loaded
  rw [here.go_eq] at loaded ⊢
  exact ⟨joint.chain, joint.first, joint.carries, joint.fallen,
    fun n mem => joint.due n (due_next calm joint.warm clocked unfinished mem), loaded,
    warm_next joint.warm⟩

end Clock

/-! ## Runs -/

section Runs

variable {fell : Bool} {t : ℕ} {s : System} {x : Input} {frames : List Frame}

/-- The bus, the writer and the configuration. -/
structure Linked (fell : Bool) (s : System) (frames : List Frame) (mode : Mode)
    (stage : Stage) : Prop where
  writer : At (frames.map Frame.bits) stage s.wrd s.monitor
  config : InMode mode s.config
  joint : Joint fell frames mode stage

/-- The configuration looks at `END` and `ACK` only when the writer has set them. -/
theorem mode_next_flags {ts : List (List Bool)} {mode : Mode} {stage : Stage}
    (here : At ts stage s.wrd s.monitor) (joint : Joint fell frames mode stage) (txInt : Bool) :
    mode.next s.wrd.endOk s.wrd.ackOk txInt = mode.next stage.endOk stage.nack txInt := by
  by_cases cold : stage = .reset false
  · rw [joint.warm false cold]
    rfl
  · obtain ⟨endOk, ackOk⟩ := here.flags cold
    rw [endOk]
    cases ended : stage.endOk with
    | true => rw [ackOk ended]
    | false => cases mode <;> rfl

/-- The clocks, at most, until a transaction ends. -/
def endsIn (mode : Mode) (stage : Stage) : ℕ := toGo stage mode + (113 - stage.position)

theorem endsIn_pos {mode : Mode} {stage : Stage} (shaped : stage.Shaped) :
    0 < endsIn mode stage := by
  have far := Stage.position_le shaped
  rw [endsIn]
  omega

theorem endsIn_le {mode : Mode} {stage : Stage} (clocked : stage ≠ .reset false) :
    endsIn mode stage ≤ 116 := by
  have soon : toGo stage mode ≤ 3 := by
    cases stage with
    | reset warm =>
        cases warm with
        | false => exact absurd rfl clocked
        | true => exact le_rfl
    | ready => cases mode <;> simp [toGo]
    | leaving => simp [toGo]
    | start | bit | stop => exact Nat.zero_le 3
  rw [endsIn]
  omega

/-- **A clock keeps the bus, the writer and the configuration together.** It ends a
transaction, or brings the end of one nearer. -/
theorem Linked.next {mode : Mode} {stage : Stage} (linked : Linked fell s frames mode stage)
    (polite : Polite s.wrd s.monitor x.pulls) (calm : x.txInt = false → fell = true) :
    ∃ frames' mode' stage', Linked fell (s.next x) frames' mode' stage' ∧
      stage' ≠ .reset false ∧ (frames.length < frames'.length ∨
        frames' = frames ∧ endsIn mode' stage' + 1 ≤ endsIn mode stage) := by
  obtain ⟨here, config, joint⟩ := linked
  have writer := @at_next _ _ _ s.config.go x.pulls s.config.data stage here polite
  have config' := @inMode_next s.config mode s.wrd.endOk s.wrd.ackOk x.txInt config
  rw [mode_next_flags here joint x.txInt] at config'
  by_cases ends : ∃ done, stage = .stop done 3
  · obtain ⟨done, rfl⟩ := ends
    have finish := @Joint.finish fell frames mode s.config (Stage.stop done 3).nack x.txInt done
      joint config here.shaped calm
    refine ⟨frames ++ [⟨mode.number, done⟩], _, _, ⟨?_, config', finish⟩,
      fun same => Stage.noConfusion same, .inl ?_⟩
    · rw [List.map_append]
      exact writer
    · rw [List.length_append, List.length_singleton]
      exact Nat.lt_succ_self _
  · have unfinished : ∀ done, stage ≠ .stop done 3 := fun done same => ends ⟨done, same⟩
    have goes := @Joint.goes_on fell frames stage mode s.config (s.wrd.sdao && !x.pulls) x.txInt
      joint config here.shaped calm unfinished
    have none : stage.finished = [] := by
      cases stage with
      | reset | ready | leaving | start | bit => rfl
      | stop done k =>
          fin_cases k
          · rfl
          · rfl
          · rfl
          · exact absurd ⟨done, rfl⟩ ends
    rw [none, List.append_nil] at writer
    refine ⟨frames, _, _, ⟨writer, config', goes⟩,
      fun same => Bool.noConfusion (Stage.next_eq_reset same).2.2, .inr ⟨rfl, ?_⟩⟩
    have sooner := @time_next stage mode (s.wrd.sdao && !x.pulls) x.txInt s.config.data
      here.shaped joint.warm unfinished
    have far := Stage.position_le here.shaped
    have far' := Stage.position_le (At.shaped writer)
    rw [← config.go_eq] at sooner
    simp only [endsIn]
    omega

theorem linked_powerUp (wrd : Wdata) (data : BitVec 24) :
    Linked fell (powerUp wrd data) [] .fresh (.reset false) := by
  refine ⟨.cold rfl rfl rfl rfl, .fresh rfl rfl rfl, List.isChain_nil,
    fun f mem => ?_, fun f mem => ?_, fun f mem => ?_, fun n mem => List.mem_singleton.mp mem, rfl,
    fun w same => ?_⟩
  · cases mem
  · cases mem
  · cases mem
  · cases same
    rfl

/-- Over `d` clocks a transaction ends, or its end comes `d` clocks nearer. -/
theorem Linked.run {wrd : Wdata} {data : BitVec 24} {inputs : ℕ → Input} {u : ℕ} {mode : Mode}
    {stage : Stage} (linked : Linked fell ((machine wrd data).run inputs u) frames mode stage)
    (d : ℕ) (polite : ∀ v, v < u + d → Polite ((machine wrd data).run inputs v).wrd
      ((machine wrd data).run inputs v).monitor (inputs v).pulls)
    (calm : ∀ v, v < u + d → (inputs v).txInt = false → fell = true) :
    ∃ frames' mode' stage',
      Linked fell ((machine wrd data).run inputs (u + d)) frames' mode' stage' ∧
      (d ≠ 0 → stage' ≠ .reset false) ∧
      (frames.length < frames'.length ∨
        frames' = frames ∧ endsIn mode' stage' + d ≤ endsIn mode stage) := by
  induction d with
  | zero => exact ⟨frames, mode, stage, linked, fun now => absurd rfl now, .inr ⟨rfl, le_rfl⟩⟩
  | succ d ih =>
      obtain ⟨frames', mode', stage', linked', -, progress⟩ := ih
        (fun v before => polite v (Nat.lt_succ_of_lt before))
        fun v before => calm v (Nat.lt_succ_of_lt before)
      obtain ⟨frames'', mode'', stage'', linked'', clocked, progress'⟩ :=
        linked'.next (polite (u + d) (Nat.lt_succ_self _)) (calm (u + d) (Nat.lt_succ_self _))
      refine ⟨frames'', mode'', stage'', linked'', fun _ => clocked, ?_⟩
      rcases progress with ended | ⟨rfl, nearer⟩
      · rcases progress' with more | ⟨rfl, -⟩
        · exact .inl (ended.trans more)
        · exact .inl ended
      · rcases progress' with more | ⟨rfl, nearer'⟩
        · exact .inl more
        · exact .inr ⟨rfl, by omega⟩

theorem linked_run (wrd : Wdata) (data : BitVec 24) (inputs : ℕ → Input)
    (polite : ∀ v, v < t → Polite ((machine wrd data).run inputs v).wrd
      ((machine wrd data).run inputs v).monitor (inputs v).pulls)
    (calm : ∀ v, v < t → (inputs v).txInt = false → fell = true) :
    ∃ frames mode stage, Linked fell ((machine wrd data).run inputs t) frames mode stage ∧
      (t ≠ 0 → stage ≠ .reset false) := by
  obtain ⟨frames, mode, stage, linked, clocked, -⟩ :=
    @Linked.run fell [] wrd data inputs 0 .fresh (.reset false) (linked_powerUp wrd data) t
      (by rwa [Nat.zero_add]) (by rwa [Nat.zero_add])
  rw [Nat.zero_add] at linked
  exact ⟨frames, mode, stage, linked, clocked⟩

/-- The bus carries the transactions. -/
theorem Linked.transactions {mode : Mode} {stage : Stage}
    (linked : Linked fell s frames mode stage) :
    s.monitor.transactions = frames.map Frame.bits :=
  linked.writer.transactions_eq

/-- **A transaction ends within 116 clocks**, once the writer has been clocked. -/
theorem ends_within {wrd : Wdata} {data : BitVec 24} {inputs : ℕ → Input} {u : ℕ}
    (clocked : u ≠ 0)
    (polite : ∀ v, v < u + 116 → Polite ((machine wrd data).run inputs v).wrd
      ((machine wrd data).run inputs v).monitor (inputs v).pulls)
    (calm : ∀ v, v < u + 116 → (inputs v).txInt = false → fell = true) :
    ((machine wrd data).run inputs u).monitor.transactions.length <
      ((machine wrd data).run inputs (u + 116)).monitor.transactions.length := by
  obtain ⟨frames, mode, stage, linked, warm⟩ := linked_run wrd data inputs
    (fun v before => polite v (before.trans_le (Nat.le_add_right u 116)))
    fun v before => calm v (before.trans_le (Nat.le_add_right u 116))
  obtain ⟨frames', mode', stage', linked', -, progress⟩ := linked.run 116 polite calm
  rw [linked.transactions, linked'.transactions, List.length_map, List.length_map]
  rcases progress with ended | ⟨-, nearer⟩
  · exact ended
  · have far := @endsIn_le mode stage (warm clocked)
    have left := @endsIn_pos mode' stage' linked'.writer.shaped
    omega

/-- If everything is acknowledged and the table does not begin again, it is sent in its
order from entry 1 on. -/
theorem number_of_acknowledged (chain : frames.IsChain (Frame.Follows false))
    (first : ∀ f ∈ frames.head?, f.number = 1) (acknowledged : ∀ f ∈ frames, f.nack = false)
    (i : ℕ) (f : Frame) (here : frames[i]? = some f) : f.number = min (i + 1) lutSize := by
  induction i generalizing f with
  | zero =>
      rw [← List.head?_eq_getElem?] at here
      rw [first f here]
      rfl
  | succ i ih =>
      obtain ⟨within, rfl⟩ := List.getElem?_eq_some_iff.mp here
      have before := ih frames[i] (List.getElem?_eq_getElem (by omega))
      have follows := List.isChain_iff_getElem.mp chain i within
      have acked := acknowledged frames[i] (List.getElem_mem _)
      rw [Frame.Follows, Frame.followers, acked, after, beyond, Bool.false_and] at follows
      simp only [Bool.false_eq_true, if_false] at follows
      rw [lutSize] at before follows ⊢
      split_ifs at follows
      · rw [List.mem_singleton.mp follows]
        omega
      · rw [List.mem_singleton.mp follows]
        omega
      · rw [List.mem_singleton.mp follows]
        omega

end Runs

section Main

variable {t : ℕ}

/-- **What the HDMI transmitter receives.** In every run with a transmitter that pulls
the data line only in the ninth bits, whatever it acknowledges and whatever the writer
held at power-up:

1. the bus carries whole transactions of the transmitter's address and the word of the
   table for the entry that is counted; for entry 0 the word may also be that of the last
   entry, or be made of the upper byte of that and the lower byte of entry 0;
2. the first one is for entry 1, and each other one for an entry that may follow; entry 0
   is sent only if `HDMI_TX_INT` has fallen;
3. if it has not and everything is acknowledged, the table is sent in its order, without
   entry 0, and its last entry is repeated;
4. from the first clock on, a transaction ends in any 116 clocks. -/
theorem frames_on_bus (wrd : Wdata) (data : BitVec 24) (inputs : ℕ → Input) (fell : Bool)
    (polite : ∀ u, u < t → Polite ((machine wrd data).run inputs u).wrd
      ((machine wrd data).run inputs u).monitor (inputs u).pulls)
    (calm : ∀ u, u < t → (inputs u).txInt = false → fell = true) :
    ∃ frames : List Frame,
      ((machine wrd data).run inputs t).monitor.transactions.map decode =
        frames.map Frame.bytes ∧
      (∀ f ∈ frames, f.Carries) ∧
      ((∀ f ∈ frames.head?, f.number = 1) ∧ frames.IsChain (Frame.Follows fell) ∧
        ∀ f ∈ frames, f.number = 0 → fell = true) ∧
      (fell = false → (∀ f ∈ frames, f.nack = false) →
        ∀ (i : ℕ) (f : Frame), frames[i]? = some f → f.number = min (i + 1) lutSize) ∧
      ∀ u, 1 ≤ u → u + 116 ≤ t →
        ((machine wrd data).run inputs u).monitor.transactions.length <
          ((machine wrd data).run inputs (u + 116)).monitor.transactions.length := by
  obtain ⟨frames, mode, stage, linked, -⟩ := linked_run wrd data inputs polite calm
  have joint := linked.joint
  have decoded : (frames.map Frame.bits).map decode = frames.map Frame.bytes := by
    rw [List.map_map]
    exact List.map_congr_left fun f _ => decode_flatMap_bits f.bytes
  refine ⟨frames, by rw [linked.transactions, decoded], joint.carries,
    ⟨joint.first, joint.chain, joint.fallen⟩, fun never acknowledged => ?_,
    fun u clocked within => ?_⟩
  · subst never
    exact number_of_acknowledged joint.chain joint.first acknowledged
  · exact ends_within (Nat.ne_of_gt clocked)
      (fun v before => polite v (before.trans_le within))
      fun v before => calm v (before.trans_le within)

end Main

/-- The writer at power-up, with all registers cleared. -/
def clearedWriter : Wdata where
  st := .st0
  cnt := 0
  byte := 0
  a := 0
  sdao := false
  sclo := false
  endOk := false
  ackOk := false

/-- A transmitter that acknowledges the first transaction. -/
def acknowledging (t : ℕ) : Input where
  pulls := t == 40 || t == 76 || t == 112
  txInt := true

/-- The first transaction is not that of entry 0. -/
theorem frames_on_bus_first :
    ∃ bytes, (((machine clearedWriter 0).run acknowledging 117).monitor.transactions.map
      decode).head? = some bytes ∧ bytes.map Byte.value = [0x72, 0x98, 0x03] := by
  obtain ⟨frames, decoded, carries, ⟨first, -⟩, -, ends⟩ :=
    frames_on_bus clearedWriter 0 acknowledging false (t := 117) (by decide +kernel)
      (fun u _ fallen => Bool.noConfusion fallen)
  have ended := ends 1 le_rfl le_rfl
  cases frames with
  | nil =>
      rw [List.map_eq_nil_iff.mp decoded] at ended
      exact absurd ended (Nat.not_lt_zero _)
  | cons f frames =>
      have one : f.number = 1 := first f rfl
      obtain ⟨word, possible, bytes⟩ := carries f List.mem_cons_self
      rw [one] at possible
      refine ⟨f.bytes, by rw [decoded]; rfl, ?_⟩
      rw [bytes, List.mem_singleton.mp possible]
      decide

end FPGame.Hdmi
