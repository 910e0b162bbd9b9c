import FPGame.Foundation.Machine

/-!
# A receiver of the I2S bus

The bus has a word select line and a data line, both read once in a bit clock. A
word begins with its most significant bit one bit clock after the word select
has changed, and lasts until the next word begins; its channel is the word
select's value after the change. The receiver does not know how long a word is.

`received` says what it decodes from a line whose word select changes at regular
distances.
-/

set_option autoImplicit false

namespace FPGame.Foundation.I2s

/-- The two lines in a bit clock. -/
structure Line where
  ws : Bool
  data : Bool
deriving DecidableEq, Repr

/-- A received word: its channel and its bits, the most significant first. -/
structure Word where
  channel : Bool
  bits : List Bool
deriving DecidableEq, Repr

/-- The receiver: the word select of the clock before, the bits of the word that
is being received, if one has begun, and the words before. -/
structure Receiver where
  lastWs : Option Bool
  bits : Option (List Bool)
  words : List Word
deriving DecidableEq, Repr

/-- The bits with the one of this clock. -/
def Receiver.extended (s : Receiver) (x : Line) : Option (List Bool) :=
  s.bits.map fun bits => bits ++ [x.data]

/-- A change of the word select comes with the last bit of a word. -/
def Receiver.next (s : Receiver) (x : Line) : Receiver :=
  match s.lastWs with
  | none => { s with lastWs := some x.ws }
  | some ws =>
      if x.ws = ws then { lastWs := some ws, bits := s.extended x, words := s.words }
      else
        { lastWs := some x.ws
          bits := some []
          words := s.words ++ ((s.extended x).map fun bits => ⟨ws, bits⟩).toList }

def receiver : Machine Receiver Line where
  reset := { lastWs := none, bits := none, words := [] }
  next := Receiver.next

section Clock

variable {s : Receiver} {x : Line} {ws : Bool}

/-- A bit of a word that goes on. -/
theorem receiver_next_same (before : s.lastWs = some ws) (same : x.ws = ws) :
    receiver.next s x = { lastWs := some ws, bits := s.extended x, words := s.words } := by
  show (match s.lastWs with | none => _ | some ws => _) = _
  rw [before]
  exact if_pos same

/-- The last bit of a word. -/
theorem receiver_next_change (before : s.lastWs = some ws) (changes : x.ws ≠ ws) :
    receiver.next s x =
      { lastWs := some x.ws
        bits := some []
        words := s.words ++ ((s.extended x).map fun bits => ⟨ws, bits⟩).toList } := by
  show (match s.lastWs with | none => _ | some ws => _) = _
  rw [before]
  exact if_neg changes

end Clock

/-! ## Bits and words -/

/-- The bits of a word, the most significant first. -/
def msbFirst {width : ℕ} (word : BitVec width) : List Bool :=
  (List.range width).map word.getMsbD

@[simp] theorem length_msbFirst {width : ℕ} (word : BitVec width) :
    (msbFirst word).length = width := by
  rw [msbFirst, List.length_map, List.length_range]

/-- The bits determine the word. -/
theorem ofBoolListBE_msbFirst {width : ℕ} (word : BitVec width) :
    (BitVec.ofBoolListBE (msbFirst word)).setWidth width = word := by
  ext k within
  have index : width - 1 - k < width := by omega
  rw [BitVec.getElem_setWidth, BitVec.getLsbD_ofBoolListBE, length_msbFirst, decide_eq_true within,
    Bool.true_and, List.getD_eq_getElem?_getD, msbFirst, List.getElem?_map,
    List.getElem?_range index, Option.map_some, Option.getD_some, BitVec.getMsbD,
    decide_eq_true index, Bool.true_and, BitVec.getLsbD_eq_getElem (by omega)]
  congr 1
  omega

/-! ## A line with words of one length -/

/-- The word select changes in the clocks `start`, `start + width`, and so on. -/
def Framed (line : ℕ → Line) (start width : ℕ) : Prop :=
  ∀ t, (line (t + 1)).ws ≠ (line t).ws ↔ start ≤ t + 1 ∧ (t + 1 - start) % width = 0

/-- Word `n` of such a line. -/
def wordAt (line : ℕ → Line) (start width n : ℕ) : Word where
  channel := (line (start + width * n)).ws
  bits := (List.range width).map fun k => (line (start + 1 + width * n + k)).data

section Framed

variable {line : ℕ → Line} {start width : ℕ}

/-- The word select keeps its value during a word, but for its last bit. -/
theorem Framed.ws_eq (framed : Framed line start width) (n : ℕ) {k : ℕ} (within : k < width) :
    (line (start + width * n + k)).ws = (line (start + width * n)).ws := by
  induction k with
  | zero => rfl
  | succ k ih =>
      rw [← ih (by omega)]
      by_contra changes
      have multiple := ((framed (start + width * n + k)).mp changes).2
      rw [show start + width * n + k + 1 - start = k + 1 + width * n by omega,
        Nat.add_mul_mod_self_left, Nat.mod_eq_of_lt within] at multiple
      exact Nat.succ_ne_zero k multiple

/-- Before the first change nothing is received. -/
theorem Framed.waiting (framed : Framed line start width) {t : ℕ} (early : t < start) :
    receiver.run line (t + 1) = { lastWs := some (line t).ws, bits := none, words := [] } := by
  induction t with
  | zero => rfl
  | succ t ih =>
      have same : (line (t + 1)).ws = (line t).ws := by
        by_contra changes
        have late := ((framed t).mp changes).1
        omega
      rw [Machine.run_succ, ih (by omega), receiver_next_same rfl same, same]
      rfl

/-- The bits of a word are collected one after the other. -/
theorem Framed.collecting (framed : Framed line start width) {n : ℕ} {words : List Word}
    (begins : receiver.run line (start + 1 + width * n) =
      { lastWs := some (line (start + width * n)).ws, bits := some [], words := words })
    {k : ℕ} (within : k < width) :
    receiver.run line (start + 1 + width * n + k) =
      { lastWs := some (line (start + width * n)).ws
        bits := some ((List.range k).map fun j => (line (start + 1 + width * n + j)).data)
        words := words } := by
  induction k with
  | zero => exact begins
  | succ k ih =>
      have same := framed.ws_eq n within
      rw [show start + width * n + (k + 1) = start + 1 + width * n + k by omega] at same
      rw [← Nat.add_assoc, Machine.run_succ, ih (by omega), receiver_next_same rfl same,
        Receiver.extended, List.range_succ, List.map_append]
      rfl

/-- **The end of a word** and the beginning of the next one. -/
theorem Framed.ends (framed : Framed line start width) (positive : 0 < width) {n : ℕ}
    {words : List Word}
    (begins : receiver.run line (start + 1 + width * n) =
      { lastWs := some (line (start + width * n)).ws, bits := some [], words := words }) :
    receiver.run line (start + 1 + width * (n + 1)) =
      { lastWs := some (line (start + width * (n + 1))).ws
        bits := some []
        words := words ++ [wordAt line start width n] } := by
  obtain ⟨k, rfl⟩ : ∃ k, width = k + 1 := ⟨width - 1, by omega⟩
  have last : start + (k + 1) * (n + 1) = start + 1 + (k + 1) * n + k := by
    rw [Nat.mul_succ]
    omega
  have changes : (line (start + 1 + (k + 1) * n + k)).ws ≠ (line (start + (k + 1) * n)).ws := by
    rw [← framed.ws_eq n (Nat.lt_succ_self k), ← last,
      show start + (k + 1) * (n + 1) = start + (k + 1) * n + k + 1 by omega]
    refine (framed _).mpr ⟨by omega, ?_⟩
    rw [show start + (k + 1) * n + k + 1 - start = (k + 1) * (n + 1) by rw [Nat.mul_succ]; omega]
    exact Nat.mul_mod_right _ _
  rw [show start + 1 + (k + 1) * (n + 1) = start + 1 + (k + 1) * n + k + 1 by omega,
    Machine.run_succ, framed.collecting begins (Nat.lt_succ_self k), last,
    receiver_next_change rfl changes, Receiver.extended, wordAt, List.range_succ, List.map_append]
  rfl

/-- **What is received** from a line with words of one length: the words that are
complete, and the bits so far of the one that is not. -/
theorem received (framed : Framed line start width) (first : 0 < start) (n : ℕ) {k : ℕ}
    (within : k < width) :
    receiver.run line (start + 1 + width * n + k) =
      { lastWs := some (line (start + width * n)).ws
        bits := some ((List.range k).map fun j => (line (start + 1 + width * n + j)).data)
        words := (List.range n).map (wordAt line start width) } := by
  have begins : receiver.run line (start + 1 + width * n) =
      { lastWs := some (line (start + width * n)).ws
        bits := some []
        words := (List.range n).map (wordAt line start width) } := by
    induction n with
    | zero =>
        obtain ⟨t, rfl⟩ : ∃ t, start = t + 1 := ⟨start - 1, by omega⟩
        have changes : (line (t + 1)).ws ≠ (line t).ws :=
          (framed t).mpr ⟨le_rfl, by rw [Nat.sub_self, Nat.zero_mod]⟩
        rw [Nat.mul_zero, Nat.add_zero, Nat.add_zero, Machine.run_succ,
          framed.waiting (Nat.lt_succ_self t), receiver_next_change rfl changes]
        rfl
    | succ n ih =>
        rw [framed.ends (by omega) ih, List.range_succ, List.map_append]
        rfl
  exact framed.collecting begins within

end Framed

end FPGame.Foundation.I2s
