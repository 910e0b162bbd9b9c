import Mathlib.Data.List.TakeWhile
import Mathlib.Tactic

/-!
# Formatted input

`fscanf` for formats of white space, ordinary characters and `%<width>X`, on a
stream that is given as the characters that are left of it. A conversion skips
white space and takes the longest item that could begin a number, with its sign
and its `0x`; what it takes is lost if the item is no number.

A text of hexadecimal digits of exactly the width is converted to its number
(`scanFrom_hex`), so that a text of lines of digits is read back in pieces.
-/

set_option autoImplicit false

namespace FPGame.Foundation

/-- What the C library does with the file that a function opens: its contents or
why it cannot be opened, the error text after a failed read, and the error on
closing. -/
structure FileCalls where
  fopen : Except String (List Char)
  readError : String
  fclose : Except String Unit

/-- `EOF` -/
def eof : ℤ := -1

/-! ## Characters -/

/-- `isspace` -/
def isSpace (c : Char) : Bool := decide (c.toNat = 32 ∨ 9 ≤ c.toNat ∧ c.toNat ≤ 13)

/-- The value of a hexadecimal digit. -/
def hexValue (c : Char) : Option ℕ :=
  if 48 ≤ c.toNat ∧ c.toNat ≤ 57 then some (c.toNat - 48)
  else if 65 ≤ c.toNat ∧ c.toNat ≤ 70 then some (c.toNat - 55)
  else if 97 ≤ c.toNat ∧ c.toNat ≤ 102 then some (c.toNat - 87)
  else none

theorem hexValue_lt {c : Char} {d : ℕ} (digit : hexValue c = some d) : d < 16 := by
  rw [hexValue] at digit
  split_ifs at digit <;> (obtain rfl := Option.some.inj digit; omega)

theorem isSpace_of_hexValue {c : Char} {d : ℕ} (digit : hexValue c = some d) :
    isSpace c = false := by
  rw [hexValue] at digit
  rw [isSpace, decide_eq_false_iff_not]
  split_ifs at digit <;> omega

def skipSpace (input : List Char) : List Char := input.dropWhile isSpace

theorem skipSpace_append {gap input : List Char} (spaces : ∀ c ∈ gap, isSpace c = true) :
    skipSpace (gap ++ input) = skipSpace input :=
  List.dropWhile_append_of_pos spaces

/-! ## Numbers -/

/-- At most `width` digits. -/
def hexRun : ℕ → List Char → List ℕ × List Char
  | 0, input => ([], input)
  | _ + 1, [] => ([], [])
  | width + 1, c :: input =>
      match hexValue c with
      | some d => (d :: (hexRun width input).1, (hexRun width input).2)
      | none => ([], c :: input)

/-- Digits as a number, the most significant one first. -/
def hexNumber (digits : List ℕ) : ℕ := digits.foldl (fun n d => 16 * n + d) 0

theorem hexNumber_lt {digits : List ℕ} (small : ∀ d ∈ digits, d < 16) :
    hexNumber digits < 16 ^ digits.length := by
  have bound : ∀ n, digits.foldl (fun n d => 16 * n + d) n < (n + 1) * 16 ^ digits.length := by
    induction digits with
    | nil =>
        intro n
        rw [List.foldl_nil, List.length_nil]
        omega
    | cons d digits ih =>
        intro n
        obtain ⟨first, others⟩ := List.forall_mem_cons.mp small
        have later := ih others (16 * n + d)
        have digit : (16 * n + d + 1) * 16 ^ digits.length ≤ (n + 1) * 16 * 16 ^ digits.length :=
          Nat.mul_le_mul_right _ (by omega)
        rw [List.foldl_cons, List.length_cons, Nat.pow_succ', ← Nat.mul_assoc]
        omega
  have whole := bound 0
  rwa [Nat.zero_add, Nat.one_mul] at whole

/-- The sign of an item: whether it is negative, and the width and the input that
are left. -/
def takeSign (width : ℕ) (input : List Char) : Bool × ℕ × List Char :=
  if input.head? = some '-' then (true, width - 1, input.tail)
  else if input.head? = some '+' then (false, width - 1, input.tail)
  else (false, width, input)

/-- The `0x` of an item. -/
def takeBase (width : ℕ) (input : List Char) : ℕ × List Char :=
  if 2 ≤ width ∧ input.head? = some '0' ∧
      (input.tail.head? = some 'x' ∨ input.tail.head? = some 'X') then
    (width - 2, input.tail.tail)
  else (width, input)

/-- `%<width>X`, at the first character that is not white space. -/
def convertHex (width : ℕ) (input : List Char) : Option (BitVec 32) × List Char :=
  let (negative, width, input) := takeSign width input
  let (width, input) := takeBase width input
  let (digits, rest) := hexRun width input
  if digits = [] then (none, rest)
  else
    let value := BitVec.ofNat 32 (hexNumber digits)
    (some (if negative then -value else value), rest)

/-! ## `fscanf` -/

/-- A directive of a format. -/
inductive Directive where
  | space
  | literal (c : Char)
  | hex (width : ℕ)
deriving DecidableEq, Repr

/-- What `fscanf` returns, what it assigns, and what is left of the stream. -/
structure Scanned where
  result : ℤ
  values : List (BitVec 32)
  rest : List Char
deriving DecidableEq, Repr

/-- The stream has ended inside a directive. -/
def inputFailure (values : List (BitVec 32)) : Scanned where
  result := if values = [] then eof else values.length
  values := values
  rest := []

/-- The rest of a format, with what has been converted. -/
def scanFrom : List Directive → List (BitVec 32) → List Char → Scanned
  | [], values, input => ⟨values.length, values, input⟩
  | .space :: format, values, input => scanFrom format values (skipSpace input)
  | .literal c :: format, values, input =>
      match input with
      | [] => inputFailure values
      | d :: rest =>
          if d = c then scanFrom format values rest else ⟨values.length, values, d :: rest⟩
  | .hex width :: format, values, input =>
      match skipSpace input with
      | [] => inputFailure values
      | c :: rest =>
          match convertHex width (c :: rest) with
          | (some value, rest) => scanFrom format (values ++ [value]) rest
          | (none, rest) => ⟨values.length, values, rest⟩

/-- `fscanf` -/
def fscanf (format : List Directive) (input : List Char) : Scanned := scanFrom format [] input

section Scan

variable {format : List Directive} {values : List (BitVec 32)} {input rest : List Char}

theorem scanFrom_literal (c : Char) :
    scanFrom (.literal c :: format) values (c :: input) = scanFrom format values input := by
  rw [scanFrom, if_pos rfl]

/-! ## Texts of digits -/

/-- A text of hexadecimal digits. -/
def HexText (digits : List ℕ) (text : List Char) : Prop := text.map hexValue = digits.map some

namespace HexText

variable {digits : List ℕ} {text : List Char}

theorem length_eq (hex : HexText digits text) : text.length = digits.length := by
  have lengths := congrArg List.length hex
  rwa [List.length_map, List.length_map] at lengths

theorem take (hex : HexText digits text) (n : ℕ) : HexText (digits.take n) (text.take n) := by
  rw [HexText, List.map_take, List.map_take, hex]

theorem drop (hex : HexText digits text) (n : ℕ) : HexText (digits.drop n) (text.drop n) := by
  rw [HexText, List.map_drop, List.map_drop, hex]

theorem lt (hex : HexText digits text) {d : ℕ} (member : d ∈ digits) : d < 16 := by
  have image : some d ∈ text.map hexValue := by
    rw [hex]
    exact List.mem_map_of_mem member
  obtain ⟨c, -, digit⟩ := List.mem_map.mp image
  exact hexValue_lt digit

/-- A character that begins a text of digits is one. -/
theorem head (hex : HexText digits text) (some : digits ≠ []) :
    ∃ c text' d, text = c :: text' ∧ hexValue c = Option.some d := by
  cases text with
  | nil =>
      have none := hex.length_eq
      exact absurd (List.length_eq_zero_iff.mp none.symm) some
  | cons c text =>
      cases digits with
      | nil => exact absurd rfl some
      | cons d digits => exact ⟨c, text, d, rfl, (List.cons.inj hex).1⟩

theorem hexRun_eq (hex : HexText digits text) :
    hexRun text.length (text ++ rest) = (digits, rest) := by
  induction text generalizing digits with
  | nil =>
      obtain rfl : digits = [] := List.length_eq_zero_iff.mp hex.length_eq.symm
      rfl
  | cons c text ih =>
      cases digits with
      | nil => cases hex
      | cons d digits =>
          obtain ⟨first, others⟩ := List.cons.inj hex
          have following : HexText digits text := others
          rw [List.length_cons, List.cons_append, hexRun, first, ih following]

/-- **A text of exactly the width is its number.** -/
theorem convertHex_eq (hex : HexText digits text) (some : digits ≠ []) :
    convertHex text.length (text ++ rest) =
      (Option.some (BitVec.ofNat 32 (hexNumber digits)), rest) := by
  obtain ⟨c, text', d, rfl, digit⟩ := hex.head some
  have other : ∀ mark, hexValue mark = none → c ≠ mark := by
    rintro mark none rfl
    rw [none] at digit
    cases digit
  have minus : c ≠ '-' := other _ (by decide)
  have plus : c ≠ '+' := other _ (by decide)
  have unsigned : takeSign (c :: text').length (c :: text' ++ rest) =
      (false, (c :: text').length, c :: text' ++ rest) := by
    rw [takeSign, List.cons_append, List.head?_cons, if_neg fun same => minus (Option.some.inj same),
      if_neg fun same => plus (Option.some.inj same)]
  have plain : takeBase (c :: text').length (c :: text' ++ rest) =
      ((c :: text').length, c :: text' ++ rest) := by
    rw [takeBase, if_neg]
    rintro ⟨two, -, marked⟩
    cases text' with
    | nil =>
        rw [List.length_singleton] at two
        omega
    | cons x text' =>
        have second : hexValue x ≠ none := by
          cases digits with
          | nil => cases hex
          | cons d digits =>
              cases digits with
              | nil => cases (List.cons.inj hex).2
              | cons e digits =>
                  rw [(List.cons.inj (List.cons.inj hex).2).1]
                  exact Option.some_ne_none e
        rcases marked with small | large
        · obtain rfl : x = 'x' := Option.some.inj small
          exact second (by decide)
        · obtain rfl : x = 'X' := Option.some.inj large
          exact second (by decide)
  simp only [convertHex, unsigned, plain, hex.hexRun_eq, if_neg some, Bool.false_eq_true, if_false]

end HexText

/-- **A conversion of digits.** -/
theorem scanFrom_hex {digits : List ℕ} {text : List Char} {width : ℕ} (hex : HexText digits text)
    (size : digits.length = width) (positive : 0 < width) :
    scanFrom (.hex width :: format) values (text ++ rest) =
      scanFrom format (values ++ [BitVec.ofNat 32 (hexNumber digits)]) rest := by
  have some : digits ≠ [] := by
    rintro rfl
    rw [List.length_nil] at size
    omega
  have converts : convertHex text.length (text ++ rest) =
      (Option.some (BitVec.ofNat 32 (hexNumber digits)), rest) := hex.convertHex_eq some
  have length : text.length = width := hex.length_eq.trans size
  rw [length] at converts
  obtain ⟨c, text', d, rfl, digit⟩ := hex.head some
  have kept : skipSpace (c :: text' ++ rest) = c :: (text' ++ rest) := by
    rw [skipSpace, List.cons_append, List.dropWhile_cons, isSpace_of_hexValue digit]
    rfl
  rw [List.cons_append] at converts
  rw [scanFrom, kept]
  simp only [converts]

/-! ## Lines of digits -/

/-- A text of lines, each of `size` digits; white space follows each of them, or
nothing does. -/
inductive HexLines (size : ℕ) : List (List ℕ) → List Char → Prop where
  | nil : HexLines size [] []
  | cons {digits : List ℕ} {lines : List (List ℕ)} {line gap text : List Char}
      (length : digits.length = size) (hex : HexText digits line)
      (spaces : ∀ c ∈ gap, isSpace c = true) (rest : HexLines size lines text) :
      HexLines size (digits :: lines) (line ++ (gap ++ text))

/-- The same line several times. -/
theorem HexLines.replicate {size : ℕ} {digits : List ℕ} {line gap : List Char}
    (length : digits.length = size) (hex : HexText digits line)
    (spaces : ∀ c ∈ gap, isSpace c = true) (n : ℕ) :
    HexLines size (List.replicate n digits) (List.replicate n (line ++ gap)).flatten := by
  induction n with
  | zero => exact .nil
  | succ n ih =>
      rw [List.replicate_succ, List.replicate_succ, List.flatten_cons, List.append_assoc]
      exact .cons length hex spaces ih

/-- Each line has its digits. -/
theorem HexLines.line {size : ℕ} {lines : List (List ℕ)} {text : List Char}
    (file : HexLines size lines text) {digits : List ℕ} (member : digits ∈ lines) :
    digits.length = size ∧ ∀ d ∈ digits, d < 16 := by
  induction file with
  | nil => exact absurd member List.not_mem_nil
  | cons length hex spaces rest ih =>
      rcases List.mem_cons.mp member with rfl | later
      · exact ⟨length, fun d => hex.lt⟩
      · exact ih later

/-- Lines begin with a digit. -/
theorem HexLines.skipSpace_eq {size : ℕ} {lines : List (List ℕ)} {text : List Char}
    (file : HexLines size lines text) (positive : 0 < size) : skipSpace text = text := by
  cases file with
  | nil => rfl
  | @cons digits lines line gap text length hex spaces rest =>
      have some : digits ≠ [] := by
        rintro rfl
        rw [List.length_nil] at length
        omega
      obtain ⟨c, line', d, rfl, digit⟩ := hex.head some
      rw [skipSpace, List.cons_append, List.dropWhile_cons, isSpace_of_hexValue digit]
      rfl

end Scan

end FPGame.Foundation
