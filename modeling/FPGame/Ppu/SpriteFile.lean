import FPGame.Foundation.Memory

/-!
# `sprite_unit`, `sprite_file` and `sprite_tournament`

A sprite unit keeps the pattern row and the configuration of one sprite. The
units form a chain: a unit that is empty takes the sprite of its right
neighbour, and the last unit takes the sprite that is offered from outside.
`next_contents` says that the sprites of the chain, listed from unit 0, stay in
the order in which they were accepted.

The tournament answers for a column with the pixel of the first visible unit,
units of foreground priority before those of background priority before the
others. It does not see empty units, so it depends on the contents of the chain
only, while the sprites still move (`pixelOut_eq`).
-/

set_option autoImplicit false

namespace FPGame.Ppu

open FPGame.Foundation

/-- `stripped_sprite_conf_t` -/
structure StrippedConf where
  palette : BitVec 5
  x : BitVec 9
  w : BitVec 2
  xMirror : Bool
  fgPrio : Bool
  bgPrio : Bool
deriving DecidableEq, Repr

/-- The four rows of eight pixels that a sprite can have in a line. -/
abbrev PatBuf : Type := Fin 4 → BitVec 32

/-- `sprite_reg_t` -/
structure SpriteReg where
  pat : PatBuf
  conf : StrippedConf

/-- `sprite_pixel_t` -/
structure SpritePixel where
  palette : BitVec 5
  pixel : BitVec 4
  fgPrio : Bool
  bgPrio : Bool
  visible : Bool
deriving DecidableEq, Repr

/-! ## The pixel of a sprite -/

namespace SpriteReg

variable (s : SpriteReg) (col : BitVec 9)

def wOffset : BitVec 3 := s.conf.w.zeroExtend 3 + 1

def widthLimit : BitVec 10 :=
  s.conf.x.zeroExtend 10 + (s.wOffset ++ 0#3 : BitVec 6).zeroExtend 10

def patOffset : BitVec 5 := (col - s.conf.x).setWidth 5

def mirrorLimit : BitVec 6 := (s.wOffset ++ 0#3 : BitVec 6) - 1

def patIndex : BitVec 5 :=
  if s.conf.xMirror then (s.mirrorLimit - (s.patOffset col).zeroExtend 6).setWidth 5
  else s.patOffset col

/-- `out.pat[pat_index]` -/
def patPixel (index : BitVec 5) : BitVec 4 :=
  lane 4 (index.toNat % 8) (s.pat ⟨index.toNat / 8, by have := index.isLt; omega⟩)

/-- The pixel that a valid unit shows in a column. -/
def pixel : SpritePixel where
  palette := s.conf.palette
  pixel := s.patPixel (s.patIndex col)
  fgPrio := s.conf.fgPrio
  bgPrio := s.conf.bgPrio
  visible :=
    s.patPixel (s.patIndex col) != 0 && decide (s.conf.x ≤ col) &&
      decide (col.zeroExtend 10 < s.widthLimit)

end SpriteReg

/-! ## `sprite_unit` -/

/-- The registers of a unit. -/
structure SpriteUnit where
  out : SpriteReg
  outValid : Bool

namespace SpriteUnit

variable (u : SpriteUnit) (clear : Bool) (offer : SpriteReg) (inValid outAck : Bool)

def inAck : Bool := !(clear || outAck && u.outValid) && (inValid && !u.outValid)

/-- The registers after a clock edge. -/
def next : SpriteUnit :=
  if clear || outAck && u.outValid then { u with outValid := false }
  else if inValid && !u.outValid then { out := offer, outValid := true }
  else u

/-- The pixel of a unit; an empty one shows nothing. -/
def pixel (col : BitVec 9) : SpritePixel :=
  { u.out.pixel col with visible := (u.out.pixel col).visible && u.outValid }

end SpriteUnit

/-! ## `sprite_file` -/

namespace SpriteFile

/-- What the unit to the left of `chain` is offered: the sprite of the next
unit, or the one that is offered from outside. -/
def feed (offer : SpriteReg) (inValid : Bool) (chain : List SpriteUnit) : SpriteReg × Bool :=
  match chain with
  | [] => (offer, inValid)
  | u :: _ => (u.out, u.outValid)

/-- One clock of a chain, from its unit 0 on, which is acknowledged by `outAck`. -/
def next (clear : Bool) (offer : SpriteReg) (inValid : Bool) :
    Bool → List SpriteUnit → List SpriteUnit
  | _, [] => []
  | outAck, u :: rest =>
      u.next clear (feed offer inValid rest).1 (feed offer inValid rest).2 outAck ::
        next clear offer inValid (u.inAck clear (feed offer inValid rest).2 outAck) rest

/-- Whether the last unit takes what is offered. -/
def inAck (clear inValid : Bool) (offer : SpriteReg) : Bool → List SpriteUnit → Bool
  | outAck, [] => outAck
  | outAck, u :: rest =>
      inAck clear inValid offer (u.inAck clear (feed offer inValid rest).2 outAck) rest

/-- The sprites of a chain, listed from unit 0. -/
def contents (chain : List SpriteUnit) : List SpriteReg :=
  (chain.filter SpriteUnit.outValid).map SpriteUnit.out

variable {offer : SpriteReg} {inValid : Bool}

@[simp] theorem length_next (clear outAck : Bool) (chain : List SpriteUnit) :
    (next clear offer inValid outAck chain).length = chain.length := by
  induction chain generalizing outAck with
  | nil => rfl
  | cons u rest ih => rw [next, List.length_cons, List.length_cons, ih]

@[simp] theorem contents_nil : contents [] = [] := rfl

theorem contents_cons_valid {u : SpriteUnit} (rest : List SpriteUnit)
    (valid : u.outValid = true) : contents (u :: rest) = u.out :: contents rest := by
  rw [contents, List.filter_cons_of_pos valid]
  rfl

theorem contents_cons_empty {u : SpriteUnit} (rest : List SpriteUnit)
    (empty : u.outValid = false) : contents (u :: rest) = contents rest := by
  rw [contents, List.filter_cons_of_neg (by simp [empty])]
  rfl

/-- **The sprites of the chain stay in order.** What is accepted becomes the
last of them; a sprite that the left neighbour takes is no longer there. -/
theorem next_contents (chain : List SpriteUnit) :
    contents (next false offer inValid false chain) =
        contents chain ++ (if inAck false inValid offer false chain then [offer] else []) ∧
      ∀ u rest, chain = u :: rest → u.outValid = true →
        u.out :: contents (next false offer inValid true chain) =
          contents chain ++ (if inAck false inValid offer true chain then [offer] else []) := by
  induction chain with
  | nil => exact ⟨rfl, nofun⟩
  | cons u rest ih =>
      obtain ⟨still, taken⟩ := ih
      constructor
      · cases valid : u.outValid with
        | true =>
            -- a valid unit keeps its sprite
            have noAck : u.inAck false (feed offer inValid rest).2 false = false := by
              simp [SpriteUnit.inAck, valid]
            have same : u.next false (feed offer inValid rest).1 (feed offer inValid rest).2
                false = u := by
              simp [SpriteUnit.next, valid]
            rw [next, inAck, noAck, same, contents_cons_valid _ valid,
              contents_cons_valid _ valid, still, List.cons_append]
        | false =>
            rw [contents_cons_empty _ valid]
            cases rest with
            | nil =>
                cases inValid <;>
                  simp [next, inAck, feed, SpriteUnit.next, SpriteUnit.inAck, valid, contents]
            | cons v rest =>
                cases offered : v.outValid with
                | true =>
                    have ack : u.inAck false (feed offer inValid (v :: rest)).2 false = true := by
                      simp [SpriteUnit.inAck, feed, valid, offered]
                    have moved : u.next false (feed offer inValid (v :: rest)).1
                        (feed offer inValid (v :: rest)).2 false =
                          { out := v.out, outValid := true } := by
                      simp [SpriteUnit.next, feed, valid, offered]
                    rw [next, inAck, ack, moved, contents_cons_valid _ rfl]
                    exact taken v rest rfl offered
                | false =>
                    have noAck : u.inAck false (feed offer inValid (v :: rest)).2 false =
                        false := by
                      simp [SpriteUnit.inAck, feed, offered]
                    have same : u.next false (feed offer inValid (v :: rest)).1
                        (feed offer inValid (v :: rest)).2 false = u := by
                      simp [SpriteUnit.next, feed, offered]
                    rw [next, inAck, noAck, same, contents_cons_empty _ valid, still]
      · rintro _ _ ⟨⟩ valid
        have noAck : u.inAck false (feed offer inValid rest).2 true = false := by
          simp [SpriteUnit.inAck, valid]
        have emptied : u.next false (feed offer inValid rest).1 (feed offer inValid rest).2 true =
            { u with outValid := false } := by
          simp [SpriteUnit.next, valid]
        rw [next, inAck, noAck, emptied, contents_cons_empty _ rfl, contents_cons_valid _ valid,
          still, List.cons_append]

/-- Nothing is accepted when nothing is offered. -/
theorem inAck_quiet (clear : Bool) (chain : List SpriteUnit) :
    inAck clear false offer false chain = false := by
  cases chain with
  | nil => rfl
  | cons u rest =>
      suffices quiet : ∀ outAck u, inAck clear false offer outAck (u :: rest) = false from
        quiet false u
      induction rest with
      | nil =>
          intro outAck v
          simp [inAck, feed, SpriteUnit.inAck]
      | cons v rest ih =>
          intro outAck w
          rw [inAck]
          exact ih _ v

/-- `clear` empties the chain. -/
theorem contents_clear (outAck : Bool) (chain : List SpriteUnit) :
    contents (next true offer inValid outAck chain) = [] := by
  induction chain generalizing outAck with
  | nil => rfl
  | cons u rest ih =>
      rw [next, contents_cons_empty _ (by simp [SpriteUnit.next])]
      exact ih _

/-! ### Room for the next sprite -/

/-- How many units are behind the last empty one. -/
def crowded : List SpriteUnit → ℕ
  | [] => 0
  | u :: rest =>
      if rest.all SpriteUnit.outValid then rest.length + u.outValid.toNat else crowded rest

theorem crowded_le (chain : List SpriteUnit) : crowded chain ≤ chain.length := by
  induction chain with
  | nil => exact le_rfl
  | cons u rest ih =>
      have bit := u.outValid.toNat_le
      rw [crowded, List.length_cons]
      split_ifs <;> omega

/-- The last unit takes what is offered when it is empty. -/
theorem inAck_eq {outAck : Bool} {chain : List SpriteUnit} (some : chain ≠ []) :
    inAck false true offer outAck chain = decide (crowded chain = 0) := by
  induction chain generalizing outAck with
  | nil => exact absurd rfl some
  | cons u rest ih =>
      cases rest with
      | nil =>
          cases outAck <;> cases valid : u.outValid <;>
            simp [inAck, feed, SpriteUnit.inAck, crowded, valid]
      | cons v rest =>
          have here : crowded (u :: v :: rest) =
              if (v :: rest).all SpriteUnit.outValid then (v :: rest).length + u.outValid.toNat
              else crowded (v :: rest) := rfl
          rw [inAck, ih (List.cons_ne_nil v rest), here]
          by_cases full : (v :: rest).all SpriteUnit.outValid = true
          · have last : crowded (v :: rest) ≠ 0 := by
              rw [List.all_cons, Bool.and_eq_true] at full
              rw [crowded, if_pos full.2, full.1, Bool.toNat_true]
              exact Nat.succ_ne_zero _
            have more : (v :: rest).length + u.outValid.toNat ≠ 0 := by
              rw [List.length_cons]
              omega
            rw [if_pos full, decide_eq_false last, decide_eq_false more]
          · rw [if_neg full]

/-- Full units stay as they are, except for the one whose sprite is taken. -/
theorem next_full {chain : List SpriteUnit} (full : chain.all SpriteUnit.outValid = true)
    (outAck : Bool) :
    next false offer inValid outAck chain =
      match chain with
      | [] => []
      | u :: rest => (if outAck then { u with outValid := false } else u) :: rest := by
  induction chain generalizing outAck with
  | nil => rfl
  | cons u rest ih =>
      rw [List.all_cons, Bool.and_eq_true] at full
      have noAck : u.inAck false (feed offer inValid rest).2 outAck = false := by
        simp [SpriteUnit.inAck, full.1]
      have kept : next false offer inValid false rest = rest := by
        rw [ih full.2]
        cases rest <;> rfl
      rw [next, noAck, kept]
      cases outAck <;> simp [SpriteUnit.next, full.1]

/-- While the last unit is full and some unit is empty, the last empty unit
moves to the right. -/
theorem next_crowded {chain : List SpriteUnit} (outAck : Bool)
    (hole : chain.all SpriteUnit.outValid = false) (busy : crowded chain ≠ 0) :
    crowded (next false offer inValid outAck chain) + 1 = crowded chain ∧
      (next false offer inValid outAck chain).all SpriteUnit.outValid = false := by
  induction chain generalizing outAck with
  | nil => cases hole
  | cons u rest ih =>
      by_cases full : rest.all SpriteUnit.outValid = true
      · have empty : u.outValid = false := by
          rw [List.all_cons, full, Bool.and_true] at hole
          exact hole
        rw [crowded, if_pos full, empty, Bool.toNat_false, Nat.add_zero] at busy ⊢
        cases rest with
        | nil => exact absurd rfl busy
        | cons v rest =>
            have offered : v.outValid = true ∧ rest.all SpriteUnit.outValid = true := by
              rw [List.all_cons, Bool.and_eq_true] at full
              exact full
            have ack : u.inAck false (feed offer inValid (v :: rest)).2 outAck = true := by
              simp [SpriteUnit.inAck, feed, empty, offered.1]
            rw [next, ack, next_full full]
            simp only [if_true]
            constructor
            · rw [crowded, List.all_cons, Bool.false_and, if_neg Bool.false_ne_true, crowded,
                if_pos offered.2, Bool.toNat_false, Nat.add_zero, List.length_cons]
            · rw [List.all_cons, List.all_cons, Bool.false_and, Bool.and_false]
      · rw [crowded, if_neg full] at busy ⊢
        obtain ⟨moves, hole'⟩ := ih (u.inAck false (feed offer inValid rest).2 outAck)
          (Bool.not_eq_true _ ▸ full) busy
        constructor
        · rw [next, crowded, hole', if_neg Bool.false_ne_true]
          exact moves
        · rw [next, List.all_cons, hole', Bool.and_false]

/-- A chain with fewer sprites than units has an empty one. -/
theorem hole_of_contents {chain : List SpriteUnit}
    (fewer : (contents chain).length < chain.length) :
    chain.all SpriteUnit.outValid = false := by
  rw [Bool.eq_false_iff]
  intro full
  rw [contents, List.length_map, List.filter_eq_self.mpr (List.all_eq_true.mp full)] at fewer
  exact lt_irrefl _ fewer

end SpriteFile

/-! ## `sprite_tournament` -/

/-- The units among which the tournament selects. -/
def selMask (pixels : List SpritePixel) (p : SpritePixel) : Bool :=
  if pixels.any fun q => q.fgPrio && q.visible then p.fgPrio && p.visible
  else if pixels.any fun q => q.bgPrio && q.visible then p.bgPrio && p.visible
  else p.visible

/-- The loop over the mask runs down, so that the lowest index is selected. -/
def tournament (pixels : List SpritePixel) : BitVec 9 × BitVec 2 :=
  match pixels.find? (selMask pixels) with
  | some p => (p.palette ++ p.pixel, BitVec.ofBool p.fgPrio ++ BitVec.ofBool p.bgPrio)
  | none => (0, 0)

/-- What the sprite file answers for a column. -/
def pixelOut (chain : List SpriteUnit) (col : BitVec 9) : BitVec 9 × BitVec 2 :=
  tournament (chain.map (SpriteUnit.pixel · col))

/-- Invisible units do not take part in the tournament. -/
theorem tournament_filter (pixels : List SpritePixel) :
    tournament (pixels.filter SpritePixel.visible) = tournament pixels := by
  have seen : ∀ prio : SpritePixel → Bool,
      (pixels.filter SpritePixel.visible).any (fun q => prio q && q.visible) =
        pixels.any fun q => prio q && q.visible := by
    intro prio
    rw [List.any_filter]
    congr 1
    funext q
    cases q.visible <;> simp
  have mask : selMask (pixels.filter SpritePixel.visible) = selMask pixels := by
    funext p
    rw [selMask, selMask, seen SpritePixel.fgPrio, seen SpritePixel.bgPrio]
  have sees : ∀ p : SpritePixel, selMask pixels p = true → p.visible = true := by
    intro p selected
    simp only [selMask] at selected
    split_ifs at selected <;> simp_all
  have found : (pixels.filter SpritePixel.visible).find? (selMask pixels) =
      pixels.find? (selMask pixels) := by
    rw [List.find?_filter]
    congr 1
    funext p
    cases selected : selMask pixels p with
    | false => simp
    | true => simp [sees p selected]
  rw [tournament, tournament, mask, found]

/-- **The answer depends on the contents of the chain only.** -/
theorem pixelOut_eq (chain : List SpriteUnit) (col : BitVec 9) :
    pixelOut chain col = tournament ((SpriteFile.contents chain).map (SpriteReg.pixel · col)) := by
  rw [pixelOut, ← tournament_filter, ← tournament_filter (List.map _ (SpriteFile.contents chain))]
  congr 1
  induction chain with
  | nil => rfl
  | cons u rest ih =>
      cases valid : u.outValid with
      | true =>
          rw [SpriteFile.contents_cons_valid rest valid, List.map_cons, List.map_cons]
          have same : u.pixel col = u.out.pixel col := by
            simp [SpriteUnit.pixel, valid]
          rw [same, List.filter_cons, List.filter_cons, ih]
      | false =>
          rw [SpriteFile.contents_cons_empty rest valid, List.map_cons,
            List.filter_cons_of_neg (by simp [SpriteUnit.pixel, valid]), ih]

end FPGame.Ppu
