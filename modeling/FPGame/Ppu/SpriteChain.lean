import FPGame.Foundation.Machine
import FPGame.Ppu.SpriteFile

/-!
# The chain of sprite units

The units of `sprite_file` as a machine of their own, with a `clear` and an
offer in every clock. The chain is a queue with a place for every unit: it holds
the sprites that it has acknowledged since the last clear (`contents_eq`), and
while a place is free it acknowledges an offer as soon as the last empty unit
has moved to its end (`ack_of_quiet`).
-/

set_option autoImplicit false

namespace FPGame.Ppu

open FPGame.Foundation

def SpriteUnit.reset : SpriteUnit where
  out := { pat := fun _ => 0, conf := ⟨0, 0, 0, false, false, false⟩ }
  outValid := false

namespace SpriteFile

/-- The inputs of a clock, except for the column. -/
structure Input where
  clear : Bool
  offer : SpriteReg
  inValid : Bool

/-- A chain of `SPRITES` units. Unit 0 is never acknowledged. -/
def machine (sprites : ℕ) : Machine (List SpriteUnit) Input where
  reset := List.replicate sprites SpriteUnit.reset
  next chain x := next x.clear x.offer x.inValid false chain

/-- `in_ack` -/
def ack (chain : List SpriteUnit) (x : Input) : Bool :=
  inAck x.clear x.inValid x.offer false chain

/-- The sprite that a clock adds to the chain. -/
def acknowledges (chain : List SpriteUnit) (x : Input) : Option SpriteReg :=
  if ack chain x then some x.offer else none

/-- The sprites acknowledged since the last clear, the earliest first. -/
def acknowledged (sprites : ℕ) (x : ℕ → Input) : ℕ → List SpriteReg :=
  takenSince (fun u => (x u).clear) fun u => acknowledges ((machine sprites).run x u) (x u)

/-- A sprite is offered from `t` on until it is acknowledged. -/
def OfferedFrom (sprites : ℕ) (x : ℕ → Input) (sprite : SpriteReg) (t : ℕ) : Prop :=
  ∀ u, t ≤ u → (∀ v, t ≤ v → v < u → ack ((machine sprites).run x v) (x v) = false) →
    (x u).inValid = true ∧ (x u).offer = sprite

/-! ## One clock -/

section Clock

variable {offer : SpriteReg} {inValid : Bool} {chain : List SpriteUnit} {x : Input}

/-- Nothing is acknowledged in the clock of a clear. -/
theorem inAck_clear {outAck : Bool} (some : chain ≠ []) :
    inAck true inValid offer outAck chain = false := by
  induction chain generalizing outAck with
  | nil => exact absurd rfl some
  | cons u rest ih =>
      cases rest with
      | nil => simp [inAck, SpriteUnit.inAck]
      | cons v rest => exact ih (List.cons_ne_nil v rest)

/-- An offer has to wait while the last unit is full. -/
theorem ack_crowded (some : chain ≠ []) (busy : crowded chain ≠ 0) : ack chain x = false := by
  obtain ⟨clear, offer, inValid⟩ := x
  cases clear with
  | true => exact inAck_clear some
  | false =>
      cases inValid with
      | true => exact (inAck_eq some).trans (decide_eq_false busy)
      | false =>
          -- without an offer the data on the port do not matter
          have silent : ∀ outAck : Bool, ∀ chain : List SpriteUnit, chain ≠ [] →
              inAck false false offer outAck chain = false := by
            intro outAck chain some
            induction chain generalizing outAck with
            | nil => exact absurd rfl some
            | cons u rest ih =>
                cases rest with
                | nil => simp [inAck, feed, SpriteUnit.inAck]
                | cons v rest => exact ih _ (List.cons_ne_nil v rest)
          exact silent false chain some

/-- A chain that holds nothing takes what it is offered. -/
theorem crowded_of_contents (empty : contents chain = []) : crowded chain = 0 := by
  induction chain with
  | nil => rfl
  | cons u rest ih =>
      have here : u.outValid = false := by
        by_contra valid
        rw [contents_cons_valid rest (Bool.not_eq_false _ ▸ valid)] at empty
        exact List.cons_ne_nil _ _ empty
      rw [contents_cons_empty rest here] at empty
      rw [crowded, here, ih empty, Bool.toNat_false, Nat.add_zero]
      cases rest with
      | nil => rfl
      | cons v rest =>
          have there : v.outValid = false := by
            by_contra valid
            rw [contents_cons_valid rest (Bool.not_eq_false _ ▸ valid)] at empty
            exact List.cons_ne_nil _ _ empty
          rw [List.all_cons, there, Bool.false_and, if_neg Bool.false_ne_true]

/-- The last of the empty units is among the units. -/
theorem crowded_lt (hole : chain.all SpriteUnit.outValid = false) :
    crowded chain < chain.length := by
  induction chain with
  | nil => cases hole
  | cons u rest ih =>
      rw [crowded, List.length_cons]
      split_ifs with full
      · have empty : u.outValid = false := by
          rw [List.all_cons, full, Bool.and_true] at hole
          exact hole
        rw [empty, Bool.toNat_false]
        exact Nat.lt_succ_self _
      · exact Nat.lt_succ_of_lt (ih (Bool.not_eq_true _ ▸ full))

end Clock

/-! ## Runs of the chain -/

section Runs

variable {sprites : ℕ} {x : ℕ → Input} {t : ℕ} {sprite : SpriteReg}

theorem length_run : ((machine sprites).run x t).length = sprites := by
  induction t with
  | zero => exact List.length_replicate
  | succ t ih => exact (length_next _ _ _).trans ih

theorem run_succ :
    (machine sprites).run x (t + 1) =
      next (x t).clear (x t).offer (x t).inValid false ((machine sprites).run x t) := rfl

theorem run_ne_nil (some : 0 < sprites) : (machine sprites).run x t ≠ [] :=
  List.ne_nil_of_length_pos (length_run.symm ▸ some)

theorem contents_reset : contents (machine sprites).reset = [] := by
  have empty : ∀ n, contents (List.replicate n SpriteUnit.reset) = [] := by
    intro n
    induction n with
    | zero => rfl
    | succ n ih =>
        rw [List.replicate_succ, contents_cons_empty _ rfl]
        exact ih
  exact empty sprites

/-- **The chain holds what it has acknowledged** since the last clear, in order. -/
theorem contents_eq : contents ((machine sprites).run x t) = acknowledged sprites x t := by
  refine Machine.run_eq_takenSince (fun _ y => y.clear) acknowledges contents_reset
    (fun chain y cleared => ?_) (fun chain y kept => ?_) x t
  · show contents (next y.clear y.offer y.inValid false chain) = []
    rw [cleared]
    exact contents_clear _ _
  · show contents (next y.clear y.offer y.inValid false chain) = _
    rw [acknowledges, ack, kept, (next_contents chain).1]
    split_ifs <;> rfl

/-- There are no more sprites than units. -/
theorem length_acknowledged : (acknowledged sprites x t).length ≤ sprites := by
  rw [← contents_eq, contents, List.length_map]
  exact (List.length_filter_le _ _).trans length_run.le

/-- **Progress.** Without a clear, an offer is acknowledged when the last empty
unit has reached the end of the chain. -/
theorem ack_of_quiet (some : 0 < sprites) (n : ℕ)
    (hole : ((machine sprites).run x t).all SpriteUnit.outValid = false)
    (distance : crowded ((machine sprites).run x t) = n)
    (quiet : ∀ u, t ≤ u → u ≤ t + n → (x u).clear = false)
    (offered : (∀ v, t ≤ v → v < t + n → ack ((machine sprites).run x v) (x v) = false) →
      (x (t + n)).inValid = true) :
    ack ((machine sprites).run x (t + n)) (x (t + n)) = true := by
  induction n generalizing t with
  | zero =>
      have valid := offered fun v after before => absurd before (by omega)
      rw [Nat.add_zero] at valid ⊢
      rw [ack, quiet t le_rfl le_rfl, valid, inAck_eq (run_ne_nil some), distance]
      rfl
  | succ n ih =>
      have busy : crowded ((machine sprites).run x t) ≠ 0 := by
        rw [distance]
        exact Nat.succ_ne_zero n
      have step : (machine sprites).run x (t + 1) =
          next false (x t).offer (x t).inValid false ((machine sprites).run x t) := by
        rw [run_succ, quiet t le_rfl (by omega)]
      have moves : crowded ((machine sprites).run x (t + 1)) + 1 =
            crowded ((machine sprites).run x t) ∧
          ((machine sprites).run x (t + 1)).all SpriteUnit.outValid = false := by
        rw [step]
        exact next_crowded false hole busy
      rw [distance] at moves
      have later : t + (n + 1) = t + 1 + n := by omega
      rw [later] at offered ⊢
      refine ih moves.2 (Nat.succ_injective moves.1) (fun u after before => ?_) fun none => ?_
      · exact quiet u (by omega) (by omega)
      · refine offered fun v after before => ?_
        rcases Nat.eq_or_lt_of_le after with rfl | after
        · exact ack_crowded (run_ne_nil some) busy
        · exact none v after before

/-- A cleared chain stays empty until the next clock without a clear. -/
theorem contents_cleared {c v : ℕ} (cleared : (x c).clear = true) (later : c < v)
    (still : ∀ u, c < u → u < v → (x u).clear = true) :
    contents ((machine sprites).run x v) = [] := by
  obtain ⟨w, rfl⟩ : ∃ w, v = w + 1 := ⟨v - 1, by omega⟩
  have last : (x w).clear = true := by
    rcases Nat.eq_or_lt_of_le (Nat.le_of_lt_succ later) with rfl | after
    · exact cleared
    · exact still w after (Nat.lt_succ_self w)
  rw [run_succ, last]
  exact contents_clear _ _

/-- An offer is acknowledged by a chain that has a free place, unless it is
cleared over and over. -/
theorem ack_of_fair (some : 0 < sprites)
    (room : (contents ((machine sprites).run x t)).length < sprites)
    (valid : (∀ v, t ≤ v → ack ((machine sprites).run x v) (x v) = false) →
      ∀ u, t ≤ u → (x u).inValid = true)
    (fair : ∀ u, ∃ v, u ≤ v ∧ (x v).clear = false) :
    ∃ u, t ≤ u ∧ ack ((machine sprites).run x u) (x u) = true := by
  by_contra never
  have silent : ∀ v, t ≤ v → ack ((machine sprites).run x v) (x v) = false := by
    intro v after
    by_contra ack
    exact never ⟨v, after, Bool.not_eq_false _ ▸ ack⟩
  have offered := valid silent
  have hole := hole_of_contents (by rw [length_run]; exact room)
  obtain ⟨n, distance⟩ : ∃ n, crowded ((machine sprites).run x t) = n := ⟨_, rfl⟩
  by_cases quiet : ∀ u, t ≤ u → u ≤ t + n → (x u).clear = false
  · have ack := ack_of_quiet some n hole distance quiet fun _ => offered _ (Nat.le_add_right t n)
    rw [silent _ (Nat.le_add_right t n)] at ack
    exact Bool.false_ne_true ack
  · -- the chain is cleared, and takes the offer in the first clock without a clear
    push Not at quiet
    obtain ⟨c, after, -, cleared⟩ := quiet
    have ends := fair (c + 1)
    obtain ⟨later, free⟩ := Nat.find_spec ends
    have empty : contents ((machine sprites).run x (Nat.find ends)) = [] :=
      contents_cleared (Bool.not_eq_false _ ▸ cleared) later fun u past before => by
        by_contra low
        exact Nat.find_min ends before ⟨past, Bool.not_eq_true _ ▸ low⟩
    have ack : ack ((machine sprites).run x (Nat.find ends)) (x (Nat.find ends)) = true := by
      rw [SpriteFile.ack, free, offered _ (by omega), inAck_eq (run_ne_nil some),
        crowded_of_contents empty]
      rfl
    rw [silent _ (by omega)] at ack
    exact Bool.false_ne_true ack

/-- **The chain keeps the order of the sprites.** For every number of units and
every timing of offers and clears, the valid units listed from unit 0 hold the
sprites acknowledged since the last clear, which are no more than there are
units; none is acknowledged in the clock of a clear. A sprite that is offered to
a chain with a free unit is acknowledged within as many clocks as there are
units if none of them clears the chain, and at some time unless the clear never
ends. -/
theorem chain_order (sprites : ℕ) (some : 0 < sprites) (x : ℕ → Input) :
    let chain := (machine sprites).run x
    (∀ t, contents (chain t) = acknowledged sprites x t ∧
      (acknowledged sprites x t).length ≤ sprites ∧
      ((x t).clear = true → ack (chain t) (x t) = false)) ∧
    ∀ t sprite, (acknowledged sprites x t).length < sprites → OfferedFrom sprites x sprite t →
      ((∀ u, t ≤ u → u < t + sprites → (x u).clear = false) →
        ∃ u, t ≤ u ∧ u < t + sprites ∧ acknowledges (chain u) (x u) = Option.some sprite) ∧
      ((∀ u, ∃ v, u ≤ v ∧ (x v).clear = false) →
        ∃ u, t ≤ u ∧ acknowledges (chain u) (x u) = Option.some sprite) := by
  intro chain
  refine ⟨fun t => ⟨contents_eq, length_acknowledged, fun cleared => ?_⟩,
    fun t sprite room offered => ?_⟩
  · rw [ack, cleared]
    exact inAck_clear (run_ne_nil some)
  · rw [← contents_eq] at room
    -- the first acknowledgement is that of the sprite
    have first : ∀ u, t ≤ u → ack (chain u) (x u) = true →
        ∃ v, t ≤ v ∧ v ≤ u ∧ acknowledges (chain v) (x v) = Option.some sprite := by
      intro u after taken
      have exists' : ∃ v, t ≤ v ∧ ack (chain v) (x v) = true := ⟨u, after, taken⟩
      obtain ⟨later, here⟩ := Nat.find_spec exists'
      refine ⟨Nat.find exists', later, Nat.find_min' exists' ⟨after, taken⟩, ?_⟩
      have held := offered _ later fun v past before => by
        by_contra early
        exact Nat.find_min exists' before ⟨past, Bool.not_eq_false _ ▸ early⟩
      rw [acknowledges, if_pos here, held.2]
    constructor
    · intro quiet
      have hole := hole_of_contents (by rw [length_run]; exact room)
      have bound := crowded_lt hole
      rw [length_run] at bound
      have taken := ack_of_quiet some _ hole rfl (fun u after before => quiet u after (by omega))
        fun none => (offered _ (Nat.le_add_right _ _) none).1
      obtain ⟨v, after, before, takes⟩ := first _ (Nat.le_add_right _ _) taken
      exact ⟨v, after, by omega, takes⟩
    · intro fair
      obtain ⟨u, after, taken⟩ := ack_of_fair some room
        (fun none u after => (offered u after fun v past _ => none v past).1) fair
      obtain ⟨v, later, -, takes⟩ := first u after taken
      exact ⟨v, later, takes⟩

/-- A chain of two units that is offered its reset value in every clock. -/
theorem chain_order_two :
    let x : ℕ → Input := fun _ => ⟨false, SpriteUnit.reset.out, true⟩
    contents ((machine 2).run x 3) = acknowledged 2 x 3 ∧
      ∃ u, 0 ≤ u ∧ u < 0 + 2 ∧
        acknowledges ((machine 2).run x u) (x u) = Option.some SpriteUnit.reset.out := by
  intro x
  obtain ⟨holds, progress⟩ := chain_order 2 Nat.two_pos x
  exact ⟨(holds 3).1, (progress 0 _ Nat.two_pos fun _ _ _ => ⟨rfl, rfl⟩).1 fun _ _ _ => rfl⟩

end Runs

end SpriteFile

end FPGame.Ppu
