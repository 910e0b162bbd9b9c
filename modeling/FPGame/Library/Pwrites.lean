import FPGame.Foundation.Blocks
import FPGame.Library.AllOrNothing

/-!
# Write functions as lists of `pwrite`s

With given arguments a write function of the library makes a fixed list of
checked `pwrite`s. If it returns 0 the VRAM holds them as blocks stored one
after the other (`Exec.pwrites`), so that what the function has written is a
question about the list.
-/

set_option autoImplicit false

namespace FPGame.Library

open FPGame.Foundation FPGame.Linux
open FPGame.PpuDriver (Config State Exclusive vramSize)

theorem eq_ofNat {b : BitVec 32} {n : ℕ} (value : b.toNat = n) : b = BitVec.ofNat 32 n := by
  rw [← value, BitVec.ofNat_toNat, BitVec.setWidth_eq]

theorem ne_zero_of_one_le {b : BitVec 32} (positive : 1 ≤ b.toNat) : b ≠ 0 := by
  rintro rfl
  exact absurd positive (by decide)

/-- A `pwrite` of the library. -/
structure Pwrite where
  buf : ℕ → BitVec 8
  count : BitVec 32
  offset : BitVec 32

namespace Pwrite

/-- What it stores. -/
def block (w : Pwrite) : ℕ × List (BitVec 8) :=
  (w.offset.toNat, (List.range w.count.toNat).map w.buf)

def Inside (w : Pwrite) : Prop := w.offset.toNat + w.count.toNat ≤ vramSize

@[simp] theorem block_fst (w : Pwrite) : w.block.1 = w.offset.toNat := rfl

@[simp] theorem length_block (w : Pwrite) : w.block.2.length = w.count.toNat := by
  rw [block, List.length_map, List.length_range]

theorem getElem_block (w : Pwrite) {k : ℕ} (within : k < w.block.2.length) :
    w.block.2[k] = w.buf k := by
  simp only [block, List.getElem_map, List.getElem_range]

theorem Inside.proper {w : Pwrite} (inside : w.Inside) : w.count.toInt ≠ -1 := by
  have small : vramSize < 2 ^ 31 := by decide
  rw [Inside] at inside
  rw [BitVec.toInt_eq_toNat_of_lt (by omega)]
  omega

end Pwrite

/-- Checked `pwrite`s, one after the other. -/
def Program.pwrites (ws : List Pwrite) (rest : Program) : Program :=
  ws.foldr (fun w following => .pwrite w.buf w.count w.offset following) rest

namespace Program

@[simp] theorem pwrites_nil (rest : Program) : Program.pwrites [] rest = rest := rfl

@[simp] theorem pwrites_cons (w : Pwrite) (ws : List Pwrite) (rest : Program) :
    Program.pwrites (w :: ws) rest =
      .pwrite w.buf w.count w.offset (Program.pwrites ws rest) := rfl

theorem pwrites_append (ws ws' : List Pwrite) (rest : Program) :
    Program.pwrites (ws ++ ws') rest = Program.pwrites ws (Program.pwrites ws' rest) :=
  List.foldr_append

theorem writes_pwrites {ws : List Pwrite} (inside : ∀ w ∈ ws, w.Inside) :
    (Program.pwrites ws (.done 0)).writes = ws.map Pwrite.block := by
  induction ws with
  | nil => rfl
  | cons w ws ih =>
      rw [pwrites_cons, writes_pwrite (inside w List.mem_cons_self),
        ih fun later member => inside later (List.mem_cons_of_mem _ member)]
      rfl

theorem sequence_pwrites {ws : List Pwrite} (inside : ∀ w ∈ ws, w.Inside) :
    Sequence (fun _ _ => True) (Program.pwrites ws (.done 0)) := by
  induction ws with
  | nil => exact .done
  | cons w ws ih =>
      exact .pwrite (inside w List.mem_cons_self).proper trivial
        (ih fun later member => inside later (List.mem_cons_of_mem _ member))

end Program

/-! ## What a call that returns 0 has done -/

section Exec

variable {Tid : Type} [DecidableEq Tid] {cfg : Config} {tid : Tid} {s s' : State Tid}

/-- The VRAM of the kernel, as bytes from `vram_addr_v` on. -/
def kernelVram (cfg : Config) (s : State Tid) (a : ℕ) : BitVec 8 := s.shared.vram (cfg.shift + a)

/-- A call that returns has passed its checks. -/
theorem Exec.of_nowaymsg {err : Bool} {msg : String} {rest : Program} {ret : ℤ}
    (exec : Exec cfg tid s (.nowaymsg err msg rest) s' (.returned ret)) (alone : Exclusive tid s) :
    err = false ∧ Exec cfg tid s rest s' (.returned ret) := by
  cases err with
  | false => exact ⟨rfl, exec⟩
  | true => cases ((exec.of_over alone).2 _ rfl).1

/-- **The blocks of a list of `pwrite`s.** -/
theorem Exec.pwrites {ws : List Pwrite}
    (exec : Exec cfg tid s (.pwrites ws (.done 0)) s' (.returned 0)) (alone : Exclusive tid s)
    (inside : ∀ w ∈ ws, w.Inside) :
    kernelVram cfg s' = storeBlocks (kernelVram cfg s) (ws.map Pwrite.block) := by
  rcases exec_all_or_nothing (Program.sequence_pwrites inside) exec alone rfl with
    ⟨minusOne, -⟩ | ⟨-, vram⟩
  · cases minusOne
  · rw [Program.writes_pwrites inside] at vram
    have seen : kernelVram cfg s' =
        fun a => applyWrites cfg.shift s.shared.vram (ws.map Pwrite.block) (cfg.shift + a) := by
      rw [← vram]
      rfl
    rw [seen]
    exact storeBlocks_shift s.shared.vram cfg.shift (ws.map Pwrite.block)

/-- A free driver accepts every `pwrite`. -/
theorem exec_pwrites_free {ws : List Pwrite} (inside : ∀ w ∈ ws, w.Inside)
    (outside : (s.threads tid).pc = .user) (free : s.shared.vramLock ≠ 1) :
    ∃ after, Exec cfg tid s (.pwrites ws (.done 0)) after (.returned 0) := by
  induction ws generalizing s with
  | nil => exact ⟨s, .done⟩
  | cons w ws ih =>
      obtain ⟨s₁, back, unlocked, -, continues⟩ := @exec_pwrite_free Tid _ cfg tid s w.buf w.count
        w.offset (.pwrites ws (.done 0)) outside free (inside w List.mem_cons_self)
      obtain ⟨after, exec⟩ := ih (fun later member => inside later (List.mem_cons_of_mem _ member))
        back (by rw [unlocked]; decide)
      exact ⟨after, continues after _ exec⟩

end Exec

/-- A kernel whose VRAM was allocated at an aligned address. -/
def alignedConfig : Config where
  shift := 0
  vramAddrP := 0x30000000

theorem reachable_atRest :
    (PpuDriver.driver Bool alignedConfig).Reachable PpuDriver.atRest :=
  .start ⟨rfl, rfl, rfl, fun _ => rfl⟩

/-- The driver at rest runs a list of `pwrite`s to its end. -/
theorem exec_atRest {program : Program} {ws : List Pwrite}
    (same : program = .pwrites ws (.done 0)) (inside : ∀ w ∈ ws, w.Inside) :
    ∃ after, Exec alignedConfig true PpuDriver.atRest program after (.returned 0) := by
  rw [same]
  exact exec_pwrites_free inside rfl (by decide)

end FPGame.Library
