import FPGame.Kernel.PpuDriver

/-!
# Calls that run alone

A call of a thread that no other step interrupts is a function of the shared
state. `ppuWrite` runs the atomic steps of `ppu_write` to their return, for a
user buffer that does not fault, and `ppuWrite_eq` is its result.
-/

set_option autoImplicit false

namespace FPGame.PpuDriver

open FPGame.Foundation FPGame.Linux

/-- What a call leaves: the shared state, its result and the file position. -/
structure Return where
  shared : Shared
  ret : ℤ
  offset : ℕ

/-- Run a thread to the return of its call. -/
def finish (cfg : Config) : ℕ → Shared × Thread → Option Return
  | 0, _ => none
  | fuel + 1, (sh, th) =>
      match th.pc with
      | .returned ret => some { shared := sh, ret := ret, offset := th.offset }
      | _ => finish cfg fuel (act cfg sh th .advance)

/-- A thread outside the driver. -/
def outside : Thread := { pc := .user, call := .open, offset := 0, owes := false }

/-- `ppu_write` at a file position, of a buffer that does not fault. -/
def ppuWrite (cfg : Config) (sh : Shared) (offset : ℕ) (buf : List (BitVec 8)) : Option Return :=
  finish cfg (buf.length + 4) (act cfg sh outside (.call (.write offset buf)))

section Write

variable {cfg : Config} {sh : Shared} {offset : ℕ} {buf : List (BitVec 8)}

/-- From inside `copy_from_user` to the return, one byte at a time. -/
theorem finish_writeCopy (cfg : Config) (sh : Shared) (offset : ℕ) (call : Call)
    (vram : ℕ → BitVec 8) (d k : ℕ) (rest : k + d = buf.length) :
    finish cfg (d + 3)
        ({ sh with vramLock := 1, vram := storeBlock vram (cfg.shift + offset) (buf.take k) },
          { pc := .writeCopy buf k, call := call, offset := offset, owes := true }) =
      some
        { shared := { sh with vramLock := 0, vram := storeBlock vram (cfg.shift + offset) buf }
          ret := buf.length
          offset := offset + buf.length } := by
  induction d generalizing k with
  | zero =>
      obtain rfl : k = buf.length := by omega
      have ended : buf[buf.length]? = none := List.getElem?_eq_none le_rfl
      simp only [finish, act, ended, List.take_length]
  | succ d ih =>
      have within : k < buf.length := by omega
      have byte : buf[k]? = some buf[k] := List.getElem?_eq_getElem within
      have following := ih (k + 1) (by omega)
      rw [← store_storeBlock_take vram (cfg.shift + offset) buf within] at following
      rw [show d + 1 + 3 = d + 3 + 1 by omega, finish]
      simp only [act, byte]
      exact following

/-- **`ppu_write`, run alone.** -/
theorem ppuWrite_eq :
    ppuWrite cfg sh offset buf = some
      (if vramSize < offset + buf.length then { shared := sh, ret := -EINVAL, offset := offset }
      else if sh.vramLock = 1 then { shared := sh, ret := -EBUSY, offset := offset }
      else
        { shared := { sh with
            vramLock := 0, vram := storeBlock sh.vram (cfg.shift + offset) buf }
          ret := buf.length
          offset := offset + buf.length }) := by
  rw [ppuWrite]
  by_cases beyond : vramSize < offset + buf.length
  · simp only [act, outside, gt_iff_lt, if_pos beyond, finish]
  · by_cases busy : sh.vramLock = 1
    · have same : ({ sh with vramLock := 1 } : Shared) = sh := by rw [← busy]
      simp only [act, outside, gt_iff_lt, if_neg beyond, finish, if_pos busy, same]
    · have copying := finish_writeCopy cfg sh offset (.write offset buf) sh.vram buf.length 0
        (Nat.zero_add _)
      rw [List.take_zero, storeBlock_nil] at copying
      simp only [act, outside, gt_iff_lt, if_neg beyond]
      rw [show buf.length + 4 = buf.length + 3 + 1 by omega, finish]
      simp only [act, if_neg busy]
      exact copying

/-- An accepted write leaves the user's bytes at its offset. -/
theorem vram_of_accepted {after : Return} (returns : ppuWrite cfg sh offset buf = some after)
    (accepted : 0 ≤ after.ret) :
    after.shared.vram = storeBlock sh.vram (cfg.shift + offset) buf := by
  rw [ppuWrite_eq, Option.some.injEq] at returns
  subst returns
  split_ifs at accepted ⊢
  · simp [EINVAL] at accepted
  · simp [EBUSY] at accepted
  · rfl

end Write

end FPGame.PpuDriver
