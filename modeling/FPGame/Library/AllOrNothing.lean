import FPGame.Library.Writes

/-!
# Library writes are all or nothing

A call of the library makes from two to a few thousand separate kernel writes,
and any of them may be refused. But the driver's lock is taken for long only by
an update of the process itself, and the interrupt only frees it. So once the
first write of a call has been accepted the driver stays free, and a call that
is refused is refused at its first write.
-/

set_option autoImplicit false

namespace FPGame.Library

open FPGame.Foundation
open FPGame.PpuDriver (Config State driver Exclusive SoleUser owned_of_reachable)

section Session

variable {Tid : Type} [DecidableEq Tid] {cfg : Config} {tid : Tid} {s s' : State Tid}

/-- A call that returned has done nothing, or everything. -/
structure AllOrNothing (cfg : Config) (e : Event Tid) : Prop where
  refused : e.outcome = .returned (-1) → e.after.shared.vram = e.before.shared.vram
  performed : e.outcome = .returned 0 →
    e.after.shared.vram = applyWrites cfg.shift e.before.shared.vram e.program.writes

theorem allOrNothing_of_sequence {fits : ℕ → ℕ → Prop} {e : Event Tid}
    (sequence : Sequence fits e.program)
    (exec : Exec cfg tid e.before e.program e.after e.outcome) (alone : Exclusive tid e.before) :
    AllOrNothing cfg e where
  refused returned := by
    rcases exec_all_or_nothing sequence exec alone returned with ⟨-, -, vram⟩ | ⟨zero, -⟩
    · exact vram
    · cases zero
  performed returned := by
    rcases exec_all_or_nothing sequence exec alone returned with ⟨minusOne, -⟩ | ⟨-, vram⟩
    · cases minusOne
    · exact vram

/-- A call of `ppu_write_sprites` with a length of -1 does not return. -/
theorem sprites_minusOne {process : Process} {sprites : Option (ℕ → Sprite)}
    {len spriteIdI : BitVec 32} {ret : ℤ} (ppuFd : process.ppuFd = true) (minusOne : len.toInt = -1)
    (alone : Exclusive tid s) :
    ¬ Exec cfg tid s (ppuWriteSpritesCalls process sprites len spriteIdI) s' (.returned ret) := by
  intro exec
  cases spriteCalls process ppuFd sprites len spriteIdI with
  | check msg program =>
      rw [program] at exec
      cases ((exec.of_over alone).2 _ rfl).1
  | writes array spriteBuf spriteExtraBuf buffers given bound fills program =>
      have all := congrArg BitVec.toNat (BitVec.eq_of_toInt_eq (y := BitVec.allOnes 32) minusOne)
      have huge : (len * 4).toNat = 2 ^ 32 - 4 := by
        rw [BitVec.toNat_mul, all, BitVec.toNat_allOnes]
        rfl
      rw [program] at exec
      cases exec.pwrite alone (times_four_toInt _) with
      | refused beyond outcome => cases outcome
      | busy inside | stored s₁ inside =>
          rw [huge, PpuDriver.vramSize] at inside
          omega

/-- **All or nothing.** -/
theorem WriteCall.allOrNothing {process : Process} {call : WriteCall} {o : Outcome}
    (ppuFd : process.ppuFd = true) (exec : Exec cfg tid s (call.program process) s' o)
    (alone : Exclusive tid s) : AllOrNothing cfg ⟨call.program process, s, s', o⟩ := by
  by_cases noWrap : call.NoWrap
  · exact allOrNothing_of_sequence (call.sequence process ppuFd noWrap) exec alone
  · cases call with
    | sprites sprites len spriteIdI =>
        by_cases minusOne : len.toInt = -1
        · constructor
          · rintro rfl
            exact absurd exec (sprites_minusOne ppuFd minusOne alone)
          · rintro rfl
            exact absurd exec (sprites_minusOne ppuFd minusOne alone)
        · exact allOrNothing_of_sequence
            (sequence_sprites_wrapping ppuFd minusOne) exec alone
    | _ => exact absurd trivial noWrap

/-- **Library writes are all-or-nothing.** Take any reachable state of the
driver in which no other thread holds the descriptor, and any sequence of
library calls from there, with the interrupt at any time. Each write call that
returns -1 has left the VRAM as it was, each that returns 0 has made all of its
writes, and none whose sums do not wrap fails an assertion. -/
theorem library_writes (reachable : (driver Tid cfg).Reachable s) (sole : SoleUser tid s)
    {events : List (Event Tid)} (session : Session cfg tid s events) :
    ∀ e ∈ events, ∀ (process : Process) (call : WriteCall), process.ppuFd = true →
      e.program = call.program process →
      AllOrNothing cfg e ∧ (call.NoWrap → e.outcome ≠ .aborted .assertion) := by
  intro e member process call ppuFd calls
  obtain ⟨alone, exec⟩ := session.exclusive ⟨sole, owned_of_reachable reachable⟩ e member
  obtain ⟨program, before, after, outcome⟩ := e
  subst calls
  refine ⟨call.allOrNothing ppuFd exec alone, fun noWrap => ?_⟩
  exact exec_no_assertion ((call.sequence process ppuFd noWrap).mono fun _ _ fits => fits.1) exec
    alone

end Session

/-! ## A session -/

/-- `ppu_update` -/
def ppuUpdate (process : Process) : Program :=
  .nowaymsg (!process.ppuFd) "PPU not enabled or owned by this process!" <|
  .setRegister PpuDriver.ioctlPpuUpdate 0

def grayProcess : Process where
  ppuFd := true
  heap _ := 0
  writeTiles := true
  spriteBuf := none
  spriteExtraBuf := none

/-- A free driver takes an update, and stays locked. -/
theorem exec_ppuUpdate_free {Tid : Type} [DecidableEq Tid] {cfg : Config} {tid : Tid}
    {s : State Tid} (outside : (s.threads tid).pc = .user) (free : s.shared.vramLock ≠ 1) :
    ∃ after, (after.threads tid).pc = .user ∧ after.shared.vramLock = 1 ∧
      Exec cfg tid s (ppuUpdate grayProcess) after (.returned 0) := by
  obtain ⟨after, returns, shared, back⟩ := @returns_of_finish Tid _ cfg tid
    { shared := (PpuDriver.act cfg s.shared (s.threads tid)
        (.call (.ioctl PpuDriver.ioctlPpuUpdate 0))).1
      threads := Function.update s.threads tid (PpuDriver.act cfg s.shared (s.threads tid)
        (.call (.ioctl PpuDriver.ioctlPpuUpdate 0))).2 } 3 _ (by
      simp only [Function.update_self, PpuDriver.act, outside, PpuDriver.finish, if_neg free,
        PpuDriver.ioctlTarget, if_true]
      rfl)
  exact ⟨after, back, by rw [shared]; rfl, .sys outside (.thread s tid _) returns .done⟩

/-- Three tiles, written to four cells of the foreground from the last column but one
on, with two `pwrite`s. -/
def fourCells : WriteCall :=
  .tilesHorizontal (some fun i => BitVec.ofNat 16 (i + 7)) 3 layerFg 62 5 4

theorem fourCells_program : ∃ buf buf' : ℕ → BitVec 8, fourCells.program grayProcess =
    .pwrite buf 4 0x22FC (.pwrite buf' 4 0x2280 (.done 0)) :=
  ⟨_, _, rfl⟩

/-- A session that writes tiles, sends the frame, and is refused when it writes again. -/
theorem library_writes_polled :
    ∃ written sent refused : State Bool,
      Session { shift := 0, vramAddrP := 0x30000000 } true PpuDriver.atRest
        [⟨fourCells.program grayProcess, PpuDriver.atRest, written, .returned 0⟩,
          ⟨ppuUpdate grayProcess, written, sent, .returned 0⟩,
          ⟨fourCells.program grayProcess, sent, refused, .returned (-1)⟩] ∧
      written.shared.vram = applyWrites 0 PpuDriver.atRest.shared.vram
        (fourCells.program grayProcess).writes ∧
      refused.shared.vram = sent.shared.vram := by
  obtain ⟨buf, buf', program⟩ := fourCells_program
  have inside : (0x22FC : BitVec 32).toNat + (4 : BitVec 32).toNat ≤ PpuDriver.vramSize := by decide
  have inside' : (0x2280 : BitVec 32).toNat + (4 : BitVec 32).toNat ≤ PpuDriver.vramSize := by
    decide
  obtain ⟨first, back, unlocked, -, continues⟩ := @exec_pwrite_free Bool _
    { shift := 0, vramAddrP := 0x30000000 } true PpuDriver.atRest buf 4 0x22FC
    (.pwrite buf' 4 0x2280 (.done 0)) rfl (by decide) inside
  obtain ⟨written, back', unlocked', -, continues'⟩ := @exec_pwrite_free Bool _
    { shift := 0, vramAddrP := 0x30000000 } true first buf' 4 0x2280 (.done 0) back
    (by rw [unlocked]; decide) inside'
  obtain ⟨sent, back'', locked, update⟩ := @exec_ppuUpdate_free Bool _
    { shift := 0, vramAddrP := 0x30000000 } true written back' (by rw [unlocked']; decide)
  obtain ⟨refused, -, busy⟩ := @exec_pwrite_busy Bool _
    { shift := 0, vramAddrP := 0x30000000 } true sent buf 4 0x22FC
    (.pwrite buf' 4 0x2280 (.done 0)) back'' locked inside
  have wrote := continues written (.returned 0) (continues' written (.returned 0) .done)
  rw [← program] at wrote busy
  have session := Session.returned wrote (.returned update (.returned busy .stop))
  have reachable : (driver Bool { shift := 0, vramAddrP := 0x30000000 }).Reachable
      PpuDriver.atRest := .start ⟨rfl, rfl, rfl, fun _ => rfl⟩
  have performed := (library_writes reachable (fun _ _ => rfl) session _ List.mem_cons_self
    grayProcess fourCells rfl rfl).1.performed rfl
  have kept := (library_writes reachable (fun _ _ => rfl) session _
    (List.mem_cons_of_mem _ (List.mem_cons_of_mem _ List.mem_cons_self)) grayProcess fourCells rfl
    rfl).1.refused rfl
  exact ⟨written, sent, refused, session, performed, kept⟩

end FPGame.Library
