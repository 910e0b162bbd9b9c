import FPGame.Foundation.LiveBuffers
import FPGame.Library.Pwrites

/-!
# The buffers of the write functions

`ppu_write_tiles_horizontal`, `ppu_write_tiles_vertical` and `ppu_write_sprites`
with their `malloc`s and `free`s. Without these they are the programs that they
were before (`BufferCall.program_eq`). Each frees its buffers before it returns 0
and none when it returns -1, so that every busy answer leaks the buffers of a call.
-/

set_option autoImplicit false

namespace FPGame.Library

open FPGame.Foundation FPGame.Linux

/-- A call that allocates and makes `pwrite`s. -/
abbrev WriteScript := Script Pwrite Abort

namespace WriteScript

/-- `nowaymsg(err, msg)` before the rest. -/
def nowaymsg (err : Bool) (msg : String) (rest : WriteScript) : WriteScript :=
  if err then .abort (.check msg) else rest

/-- `if (pwrite(ppu_fd, buf, count, offset) != count) { assert(errno == EBUSY); return -1; }` -/
def pwrite (buf : ℕ → BitVec 8) (count offset : BitVec 32) (rest : WriteScript) : WriteScript :=
  .request ⟨buf, count, offset⟩ rest (.ret (-1))

/-- The system calls of a script, given the results of its `malloc`s. -/
def program : WriteScript → List (Option ℕ) → Program
  | .ret value, _ => .done value
  | .abort reason, _ => .abort reason
  | .malloc _ next, mallocs => program (next mallocs.head?.join) mallocs.tail
  | .free _ next, mallocs => program next mallocs
  | .request w granted refused, mallocs =>
      .sys (.write w.block.1 w.block.2) fun ret =>
        if Program.userRet ret = w.count.toInt then program granted mallocs
        else if ret = -EBUSY then program refused mallocs
        else .abort .assertion

section Program

variable {rest other : WriteScript} {mallocs : List (Option ℕ)}

@[simp] theorem program_ret (value : ℤ) :
    program (.ret value) mallocs = .done value := rfl

@[simp] theorem program_abort (reason : Abort) :
    program (.abort reason) mallocs = .abort reason := rfl

@[simp] theorem program_free (ptr : ℕ) :
    program (.free ptr rest) mallocs = program rest mallocs := rfl

@[simp] theorem program_malloc (size : ℕ) (next : Option ℕ → WriteScript) (result : Option ℕ) :
    program (.malloc size next) (result :: mallocs) = program (next result) mallocs := rfl

@[simp] theorem program_pwrite (buf : ℕ → BitVec 8) (count offset : BitVec 32) :
    program (pwrite buf count offset rest) mallocs =
      .pwrite buf count offset (program rest mallocs) := rfl

@[simp] theorem program_nowaymsg (err : Bool) (msg : String) :
    program (nowaymsg err msg rest) mallocs = .nowaymsg err msg (program rest mallocs) := by
  cases err <;> rfl

theorem program_ite (c : Prop) [Decidable c] :
    program (if c then rest else other) mallocs =
      if c then program rest mallocs else program other mallocs :=
  apply_ite (fun script => program script mallocs) c rest other

end Program

end WriteScript

/-! ## The functions with their buffers -/

namespace WithHeap

/-- `ppu_write_tiles_horizontal` -/
def ppuWriteTilesHorizontal (ppuFd : Bool) (tiles : Option (ℕ → BitVec 16))
    (len layer xI yI count : BitVec 32) : WriteScript :=
  .nowaymsg (!ppuFd) "PPU not enabled or owned by this process!" <|
  .nowaymsg (decide (tilelayerWidth ≤ xI.toNat)) "Initial write position out of bounds!" <|
  .nowaymsg (decide (tilelayerHeight ≤ yI.toNat)) "Initial write position out of bounds!" <|
  .nowaymsg (decide (layer ≠ layerBg ∧ layer ≠ layerFg)) "Incorrect layer to write tiles to!" <|
  match tiles with
  | none => .abort (.check "Tile array is NULL!")
  | some tiles =>
      if count = 0 ∨ len = 0 then .ret 0
      else
        let count := clamp tilelayerWidth count
        let len := clamp tilelayerWidth len
        .malloc (tiledataBsize * count.toNat) fun buffer =>
          match buffer with
          | none => .abort (.check "Malloc failed!")
          | some buffer =>
              let writeTiles := tileBytes (repeatTiles tiles len count.toNat 0)
              let startAddr := tileLayerOffset layer +
                (yI * BitVec.ofNat 32 tilelayerHeight + xI) * BitVec.ofNat 32 tiledataBsize
              let tilesWritten := unsignedMin (BitVec.ofNat 32 tilelayerWidth - xI) count
              WriteScript.pwrite writeTiles (tilesWritten * BitVec.ofNat 32 tiledataBsize)
                startAddr <|
              let tilesTowrite := count - tilesWritten
              if tilesTowrite = 0 then .free buffer (.ret 0)
              else
                let startAddr := tileLayerOffset layer +
                  yI * BitVec.ofNat 32 tilelayerHeight * BitVec.ofNat 32 tiledataBsize
                .pwrite (fun k => writeTiles (tiledataBsize * tilesWritten.toNat + k))
                  (tilesTowrite * BitVec.ofNat 32 tiledataBsize) startAddr <|
                if count - (tilesWritten + tilesTowrite) = 0 then .free buffer (.ret 0)
                else .abort .assertion

/-- The inner loop of `ppu_write_tiles_vertical`. -/
def writeColumn (writeTiles : ℕ → BitVec 8) (count : BitVec 32)
    (rest : BitVec 32 → WriteScript) : ℕ → BitVec 32 → BitVec 32 → WriteScript
  | 0, written, _ => rest written
  | towrite + 1, written, startAddr =>
      if written.toNat < count.toNat then
        .pwrite (fun k => writeTiles (tiledataBsize * written.toNat + k))
          (BitVec.ofNat 32 tiledataBsize) startAddr <|
        writeColumn writeTiles count rest towrite (written + 1)
          (startAddr + BitVec.ofNat 32 (tilelayerWidth * tiledataBsize))
      else rest written

/-- At most `fuel` iterations of the outer loop, and the `free` after it. -/
def writeColumns (buffer : ℕ) (writeTiles : ℕ → BitVec 8) (count topAddr : BitVec 32) :
    ℕ → BitVec 32 → BitVec 32 → BitVec 32 → WriteScript
  | 0, _, _, _ => .abort .assertion
  | fuel + 1, towrite, written, startAddr =>
      if written.toNat < count.toNat then
        writeColumn writeTiles count
          (fun written =>
            writeColumns buffer writeTiles count topAddr fuel (count - written) written topAddr)
          towrite.toNat written startAddr
      else .free buffer (.ret 0)

/-- `ppu_write_tiles_vertical` -/
def ppuWriteTilesVertical (ppuFd : Bool) (tiles : Option (ℕ → BitVec 16))
    (len layer xI yI count : BitVec 32) : WriteScript :=
  .nowaymsg (!ppuFd) "PPU not enabled or owned by this process!" <|
  .nowaymsg (decide (tilelayerWidth ≤ xI.toNat)) "Initial write position out of bounds!" <|
  .nowaymsg (decide (tilelayerHeight ≤ yI.toNat)) "Initial write position out of bounds!" <|
  match tiles with
  | none => .abort (.check "Tile array is NULL!")
  | some tiles =>
      if count = 0 ∨ len = 0 then .ret 0
      else
        let count := clamp tilelayerHeight count
        let len := clamp tilelayerHeight len
        .malloc (tiledataBsize * count.toNat) fun buffer =>
          match buffer with
          | none => .abort (.check "Malloc failed!")
          | some buffer =>
              let writeTiles := tileBytes (repeatTiles tiles len count.toNat 0)
              let startAddr := tileLayerOffset layer +
                (yI <<< 6 + xI) * BitVec.ofNat 32 tiledataBsize
              let topAddr := tileLayerOffset layer + xI * BitVec.ofNat 32 tiledataBsize
              writeColumns buffer writeTiles count topAddr (count.toNat + 1)
                (unsignedMin (BitVec.ofNat 32 tilelayerHeight - yI) count) 0 startAddr

/-- `ppu_write_sprites` -/
def ppuWriteSprites (ppuFd : Bool) (heap : ℕ → BitVec 8) (sprites : Option (ℕ → Sprite))
    (len spriteIdI : BitVec 32) : WriteScript :=
  match sprites with
  | none => .abort (.check "Sprite Array is NULL!")
  | some sprites =>
      .nowaymsg (decide (spriteMaxcount < (spriteIdI + len).toNat))
        "Sprite write would exceed Sprite RAM bounds!" <|
      .malloc (len * 4).toNat fun spriteBuf =>
        match spriteBuf with
        | none => .abort (.check "Sprite data malloc failed!")
        | some spriteBuf =>
            .malloc len.toNat fun spriteExtraBuf =>
              match spriteExtraBuf with
              | none => .abort (.check "Sprite extra data malloc failed!")
              | some spriteExtraBuf =>
                  match fillBuffers sprites len spriteBuf spriteExtraBuf len.toNat
                    { heap := heap, stores := [] } with
                  | .error msg => .abort (.check msg)
                  | .ok buffers =>
                      if ppuFd then
                        WriteScript.pwrite (fun k => buffers.heap (spriteBuf + k)) (len * 4)
                          (BitVec.ofNat 32 vramSpritesoffset + spriteIdI * 4) <|
                        .pwrite (fun k => buffers.heap (spriteExtraBuf + k)) len
                          (BitVec.ofNat 32 (vramSpritesoffset + sprramExtraoffset) + spriteIdI) <|
                        .free spriteBuf <|
                        .free spriteExtraBuf <|
                        .ret 0
                      else .abort .assertion

end WithHeap

/-- A call that allocates. -/
inductive BufferCall where
  | tilesHorizontal (tiles : Option (ℕ → BitVec 16)) (len layer xI yI count : BitVec 32)
  | tilesVertical (tiles : Option (ℕ → BitVec 16)) (len layer xI yI count : BitVec 32)
  | sprites (sprites : Option (ℕ → Sprite)) (len spriteIdI : BitVec 32)

namespace BufferCall

/-- What a call does in a process. -/
def script (ppuFd : Bool) (heap : ℕ → BitVec 8) : BufferCall → WriteScript
  | .tilesHorizontal tiles len layer xI yI count =>
      WithHeap.ppuWriteTilesHorizontal ppuFd tiles len layer xI yI count
  | .tilesVertical tiles len layer xI yI count =>
      WithHeap.ppuWriteTilesVertical ppuFd tiles len layer xI yI count
  | .sprites array len spriteIdI => WithHeap.ppuWriteSprites ppuFd heap array len spriteIdI

/-- The call as one of the write functions. -/
def writeCall : BufferCall → WriteCall
  | .tilesHorizontal tiles len layer xI yI count => .tilesHorizontal tiles len layer xI yI count
  | .tilesVertical tiles len layer xI yI count => .tilesVertical tiles len layer xI yI count
  | .sprites array len spriteIdI => .sprites array len spriteIdI

/-- The results of its `malloc`s, in the order in which they are made. -/
def mallocs (process : Process) : BufferCall → List (Option ℕ)
  | .tilesHorizontal _ _ _ _ _ _ | .tilesVertical _ _ _ _ _ _ =>
      [if process.writeTiles then some 0 else none]
  | .sprites _ _ _ => [process.spriteBuf, process.spriteExtraBuf]

end BufferCall

/-! ## Without the buffers -/

section Programs

variable {process : Process}

theorem program_writeColumn {writeTiles : ℕ → BitVec 8} {count : BitVec 32}
    {rest : BitVec 32 → WriteScript} {rest' : BitVec 32 → Program} {mallocs : List (Option ℕ)}
    (same : ∀ written, (rest written).program mallocs = rest' written) (towrite : ℕ)
    (written startAddr : BitVec 32) :
    (WithHeap.writeColumn writeTiles count rest towrite written startAddr).program mallocs =
      writeColumn writeTiles count rest' towrite written startAddr := by
  induction towrite generalizing written startAddr with
  | zero => exact same written
  | succ towrite ih =>
      rw [WithHeap.writeColumn, writeColumn, WriteScript.program_ite, WriteScript.program_pwrite,
        ih, same]

theorem program_writeColumns {buffer : ℕ} {writeTiles : ℕ → BitVec 8} {count topAddr : BitVec 32}
    {mallocs : List (Option ℕ)} (fuel : ℕ) (towrite written startAddr : BitVec 32) :
    (WithHeap.writeColumns buffer writeTiles count topAddr fuel towrite written startAddr).program
        mallocs =
      writeColumns writeTiles count topAddr fuel towrite written startAddr := by
  induction fuel generalizing towrite written startAddr with
  | zero => rfl
  | succ fuel ih =>
      rw [WithHeap.writeColumns, writeColumns, WriteScript.program_ite,
        program_writeColumn fun written => ih (count - written) written topAddr]
      rfl

/-- **The system calls of a script are those of the write function.** -/
theorem BufferCall.program_eq (call : BufferCall) :
    (call.script process.ppuFd process.heap).program (call.mallocs process) =
      call.writeCall.program process := by
  cases call with
  | tilesHorizontal tiles len layer xI yI count =>
      cases tiles with
      | none => simp [script, writeCall, WriteCall.program, WithHeap.ppuWriteTilesHorizontal,
          ppuWriteTilesHorizontal]
      | some tiles =>
          cases allocated : process.writeTiles with
          | false | true =>
              simp [script, writeCall, mallocs, WriteCall.program, WithHeap.ppuWriteTilesHorizontal,
                ppuWriteTilesHorizontal, WriteScript.program_ite, Program.nowaymsg, allocated]
  | tilesVertical tiles len layer xI yI count =>
      cases tiles with
      | none => simp [script, writeCall, WriteCall.program, WithHeap.ppuWriteTilesVertical,
          ppuWriteTilesVertical]
      | some tiles =>
          cases allocated : process.writeTiles with
          | false | true =>
              simp [script, writeCall, mallocs, WriteCall.program, WithHeap.ppuWriteTilesVertical,
                ppuWriteTilesVertical, WriteScript.program_ite, program_writeColumns,
                Program.nowaymsg, allocated]
  | sprites array len spriteIdI =>
      cases array with
      | none => rfl
      | some array =>
          cases main : process.spriteBuf with
          | none =>
              simp [script, writeCall, mallocs, WriteCall.program, WithHeap.ppuWriteSprites,
                ppuWriteSpritesCalls, main]
          | some spriteBuf =>
              cases extra : process.spriteExtraBuf with
              | none =>
                  simp [script, writeCall, mallocs, WriteCall.program, WithHeap.ppuWriteSprites,
                    ppuWriteSpritesCalls, main, extra]
              | some spriteExtraBuf =>
                  simp only [script, writeCall, mallocs, WriteCall.program,
                    WithHeap.ppuWriteSprites, ppuWriteSpritesCalls, main, extra,
                    WriteScript.program_nowaymsg, WriteScript.program_malloc]
                  cases fillBuffers array len spriteBuf spriteExtraBuf len.toNat
                    { heap := process.heap, stores := [] } with
                  | error msg => rfl
                  | ok buffers => cases process.ppuFd <;> rfl

end Programs

/-! ## What the functions hold -/

section Holdings

variable {held : Finset ℕ} {rest : WriteScript}

theorem holding_nowaymsg {err : Bool} {msg : String} (passed : Holding held rest) :
    Holding held (WriteScript.nowaymsg err msg rest) := by
  cases err with
  | true => exact .abort
  | false => exact passed

theorem holding_malloc {size : ℕ} {next : Option ℕ → WriteScript}
    (some : ∀ ptr, Holding {ptr} (next (some ptr))) (none : Holding ∅ (next none)) :
    Holding ∅ (.malloc size next) :=
  .malloc (fun ptr _ => some ptr) none

/-- The last buffer is freed. -/
theorem holding_free (ptr : ℕ) (value : ℤ) :
    Holding {ptr} (.free ptr (.ret value) : WriteScript) := by
  refine .free (Finset.mem_singleton_self ptr) ?_
  rw [Finset.erase_singleton]
  exact .ret

theorem holding_pwrite {ptr : ℕ} {buf : ℕ → BitVec 8} {count offset : BitVec 32}
    (mine : ptr ∈ held) (following : Holding held rest) :
    Holding held (WriteScript.pwrite buf count offset rest) :=
  .request ⟨ptr, mine⟩ following

theorem holding_writeColumn {ptr : ℕ} {writeTiles : ℕ → BitVec 8} {count : BitVec 32}
    {next : BitVec 32 → WriteScript} (following : ∀ written, Holding {ptr} (next written))
    (towrite : ℕ) (written startAddr : BitVec 32) :
    Holding {ptr} (WithHeap.writeColumn writeTiles count next towrite written startAddr) := by
  induction towrite generalizing written startAddr with
  | zero => exact following written
  | succ towrite ih =>
      rw [WithHeap.writeColumn]
      exact .ite (fun _ => holding_pwrite (Finset.mem_singleton_self ptr) (ih _ _))
        fun _ => following written

theorem holding_writeColumns {ptr : ℕ} {writeTiles : ℕ → BitVec 8} {count topAddr : BitVec 32}
    (fuel : ℕ) (towrite written startAddr : BitVec 32) :
    Holding {ptr}
      (WithHeap.writeColumns ptr writeTiles count topAddr fuel towrite written startAddr) := by
  induction fuel generalizing towrite written startAddr with
  | zero => exact .abort
  | succ fuel ih =>
      rw [WithHeap.writeColumns]
      exact .ite (fun _ => holding_writeColumn (fun written => ih _ _ _) _ _ _)
        fun _ => holding_free ptr 0

/-- **A call holds its buffers** until it returns 0, and leaves them when it is
refused. -/
theorem BufferCall.holding (call : BufferCall) (ppuFd : Bool) (heap : ℕ → BitVec 8) :
    Holding ∅ (call.script ppuFd heap) := by
  cases call with
  | tilesHorizontal tiles len layer xI yI count =>
      refine holding_nowaymsg (holding_nowaymsg (holding_nowaymsg (holding_nowaymsg ?_)))
      cases tiles with
      | none => exact .abort
      | some tiles =>
          refine .ite (fun _ => .ret) fun _ => holding_malloc (fun ptr => ?_) .abort
          have mine := Finset.mem_singleton_self ptr
          refine holding_pwrite mine (.ite (fun _ => holding_free ptr 0) fun _ => ?_)
          exact holding_pwrite mine (.ite (fun _ => holding_free ptr 0) fun _ => .abort)
  | tilesVertical tiles len layer xI yI count =>
      refine holding_nowaymsg (holding_nowaymsg (holding_nowaymsg ?_))
      cases tiles with
      | none => exact .abort
      | some tiles =>
          refine .ite (fun _ => .ret) fun _ => holding_malloc (fun ptr => ?_) .abort
          exact holding_writeColumns _ _ _ _
  | sprites array len spriteIdI =>
      cases array with
      | none => exact .abort
      | some array =>
          refine holding_nowaymsg (holding_malloc (fun spriteBuf => ?_) .abort)
          refine .malloc (fun spriteExtraBuf other => ?_) .abort
          dsimp only
          cases fillBuffers array len spriteBuf spriteExtraBuf len.toNat
            { heap := heap, stores := [] } with
          | error msg => exact .abort
          | ok buffers =>
              refine .ite (fun _ => ?_) fun _ => .abort
              have mine : spriteBuf ∈ (insert spriteExtraBuf {spriteBuf} : Finset ℕ) :=
                Finset.mem_insert_of_mem (Finset.mem_singleton_self spriteBuf)
              have remaining : (insert spriteExtraBuf {spriteBuf} : Finset ℕ).erase spriteBuf =
                  {spriteExtraBuf} := by
                rw [Finset.mem_singleton] at other
                rw [Finset.erase_insert_of_ne other, Finset.erase_singleton]
                rfl
              refine holding_pwrite mine (holding_pwrite mine (.free mine ?_))
              rw [remaining]
              exact holding_free spriteExtraBuf 0

end Holdings

/-! ## Sequences of calls -/

/-- A call that has returned, with what the driver answered and the live buffers
before and after it. -/
structure HeapEvent where
  call : BufferCall
  answers : List Answer
  before : Finset ℕ
  after : Finset ℕ

/-- A program that makes calls that return, and that allocates and frees buffers
of its own between them. -/
inductive HeapSession : Finset ℕ → List HeapEvent → Prop where
  | stop {live : Finset ℕ} : HeapSession live []
  | elsewhere {live live' : Finset ℕ} {events : List HeapEvent} (rest : HeapSession live' events) :
      HeapSession live events
  | returned {live live' : Finset ℕ} {call : BufferCall} {ppuFd : Bool} {heap : ℕ → BitVec 8}
      {answers : List Answer} {value : ℤ} {events : List HeapEvent}
      (run : Run live (call.script ppuFd heap) answers live' (.returned value))
      (rest : HeapSession live' events) :
      HeapSession live (⟨call, answers, live, live'⟩ :: events)

/-- **No leaks without busy answers.** In any sequence of calls, the live buffers
after each call are those before it if and only if none of its `pwrite`s was
answered busy. -/
theorem no_leaks_iff {live : Finset ℕ} {events : List HeapEvent}
    (session : HeapSession live events) :
    ∀ e ∈ events, e.after = e.before ↔ Answer.refused ∉ e.answers := by
  induction session with
  | stop => exact fun e none => absurd none List.not_mem_nil
  | elsewhere rest ih => exact ih
  | @returned live live' call ppuFd heap answers value events run rest ih =>
      intro e member
      rcases List.mem_cons.mp member with rfl | later
      · exact run.live_eq_iff (call.holding ppuFd heap)
      · exact ih e later

/-- One tile. -/
def oneTile : BufferCall := .tilesHorizontal (some fun _ => 7) 1 layerBg 0 0 1

/-- The call with its buffer, when its `pwrite` is answered. -/
theorem oneTile_script : ∃ w : Pwrite, oneTile.script true (fun _ => 0) =
    .malloc 2 fun buffer =>
      match buffer with
      | none => .abort (.check "Malloc failed!")
      | some buffer => .request w (.free buffer (.ret 0)) (.ret (-1)) :=
  ⟨_, rfl⟩

theorem oneTile_refused :
    Run ∅ (oneTile.script true fun _ => 0) [.refused] {0} (.returned (-1)) := by
  obtain ⟨w, script⟩ := oneTile_script
  rw [script]
  exact @Run.malloc _ _ _ _ _ 0 _ _ _ (Finset.notMem_empty 0) (.refused .ret)

/-- Four tiles, written in two segments. -/
def fourTiles : BufferCall := .tilesHorizontal (some fun i => BitVec.ofNat 16 i) 3 layerFg 62 5 4

theorem fourTiles_script : ∃ w w' : Pwrite, fourTiles.script true (fun _ => 0) =
    .malloc 8 fun buffer =>
      match buffer with
      | none => .abort (.check "Malloc failed!")
      | some buffer =>
          .request w (.request w' (.free buffer (.ret 0)) (.ret (-1))) (.ret (-1)) :=
  ⟨_, _, rfl⟩

/-- Four tiles that are written at once leave no buffer behind; if the driver is busy at
the second segment, they do. -/
theorem no_leaks_iff_fourTiles :
    ∃ live live', HeapSession ∅
        [⟨fourTiles, [.granted, .granted], ∅, live⟩, ⟨fourTiles, [.granted, .refused], live, live'⟩] ∧
      live = ∅ ∧ live' ≠ ∅ := by
  obtain ⟨w, w', script⟩ := fourTiles_script
  have written : Run ∅ (fourTiles.script true fun _ => 0) [.granted, .granted] ∅ (.returned 0) := by
    rw [script]
    exact @Run.malloc _ _ _ _ _ 0 _ _ _ (Finset.notMem_empty 0) (.granted (.granted (.free .ret)))
  have busy : Run ∅ (fourTiles.script true fun _ => 0) [.granted, .refused] {0}
      (.returned (-1)) := by
    rw [script]
    exact @Run.malloc _ _ _ _ _ 0 _ _ _ (Finset.notMem_empty 0) (.granted (.refused .ret))
  have session : HeapSession ∅ [⟨fourTiles, [.granted, .granted], ∅, ∅⟩,
      ⟨fourTiles, [.granted, .refused], ∅, {0}⟩] := .returned written (.returned busy .stop)
  have kept := no_leaks_iff session _ List.mem_cons_self
  have lost := no_leaks_iff session _ (List.mem_cons_of_mem _ List.mem_cons_self)
  refine ⟨∅, {0}, session, kept.mpr (by decide), fun none => ?_⟩
  exact absurd (lost.mp none) (by decide)

/-- A tile for which the driver is busy leaves its buffer behind. -/
theorem busy_leaks :
    ∃ events, HeapSession ∅ events ∧ ∃ e ∈ events, e.call = oneTile ∧ e.after ≠ e.before := by
  have session : HeapSession ∅ [⟨oneTile, [.refused], ∅, {0}⟩] := .returned oneTile_refused .stop
  exact ⟨_, session, _, List.mem_singleton.mpr rfl, rfl, by decide⟩

end FPGame.Library
