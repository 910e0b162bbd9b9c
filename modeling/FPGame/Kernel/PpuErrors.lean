import FPGame.Kernel.PpuCalls
import FPGame.Kernel.PpuLock

/-!
# Calls that fail

`ppu_write` and `ppu_ioctl` in the integer types of the source, as functions of
the state that they find and of what `copy_from_user` does. They are the runs of
the atomic steps that nothing interrupts (`runs_write_whole`, `runs_ioctl_iff`).

A call that is refused changes nothing. A copy from the user that fails is found
out only afterwards: the file offset, the registers and the lock are as before,
but the bytes that were copied stay in the VRAM.
-/

set_option autoImplicit false

namespace FPGame.PpuDriver

open FPGame.Foundation FPGame.Linux

/-! ## `copy_from_user` -/

/-- What `copy_from_user` does: how many bytes it copies if no more than these can
be read, and whether it clears the others. -/
structure UserCopy where
  copied : ℕ
  pad : Bool

namespace UserCopy

/-- The bytes that it stores. -/
def stored (copy : UserCopy) (bytes : List (BitVec 8)) : List (BitVec 8) :=
  bytes.take copy.copied ++
    if copy.pad then List.replicate (bytes.length - copy.copied) 0 else []

/-- How many bytes it could not copy, which is what it returns. -/
def left (copy : UserCopy) (bytes : List (BitVec 8)) : ℕ := bytes.length - copy.copied

theorem stored_of_left {copy : UserCopy} {bytes : List (BitVec 8)} (all : copy.left bytes = 0) :
    copy.stored bytes = bytes := by
  rw [left] at all
  rw [stored, all, List.take_of_length_le (by omega), List.replicate_zero, ite_self,
    List.append_nil]

end UserCopy

/-! ## The calls -/

/-- What `ppu_write` leaves. -/
structure Written where
  shared : Shared
  ret : ℤ
  offset : BitVec 64

/-- The result, with the position as a number. -/
def Written.toReturn (w : Written) : Return := ⟨w.shared, w.ret, w.offset.toNat⟩

/-- The bytes at the user's pointer. -/
def userBytes (buf : ℕ → BitVec 8) (len : BitVec 32) : List (BitVec 8) :=
  (List.range len.toNat).map buf

namespace Whole

/-- `ppu_write`; `len` is a `size_t` and `offset` is a `loff_t`. -/
def ppuWrite (cfg : Config) (sh : Shared) (buf : ℕ → BitVec 8) (len : BitVec 32)
    (offset : BitVec 64) (copy : UserCopy) : Written :=
  if (BitVec.ofNat 64 vramSize).slt (offset + len.setWidth 64) then ⟨sh, -EINVAL, offset⟩
  else if sh.vramLock = 1 then ⟨{ sh with vramLock := 1 }, -EBUSY, offset⟩
  else
    let addr := cfg.shift + (offset.setWidth 32).toNat
    let vram := storeBlock sh.vram addr (copy.stored (userBytes buf len))
    if copy.left (userBytes buf len) ≠ 0 then
      ⟨{ sh with vramLock := 0, vram := vram }, -EFAULT, offset⟩
    else ⟨{ sh with vramLock := 0, vram := vram }, len.toInt, offset + len.setWidth 64⟩

/-- `ppu_ioctl` -/
def ppuIoctl (cfg : Config) (sh : Shared) (num param : BitVec 32) : Shared × ℤ :=
  if sh.vramLock = 1 then ({ sh with vramLock := 1 }, -EBUSY)
  else
    match ioctlTarget cfg num.toNat param with
    | some (offset, val) =>
        ({ mmioWrite sh offset val with
            vramLock := if num.toNat = ioctlPpuUpdate then 1 else 0 }, 0)
    | none => ({ sh with vramLock := 0 }, -EINVAL)

end Whole

/-! ## The calls as runs of their steps -/

/-- A thread runs alone to the return of its call, whatever its user's buffer does. -/
inductive Finishes (cfg : Config) : Shared → Thread → Return → Prop where
  | returned {sh : Shared} {th : Thread} {ret : ℤ} (here : th.pc = .returned ret) :
      Finishes cfg sh th ⟨sh, ret, th.offset⟩
  | step {sh : Shared} {th : Thread} {r : Return} (choice : Choice)
      (inside : ∀ ret, th.pc ≠ .returned ret)
      (rest : Finishes cfg (act cfg sh th choice).1 (act cfg sh th choice).2 r) :
      Finishes cfg sh th r

/-- A call from outside the driver, run alone. -/
def Runs (cfg : Config) (sh : Shared) (call : Call) (r : Return) : Prop :=
  Finishes cfg (act cfg sh outside (.call call)).1 (act cfg sh outside (.call call)).2 r

section Steps

variable {cfg : Config} {sh : Shared} {offset : ℕ} {bytes : List (BitVec 8)} {copy : UserCopy}

/-- The result of a write that has taken the lock. -/
def copyReturn (cfg : Config) (sh : Shared) (offset : ℕ) (bytes : List (BitVec 8))
    (copy : UserCopy) : Return where
  shared := { sh with
    vramLock := 0, vram := storeBlock sh.vram (cfg.shift + offset) (copy.stored bytes) }
  ret := if copy.left bytes = 0 then bytes.length else -EFAULT
  offset := if copy.left bytes = 0 then offset + bytes.length else offset

/-- The result of a write at a file position. -/
def writeReturn (cfg : Config) (sh : Shared) (offset : ℕ) (bytes : List (BitVec 8))
    (copy : UserCopy) : Return :=
  if vramSize < offset + bytes.length then ⟨sh, -EINVAL, offset⟩
  else if sh.vramLock = 1 then ⟨sh, -EBUSY, offset⟩
  else copyReturn cfg sh offset bytes copy

/-- The state inside a copy that has stored some bytes. -/
def copying (cfg : Config) (sh : Shared) (offset : ℕ) (done : List (BitVec 8)) : Shared :=
  { sh with vramLock := 1, vram := storeBlock sh.vram (cfg.shift + offset) done }

/-- A byte more, if it is the next one of the user's. -/
theorem copying_byte {k : ℕ} (more : k < bytes.length) :
    { copying cfg sh offset (bytes.take k) with
      vram := store (copying cfg sh offset (bytes.take k)).vram true (cfg.shift + offset + k)
        bytes[k] } = copying cfg sh offset (bytes.take (k + 1)) := by
  rw [copying, copying, ← store_storeBlock_take sh.vram (cfg.shift + offset) bytes more]

/-- What has been stored when `k` bytes have been copied or cleared. -/
def padded (bytes : List (BitVec 8)) (copied k : ℕ) : List (BitVec 8) :=
  bytes.take copied ++ List.replicate (k - copied) 0

theorem padded_self {k : ℕ} : padded bytes k k = bytes.take k := by
  rw [padded, Nat.sub_self, List.replicate_zero, List.append_nil]

theorem length_padded {copied k : ℕ} (within : copied ≤ bytes.length) (after : copied ≤ k) :
    (padded bytes copied k).length = k := by
  rw [padded, List.length_append, List.length_take, List.length_replicate]
  omega

/-- A byte more, if it is cleared. -/
theorem copying_pad {copied k : ℕ} (within : copied ≤ bytes.length) (after : copied ≤ k) :
    { copying cfg sh offset (padded bytes copied k) with
      vram := store (copying cfg sh offset (padded bytes copied k)).vram true
        (cfg.shift + offset + k) 0 } = copying cfg sh offset (padded bytes copied (k + 1)) := by
  have size : (padded bytes copied k).length = k := length_padded within after
  have longer : padded bytes copied (k + 1) = padded bytes copied k ++ [0] := by
    rw [padded, padded, List.append_assoc, ← List.replicate_succ', Nat.succ_sub after]
  have more : k < (padded bytes copied (k + 1)).length := by
    rw [length_padded within (by omega)]
    omega
  have stored :=
    store_storeBlock_take sh.vram (cfg.shift + offset) (padded bytes copied (k + 1)) more
  have whole : (padded bytes copied (k + 1)).take (k + 1) = padded bytes copied (k + 1) :=
    List.take_of_length_le (by rw [length_padded within (by omega)])
  have first : (padded bytes copied (k + 1)).take k = padded bytes copied k := by
    rw [longer, List.take_append_of_le_length size.ge, List.take_of_length_le size.le]
  have last : (padded bytes copied (k + 1))[k] = 0 := by
    simp only [longer, List.getElem_append_right size.le, List.getElem_singleton]
  rw [whole, first, last] at stored
  rw [copying, copying, ← stored]

/-- Where a write is that runs alone and has passed its checks. -/
inductive CopyStage (cfg : Config) (sh : Shared) (offset : ℕ) (bytes : List (BitVec 8)) :
    Shared → Thread → Prop where
  | copy (k : ℕ) (within : k ≤ bytes.length) {th : Thread} (pc : th.pc = .writeCopy bytes k)
      (position : th.offset = offset) :
      CopyStage cfg sh offset bytes (copying cfg sh offset (bytes.take k)) th
  | pad (copied k : ℕ) (fault : copied < bytes.length) (after : copied ≤ k)
      (within : k ≤ bytes.length) {th : Thread} (pc : th.pc = .writePad bytes k)
      (position : th.offset = offset) :
      CopyStage cfg sh offset bytes (copying cfg sh offset (padded bytes copied k)) th
  | undo (copy : UserCopy) (fault : copy.left bytes ≠ 0) {th : Thread}
      (pc : th.pc = .writeUndo bytes) (position : th.offset = offset) :
      CopyStage cfg sh offset bytes (copying cfg sh offset (copy.stored bytes)) th
  | done {th : Thread} (pc : th.pc = .writeDone bytes)
      (position : th.offset = offset + bytes.length) :
      CopyStage cfg sh offset bytes (copying cfg sh offset bytes) th

/-- What a write has come to: it is still copying, or it has returned. -/
inductive CopyProgress (cfg : Config) (sh : Shared) (offset : ℕ) (bytes : List (BitVec 8))
    (sh' : Shared) (th : Thread) : Prop where
  | inside (stage : CopyStage cfg sh offset bytes sh' th)
  | ended (copy : UserCopy) (ret : ℤ) (pc : th.pc = .returned ret)
      (result : (⟨sh', ret, th.offset⟩ : Return) = copyReturn cfg sh offset bytes copy)

/-- **The step of a write that copies.** -/
theorem CopyStage.act {sh' : Shared} {th : Thread} (stage : CopyStage cfg sh offset bytes sh' th)
    (choice : Choice) :
    CopyProgress cfg sh offset bytes (act cfg sh' th choice).1 (act cfg sh' th choice).2 := by
  cases stage with
  | copy k within pc position =>
      cases byte : bytes[k]? with
      | none =>
          have ended : bytes.take k = bytes :=
            List.take_of_length_le (List.getElem?_eq_none_iff.mp byte)
          have effect : PpuDriver.act cfg (copying cfg sh offset (bytes.take k)) th choice =
              (copying cfg sh offset (bytes.take k),
                { th with pc := .writeDone bytes, offset := th.offset + bytes.length }) := by
            cases choice <;> simp only [PpuDriver.act, pc, byte]
          rw [effect, ended]
          exact .inside (.done rfl (congrArg (· + bytes.length) position))
      | some b =>
          obtain ⟨more, value⟩ := List.getElem?_eq_some_iff.mp byte
          have copies : PpuDriver.act cfg (copying cfg sh offset (bytes.take k)) th .advance =
              (copying cfg sh offset (bytes.take (k + 1)),
                { th with pc := .writeCopy bytes (k + 1) }) := by
            simp only [PpuDriver.act, pc, byte]
            rw [position, ← value, copying_byte more]
          cases choice with
          | advance =>
              rw [copies]
              exact .inside (.copy (k + 1) more rfl position)
          | call made =>
              rw [show PpuDriver.act cfg (copying cfg sh offset (bytes.take k)) th (.call made) =
                PpuDriver.act cfg (copying cfg sh offset (bytes.take k)) th .advance by
                  simp only [PpuDriver.act, pc, byte], copies]
              exact .inside (.copy (k + 1) more rfl position)
          | fault pad =>
              simp only [PpuDriver.act, pc, byte]
              cases pad with
              | false =>
                  have stored : bytes.take k = (UserCopy.mk k false).stored bytes :=
                    (List.append_nil _).symm
                  rw [stored]
                  exact .inside (.undo ⟨k, false⟩ (Nat.sub_ne_zero_of_lt more) rfl position)
              | true =>
                  rw [← padded_self]
                  exact .inside (.pad k k more le_rfl within rfl position)
  | pad copied k fault after within pc position =>
      by_cases more : k < bytes.length
      · simp only [PpuDriver.act, pc, if_pos more]
        rw [position, copying_pad fault.le after]
        exact .inside (.pad copied (k + 1) fault (by omega) more rfl rfl)
      · obtain rfl : k = bytes.length := by omega
        simp only [PpuDriver.act, pc, if_neg more]
        exact .inside (.undo ⟨copied, true⟩ (Nat.sub_ne_zero_of_lt fault) rfl position)
  | undo copy fault pc position =>
      simp only [PpuDriver.act, pc]
      refine .ended copy (-EFAULT) rfl ?_
      rw [copyReturn, if_neg fault, if_neg fault, position, copying]
  | done pc position =>
      simp only [PpuDriver.act, pc]
      have all : (UserCopy.mk bytes.length false).left bytes = 0 := Nat.sub_self _
      refine .ended ⟨bytes.length, false⟩ bytes.length rfl ?_
      rw [copyReturn, if_pos all, if_pos all, UserCopy.stored_of_left all, position, copying]

theorem finishes_returned_iff {th : Thread} {r : Return} {ret : ℤ} (here : th.pc = .returned ret) :
    Finishes cfg sh th r ↔ r = ⟨sh, ret, th.offset⟩ := by
  constructor
  · intro finishes
    cases finishes with
    | returned there =>
        obtain rfl := Pc.returned.inj (here.symm.trans there)
        rfl
    | step choice inside rest => exact absurd here (inside ret)
  · rintro rfl
    exact .returned here

/-- A step that leaves no choice. -/
theorem finishes_step_iff {sh' : Shared} {th th' : Thread} {r : Return}
    (inside : ∀ ret, th.pc ≠ .returned ret) (only : ∀ choice, act cfg sh th choice = (sh', th')) :
    Finishes cfg sh th r ↔ Finishes cfg sh' th' r := by
  constructor
  · intro finishes
    cases finishes with
    | returned here => exact absurd here (inside _)
    | step choice _ rest => rwa [only choice] at rest
  · intro rest
    refine .step .advance inside ?_
    rwa [only .advance]

/-- What a write that copies returns. -/
theorem CopyProgress.finishes {sh' : Shared} {th : Thread} {r : Return}
    (finishes : Finishes cfg sh' th r) (progress : CopyProgress cfg sh offset bytes sh' th) :
    ∃ copy, r = copyReturn cfg sh offset bytes copy := by
  induction finishes with
  | returned here =>
      cases progress with
      | inside stage =>
          cases stage with
          | copy k within pc | pad copied k fault after within pc | undo copy fault pc | done pc =>
              cases here.symm.trans pc
      | ended copy ret pc result =>
          obtain rfl := Pc.returned.inj (here.symm.trans pc)
          exact ⟨copy, result⟩
  | step choice inside rest ih =>
      cases progress with
      | inside stage => exact ih (stage.act choice)
      | ended copy ret pc result => exact absurd pc (inside ret)

/-! Each outcome of the copy is that of a run. -/

theorem finishes_undo (call : Call) (fault : copy.left bytes ≠ 0) :
    Finishes cfg (copying cfg sh offset (copy.stored bytes)) ⟨.writeUndo bytes, call, offset, true⟩
      (copyReturn cfg sh offset bytes copy) := by
  rw [copyReturn, if_neg fault, if_neg fault]
  exact .step .advance (fun _ other => by cases other) (.returned rfl)

theorem finishes_pad (call : Call) {copied : ℕ} (fault : copied < bytes.length) (d k : ℕ)
    (after : copied ≤ k) (rest : k + d = bytes.length) :
    Finishes cfg (copying cfg sh offset (padded bytes copied k))
      ⟨.writePad bytes k, call, offset, true⟩ (copyReturn cfg sh offset bytes ⟨copied, true⟩) := by
  refine .step .advance (fun _ other => by cases other) ?_
  induction d generalizing k with
  | zero =>
      obtain rfl : k = bytes.length := rest
      have cut : (UserCopy.mk copied true).left bytes ≠ 0 := Nat.sub_ne_zero_of_lt fault
      simp only [act, lt_irrefl, if_false]
      exact finishes_undo call cut
  | succ d ih =>
      simp only [act, if_pos (show k < bytes.length by omega)]
      rw [copying_pad fault.le after]
      exact .step .advance (fun _ other => by cases other) (ih (k + 1) (by omega) (by omega))

theorem finishes_copy (call : Call) (d k : ℕ) (rest : k + d = min copy.copied bytes.length) :
    Finishes cfg (copying cfg sh offset (bytes.take k)) ⟨.writeCopy bytes k, call, offset, true⟩
      (copyReturn cfg sh offset bytes copy) := by
  induction d generalizing k with
  | zero =>
      by_cases all : copy.left bytes = 0
      · have ended : k = bytes.length := by
          rw [UserCopy.left] at all
          omega
        have byte : bytes[k]? = none := List.getElem?_eq_none ended.ge
        refine .step .advance (fun _ other => by cases other) ?_
        simp only [act, byte]
        rw [List.take_of_length_le ended.ge, copyReturn, if_pos all, if_pos all,
          UserCopy.stored_of_left all]
        exact .step .advance (fun _ other => by cases other) (.returned rfl)
      · obtain ⟨copied, pad⟩ := copy
        rw [UserCopy.left] at all
        have more : k < bytes.length := by omega
        obtain rfl : k = copied := by
          have least : k + 0 = min copied bytes.length := rest
          omega
        have byte : bytes[k]? = some bytes[k] := List.getElem?_eq_getElem more
        refine .step (.fault pad) (fun _ other => by cases other) ?_
        simp only [act, byte]
        cases pad with
        | false =>
            have stored : bytes.take k = (UserCopy.mk k false).stored bytes :=
              (List.append_nil _).symm
            rw [stored]
            exact finishes_undo call all
        | true =>
            rw [← padded_self]
            exact finishes_pad call more (bytes.length - k) k le_rfl (by omega)
  | succ d ih =>
      have more : k < bytes.length := by omega
      have byte : bytes[k]? = some bytes[k] := List.getElem?_eq_getElem more
      refine .step .advance (fun _ other => by cases other) ?_
      simp only [act, byte]
      rw [copying_byte more]
      exact ih (k + 1) (by omega)

/-- **A write that runs alone** is `writeReturn` for what its copy does. -/
theorem runs_write_iff {r : Return} :
    Runs cfg sh (.write offset bytes) r ↔ ∃ copy, r = writeReturn cfg sh offset bytes copy := by
  by_cases beyond : vramSize < offset + bytes.length
  · simp only [Runs, writeReturn, act, outside, gt_iff_lt, if_pos beyond]
    rw [finishes_returned_iff rfl]
    exact ⟨fun result => ⟨⟨0, false⟩, result⟩, fun found => found.elim fun _ result => result⟩
  by_cases busy : sh.vramLock = 1
  · have same : ({ sh with vramLock := 1 } : Shared) = sh := by rw [← busy]
    have refused : ∀ choice : Choice,
        act cfg sh ⟨.writeTry bytes, .write offset bytes, offset, false⟩ choice =
          (sh, ⟨.returned (-EBUSY), .write offset bytes, offset, false⟩) := by
      intro choice
      simp only [act, if_pos busy, same]
    simp only [Runs, writeReturn, if_neg beyond, if_pos busy]
    simp only [act, outside, gt_iff_lt, if_neg beyond]
    rw [finishes_step_iff (fun _ other => by cases other) refused, finishes_returned_iff rfl]
    exact ⟨fun result => ⟨⟨0, false⟩, result⟩, fun found => found.elim fun _ result => result⟩
  · have taken : ∀ choice : Choice,
        act cfg sh ⟨.writeTry bytes, .write offset bytes, offset, false⟩ choice =
          (copying cfg sh offset (bytes.take 0),
            ⟨.writeCopy bytes 0, .write offset bytes, offset, true⟩) := by
      intro choice
      simp only [act, if_neg busy, copying, List.take_zero, storeBlock_nil]
    simp only [Runs, writeReturn, if_neg beyond, if_neg busy]
    simp only [act, outside, gt_iff_lt, if_neg beyond]
    rw [finishes_step_iff (fun _ other => by cases other) taken]
    constructor
    · exact fun finishes =>
        CopyProgress.finishes finishes (.inside (.copy 0 (Nat.zero_le _) rfl rfl))
    · rintro ⟨copy, rfl⟩
      exact finishes_copy _ _ 0 (Nat.zero_add _)

/-- **An ioctl that runs alone.** -/
theorem runs_ioctl_iff {num param : BitVec 32} {r : Return} :
    Runs cfg sh (.ioctl num.toNat param) r ↔
      r = ⟨(Whole.ppuIoctl cfg sh num param).1, (Whole.ppuIoctl cfg sh num param).2, 0⟩ := by
  have tries : ∀ choice : Choice,
      act cfg sh ⟨.ioctlTry num.toNat param, .ioctl num.toNat param, 0, false⟩ choice =
        if sh.vramLock = 1 then
          ({ sh with vramLock := 1 }, ⟨.returned (-EBUSY), .ioctl num.toNat param, 0, false⟩)
        else
          ({ sh with vramLock := 1 },
            ⟨.ioctlSwitch num.toNat param, .ioctl num.toNat param, 0, true⟩) := by
    intro choice
    simp only [act]
  simp only [Runs]
  simp only [act, outside]
  by_cases busy : sh.vramLock = 1
  · simp only [if_pos busy] at tries
    rw [finishes_step_iff (fun _ other => by cases other) tries, finishes_returned_iff rfl,
      Whole.ppuIoctl, if_pos busy]
  · simp only [if_neg busy] at tries
    have unlocks : ∀ (sh' : Shared) (ret : ℤ) (choice : Choice),
        act cfg sh' ⟨.ioctlUnlock ret, .ioctl num.toNat param, 0, true⟩ choice =
          ({ sh' with vramLock := 0 }, ⟨.returned ret, .ioctl num.toNat param, 0, false⟩) := by
      intro sh' ret choice
      simp only [act]
    rw [finishes_step_iff (fun _ other => by cases other) tries, Whole.ppuIoctl, if_neg busy]
    cases target : ioctlTarget cfg num.toNat param with
    | none =>
        have switches : ∀ choice : Choice, act cfg { sh with vramLock := 1 }
            ⟨.ioctlSwitch num.toNat param, .ioctl num.toNat param, 0, true⟩ choice =
              ({ sh with vramLock := 1 },
                ⟨.ioctlUnlock (-EINVAL), .ioctl num.toNat param, 0, true⟩) := by
          intro choice
          simp only [act, target]
        rw [finishes_step_iff (fun _ other => by cases other) switches,
          finishes_step_iff (fun _ other => by cases other) (unlocks _ _),
          finishes_returned_iff rfl]
    | some store =>
        obtain ⟨offset, val⟩ := store
        have switches : ∀ choice : Choice, act cfg { sh with vramLock := 1 }
            ⟨.ioctlSwitch num.toNat param, .ioctl num.toNat param, 0, true⟩ choice =
              (mmioWrite { sh with vramLock := 1 } offset val,
                ⟨if num.toNat = ioctlPpuUpdate then .returned 0 else .ioctlUnlock 0,
                  .ioctl num.toNat param, 0, true⟩) := by
          intro choice
          simp only [act, target]
        by_cases update : num.toNat = ioctlPpuUpdate
        · simp only [if_pos update] at switches ⊢
          rw [finishes_step_iff (fun _ other => by cases other) switches, finishes_returned_iff rfl]
          rfl
        · simp only [if_neg update] at switches ⊢
          rw [finishes_step_iff (fun _ other => by cases other) switches,
            finishes_step_iff (fun _ other => by cases other) (unlocks _ _),
            finishes_returned_iff rfl]
          rfl

end Steps

/-! ## The integer types -/

section Widths

variable {cfg : Config} {sh : Shared} {buf : ℕ → BitVec 8} {len : BitVec 32}
  {offset : BitVec 64} {copy : UserCopy}

@[simp] theorem length_userBytes : (userBytes buf len).length = len.toNat := by
  rw [userBytes, List.length_map, List.length_range]

theorem getElem_userBytes {k : ℕ} (within : k < (userBytes buf len).length) :
    (userBytes buf len)[k] = buf k := by
  simp only [userBytes, List.getElem_map, List.getElem_range]

/-- What the VFS guarantees: the position is not negative, and the sum fits. -/
def VfsGuarantee (offset : BitVec 64) (len : BitVec 32) : Prop :=
  offset.toNat + len.toNat < 2 ^ 63

/-- The sum of the bounds check. -/
theorem VfsGuarantee.sum (guarantee : VfsGuarantee offset len) :
    (offset + len.setWidth 64).toNat = offset.toNat + len.toNat := by
  rw [VfsGuarantee] at guarantee
  rw [BitVec.toNat_add, BitVec.toNat_setWidth]
  omega

/-- The bounds check, in signed integers. -/
theorem VfsGuarantee.beyond (guarantee : VfsGuarantee offset len) :
    (BitVec.ofNat 64 vramSize).slt (offset + len.setWidth 64) =
      decide (vramSize < offset.toNat + len.toNat) := by
  have sum := guarantee.sum
  rw [VfsGuarantee] at guarantee
  rw [BitVec.slt, BitVec.toInt_eq_toNat_of_lt (x := offset + len.setWidth 64) (by omega), sum]
  have size : (BitVec.ofNat 64 vramSize).toInt = (vramSize : ℤ) := by decide
  rw [size]
  exact decide_eq_decide.mpr Nat.cast_lt

/-- **The types of the source do not matter** where the VFS keeps its guarantee. -/
theorem Whole.ppuWrite_eq (guarantee : VfsGuarantee offset len) :
    (Whole.ppuWrite cfg sh buf len offset copy).toReturn =
      writeReturn cfg sh offset.toNat (userBytes buf len) copy := by
  have sum := guarantee.sum
  rw [Written.toReturn, Whole.ppuWrite, guarantee.beyond, writeReturn, length_userBytes]
  by_cases beyond : vramSize < offset.toNat + len.toNat
  · simp only [beyond, decide_true, if_true]
  by_cases busy : sh.vramLock = 1
  · have same : ({ sh with vramLock := 1 } : Shared) = sh := by rw [← busy]
    simp only [beyond, decide_false, Bool.false_eq_true, busy, if_false, if_true]
    rw [same]
  · have size : vramSize = 53568 := rfl
    -- the bounds check has made the truncation of the position harmless
    have position : (offset.setWidth 32).toNat = offset.toNat := by
      rw [BitVec.toNat_setWidth]
      exact Nat.mod_eq_of_lt (by omega)
    have count : len.toInt = len.toNat := BitVec.toInt_eq_toNat_of_lt (by omega)
    simp only [beyond, decide_false, Bool.false_eq_true, busy, if_false, position, copyReturn]
    by_cases all : copy.left (userBytes buf len) = 0
    · simp only [all, ne_eq, not_true_eq_false, if_false, if_true, length_userBytes, sum, count]
    · simp only [ne_eq, all, not_false_eq_true, if_true, if_false]

/-- **The function is the code**: its results are those of the runs of the steps. -/
theorem runs_write_whole (guarantee : VfsGuarantee offset len) {r : Return} :
    Runs cfg sh (.write offset.toNat (userBytes buf len)) r ↔
      ∃ copy, r = (Whole.ppuWrite cfg sh buf len offset copy).toReturn := by
  simp only [Whole.ppuWrite_eq guarantee]
  exact runs_write_iff

/-! ## What a call promises -/

/-- Kernel VRAM, registers and `vram_lock` are the same. -/
structure Untouched (sh sh' : Shared) : Prop where
  vram : sh'.vram = sh.vram
  mmio : sh'.mmio = sh.mmio
  vramLock : sh'.vramLock = sh.vramLock

/-- A write that fails changes nothing; one that succeeds stores its bytes and
moves the position. -/
structure WriteContract (cfg : Config) (sh : Shared) (buf : ℕ → BitVec 8) (len : BitVec 32)
    (offset : BitVec 64) (r : Return) : Prop where
  failed : r.ret < 0 → Untouched sh r.shared ∧ r.offset = offset.toNat
  performed : 0 ≤ r.ret →
    r.ret = len.toNat ∧ offset.toNat + len.toNat ≤ vramSize ∧
      (∀ a, r.shared.vram a =
        if cfg.shift + offset.toNat ≤ a ∧ a < cfg.shift + offset.toNat + len.toNat then
          buf (a - (cfg.shift + offset.toNat))
        else sh.vram a) ∧
      r.offset = offset.toNat + len.toNat

/-- An ioctl that fails changes nothing. -/
def IoctlContract (sh : Shared) (r : Shared × ℤ) : Prop := r.2 < 0 → Untouched sh r.1

/-- A failed copy stores only what is already there. -/
def Harmless (cfg : Config) (sh : Shared) (buf : ℕ → BitVec 8) (len : BitVec 32)
    (offset : BitVec 64) (copy : UserCopy) : Prop :=
  offset.toNat + len.toNat ≤ vramSize → sh.vramLock = 0 → copy.left (userBytes buf len) ≠ 0 →
    ∀ k (within : k < (copy.stored (userBytes buf len)).length),
      (copy.stored (userBytes buf len))[k] = sh.vram (cfg.shift + offset.toNat + k)

theorem ioctl_contract {num param : BitVec 32} (bit : sh.vramLock = 0 ∨ sh.vramLock = 1) :
    IoctlContract sh (Whole.ppuIoctl cfg sh num param) := by
  intro failed
  rw [Whole.ppuIoctl] at failed ⊢
  by_cases busy : sh.vramLock = 1
  · rw [if_pos busy]
    exact ⟨rfl, rfl, busy.symm⟩
  · have free : sh.vramLock = 0 := bit.resolve_right busy
    rw [if_neg busy] at failed ⊢
    cases target : ioctlTarget cfg num.toNat param with
    | none => exact ⟨rfl, rfl, free.symm⟩
    | some store =>
        simp only [target] at failed
        exact absurd failed (lt_irrefl 0)

/-- A block is there already. -/
theorem storeBlock_eq_self_iff {memory : ℕ → BitVec 8} {address : ℕ} {block : List (BitVec 8)} :
    storeBlock memory address block = memory ↔
      ∀ k (within : k < block.length), block[k] = memory (address + k) := by
  constructor
  · intro same k within
    rw [← storeBlock_at memory address block within, same]
  · intro there
    funext a
    by_cases inside : address ≤ a ∧ a < address + block.length
    · obtain ⟨k, rfl⟩ := Nat.exists_eq_add_of_le inside.1
      rw [storeBlock_at memory address block (by omega), there]
    · exact storeBlock_of_outside memory address block (by omega)

/-- A write keeps its promise unless it destroys something in a failed copy. -/
theorem write_contract_iff (guarantee : VfsGuarantee offset len)
    (bit : sh.vramLock = 0 ∨ sh.vramLock = 1) :
    WriteContract cfg sh buf len offset (Whole.ppuWrite cfg sh buf len offset copy).toReturn ↔
      Harmless cfg sh buf len offset copy := by
  rw [Whole.ppuWrite_eq guarantee, writeReturn, length_userBytes]
  by_cases beyond : vramSize < offset.toNat + len.toNat
  · rw [if_pos beyond]
    have refused : ¬ 0 ≤ -EINVAL := by decide
    exact iff_of_true
      ⟨fun _ => ⟨⟨rfl, rfl, rfl⟩, rfl⟩, fun success => absurd success refused⟩
      fun inside => absurd beyond inside.not_gt
  by_cases busy : sh.vramLock = 1
  · rw [if_neg beyond, if_pos busy]
    have refused : ¬ 0 ≤ -EBUSY := by decide
    exact iff_of_true
      ⟨fun _ => ⟨⟨rfl, rfl, rfl⟩, rfl⟩, fun success => absurd success refused⟩
      fun _ free => absurd (free.symm.trans busy) (by decide)
  have free : sh.vramLock = 0 := bit.resolve_right busy
  rw [if_neg beyond, if_neg busy]
  by_cases all : copy.left (userBytes buf len) = 0
  · refine iff_of_true ⟨?_, ?_⟩ fun _ _ fault => absurd all fault
    · intro failed
      simp only [copyReturn, if_pos all] at failed
      omega
    · intro _
      simp only [copyReturn, if_pos all, length_userBytes, UserCopy.stored_of_left all]
      refine ⟨trivial, not_lt.mp beyond, fun a => ?_, trivial⟩
      by_cases inside :
          cfg.shift + offset.toNat ≤ a ∧ a < cfg.shift + offset.toNat + len.toNat
      · obtain ⟨k, rfl⟩ := Nat.exists_eq_add_of_le inside.1
        rw [if_pos inside, storeBlock_at _ _ _ (by rw [length_userBytes]; omega),
          getElem_userBytes, Nat.add_sub_cancel_left]
      · rw [if_neg inside, storeBlock_of_outside _ _ _ (by rw [length_userBytes]; omega)]
  · have failed : (copyReturn cfg sh offset.toNat (userBytes buf len) copy).ret < 0 := by
      simp only [copyReturn, if_neg all]
      show -EFAULT < 0
      decide
    constructor
    · intro contract _ _ _
      exact storeBlock_eq_self_iff.mp (contract.failed failed).1.vram
    · intro harmless
      have same := storeBlock_eq_self_iff.mpr (harmless (not_lt.mp beyond) free all)
      refine ⟨fun _ => ⟨⟨same, rfl, free.symm⟩, ?_⟩, fun success => absurd failed success.not_gt⟩
      simp only [copyReturn, if_neg all]

end Widths

section Errors

variable {Tid : Type} [DecidableEq Tid] {cfg : Config} {s : State Tid} {buf : ℕ → BitVec 8}
  {len : BitVec 32} {offset : BitVec 64} {copy : UserCopy}

/-- **Error paths.** In every reachable state a write and all ioctls keep their
promises if and only if the write is not one that is inside the VRAM, gets the
lock, and has a user buffer that faults after something that was not there has
been stored. -/
theorem error_paths_iff (reachable : (driver Tid cfg).Reachable s)
    (guarantee : VfsGuarantee offset len) :
    (WriteContract cfg s.shared buf len offset
        (Whole.ppuWrite cfg s.shared buf len offset copy).toReturn ∧
      ∀ num param, IoctlContract s.shared (Whole.ppuIoctl cfg s.shared num param)) ↔
    Harmless cfg s.shared buf len offset copy := by
  obtain ⟨owner, owned⟩ := owned_of_reachable reachable
  rw [write_contract_iff guarantee owned.bit]
  exact and_iff_left fun num param => ioctl_contract owned.bit

end Errors

/-- A driver that nobody has called yet. -/
def untouchedDriver : State Unit where
  shared := { ppuLock := 0, vramLock := 0, vram := fun _ => 0, mmio := fun _ => 0, pending := 0 }
  threads _ := outside

theorem reachable_untouchedDriver (cfg : Config) :
    (driver Unit cfg).Reachable untouchedDriver :=
  .start ⟨rfl, rfl, rfl, fun _ => rfl⟩

/-- Two bytes that can be read. -/
theorem error_paths_iff_readable :
    WriteContract ⟨0, 0x30000000⟩ untouchedDriver.shared (fun _ => 1) 2 0x100
      (Whole.ppuWrite ⟨0, 0x30000000⟩ untouchedDriver.shared (fun _ => 1) 2 0x100
        ⟨2, true⟩).toReturn := by
  have guarantee : VfsGuarantee 0x100 2 := by
    rw [VfsGuarantee]
    decide
  have harmless : Harmless ⟨0, 0x30000000⟩ untouchedDriver.shared (fun _ => 1) 2 0x100
      ⟨2, true⟩ := fun _ _ fault => absurd rfl fault
  exact ((error_paths_iff (reachable_untouchedDriver _) guarantee).mpr harmless).1

/-- Two bytes of which the second cannot be read: the write fails, and the first
byte of the VRAM has changed. -/
theorem fault_changes_vram :
    (driver Unit ⟨0, 0x30000000⟩).Reachable untouchedDriver ∧ VfsGuarantee 0 2 ∧
    (Whole.ppuWrite ⟨0, 0x30000000⟩ untouchedDriver.shared (fun _ => 1) 2 0 ⟨1, true⟩).ret =
      -EFAULT ∧
    (Whole.ppuWrite ⟨0, 0x30000000⟩ untouchedDriver.shared (fun _ => 1) 2 0
      ⟨1, true⟩).shared.vram 0 = 1 ∧
    untouchedDriver.shared.vram 0 = 0 ∧
    ¬ WriteContract ⟨0, 0x30000000⟩ untouchedDriver.shared (fun _ => 1) 2 0
      (Whole.ppuWrite ⟨0, 0x30000000⟩ untouchedDriver.shared (fun _ => 1) 2 0
        ⟨1, true⟩).toReturn := by
  have changed : (Whole.ppuWrite ⟨0, 0x30000000⟩ untouchedDriver.shared (fun _ => 1) 2 0
      ⟨1, true⟩).shared.vram 0 = 1 := by decide
  have failed : (Whole.ppuWrite ⟨0, 0x30000000⟩ untouchedDriver.shared (fun _ => 1) 2 0
      ⟨1, true⟩).ret = -EFAULT := by decide
  have guarantee : VfsGuarantee 0 2 := by
    rw [VfsGuarantee]
    decide
  refine ⟨reachable_untouchedDriver _, guarantee, failed, changed, rfl, fun contract => ?_⟩
  have same := congrFun (contract.failed (by rw [Written.toReturn, failed]; decide)).1.vram 0
  rw [Written.toReturn, changed] at same
  exact absurd same (by decide)

end FPGame.PpuDriver
