import Mathlib.Data.Finset.Basic

/-!
# Scripts that allocate

A script allocates and frees buffers and makes requests, each of which is granted
or refused. `Run` executes it on the set of the buffers that are live.

`Holding` is the discipline of a script that frees all of its buffers when it
returns, except that it returns at once when a request is refused. Such a script
leaves the set as it found it if and only if no request was refused
(`Run.live_eq_iff`).
-/

set_option autoImplicit false

namespace FPGame.Foundation

universe u v

/-- What a function does to the heap and asks of its environment. -/
inductive Script (Request : Type u) (Reason : Type v) where
  | ret (value : ℤ)
  | abort (reason : Reason)
  | malloc (size : ℕ) (next : Option ℕ → Script Request Reason)
  | free (ptr : ℕ) (next : Script Request Reason)
  | request (r : Request) (granted refused : Script Request Reason)

/-- The environment's answer to a request. -/
inductive Answer where
  | granted
  | refused
  | failed
deriving DecidableEq, Repr

/-- How a script ends. -/
inductive Script.End (Reason : Type v) where
  | returned (value : ℤ)
  | aborted (reason : Reason)

section Scripts

variable {Request : Type u} {Reason : Type v}

/-- Running a script on the live buffers; `malloc` returns `NULL` or a buffer that
is not live. -/
inductive Run : Finset ℕ → Script Request Reason → List Answer → Finset ℕ → Script.End Reason →
    Prop where
  | ret {live : Finset ℕ} {value : ℤ} : Run live (.ret value) [] live (.returned value)
  | abort {live : Finset ℕ} {reason : Reason} :
      Run live (.abort reason) [] live (.aborted reason)
  | malloc {live live' : Finset ℕ} {size ptr : ℕ} {next : Option ℕ → Script Request Reason}
      {answers : List Answer} {o : Script.End Reason} (fresh : ptr ∉ live)
      (rest : Run (insert ptr live) (next (some ptr)) answers live' o) :
      Run live (.malloc size next) answers live' o
  | noMemory {live live' : Finset ℕ} {size : ℕ} {next : Option ℕ → Script Request Reason}
      {answers : List Answer} {o : Script.End Reason}
      (rest : Run live (next none) answers live' o) :
      Run live (.malloc size next) answers live' o
  | free {live live' : Finset ℕ} {ptr : ℕ} {next : Script Request Reason}
      {answers : List Answer} {o : Script.End Reason}
      (rest : Run (live.erase ptr) next answers live' o) :
      Run live (.free ptr next) answers live' o
  | granted {live live' : Finset ℕ} {r : Request} {granted refused : Script Request Reason}
      {answers : List Answer} {o : Script.End Reason} (rest : Run live granted answers live' o) :
      Run live (.request r granted refused) (.granted :: answers) live' o
  | refused {live live' : Finset ℕ} {r : Request} {granted refused : Script Request Reason}
      {answers : List Answer} {o : Script.End Reason} (rest : Run live refused answers live' o) :
      Run live (.request r granted refused) (.refused :: answers) live' o
  | failed {live : Finset ℕ} {r : Request} {granted refused : Script Request Reason}
      {reason : Reason} : Run live (.request r granted refused) [.failed] live (.aborted reason)

/-- A script that holds some buffers frees them before it returns, unless a request
is refused while it holds one. -/
inductive Holding : Finset ℕ → Script Request Reason → Prop where
  | ret {value : ℤ} : Holding ∅ (.ret value)
  | abort {held : Finset ℕ} {reason : Reason} : Holding held (.abort reason)
  | malloc {held : Finset ℕ} {size : ℕ} {next : Option ℕ → Script Request Reason}
      (some : ∀ ptr, ptr ∉ held → Holding (insert ptr held) (next (some ptr)))
      (none : Holding held (next none)) : Holding held (.malloc size next)
  | free {held : Finset ℕ} {ptr : ℕ} {next : Script Request Reason} (mine : ptr ∈ held)
      (rest : Holding (held.erase ptr) next) : Holding held (.free ptr next)
  | request {held : Finset ℕ} {r : Request} {granted : Script Request Reason} {value : ℤ}
      (holds : held.Nonempty) (rest : Holding held granted) :
      Holding held (.request r granted (.ret value))

theorem Holding.ite {held : Finset ℕ} {c : Prop} [Decidable c] {yes no : Script Request Reason}
    (pos : c → Holding held yes) (neg : ¬ c → Holding held no) :
    Holding held (if c then yes else no) := by
  split_ifs with h
  · exact pos h
  · exact neg h

/-- **What a run leaves**: it frees what it holds, unless a request was refused. -/
theorem Run.live_of_holding {held live live' : Finset ℕ} {script : Script Request Reason}
    {answers : List Answer} {value : ℤ} (run : Run live script answers live' (.returned value))
    (holding : Holding held script) (owns : held ⊆ live) :
    (Answer.refused ∉ answers → live' = live \ held) ∧
      (Answer.refused ∈ answers → live \ held ⊂ live') := by
  generalize ended : Script.End.returned value = o at run
  induction run generalizing held with
  | ret =>
      cases holding
      exact ⟨fun _ => Finset.sdiff_empty.symm, fun none => absurd none List.not_mem_nil⟩
  | abort | failed => cases ended
  | @malloc live live' size ptr next answers o fresh rest ih =>
      cases holding with
      | malloc some none =>
          have kept := ih (some ptr fun mine => fresh (owns mine))
            (Finset.insert_subset_insert ptr owns) ended
          rwa [Finset.insert_sdiff_insert, Finset.sdiff_insert_of_notMem fresh] at kept
  | noMemory rest ih =>
      cases holding with
      | malloc some none => exact ih none owns ended
  | @free live live' ptr next answers o rest ih =>
      cases holding with
      | free mine following =>
          have kept := ih following (Finset.erase_subset_erase ptr owns) ended
          have same : live.erase ptr \ held.erase ptr = live \ held := by
            ext a
            simp only [Finset.mem_sdiff, Finset.mem_erase]
            constructor
            · rintro ⟨⟨other, inside⟩, out⟩
              exact ⟨inside, fun here => out ⟨other, here⟩⟩
            · rintro ⟨inside, out⟩
              refine ⟨⟨?_, inside⟩, fun here => out here.2⟩
              rintro rfl
              exact out mine
          rwa [same] at kept
  | granted rest ih =>
      cases holding with
      | request holds following =>
          have kept := ih following owns ended
          simpa only [List.mem_cons, reduceCtorEq, false_or] using kept
  | refused rest ih =>
      cases holding with
      | request holds following =>
          cases rest
          refine ⟨fun none => absurd List.mem_cons_self none, fun _ => ?_⟩
          exact Finset.sdiff_ssubset owns holds

/-- **No refusal, no leak.** -/
theorem Run.live_eq_iff {live live' : Finset ℕ} {script : Script Request Reason}
    {answers : List Answer} {value : ℤ} (run : Run live script answers live' (.returned value))
    (holding : Holding ∅ script) : live' = live ↔ Answer.refused ∉ answers := by
  obtain ⟨kept, grows⟩ := run.live_of_holding holding (Finset.empty_subset live)
  rw [Finset.sdiff_empty] at kept grows
  refine ⟨fun same refused => ?_, kept⟩
  exact (grows refused).ne same.symm

end Scripts

end FPGame.Foundation
