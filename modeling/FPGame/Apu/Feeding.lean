import FPGame.Apu.Registers

/-!
# A stream through the base queue

`Feeding` puts the queue of one base address in front of the fetcher: of the
buffers that have been given to the hardware, all but the queued one have been
taken, and all but the one being fetched of these have been read.

A base address may be given only while the queue is empty (`Feeding.give`);
every other clock keeps the invariant (`Feeding.clock`).
-/

set_option autoImplicit false

namespace FPGame.Apu

open FPGame.Foundation SampleFetcher

/-- The hardware has been given `given` buffers of the stream. -/
structure Feeding (base : ℕ → BitVec 29) (word : ℕ → BitVec 64) (given : ℕ)
    (hw : Hardware) : Prop where
  fetching : Fetching base word hw.taken hw.apu.fetcher hw.bus hw.log
  given : given = hw.taken + hw.apu.queuedBaseValid.toNat
  queued : hw.apu.queuedBaseValid = true → hw.apu.queuedBase = base hw.taken

variable {base : ℕ → BitVec 29} {word : ℕ → BitVec 64} {given : ℕ} {hw : Hardware}

theorem Feeding.reset : Feeding base word 0 Hardware.reset where
  fetching := .reset
  given := rfl
  queued := nofun

/-- Every clock keeps the part of the fetcher. -/
theorem Feeding.fetch (feeding : Feeding base word given hw) (mmio : Option Mmio) (env : Env) :
    (hw.clock mmio env).taken =
        hw.taken + (baseAck hw.apu.fetcher hw.apu.queuedBaseValid).toNat ∧
      Fetching base word (hw.clock mmio env).taken (hw.clock mmio env).apu.fetcher
        (hw.clock mmio env).bus (hw.clock mmio env).log := by
  have following : Fetching base word
      (hw.taken + (baseAck hw.apu.fetcher hw.apu.queuedBaseValid).toNat)
      (hw.clock mmio env).apu.fetcher (hw.clock mmio env).bus (hw.clock mmio env).log := by
    refine feeding.fetching.clock (x := fetcherInput hw.apu (hw.input env)) rfl fun ack =>
      feeding.queued ?_
    simp only [baseAck, Bool.and_eq_true] at ack
    exact ack.2
  have count := following.taken
  rw [← Hardware.taken] at count
  exact ⟨count.symm, count ▸ following⟩

/-- **A clock without a store to the buffer register.** -/
theorem Feeding.clock (feeding : Feeding base word given hw) {mmio : Option Mmio}
    (noBuf : bufBase mmio = none) (env : Env) :
    Feeding base word given (hw.clock mmio env) := by
  obtain ⟨count, fetching⟩ := feeding.fetch mmio env
  obtain ⟨same, queue⟩ : (hw.clock mmio env).apu.queuedBase = hw.apu.queuedBase ∧
    (hw.clock mmio env).apu.queuedBaseValid =
      (hw.apu.queuedBaseValid && hw.apu.fetcher.addrValid) := next_of_no_buf noBuf
  refine ⟨fetching, ?_, fun valid => ?_⟩
  · rw [count, queue, feeding.given]
    cases hw.apu.queuedBaseValid <;> cases valid : hw.apu.fetcher.addrValid <;>
      simp [baseAck, valid]
  · rw [queue, Bool.and_eq_true] at valid
    rw [same, feeding.queued valid.1, count, baseAck, valid.2]
    rfl

/-- **A base address is given to an empty queue.** -/
theorem Feeding.give (feeding : Feeding base word given hw)
    (empty : hw.apu.queuedBaseValid = false) {mmio : Option Mmio}
    (store : bufBase mmio = some (base given)) (env : Env) :
    Feeding base word (given + 1) (hw.clock mmio env) := by
  obtain ⟨count, fetching⟩ := feeding.fetch mmio env
  have count' : (hw.clock mmio env).taken = given := by
    rw [count, feeding.given, empty, baseAck, Bool.and_false]
  have queue : (hw.clock mmio env).apu.queuedBaseValid = true := by
    simp only [Hardware.clock, next, store]
  refine ⟨fetching, ?_, fun _ => ?_⟩
  · rw [count', queue]
    rfl
  · rw [count']
    simp only [Hardware.clock, next, store, Option.getD_some]

/-- The memory looks up the chunk that is being fetched. -/
theorem Feeding.serve (feeding : Feeding base word given hw) {memory : ℕ → BitVec 8}
    (contents : hw.log.length / bufChunks < given →
      doubleword memory (chunkAt base word hw.log.length).1.toNat = word hw.log.length) :
    Feeding base word given (hw.serve memory) := by
  refine ⟨feeding.fetching.serve fun valid => contents ?_, feeding.given, feeding.queued⟩
  rw [feeding.given, Hardware.taken, valid, Bool.toNat_true]
  omega

/-- Whatever the memory returns, the buffers are taken one after the other. -/
theorem Feeding.serve_any (feeding : Feeding base word given hw) (memory : ℕ → BitVec 8) :
    ∃ word', Feeding base word' given (hw.serve memory) := by
  obtain ⟨word', fetching⟩ := feeding.fetching.serve_any (doubleword memory)
  exact ⟨word', fetching, feeding.given, feeding.queued⟩

/-- Only what has been given matters of a stream. -/
theorem Feeding.congr (feeding : Feeding base word given hw) {word' : ℕ → BitVec 64}
    (same : ∀ i, i / bufChunks < given → word' i = word i) : Feeding base word' given hw := by
  refine ⟨feeding.fetching.congr fun i within => same i ?_, feeding.given, feeding.queued⟩
  rw [feeding.given]
  omega

/-- At most two buffers have been given and not been read. -/
theorem Feeding.lag (feeding : Feeding base word given hw) :
    hw.log.length / bufChunks ≤ given ∧ given ≤ hw.log.length / bufChunks + 2 := by
  have taken := feeding.fetching.taken
  have count := feeding.given
  have valid := Bool.toNat_le hw.apu.fetcher.addrValid
  have queue := Bool.toNat_le hw.apu.queuedBaseValid
  omega

/-- While the queue is empty, only the last buffer given may still be fetched. -/
theorem Feeding.lag_of_empty (feeding : Feeding base word given hw)
    (empty : hw.apu.queuedBaseValid = false) : given ≤ hw.log.length / bufChunks + 1 := by
  have taken := feeding.fetching.taken
  have count := feeding.given
  have valid := Bool.toNat_le hw.apu.fetcher.addrValid
  rw [empty, Bool.toNat_false] at count
  omega

end FPGame.Apu
