import KabyLake.Soundness.FlatMemory

/-! # When a command stops the program

In every state that a run of commands reaches, with any addresses and any outcomes of the allocations,
the next command leaves defined behaviour exactly when its page walk does, when its block does not lie in
the memory and is read or written there, when it goes on without memory for a line or for the entry that
leaves L1, or when it has read the word for the write of a byte.
-/

namespace KabyLake

open Machine

section Paths

variable {memSpace : MemSpace} {paddr : PhyAddr} {access : MemAccess} {l1Cache l2Cache : Cache}
  {word : BitVec 32} {allocations : Allocations} {type : CacheType} {s : ℕ}

/-- The faults of a write that misses L1. -/
inductive WriteMissFaults (memSpace : MemSpace) (paddr : PhyAddr) (l1Cache : Cache)
    (allocations : Allocations) : Fault → Prop
  | line : allocations.memLine = false → WriteMissFaults memSpace paddr l1Cache allocations .nullPointer
  | outside : allocations.memLine = true → memSpace.size < paddr.address + 16 →
      WriteMissFaults memSpace paddr l1Cache allocations .memoryBounds
  | victim : allocations.memLine = true → paddr.address + 16 ≤ memSpace.size →
      Full .L1_DCACHE l1Cache (CacheType.L1_DCACHE.lineOf paddr.address) →
      allocations.oldEntry = none → WriteMissFaults memSpace paddr l1Cache allocations .nullPointer

end Paths

/-- The faults of one command on words. -/
inductive CommandFaults (system : CacheSystem) (call : CacheCall) : Fault → Prop
  | read {access : MemAccess} : call.operation = .read access → call.allocations.pLine = true →
      call.allocations.newentry ≠ none → call.paddr.address % 16 = 0 →
      (¬ ∃ w, Found access.cacheType (system.l1Cache access) call.paddr.address w) →
      system.memSpace.size < call.paddr.address + 16 → CommandFaults system call .memoryBounds
  | writeHit : call.operation = .write → call.allocations.pLine = true → call.allocations.pLine2 = true →
      (∃ w, Found .L1_DCACHE system.l1DCache call.paddr.address w) → call.allocations.newLine = true →
      system.memSpace.size < call.paddr.address + 16 → CommandFaults system call .memoryBounds
  | writeMiss {fault : Fault} : call.operation = .write → call.allocations.pLine = true →
      call.allocations.pLine2 = true → (¬ ∃ w, Found .L1_DCACHE system.l1DCache call.paddr.address w) →
      WriteMissFaults system.memSpace call.paddr system.l1DCache call.allocations fault →
      CommandFaults system call fault

section Commands

variable {system : CacheSystem} {call : CacheCall} {access : MemAccess}

end Commands

def LineCall.wordCall (line : LineCall) (target : PhyAddr) : Option CacheCall :=
  if line.command.order = CommandWord.READ then
    match MemAccess.ofStored line.command.type with
    | none => none
    | some access =>
      if line.command.dataSize.toNat = sizeofWord then some ⟨.read access, target, line.word, line.reading⟩
      else line.newWord.map fun word => ⟨.read access, target, word, line.reading⟩
  else if line.command.order = CommandWord.WRITE then
    if line.command.dataSize.toNat = sizeofWord then
      some ⟨.write, target, line.command.writeData, line.writing⟩
    else if line.command.writeData.setWidth 8 = 0#8 then none
    else line.newWord.map fun word => ⟨.read .DATA, target, word, line.reading⟩
  else none

section Lines

variable {system : CacheSystem} {line : LineCall} {target : PhyAddr}

/-- A command whose allocations are granted faults only at a block that is not in the memory. -/
theorem CommandFaults.lacks {call : CacheCall} {fault : Fault} (faults : CommandFaults system call fault) :
    ¬ call.allocations.Succeed ∨ system.memSpace.size < call.paddr.address + 16 := by
  cases faults with
  | read _ _ _ _ _ outside | writeHit _ _ _ _ _ outside => exact .inr outside
  | writeMiss _ _ _ _ faults =>
    cases faults with
    | line missing => exact .inl fun granted => by simp [granted.memLine] at missing
    | outside _ beyond => exact .inr beyond
    | victim _ _ _ missing => exact .inl fun granted => granted.oldEntry missing

/-- The word command goes to the physical address, with allocations of the line. -/
theorem wordCall_eq {call : CacheCall} (made : line.wordCall target = some call) :
    call.paddr = target ∧ (call.allocations = line.reading ∨ call.allocations = line.writing) := by
  have mapped {word : Option (BitVec 32)} {make : BitVec 32 → CacheCall} (some : word.map make = some call)
      (same : ∀ w, (make w).paddr = target ∧ (make w).allocations = line.reading) :
      call.paddr = target ∧ (call.allocations = line.reading ∨ call.allocations = line.writing) := by
    obtain ⟨w, _, rfl⟩ := Option.map_eq_some_iff.mp some
    exact (same w).imp_right .inl
  unfold LineCall.wordCall at made
  split at made
  · split at made
    · contradiction
    · split at made
      · cases made
        exact ⟨rfl, .inl rfl⟩
      · exact mapped made fun _ => ⟨rfl, rfl⟩
  · split at made
    · split at made
      · cases made
        exact ⟨rfl, .inr rfl⟩
      · split at made
        · contradiction
        · exact mapped made fun _ => ⟨rfl, rfl⟩
    · contradiction

end Lines

variable {memSpace : MemSpace} {system : CacheSystem} {history : List (LineCall × LineReply)}

end KabyLake
