import KabyLake.Model.CommandExecution
import KabyLake.Proofs.Program
import KabyLake.Soundness.CacheContainment
import KabyLake.Soundness.CacheSnapshot

/-! # Programs on a memory without caches

The caches, seen from the commands of a program, are the memory itself as long as no write changes a
block that the instruction cache carries. The snapshots of instructions then agree with the memory all
the time, so that the memory with snapshots is a memory without any, and a line of a program is its
page walk followed by one access to this memory.
-/

namespace KabyLake

open Machine

namespace MemSpace

variable {mem : MemSpace} {a b : ℕ} {w : BitVec 32}

theorem putWord_word : mem.putWord a (mem.word a) = mem := by
  have bytes : (mem.putWord a (mem.word a)).byte = mem.byte := by
    funext x
    simp only [putWord]
    split
    · next inside =>
      rw [word, LittleEndian.byte_word _ (by omega), show a + (x - a) = x by omega]
    · rfl
  exact congrArg (MemSpace.mk mem.size) bytes

/-- A word at the start of a block is not part of another block. -/
theorem line_putWord_other (aligned : a % 16 = 0) (other : b ≠ a / 16) :
    (mem.putWord a w).line (b * 16) = mem.line (b * 16) := by
  rw [← putLine_setWord]
  exact line_putLine_outside (by omega)

/-- One command on words of a memory without caches. -/
inductive WordStep (before : MemSpace) (call : CacheCall) : CacheReply → MemSpace → Prop
  | refused : ¬ call.allocations.Succeed → WordStep before call ⟨.errBadParameter, call.word⟩ before
  | read {access : MemAccess} : call.operation = .read access →
      WordStep before call ⟨.errNone, before.word (call.paddr.address / 4 * 4)⟩ before
  | write : call.operation = .write → call.paddr.address % 16 = 0 →
      WordStep before call ⟨.errNone, call.word⟩ (before.putWord call.paddr.address call.word)

end MemSpace

namespace SplitMemory

variable {before after : SplitMemory} {call : CacheCall} {reply : CacheReply}

/-- Every snapshot is what the memory holds. -/
def Fresh (split : SplitMemory) : Prop :=
  ∀ b line, split.fetched b = some line → line = split.memSpace.line (b * 16)

theorem Step.flat (taken : before.Step call reply after) (fresh : before.Fresh)
    (clean : call.operation = .write → ∀ line, before.fetched (call.paddr.address / 16) = some line →
      line.word (wordOf call.paddr.address) = call.word) :
    before.memSpace.WordStep call reply after.memSpace ∧ after.Fresh := by
  cases taken with
  | refused lacks => exact ⟨.refused lacks, fresh⟩
  | readData operation => exact ⟨.read operation, fresh⟩
  | fetchKept operation kept =>
    rw [fresh _ _ kept, word_fetched]
    exact ⟨.read operation, fresh⟩
  | @fetchMissing victim operation _ _ =>
    refine ⟨.read operation, fun b line there => ?_⟩
    simp only [fetch] at there
    split at there
    · next same =>
      subst same
      exact (Option.some.inj there).symm
    · split at there
      · contradiction
      · exact fresh b line there
  | write operation aligned =>
    refine ⟨.write operation aligned, fun b line there => ?_⟩
    dsimp only at there ⊢
    rcases eq_or_ne b (call.paddr.address / 16) with rfl | other
    · have word := clean operation line there
      rw [fresh _ _ there, word_fetched,
        show call.paddr.address / 4 * 4 = call.paddr.address by omega] at word
      rw [← word, MemSpace.putWord_word]
      exact fresh _ _ there
    · rw [MemSpace.line_putWord_other aligned other]
      exact fresh b line there

end SplitMemory

/-- The system carries only what its memory holds. -/
def Flat (system : CacheSystem) (memSpace : MemSpace) : Prop :=
  ∃ split, Splits system split ∧ split.Fresh ∧ split.memSpace = memSpace

structure LineCall.Granted (line : LineCall) : Prop where
  reading : line.reading.Succeed
  writing : line.writing.Succeed
  newWord : line.newWord ≠ none

/-- What a line of a program replies when the cache function it calls reports an error. -/
def LineCall.refusal (line : LineCall) : LineReply :=
  if line.command.order = CommandWord.WRITE then .written .errBadParameter
  else if line.command.dataSize.toNat = sizeofWord then .word .errBadParameter line.word
  else .byte .errBadParameter line.byte

def LineCall.Maps (line : LineCall) (memSpace : MemSpace) (target : PhyAddr) : Prop :=
  pageWalk memSpace line.command.vaddr line.paddr = .ok (.errNone, target)

/-- An accepted command whose physical address starts a block or is found in L1, and which changes no
block that the instruction cache carries. -/
structure LineCall.Served (system : CacheSystem) (line : LineCall) : Prop where
  accepted : checkCommand line.command = true
  admitted : ∀ target, line.Maps system.memSpace target → Admitted system (line.call target)
  clean : ∀ target, line.Maps system.memSpace target → ¬ Stains system (line.call target)

section Lines

variable {system next : CacheSystem} {line : LineCall} {target : PhyAddr} {reply : LineReply}
  {access : MemAccess}

@[simp] theorem MemAccess.ofStored_stored (access : MemAccess) :
    MemAccess.ofStored access.stored = some access := by
  cases access <;> rfl

private theorem read_ne_write : CommandWord.READ ≠ CommandWord.WRITE := by decide

theorem executeLine_readWord (maps : line.Maps system.memSpace target)
    (order : line.command.order = CommandWord.READ) (type : line.command.type = access.stored)
    (size : line.command.dataSize.toNat = sizeofWord) :
    line.call target = ⟨.read access, target, line.word, line.reading⟩ ∧
      executeLine system line = (executeCommand system (line.call target) >>= fun result =>
        .ok (result.1, .word result.2.code result.2.word)) := by
  have call : line.call target = ⟨.read access, target, line.word, line.reading⟩ := by
    simp only [LineCall.call, order, read_ne_write, size, type, MemAccess.ofStored_stored,
      Option.getD_some, ↓reduceIte]
  refine ⟨call, ?_⟩
  rw [LineCall.Maps] at maps
  simp only [executeLine, maps, order, executeRead, type, MemAccess.ofStored_stored, size, call, ok_bind,
    ne_eq, not_true_eq_false, ↓reduceIte, pure_eq_ok]

/-- A line that reads a byte is one command, if it gets memory for a word. -/
theorem executeLine_readByte {word : BitVec 32} (maps : line.Maps system.memSpace target)
    (order : line.command.order = CommandWord.READ) (type : line.command.type = access.stored)
    (size : line.command.dataSize.toNat ≠ sizeofWord) (newWord : line.newWord = some word) :
    line.call target = ⟨.read access, target, word, line.reading⟩ ∧
      executeLine system line = (executeCommand system (line.call target) >>= fun result =>
        .ok (result.1, if result.2.code ≠ .errNone then .byte .errBadParameter line.byte
          else .byte .errNone (LittleEndian.byte result.2.word (target.address % 4)))) := by
  have call : line.call target = ⟨.read access, target, word, line.reading⟩ := by
    simp only [LineCall.call, order, read_ne_write, size, type, MemAccess.ofStored_stored, newWord,
      Option.getD_some, ↓reduceIte]
  refine ⟨call, ?_⟩
  rw [LineCall.Maps] at maps
  simp only [executeLine, maps, order, executeRead, type, MemAccess.ofStored_stored, size, call, newWord,
    cacheReadByte_wordLayer, byteSelect_toNat, LittleEndian.setWidth_shiftRight_and, ok_bind, ne_eq,
    not_true_eq_false, ↓reduceIte, pure_eq_ok]
  cases executeCommand system ⟨.read access, target, word, line.reading⟩ with
  | error fault => rfl
  | ok result =>
    simp only [ok_bind]
    split <;> rfl

theorem executeLine_writeWord (maps : line.Maps system.memSpace target)
    (order : line.command.order = CommandWord.WRITE) (size : line.command.dataSize.toNat = sizeofWord) :
    line.call target = ⟨.write, target, line.command.writeData, line.writing⟩ ∧
      executeLine system line = (executeCommand system (line.call target) >>= fun result =>
        .ok (result.1, .written result.2.code)) := by
  have call : line.call target = ⟨.write, target, line.command.writeData, line.writing⟩ := by
    simp only [LineCall.call, order, size, ↓reduceIte]
  refine ⟨call, ?_⟩
  rw [LineCall.Maps] at maps
  simp only [executeLine, maps, order, read_ne_write.symm, executeWrite, size, call, ok_bind, ne_eq,
    not_true_eq_false, ↓reduceIte, pure_eq_ok]

private theorem exists_access {command : Command} (accepted : checkCommand command = true) :
    ∃ access : MemAccess, command.type = access.stored := by
  obtain ⟨_, types, _⟩ := checkCommand_iff.mp accepted
  rcases types with type | ⟨type, _⟩
  · exact ⟨.INSTRUCTION, type⟩
  · exact ⟨.DATA, type⟩

theorem LineCall.Maps.offset {memSpace : MemSpace} (maps : line.Maps memSpace target) :
    target.address % 4096 = line.command.vaddr.pageOffset.toNat := by
  have same : target.pageOffset = line.command.vaddr.pageOffset := by
    rcases pageWalk_result maps with ⟨_, same⟩ | ⟨impossible, _⟩
    · exact same
    · contradiction
  have small := line.command.vaddr.pageOffset.isLt
  rw [PhyAddr.address, phyAddrTToUint32T_toNat, same]
  omega

theorem LineCall.Maps.aligned {memSpace : MemSpace} (maps : line.Maps memSpace target)
    (accepted : checkCommand line.command = true) : target.address % 4 = 0 := by
  obtain ⟨_, _, aligned⟩ := checkCommand_iff.mp accepted
  have offset := maps.offset
  rw [sizeofWord] at aligned
  omega

theorem Flat.sound {memSpace : MemSpace} (flat : Flat system memSpace) : Sound system := by
  obtain ⟨split, splits, _, _⟩ := flat
  exact splits.sound

inductive LineReply.Succeeds : LineReply → Prop
  | word (value : BitVec 32) : Succeeds (.word .errNone value)
  | byte (value : BitVec 8) : Succeeds (.byte .errNone value)
  | written : Succeeds (.written .errNone)

/-- With all allocations granted a served line that is mapped inside the memory succeeds, unless it
writes a byte. -/
theorem Flat.progress (flat : Flat system system.memSpace) (served : line.Served system)
    (granted : line.Granted) (maps : line.Maps system.memSpace target)
    (inside : target.address + 16 ≤ system.memSpace.size)
    (word : line.command.order = CommandWord.WRITE → line.command.dataSize.toNat = sizeofWord) :
    ∃ next reply, executeLine system line = .ok (next, reply) ∧ reply.Succeeds := by
  obtain ⟨access, type⟩ := exists_access served.accepted
  have admitted := served.admitted target maps
  rcases (checkCommand_iff.mp served.accepted).1 with ⟨order, _⟩ | ⟨order, _⟩
  · by_cases size : line.command.dataSize.toNat = sizeofWord
    · obtain ⟨call, same⟩ := executeLine_readWord maps order type size
      obtain ⟨next, result, ran, success⟩ := flat.sound.progress admitted (by
        rw [call]
        exact granted.reading) (by rwa [call])
      refine ⟨next, _, ?_, .word result.word⟩
      rw [same, ran, ok_bind, success]
    · obtain ⟨newWord, available⟩ := Option.ne_none_iff_exists'.mp granted.newWord
      obtain ⟨call, same⟩ := executeLine_readByte maps order type size available
      obtain ⟨next, result, ran, success⟩ := flat.sound.progress admitted (by
        rw [call]
        exact granted.reading) (by rwa [call])
      refine ⟨next, _, ?_, .byte (LittleEndian.byte result.word (target.address % 4))⟩
      rw [same, ran, ok_bind, if_neg (not_not.mpr success)]
  · obtain ⟨call, same⟩ := executeLine_writeWord maps order (word order)
    obtain ⟨next, result, ran, success⟩ := flat.sound.progress admitted (by
      rw [call]
      exact granted.writing) (by rwa [call])
    refine ⟨next, _, ?_, .written⟩
    rw [same, ran, ok_bind, success]

end Lines

variable {memSpace : MemSpace} {system : CacheSystem} {history : List (LineCall × LineReply)}

end KabyLake
