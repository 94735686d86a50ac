import KabyLake.Model.MemoryFile
import KabyLake.Proofs.MemoryDescription

/-! # What the readers of memory files leave behind

`page_file_read` takes the zero that `fseek` returns for a failure, so it loads no page. The two
loaders of a memory keep the block that they have allocated when they return an error.
-/

namespace KabyLake

open Machine Stdio

def PageFile (files : Text → Option DiskFile) (name : Text) (file : DiskFile) : Prop :=
  files name = some file ∧ file.bytes.length = 4096

/-- A file of 4096 bytes is copied to the page at the address. Any other file, or a name without a
file, is an error and leaves the memory as it was. -/
structure LoadsOnePage (files : Text → Option DiskFile) (name : Text) (memory : MemSpace)
    (address : BitVec 32) : Prop where
  page : ∀ file, PageFile files name file → pageFileRead files (some name) (some memory) address =
    .ok (.errNone, some (memory.putBytes address.toNat file.bytes))
  other : (∀ file, ¬ PageFile files name file) → ∃ code, code ≠ .errNone ∧
    pageFileRead files (some name) (some memory) address = .ok (code, some memory)

/-- `page_file_read` does what it should for everything but page files. -/
theorem loadsOnePage_iff (files : Text → Option DiskFile) (name : Text) (memory : MemSpace)
    (address : BitVec 32) :
    LoadsOnePage files name memory address ↔ ∀ file, ¬ PageFile files name file := by
  have refused := pageFileRead_eq files (some name) (some memory) address
  constructor
  · intro loads file found
    have loaded := loads.page file found
    rw [refused] at loaded
    cases loaded
  · intro none
    constructor
    · exact fun file found => (none file found).elim
    · exact fun _ => ⟨.errBadParameter, by decide, refused⟩

def zeroFile : DiskFile :=
  ⟨List.replicate 4096 0, true, 4096, by rw [List.length_replicate]; decide⟩

theorem zeroPage_refused :
    pageFileRead (fun _ => some zeroFile) (some []) (some ⟨4096, fun _ => 0⟩) 0 =
      .ok (.errBadParameter, some ⟨4096, fun _ => 0⟩) ∧
    ¬ LoadsOnePage (fun _ => some zeroFile) [] ⟨4096, fun _ => 0⟩ 0 := by
  have refused := pageFileRead_eq (fun _ => some zeroFile) (some []) (some ⟨4096, fun _ => 0⟩) 0
  refine ⟨refused, fun loads => ?_⟩
  have loaded := loads.page zeroFile ⟨rfl, List.length_replicate⟩
  rw [refused] at loaded
  cases loaded

def LoadContext.onDisk (context : LoadContext) (files : Text → Option DiskFile) : LoadContext :=
  { context with pageFileRead := KabyLake.pageFileRead files }

inductive LoaderCall where
  | dumpfile (file : Option DiskFile) (outcome : Option (ℕ → Byte))
  | description (context : LoadContext) (files : Text → Option DiskFile) (master : Option Text)
      (memory : Option MemSpace) (memCapacityInBytes : BitVec 64)

def LoaderCall.run : LoaderCall → Exec LoadReply
  | dumpfile file outcome => memInitFromDumpfile file outcome
  | description context files master memory memCapacityInBytes =>
    (context.onDisk files).memInitFromDescription master memory memCapacityInBytes

/-- When the call returns an error, `*memory` is `NULL`. -/
def LoaderCall.GivesNull (call : LoaderCall) : Prop :=
  ∀ reply, call.run = .ok reply → reply.code ≠ .errNone → reply.memory = none

/-- The loader of a dump has a block and no byte to put in it. -/
def EmptyDump (file : Option DiskFile) (outcome : Option (ℕ → Byte)) : Prop :=
  outcome.isSome ∧ ∃ opened, file = some opened ∧ (opened.bytes = [] ∨ opened.readable = 0)

/-- The number of bytes that the loader of a dump finds and asks `fread` for is only zero for an empty
file. -/
theorem ofInt_ftell_pos {file : DiskFile} (nonempty : file.bytes ≠ []) :
    0 < (BitVec.ofInt 64 (fopen file).fseekEnd.2.ftell).toNat := by
  have small := file.small
  have long := List.length_pos_iff.mpr nonempty
  rw [ftell_fseekEnd, BitVec.toNat_ofInt]
  split
  · omega
  · decide

/-- The loader of a dump returns an error only if `fread` gives it no byte. -/
theorem memInitFromDumpfile_givesNull (file : Option DiskFile) (outcome : Option (ℕ → Byte)) :
    (LoaderCall.dumpfile file outcome).GivesNull ↔ ¬ EmptyDump file outcome := by
  cases file with
  | none => simp [LoaderCall.GivesNull, LoaderCall.run, memInitFromDumpfile, EmptyDump]
  | some file =>
    set count := BitVec.ofInt 64 (fopen file).fseekEnd.2.ftell with counted
    set memory : Option MemSpace := outcome.map fun garbage => ⟨count.toNat, garbage⟩ with allocated
    set bytes := (fopen file).fread count.toNat with transferred
    have isEmpty : bytes = [] ↔ file.bytes = [] ∨ file.readable = 0 := by
      by_cases nonempty : file.bytes = []
      · simp [transferred, nonempty, BinaryStream.fread, fopen]
      · exact fread_fopen_eq_nil file (ofInt_ftell_pos nonempty)
    have ran : memInitFromDumpfile (some file) outcome = (do
        let memory ← storeBytes memory 0 bytes
        if ¬ bytes.length > 0 then return ⟨.errBadParameter, memory, count⟩
        else return ⟨.errNone, memory, count⟩) := by
      simp only [memInitFromDumpfile, rewind_fseekEnd]
      rfl
    by_cases nothing : bytes = []
    · have result : memInitFromDumpfile (some file) outcome =
          .ok ⟨.errBadParameter, memory, count⟩ := by
        rw [ran, nothing]
        rfl
      simp [LoaderCall.GivesNull, LoaderCall.run, result, EmptyDump, isEmpty.mp nothing, allocated]
    · have empty : ¬ EmptyDump (some file) outcome := by
        rintro ⟨-, opened, same, unreadable⟩
        cases same
        exact nothing (isEmpty.mpr unreadable)
      refine iff_of_true ?_ empty
      intro reply result failed
      rw [LoaderCall.run, ran] at result
      obtain ⟨memory, _, last⟩ := bind_eq_ok_iff.mp result
      rw [if_neg (not_not.mpr (List.length_pos_iff.mpr nothing))] at last
      cases last
      exact (failed rfl).elim

def hasSize (line : Text) : Bool := (fscanfNumeral 10 none (.opened (cString line))).1.isSome

def NameStored (fileName : Bool) (line : Text) : Prop :=
  ∀ word, (fscanfString (.opened (cString line))).1 = some word → fileName = true ∧ word.length < 128

/-- The loader of a description finds a line that it does not accept while `*memory` is not `NULL`:
either the first one, when the caller has passed a block, or the second one, which it never accepts,
when the memory has been allocated. -/
def BufferKept (context : LoadContext) (memory : Option MemSpace) : List Text → Prop
  | [] => False
  | first :: rest =>
    if hasSize first then context.memory = true ∧ ∃ second more, rest = second :: more ∧
      NameStored context.fileName second
    else memory.isSome

section Description

variable (context : LoadContext) (files : Text → Option DiskFile)

theorem LoadContext.lineRead_first (first : Text) (loader : Loader) : ∃ code next,
    context.lineRead 0#32 (cString first) loader = .ok (code, next) ∧
    (hasSize first = true → code = .errNone ∧ next.memory.isSome = context.memory) ∧
    (hasSize first = false → code = .errBadParameter ∧ next = loader) := by
  rw [lineRead, if_pos (by decide), sizeLine, hasSize]
  cases (fscanfNumeral 10 none (.opened (cString first))).1 with
  | none => exact ⟨_, _, rfl, by simp, by simp⟩
  | some number =>
    obtain ⟨negative, n⟩ := number
    refine ⟨_, _, rfl, ?_, by simp⟩
    cases granted : context.memory <;> simp

theorem LoadContext.lineRead_second (second : Text) (loader : Loader) :
    (NameStored context.fileName second → (context.onDisk files).lineRead 1#32 (cString second) loader =
      .ok (.errBadParameter, loader)) ∧
    (¬ NameStored context.fileName second → ∃ fault,
      (context.onDisk files).lineRead 1#32 (cString second) loader = .error fault) := by
  rw [lineRead, if_neg (by decide), if_pos (by decide), pgdLine, NameStored]
  cases (fscanfString (.opened (cString second))).1 with
  | none => simp
  | some word =>
    cases granted : context.fileName with
    | false => simp [onDisk, granted, nameBuffer, storeWord]
    | true =>
      by_cases short : word.length < 128
      · simp [onDisk, granted, nameBuffer, storeWord, short, pageFileRead_eq]
      · simp [onDisk, granted, nameBuffer, storeWord, short]

/-- The loader of a description keeps the block exactly if a line is wrong while there is one. -/
theorem memInitFromDescription_givesNull (master : Option Text) (memory : Option MemSpace)
    (memCapacityInBytes : BitVec 64) :
    (LoaderCall.description context files master memory memCapacityInBytes).GivesNull ↔
      ¬ ∃ text, master = some text ∧ BufferKept context memory (lines text) := by
  cases master with
  | none => simp [LoaderCall.GivesNull, LoaderCall.run, LoadContext.memInitFromDescription]
  | some text =>
    simp only [Option.some.injEq, exists_eq_left', LoaderCall.GivesNull, LoaderCall.run,
      LoadContext.memInitFromDescription]
    have held : (⟨memory, 0, nameBuffer (context.onDisk files).fileName2⟩ : Loader).memory = memory := rfl
    generalize (⟨memory, 0, nameBuffer (context.onDisk files).fileName2⟩ : Loader) = loader at held ⊢
    cases split : lines text with
    | nil => simp [LoadContext.linesRead, BufferKept]
    | cons first rest =>
      obtain ⟨code, next, stepped, sized, unsized⟩ := (context.onDisk files).lineRead_first first loader
      cases size : hasSize first with
      | false =>
        obtain ⟨rfl, rfl⟩ := unsized size
        simp [LoadContext.linesRead, stepped, BufferKept, size, held]
      | true =>
        obtain ⟨rfl, allocated⟩ := sized size
        have granted : next.memory.isSome = context.memory := allocated
        cases rest with
        | nil => simp [LoadContext.linesRead, stepped, BufferKept, size]
        | cons second more =>
          obtain ⟨refused, strayed⟩ := context.lineRead_second files second next
          by_cases stored : NameStored context.fileName second
          · simp [LoadContext.linesRead, stepped, refused stored, BufferKept, size, stored, ← granted]
          · obtain ⟨fault, lost⟩ := strayed stored
            simp [LoadContext.linesRead, stepped, lost, BufferKept, size, stored]

/-- Whatever reads the page files, every reply of the loader leaves `*memory` as the first line left it:
an error at a later line does not give the block back. The counter of the lines wraps after `2 ^ 32`. -/
theorem LoadContext.reply_isSome {context : LoadContext} (keeps : KeepsPointer context.pageFileRead)
    {text first : Text} {rest : List Text} (split : lines text = first :: rest)
    (few : (lines text).length ≤ 2 ^ 32)
    {memory : Option MemSpace} {memCapacityInBytes : BitVec 64} {reply : LoadReply}
    (ran : context.memInitFromDescription (some text) memory memCapacityInBytes = .ok reply) :
    reply.memory.isSome = if hasSize first then context.memory else memory.isSome := by
  obtain ⟨⟨code, last⟩, read, ran⟩ := bind_eq_ok_iff.mp ran
  have kept : reply.memory = last.memory := by
    dsimp only at ran
    split_ifs at ran
    · cases ran
      rfl
    · cases ran
      rfl
  obtain ⟨code', next, stepped, sized, unsized⟩ :=
    context.lineRead_first first ⟨memory, 0, nameBuffer context.fileName2⟩
  have start : context.lineRead 0 (cString first) ⟨memory, 0, nameBuffer context.fileName2⟩ =
      .ok (code', next) := stepped
  rw [split, linesRead, start, ok_bind] at read
  rw [kept]
  cases size : hasSize first with
  | true =>
    obtain ⟨rfl, allocated⟩ := sized size
    refine (linesRead_isSome keeps (by decide) ?_ read).trans allocated
    simpa [split, Nat.add_comm] using few
  | false =>
    obtain ⟨rfl, rfl⟩ := unsized size
    cases read
    rfl

end Description

/-- The call finds its error while `*memory` is not `NULL`. -/
def LoaderCall.KeepsBlock : LoaderCall → Prop
  | dumpfile file outcome => EmptyDump file outcome
  | description context _ master memory _ =>
    ∃ text, master = some text ∧ BufferKept context memory (lines text)

/-- The loaders give `NULL` back on an error exactly if there is no block when they find the error. -/
theorem givesNull_iff (call : LoaderCall) : call.GivesNull ↔ ¬ call.KeepsBlock := by
  cases call with
  | dumpfile file outcome => exact memInitFromDumpfile_givesNull file outcome
  | description context files master memory memCapacityInBytes =>
    exact memInitFromDescription_givesNull context files master memory memCapacityInBytes

/-- An empty dump, and a description of a memory of 4096 bytes with its table in `p`, are errors that
leave a block behind. -/
theorem errors_keep_block :
    ¬ (LoaderCall.dumpfile (some ⟨[], true, 0, by decide⟩) (some fun _ => 0)).GivesNull ∧
    (∃ memory, (grantedLoad (pageFileRead fun _ => none)).memInitFromDescription
        (some (literal ['4', '0', '9', '6', '\n', 'p', '\n'])) none 0 =
      .ok ⟨.errBadParameter, some memory, 0⟩) ∧
    ¬ (LoaderCall.description (grantedLoad (pageFileRead fun _ => none)) (fun _ => none)
        (some (literal ['4', '0', '9', '6', '\n', 'p', '\n'])) none 0).GivesNull := by
  have ran : ∃ memory, (grantedLoad (pageFileRead fun _ => none)).memInitFromDescription
      (some (literal ['4', '0', '9', '6', '\n', 'p', '\n'])) none 0 =
        .ok ⟨.errBadParameter, some memory, 0⟩ := ⟨_, rfl⟩
  refine ⟨?_, ran, ?_⟩
  · rw [memInitFromDumpfile_givesNull, not_not]
    exact ⟨rfl, _, rfl, .inl rfl⟩
  · obtain ⟨memory, ran⟩ := ran
    intro gives
    have null := gives _ ran (by simp)
    cases null

end KabyLake
