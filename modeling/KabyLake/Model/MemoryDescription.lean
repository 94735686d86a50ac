import KabyLake.Model.PageWalk
import KabyLake.Stdio.Lines

/-! # Building a memory from its description

`mem_init_from_description` of `memory.c` with its loop over the lines of the master file. The
function that reads a page file is a parameter, and so are the outcomes of the allocations. The
line counter is an `int`; its sums wrap as they do in the compiled code.
-/

namespace KabyLake

open Stdio

/-- The contents of a page file. -/
abbrev Page := Fin 4096 → Byte

/-- Replace the 4096 bytes at `a`. -/
def MemSpace.putPage (memory : MemSpace) (a : ℕ) (page : Page) : MemSpace where
  size := memory.size
  byte x := if inside : a ≤ x ∧ x < a + 4096 then page ⟨x - a, by omega⟩ else memory.byte x

/-- A `page_file_read`: the file name, `*memory` and the address; the pointers may be `NULL`. -/
abbrev PageFileRead := Option Text → Option MemSpace → BitVec 32 → Exec (ErrorCode × Option MemSpace)

/-- What a call of the loader meets: the conversions that C leaves open, `page_file_read`, the
outcomes of the three calls of `calloc`, and the bits of its local `paddr`. -/
structure LoadContext where
  overflow : Overflow
  pageFileRead : PageFileRead
  memory : Bool
  fileName : Bool
  fileName2 : Bool
  paddr : PhyAddr

/-- The variables that live across lines. -/
structure Loader where
  memory : Option MemSpace
  nTranslationPages : BitVec 32
  fileName2 : Option Text

/-- What the caller sees: the code, `*memory` and `*mem_capacity_in_bytes`. -/
structure LoadReply where
  code : ErrorCode
  memory : Option MemSpace
  memCapacityInBytes : BitVec 64

/-- A block of 128 characters from `calloc`. -/
def nameBuffer (granted : Bool) : Option Text := if granted then some [] else none

/-- The store of `%s` to a block of 128 characters. -/
def storeWord (buffer : Option Text) (word : Text) : Exec (Option Text) :=
  match buffer with
  | none => .error .nullPointer
  | some _ => if word.length < 128 then .ok (some word) else .error .arrayBounds

/-- `sscanf` of a number and a word. Without a word it still returns one, and the block of the name
keeps what it holds. -/
def scanPageLine (base : ℕ) (line : Text) (fileName2 : Option Text) :
    Exec (Option (Bool × ℕ) × Option Text) :=
  match fscanfNumeral base none (.opened line) with
  | (none, _) => .ok (none, fileName2)
  | (some number, stream) =>
    match (fscanfString stream).1 with
    | none => .ok (some number, fileName2)
    | some word => storeWord fileName2 word >>= fun fileName2 => .ok (some number, fileName2)

namespace LoadContext

variable (context : LoadContext)

/-- The first line: the memory is allocated and zeroed. Its pointer is not looked at. -/
def sizeLine (line : Text) (loader : Loader) : Exec (ErrorCode × Loader) :=
  match (fscanfNumeral 10 none (.opened line)).1 with
  | none => .ok (.errBadParameter, loader)
  | some (negative, n) =>
    let memorySize := convert context.overflow 64 negative n
    .ok (.errNone, { loader with
      memory := if context.memory then some ⟨memorySize.toNat, fun _ => 0⟩ else none })

/-- The second line: the page of the top-level table. -/
def pgdLine (line : Text) (loader : Loader) : Exec (ErrorCode × Loader) :=
  match (fscanfString (.opened line)).1 with
  | none => .ok (.errBadParameter, loader)
  | some word => do
    let fileName ← storeWord (nameBuffer context.fileName) word
    let (code, memory) ← context.pageFileRead fileName loader.memory 0
    return (if code = .errNone then .errNone else .errBadParameter, { loader with memory })

/-- The third line: the number of translation pages. -/
def countLine (line : Text) (loader : Loader) : Exec (ErrorCode × Loader) :=
  match (fscanfNumeral 10 none (.opened line)).1 with
  | none => .ok (.errBadParameter, loader)
  | some (negative, n) =>
    .ok (.errNone, { loader with
      nTranslationPages := convertSigned context.overflow 32 negative n })

/-- The line of a translation page. Its address is read with `%d`. -/
def translationLine (line : Text) (loader : Loader) : Exec (ErrorCode × Loader) := do
  let (number, fileName2) ← scanPageLine 10 line loader.fileName2
  match number with
  | none => return (.errBadParameter, { loader with fileName2 })
  | some (negative, n) =>
    let address := convertSigned context.overflow 32 negative n
    let (code, memory) ← context.pageFileRead fileName2 loader.memory address
    return (if code = .errNone then .errNone else .errBadParameter, { loader with memory, fileName2 })

/-- The line of a data page, which goes where `page_walk` finds its virtual address. -/
def dataLine (line : Text) (loader : Loader) : Exec (ErrorCode × Loader) := do
  let (number, fileName2) ← scanPageLine 16 line loader.fileName2
  match number with
  | none => return (.errBadParameter, { loader with fileName2 })
  | some (negative, n) =>
    let vAddress := initVirtAddr64 (convert context.overflow 64 negative n)
    match loader.memory with
    | none => return (.errBadParameter, { loader with fileName2 })
    | some memory =>
      let (code, paddr) ← pageWalk memory vAddress context.paddr
      if code ≠ .errNone then return (.errBadParameter, { loader with fileName2 })
      else
        let (code, memory) ← context.pageFileRead fileName2 (some memory) (phyAddrTToUint32T paddr)
        return (if code = .errNone then .errNone else .errBadParameter,
          { loader with memory, fileName2 })

/-- The body of the loop. The sum `n_translation_pages + 3` wraps. -/
def lineRead (counter : BitVec 32) (line : Text) (loader : Loader) : Exec (ErrorCode × Loader) :=
  if counter = 0 then context.sizeLine line loader
  else if counter = 1 then context.pgdLine line loader
  else if counter = 2 then context.countLine line loader
  else if counter.slt (loader.nTranslationPages + 3) then context.translationLine line loader
  else context.dataLine line loader

/-- The loop over the lines, with its counter. -/
def linesRead : BitVec 32 → List Text → Loader → Exec (ErrorCode × Loader)
  | _, [], loader => .ok (.errNone, loader)
  | counter, line :: rest, loader => do
    let (code, loader) ← context.lineRead counter (cString line) loader
    if code ≠ .errNone then return (code, loader)
    else linesRead (counter + 1) rest loader

/-- `mem_init_from_description`. A master file of `none` cannot be opened, and is closed all the
same; a file of fewer than two lines frees a name that was never assigned. The number of pages is
assigned before its first use. -/
def memInitFromDescription (master : Option Text) (memory : Option MemSpace)
    (memCapacityInBytes : BitVec 64) : Exec LoadReply :=
  match master with
  | none => .error .nullPointer
  | some text => do
    let (code, loader) ← context.linesRead 0 (lines text) ⟨memory, 0, nameBuffer context.fileName2⟩
    if code ≠ .errNone then return ⟨code, loader.memory, memCapacityInBytes⟩
    else if (lines text).length < 2 then .error .danglingPointer
    else return ⟨.errNone, loader.memory, memCapacityInBytes⟩

end LoadContext

end KabyLake
