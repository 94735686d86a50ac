import KabyLake.Model.Addr
import KabyLake.Stdio.Numeral

/-! # Programs of commands

The data of `commands.h` and the functions of `commands.c` that build and print a program. A command
that the C code leaves unassigned holds arbitrary bits, so its enumerations are kept as the integers
they are stored in. The listing is a block of elements; an element outside the block cannot be read
or written. Counts of elements are natural numbers: `size_t` could only wrap after an allocation of
`2 ^ 63` bytes.
-/

namespace KabyLake

open Stdio

/-- `command_word_t`. -/
abbrev CommandWord := BitVec 32

def CommandWord.READ : CommandWord := 0

def CommandWord.WRITE : CommandWord := 1

/-- The integer in which a `mem_access_t` is stored. -/
def MemAccess.stored : MemAccess → BitVec 32
  | INSTRUCTION => 0
  | DATA => 1

/-- `command_t`. -/
structure Command where
  order : CommandWord
  type : BitVec 32
  dataSize : BitVec 64
  writeData : BitVec 32
  vaddr : VirtAddr
deriving DecidableEq, Repr

/-- A command of zero bytes. -/
def Command.zero : Command := ⟨0, 0, 0, 0, ⟨0, 0, 0, 0, 0, 0⟩⟩

/-- `sizeof(word_t)`. -/
def sizeofWord : ℕ := 4

/-- `sizeof(command_t)`. -/
def sizeofCommand : ℕ := 32

/-- `sizeof(command_t *)`. -/
def sizeofPointer : ℕ := 8

/-- `firstsize`. -/
def firstsize : ℕ := 10

/-- An allocated block of `count` commands. -/
structure Block where
  count : ℕ
  element : ℕ → Command

namespace Block

/-- `listing[i]`. -/
def load (block : Block) (i : ℕ) : Exec Command :=
  if i < block.count then .ok (block.element i) else .error .arrayBounds

/-- `listing[i] = command`. -/
def store (block : Block) (i : ℕ) (command : Command) : Exec Block :=
  if i < block.count then .ok { block with element := Function.update block.element i command }
  else .error .arrayBounds

/-- `realloc` to a number of bytes: `NULL`, or a block whose new elements hold anything. -/
def realloc (block : Block) (bytes : ℕ) (outcome : Option (ℕ → Command)) : Option Block :=
  outcome.map fun garbage =>
    ⟨bytes / sizeofCommand, fun i => if i < block.count then block.element i else garbage i⟩

end Block

/-- `program_t`; a listing of `none` is `NULL`. -/
structure Program where
  listing : Option Block
  nbLines : ℕ
  allocated : ℕ

/-- `program_init`, where `zeroed` is whether `calloc` succeeds. The field `allocated` is set to the
size of a pointer. -/
def programInit (zeroed : Bool) (program : Program) : ErrorCode × Program :=
  if !zeroed then (.errBadParameter, { program with listing := none })
  else (.errNone, ⟨some ⟨firstsize, fun _ => Command.zero⟩, 0, sizeofPointer⟩)

/-- `program_shrink`: the field `allocated` is set to a number of bytes. -/
def programShrink (program : Program) (outcome : Option (ℕ → Command)) : ErrorCode × Program :=
  match program.listing with
  | none => (.errBadParameter, program)
  | some block =>
    let allocated := if program.nbLines > firstsize then program.nbLines * sizeofCommand
      else firstsize * sizeofCommand
    match block.realloc allocated outcome with
    | none => (.errBadParameter, { program with listing := none, allocated })
    | some block => (.errNone, { program with listing := some block, allocated })

/-- The checks of `program_add_command`, in their order. -/
def checkCommand (command : Command) : Bool :=
  (command.order == CommandWord.READ || command.order == CommandWord.WRITE) &&
  (command.type == MemAccess.DATA.stored || command.type == MemAccess.INSTRUCTION.stored) &&
  command.vaddr.pageOffset.toNat % sizeofWord == 0 &&
  (!(command.order == CommandWord.READ) || command.writeData == 0) &&
  (!(command.order == CommandWord.WRITE && command.dataSize == 1) || command.writeData ≤ 0xFF) &&
  (!(command.type == MemAccess.DATA.stored) ||
    (command.dataSize.toNat == sizeofWord || command.dataSize == 1)) &&
  (!(command.order == CommandWord.WRITE) || command.type != MemAccess.INSTRUCTION.stored) &&
  (!(command.type == MemAccess.DATA.stored) || command.dataSize != 0)

/-- `program_add_command`, with the outcome of its `realloc`. -/
def programAddCommand (program : Program) (command : Command) (outcome : Option (ℕ → Command)) :
    Exec (ErrorCode × Program) :=
  match program.listing with
  | none => .ok (.errBadParameter, program)
  | some block =>
    if !checkCommand command then .ok (.errBadParameter, program)
    else if program.nbLines < program.allocated then do
      let block ← block.store program.nbLines command
      return (.errNone, { program with listing := some block, nbLines := program.nbLines + 1 })
    else
      let allocated := program.allocated * 2
      match block.realloc (allocated * sizeofCommand) outcome with
      | none => .ok (.errBadParameter, { program with listing := none, allocated })
      | some block => do
        let block ← block.store program.nbLines command
        return (.errNone, ⟨some block, program.nbLines + 1, allocated⟩)

/-- The commands of a program, in order. -/
def Program.lines (program : Program) : List Command :=
  match program.listing with
  | none => []
  | some block => (List.range program.nbLines).map block.element

/-- `"@0x%016" PRIX64 "\n"` for the address of a command. -/
def printAddress (vaddr : VirtAddr) : Text :=
  ascii '@' :: ascii '0' :: ascii 'x' :: paddedNumeral 16 16 (virtAddrTToUint64T vaddr).toNat ++
    [ascii '\n']

/-- What `program_print` writes for one line. -/
def printLine (line : Command) : Text :=
  let order := if line.order = CommandWord.READ then 'R' else 'W'
  let instruction := if line.type = MemAccess.INSTRUCTION.stored then 'I' else 'D'
  let size := if instruction = 'D' then
    if line.dataSize.toNat = sizeofWord then 'W' else 'B' else '\x00'
  if order = 'R' then
    if instruction = 'I' then literal ['R', ' ', 'I', ' '] ++ printAddress line.vaddr
    else literal ['R', ' ', 'D', size, ' '] ++ printAddress line.vaddr
  else if size = 'W' then
    literal ['W', ' ', instruction, size, ' ', '0', 'x'] ++
      paddedNumeral 16 8 line.writeData.toNat ++ ascii ' ' :: printAddress line.vaddr
  else
    literal ['W', ' ', instruction, size, ' ', '0', 'x'] ++
      numeral 16 line.writeData.toNat ++ ascii ' ' :: printAddress line.vaddr

/-- `program_print`, with what it appends to the stream. -/
def programPrint (program : Program) : Exec (ErrorCode × Text) :=
  match program.listing with
  | none => .ok (.errBadParameter, [])
  | some block => do
    let lines ← (List.range program.nbLines).mapM block.load
    return (.errNone, lines.flatMap printLine)

/-- A program, and whether its listing was given back; the pointer to a freed listing is kept. -/
structure OwnedProgram where
  program : Program
  freed : Bool

/-- `program_free`. A listing is given back once; the field `listing` is not assigned. -/
def programFree (owned : OwnedProgram) : Exec (ErrorCode × OwnedProgram) :=
  let program := { owned.program with nbLines := 0, allocated := 0 }
  match owned.program.listing with
  | none => .ok (.errNone, { owned with program })
  | some _ =>
    if owned.freed then .error .danglingPointer else .ok (.errNone, ⟨program, true⟩)

end KabyLake
