import KabyLake.Model.CacheByte
import KabyLake.Model.PageWalk
import KabyLake.Model.Program

/-! # Executing the commands of a program

`execute_command` of the cache test program: the page walk of the command's virtual address, and one
of the four cache functions at the physical address. A failed assertion ends the program without a
fault. The byte of a write is converted to a pointer there, so that a byte other than zero is used as
an address and zero is `NULL`.
-/

namespace KabyLake

/-- What a call of `execute_command` meets besides the memory and the caches: the command, the bits of
its locals, and the outcomes of the allocations of the functions it calls. -/
structure LineCall where
  command : Command
  paddr : PhyAddr
  word : BitVec 32
  byte : BitVec 8
  /-- the block for a word in `cache_read_byte` and `cache_write_byte` -/
  newWord : Option (BitVec 32)
  reading : Allocations
  writing : Allocations

/-- How a call ends: by a failed assertion, or with the code of the cache function and what it left in
the local `word` or `byte`. -/
inductive LineReply where
  | aborted
  | word (code : ErrorCode) (value : BitVec 32)
  | byte (code : ErrorCode) (value : BitVec 8)
  | written (code : ErrorCode)
deriving DecidableEq, Repr

/-- The kind of access that a stored `mem_access_t` stands for. -/
def MemAccess.ofStored (type : BitVec 32) : Option MemAccess :=
  if type = INSTRUCTION.stored then some INSTRUCTION
  else if type = DATA.stored then some DATA
  else none

/-- `case READ` of `execute_command`. A kind of access that is none is refused by `cache_read`. -/
def executeRead (system : CacheSystem) (line : LineCall) (paddr : PhyAddr) :
    Exec (CacheSystem × LineReply) :=
  match MemAccess.ofStored line.command.type with
  | none => .ok (system, if line.command.dataSize.toNat = sizeofWord then .word .errBadParameter line.word
      else .byte .errBadParameter line.byte)
  | some access =>
    if line.command.dataSize.toNat = sizeofWord then do
      let (system, reply) ← executeCommand system ⟨.read access, paddr, line.word, line.reading⟩
      return (system, .word reply.code reply.word)
    else do
      let (code, system, byte) ← cacheReadByte (CacheSystem.wordLayer line.reading line.writing) system
        paddr access line.byte line.newWord
      return (system, .byte code byte)

/-- `case WRITE` of `execute_command`. The low byte of the data is passed to `cache_write_byte` as the
pointer to the byte, which is read after the word. -/
def executeWrite (system : CacheSystem) (line : LineCall) (paddr : PhyAddr) :
    Exec (CacheSystem × LineReply) :=
  if line.command.dataSize.toNat = sizeofWord then do
    let (system, reply) ← executeCommand system ⟨.write, paddr, line.command.writeData, line.writing⟩
    return (system, .written reply.code)
  else if line.command.writeData.setWidth 8 = 0#8 then .ok (system, .written .errBadParameter)
  else match line.newWord with
    | none => .ok (system, .written .errBadParameter)
    | some word => do
      let (system, reply) ← executeCommand system ⟨.read .DATA, paddr, word, line.reading⟩
      if reply.code ≠ .errNone then return (system, .written .errBadParameter)
      else .error .danglingPointer

/-- `execute_command`. -/
def executeLine (system : CacheSystem) (line : LineCall) : Exec (CacheSystem × LineReply) := do
  let (code, paddr) ← pageWalk system.memSpace line.command.vaddr line.paddr
  if code ≠ .errNone then return (system, .aborted)
  else if line.command.order = CommandWord.READ then executeRead system line paddr
  else if line.command.order = CommandWord.WRITE then executeWrite system line paddr
  else return (system, .aborted)

/-- The first word operation that a command makes at its physical address. -/
def LineCall.call (line : LineCall) (paddr : PhyAddr) : CacheCall :=
  if line.command.order = CommandWord.WRITE then
    if line.command.dataSize.toNat = sizeofWord then
      ⟨.write, paddr, line.command.writeData, line.writing⟩
    else ⟨.read .DATA, paddr, line.newWord.getD 0, line.reading⟩
  else
    let access := (MemAccess.ofStored line.command.type).getD .DATA
    if line.command.dataSize.toNat = sizeofWord then ⟨.read access, paddr, line.word, line.reading⟩
    else ⟨.read access, paddr, line.newWord.getD 0, line.reading⟩

end KabyLake
