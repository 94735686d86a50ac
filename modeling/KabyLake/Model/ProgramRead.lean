import KabyLake.Model.Program

/-! # Reading a program from a text file

The scanner of `commands.c`. A `char` holds the end of the file and the byte `0xFF` alike. The local
command of the reading loop is never initialised, so the bits it holds in each pass are an input of
the model, together with the outcome of the allocation that the pass may ask for.
-/

namespace KabyLake

open Stdio

/-- `EOF` converted to `char`. -/
def eofChar : Byte := 0xFF

/-- The loop of `next_nonspace_read`, one character a step. -/
def skipSpaces : Text → Bool → Byte × Stream
  | [], _ => (eofChar, ⟨[], true⟩)
  | c :: rest, eof => if isSpace c && c != eofChar then skipSpaces rest eof else (c, ⟨rest, eof⟩)

/-- `next_nonspace_read`. -/
def nextNonspaceRead (entree : Stream) : Byte × Stream := skipSpaces entree.rest entree.eof

/-- `read_read`. Only a successful read assigns to `*com`, and neither branch assigns all of it. -/
def readRead (overflow : Overflow) (entree : Stream) (com : Command) :
    ErrorCode × Command × Stream :=
  let (order, entree) := nextNonspaceRead entree
  if order = eofChar then (.errBadParameter, com, entree)
  else if order = ascii 'I' then
    let (mark, entree) := nextNonspaceRead entree
    if mark = ascii '@' then
      match fscanfNumeral 16 none entree with
      | (none, entree) => (.errBadParameter, com, entree)
      | (some (negative, n), entree) =>
        let vaddr := initVirtAddr64 (convert overflow 64 negative n)
        (.errNone, { com with
          order := CommandWord.READ, type := MemAccess.INSTRUCTION.stored, vaddr }, entree)
    else (.errBadParameter, com, entree)
  else
    let (size, entree) := nextNonspaceRead entree
    if ¬ (size = ascii 'W' ∨ size = ascii 'B') then (.errBadParameter, com, entree)
    else
      let (mark, entree) := nextNonspaceRead entree
      if mark = ascii '@' then
        match fscanfNumeral 16 none entree with
        | (none, entree) => (.errBadParameter, com, entree)
        | (some (negative, n), entree) =>
          let vaddr := initVirtAddr64 (convert overflow 64 negative n)
          (.errNone, { com with
            order := CommandWord.READ, type := MemAccess.DATA.stored, vaddr,
            dataSize := if size = ascii 'W' then BitVec.ofNat 64 sizeofWord else 1 }, entree)
      else (.errBadParameter, com, entree)

/-- `read_write`. The first character is compared with the enumerators, not with letters. -/
def readWrite (overflow : Overflow) (entree : Stream) (com : Command) :
    ErrorCode × Command × Stream :=
  let (order, entree) := nextNonspaceRead entree
  if ¬ (order.signExtend 32 = CommandWord.WRITE ∨ order.signExtend 32 = CommandWord.READ) then
    (.errBadParameter, com, entree)
  else
    let (size, entree) := nextNonspaceRead entree
    if ¬ (size = ascii 'W' ∨ size = ascii 'B') then (.errBadParameter, com, entree)
    else
      match fscanfNumeral 16 none entree with
      | (none, entree) => (.errBadParameter, com, entree)
      | (some (negative, n), entree) =>
        let value := convert overflow 32 negative n
        let (mark, entree) := nextNonspaceRead entree
        if mark = ascii '@' then
          match fscanfNumeral 16 (some 64) entree with
          | (none, entree) => (.errBadParameter, com, entree)
          | (some (negative, n), entree) =>
            let vaddr := initVirtAddr64 (convert overflow 64 negative n)
            (.errNone, {
              order := CommandWord.WRITE, type := MemAccess.DATA.stored, writeData := value,
              dataSize := if size = ascii 'W' then BitVec.ofNat 64 sizeofWord else 1, vaddr }, entree)
        else (.errBadParameter, com, entree)

/-- What one pass of the loop of `program_read` finds: the bits of its local `command`, and the
outcome of `realloc`. -/
structure Pass where
  command : Command
  outcome : Option (ℕ → Command)

/-- The reading half of one pass; the codes of `read_read` and `read_write` are not looked at. -/
def programReadCommand (overflow : Overflow) (command : Command) (entree : Stream) :
    Option Command × Stream :=
  let (first, entree) := nextNonspaceRead entree
  if first = ascii 'R' then
    let (_, command, entree) := readRead overflow entree command
    (some command, entree)
  else if first = ascii 'W' then
    let (_, command, entree) := readWrite overflow entree command
    (some command, entree)
  else (none, entree)

/-- The storing half of one pass. -/
def programReadStore (program : Program) (outcome : Option (ℕ → Command)) :
    Option Command → Exec (ErrorCode × Program)
  | some command => programAddCommand program command outcome
  | none => .ok (.errNone, program)

/-- The loop of `program_read`. Every pass consumes a character or sees the end of the file, so the
length of the text bounds their number. -/
def programReadLoop (overflow : Overflow) : ℕ → (ℕ → Pass) → Stream → Program →
    Exec (ErrorCode × Program)
  | 0, _, _, _ => .error .divergence
  | fuel + 1, passes, entree, program => do
    let (command, entree) := programReadCommand overflow (passes 0).command entree
    let (code, program) ← programReadStore program (passes 0).outcome command
    if code ≠ .errNone then return (.errBadParameter, program)
    else if entree.eof then return (.errNone, program)
    else programReadLoop overflow fuel (fun pass => passes (pass + 1)) entree program

/-- `program_read`; a file of `none` cannot be opened. -/
def programRead (overflow : Overflow) (file : Option Text) (zeroed : Bool) (passes : ℕ → Pass)
    (program : Program) : Exec (ErrorCode × Program) :=
  match program.listing with
  | none => .ok (.errBadParameter, program)
  | some _ =>
    match file with
    | none => .ok (.errIo, program)
    | some text =>
      let (code, program) := programInit zeroed program
      if code ≠ .errNone then .ok (.errBadParameter, program)
      else programReadLoop overflow (text.length + 1) passes (.opened text) program

end KabyLake
