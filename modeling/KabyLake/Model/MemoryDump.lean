import KabyLake.Model.PageWalk
import KabyLake.Stdio.Numeral

/-! # Printing one page of the memory

`vmem_page_dump_with_options` of `memory.c` and the functions that it calls. The output is a list of
what the calls of `printf` and `putchar` write, in which a byte of the memory stands with the address
it was read from. Addresses are offsets from the start of the memory, and a pointer that was moved
behind the end of the memory can be compared but not read.
-/

namespace KabyLake

open Stdio

/-- `addr_fmt_t`. -/
inductive AddrFmt where
  | NONE | POINTER | OFFSET | OFFSET_U
deriving DecidableEq, Repr

/-- The options of a dump, where the line size is not zero as asserted, and what `%p` writes for an
address of the memory. -/
structure DumpOptions where
  showAddr : AddrFmt
  lineSize : ℕ
  positive : 0 < lineSize
  sep : Text
  pointer : ℕ → Text

/-- What one call writes: some text, or a byte of the memory with a separator. -/
inductive Printed where
  | text (written : Text)
  | byte (addr : ℕ) (value : Byte)
deriving DecidableEq, Repr

/-- `putchar('\n')`. -/
def newline : Printed := .text [ascii '\n']

/-- `"%02" PRIX8 "%s"` for a byte. -/
def Printed.render (sep : Text) : Printed → Text
  | text written => written
  | byte _ value => paddedNumeral 16 2 value.toNat ++ sep

/-- `*addr`. -/
def MemSpace.readByte (memSpace : MemSpace) (addr : ℕ) : Exec Byte :=
  if addr < memSpace.size then .ok (memSpace.byte addr) else .error .memoryBounds

namespace DumpOptions

variable (options : DumpOptions)

/-- `address_print`. -/
def addressPrint (showAddr : AddrFmt) (addr : ℕ) : List Printed :=
  match showAddr with
  | .NONE => []
  | .POINTER => [.text (options.pointer addr), .text (ascii ':' :: options.sep)]
  | .OFFSET => [.text (numeral 16 addr), .text (ascii ':' :: options.sep)]
  | .OFFSET_U => [.text (numeral 10 addr), .text (ascii ':' :: options.sep)]

/-- The loop of `mem_dump_with_options` over `count` bytes, with its counter of the bytes that are left
on the line. -/
def dumpLoop (memSpace : MemSpace) (showAddr : AddrFmt) :
    ℕ → ℕ → ℕ → Exec (List Printed × ℕ)
  | 0, _, nbToPrint => .ok ([], nbToPrint)
  | count + 1, addr, nbToPrint => do
    let address := if nbToPrint = options.lineSize then options.addressPrint showAddr addr else []
    let value ← memSpace.readByte addr
    -- `--nb_to_print` and the end of the line
    let (nbToPrint, ended) :=
      if nbToPrint - 1 = 0 then (options.lineSize, [newline]) else (nbToPrint - 1, [])
    let (printed, nbToPrint) ← dumpLoop memSpace showAddr count (addr + 1) nbToPrint
    return (address ++ .byte addr value :: (ended ++ printed), nbToPrint)

/-- `mem_dump_with_options`; nothing is printed if `to'` is not above `from'`. -/
def memDumpWithOptions (memSpace : MemSpace) (from' to' : ℕ) (showAddr : AddrFmt) :
    Exec (List Printed) := do
  let (printed, nbToPrint) ←
    options.dumpLoop memSpace showAddr (to' - from') from' options.lineSize
  if nbToPrint ≠ options.lineSize then return printed ++ [newline]
  else return printed

/-- `vmem_page_dump_with_options`. -/
def vmemPageDumpWithOptions (memSpace : MemSpace) (vaddr : VirtAddr) :
    Exec (ErrorCode × List Printed) := do
  let (code, paddr) ← pageWalk memSpace vaddr ⟨0, 0⟩
  if code ≠ .errNone then return (code, [])
  else
    let paddrOffset := paddr.phyPageNum.setWidth 32 <<< 12
    let pageStart := paddrOffset.toNat
    let start := pageStart + paddr.pageOffset.toNat
    let endLine := start + (options.lineSize - paddr.pageOffset.toNat % options.lineSize)
    let end' := pageStart + 4096
    let before ← options.memDumpWithOptions memSpace pageStart start options.showAddr
    let indent := paddr.pageOffset.toNat % options.lineSize
    let blank := if indent = 0 then [newline] else []
    let address := options.addressPrint options.showAddr start
    let spaces := List.replicate indent (.text (ascii ' ' :: ascii ' ' :: options.sep))
    let line ← options.memDumpWithOptions memSpace start endLine .NONE
    let after ← options.memDumpWithOptions memSpace endLine end' options.showAddr
    return (.errNone, before ++ blank ++ address ++ spaces ++ line ++ after)

/-- What appears on the terminal. -/
def output (printed : List Printed) : Text := printed.flatMap (Printed.render options.sep)

/-- Three bytes from address 10 on, two on a line. -/
example : (memDumpWithOptions ⟨.OFFSET, 2, by decide, [ascii ' '], fun _ => []⟩
    ⟨13, fun a => BitVec.ofNat 8 a⟩ 10 13 .OFFSET).map
      (output ⟨.OFFSET, 2, by decide, [ascii ' '], fun _ => []⟩) =
    .ok (literal ['A', ':', ' ', '0', 'A', ' ', '0', 'B', ' ', '\n', 'C', ':', ' ', '0', 'C', ' ', '\n']) := by
  decide +kernel

end DumpOptions

end KabyLake
