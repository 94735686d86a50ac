import KabyLake.Model.MemoryDump
import KabyLake.Soundness.PageWalk

/-! # What the dump of a page prints

Each of the three dumps prints a range of the memory. They make up the page when the line of the
address, which is printed by the second one, ends inside the page.
-/

namespace KabyLake

open Machine Stdio

/-- The bytes of the memory in the output, with the addresses they were read from. -/
def bytesPrinted (printed : List Printed) : List (ℕ × Byte) :=
  printed.filterMap fun
    | .text _ => none
    | .byte addr value => some (addr, value)

def MemSpace.range (memSpace : MemSpace) (first count : ℕ) : List (ℕ × Byte) :=
  (List.range' first count).map fun addr => (addr, memSpace.byte addr)

@[simp] theorem bytesPrinted_append (printed other : List Printed) :
    bytesPrinted (printed ++ other) = bytesPrinted printed ++ bytesPrinted other :=
  List.filterMap_append

@[simp] theorem bytesPrinted_cons_byte (addr : ℕ) (value : Byte) (printed : List Printed) :
    bytesPrinted (.byte addr value :: printed) = (addr, value) :: bytesPrinted printed := rfl

@[simp] theorem bytesPrinted_cons_newline (printed : List Printed) :
    bytesPrinted (newline :: printed) = bytesPrinted printed := rfl

@[simp] theorem bytesPrinted_nil : bytesPrinted [] = [] := rfl

namespace DumpOptions

variable (options : DumpOptions) {memSpace : MemSpace} {showAddr : AddrFmt}

@[simp] theorem bytesPrinted_addressPrint (showAddr : AddrFmt) (addr : ℕ) :
    bytesPrinted (options.addressPrint showAddr addr) = [] := by
  cases showAddr <;> rfl

theorem dumpLoop_succ (showAddr : AddrFmt) {addr : ℕ} (inside : addr < memSpace.size) (count nbToPrint : ℕ) :
    ∃ address ended next, bytesPrinted address = [] ∧ bytesPrinted ended = [] ∧
      options.dumpLoop memSpace showAddr (count + 1) addr nbToPrint = (do
        let (printed, last) ← options.dumpLoop memSpace showAddr count (addr + 1) next
        return (address ++ .byte addr (memSpace.byte addr) :: (ended ++ printed), last)) := by
  have read : memSpace.readByte addr = .ok (memSpace.byte addr) := if_pos inside
  refine ⟨if nbToPrint = options.lineSize then options.addressPrint showAddr addr else [],
    if nbToPrint - 1 = 0 then [newline] else [],
    if nbToPrint - 1 = 0 then options.lineSize else nbToPrint - 1, ?_, ?_, ?_⟩
  · split
    · exact options.bytesPrinted_addressPrint showAddr addr
    · rfl
  · split <;> rfl
  · rw [dumpLoop, read, ok_bind]
    by_cases ended : nbToPrint - 1 = 0
    · simp only [ended, ↓reduceIte]
    · simp only [ended, ↓reduceIte]

/-- The loop prints its range byte by byte, if the range is inside the memory. -/
theorem dumpLoop_inside (count addr nbToPrint : ℕ)
    (inside : count = 0 ∨ addr + count ≤ memSpace.size) :
    ∃ printed last, options.dumpLoop memSpace showAddr count addr nbToPrint = .ok (printed, last) ∧
      bytesPrinted printed = memSpace.range addr count := by
  induction count generalizing addr nbToPrint with
  | zero => exact ⟨[], nbToPrint, rfl, rfl⟩
  | succ count ih =>
    obtain ⟨address, ended, next, noBytes, noByte, stepped⟩ :=
      options.dumpLoop_succ showAddr (by omega : addr < memSpace.size) count nbToPrint
    obtain ⟨printed, last, ran, bytes⟩ := ih (addr + 1) next (by omega)
    refine ⟨_, last, by rw [stepped, ran]; rfl, ?_⟩
    simp [noBytes, noByte, bytes, MemSpace.range, List.range'_succ]

theorem dumpLoop_outside (count addr nbToPrint : ℕ) (outside : memSpace.size < addr + count)
    (nonempty : 0 < count) :
    options.dumpLoop memSpace showAddr count addr nbToPrint = .error .memoryBounds := by
  induction count generalizing addr nbToPrint with
  | zero => contradiction
  | succ count ih =>
    by_cases inside : addr < memSpace.size
    · obtain ⟨address, ended, next, _, _, stepped⟩ :=
        options.dumpLoop_succ showAddr inside count nbToPrint
      rw [stepped, ih (addr + 1) next (by omega) (by omega), error_bind]
    · have read : memSpace.readByte addr = .error .memoryBounds := if_neg inside
      rw [dumpLoop, read, error_bind]

theorem memDumpWithOptions_inside (showAddr : AddrFmt) {from' to' : ℕ}
    (inside : to' ≤ from' ∨ to' ≤ memSpace.size) :
    ∃ printed, options.memDumpWithOptions memSpace from' to' showAddr = .ok printed ∧
      bytesPrinted printed = memSpace.range from' (to' - from') := by
  obtain ⟨printed, last, ran, bytes⟩ : ∃ printed last,
      options.dumpLoop memSpace showAddr (to' - from') from' options.lineSize = .ok (printed, last) ∧
      bytesPrinted printed = memSpace.range from' (to' - from') :=
    options.dumpLoop_inside (to' - from') from' options.lineSize (by omega)
  rw [memDumpWithOptions, ran, ok_bind]
  by_cases complete : last = options.lineSize
  · exact ⟨printed, if_neg (not_not.mpr complete), bytes⟩
  · refine ⟨printed ++ [newline], if_pos complete, ?_⟩
    rw [bytesPrinted_append, bytes]
    simp

theorem memDumpWithOptions_outside {from' to' : ℕ} (nonempty : from' < to')
    (outside : memSpace.size < to') :
    options.memDumpWithOptions memSpace from' to' showAddr = .error .memoryBounds := by
  rw [memDumpWithOptions, dumpLoop_outside _ _ _ _ (by omega) (by omega), error_bind]

/-- What a dump has printed, if it has not left the memory. -/
theorem memDumpWithOptions_bytes {from' to' : ℕ} {printed : List Printed}
    (ran : options.memDumpWithOptions memSpace from' to' showAddr = .ok printed) :
    (to' ≤ from' ∨ to' ≤ memSpace.size) ∧
      bytesPrinted printed = memSpace.range from' (to' - from') := by
  by_cases inside : to' ≤ from' ∨ to' ≤ memSpace.size
  · obtain ⟨printed', ran', bytes⟩ := options.memDumpWithOptions_inside showAddr inside
    obtain rfl := Except.ok.inj (ran.symm.trans ran')
    exact ⟨inside, bytes⟩
  · rw [not_or, not_le, not_le] at inside
    rw [options.memDumpWithOptions_outside inside.1 inside.2] at ran
    contradiction

/-- The dump prints the bytes of the frame in order, each of them once, and reads no other byte. -/
def PrintsPage (memSpace : MemSpace) (vaddr : VirtAddr) (frame : BitVec 20) : Prop :=
  ∃ printed, options.vmemPageDumpWithOptions memSpace vaddr = .ok (.errNone, printed) ∧
    bytesPrinted printed = memSpace.range (frame.toNat * 4096) 4096

def LineEndsInPage (memSpace : MemSpace) (vaddr : VirtAddr) (frame : BitVec 20) : Prop :=
  frame.toNat * 4096 + 4096 ≤ memSpace.size ∧
    (vaddr.pageOffset.toNat / options.lineSize + 1) * options.lineSize ≤ 4096

theorem length_range (memSpace : MemSpace) (first count : ℕ) :
    (memSpace.range first count).length = count := by
  rw [MemSpace.range, List.length_map, List.length_range']

theorem range_append (memSpace : MemSpace) (first count more : ℕ) :
    memSpace.range first count ++ memSpace.range (first + count) more =
      memSpace.range first (count + more) := by
  rw [MemSpace.range, MemSpace.range, MemSpace.range, ← List.map_append, List.range'_append_1]

section Page

variable {vaddr : VirtAddr} {frame : BitVec 20}
  (walks : Walks memSpace (virtAddrTToVirtualPageNumber vaddr) frame)

include walks

/-- The three dumps of a mapped page. -/
theorem vmemPageDumpWithOptions_eq : ∃ between,
    bytesPrinted between = [] ∧ options.vmemPageDumpWithOptions memSpace vaddr = (do
      let start := frame.toNat * 4096 + vaddr.pageOffset.toNat
      let endLine :=
        frame.toNat * 4096 + (vaddr.pageOffset.toNat / options.lineSize + 1) * options.lineSize
      let before ← options.memDumpWithOptions memSpace (frame.toNat * 4096) start options.showAddr
      let line ← options.memDumpWithOptions memSpace start endLine .NONE
      let after ←
        options.memDumpWithOptions memSpace endLine (frame.toNat * 4096 + 4096) options.showAddr
      return (.errNone, before ++ between ++ line ++ after)) := by
  have shifted : (frame.setWidth 32 <<< 12).toNat = frame.toNat * 4096 := by
    have small := frame.isLt
    rw [BitVec.toNat_shiftLeft, BitVec.toNat_setWidth, Nat.shiftLeft_eq]
    omega
  have ended : vaddr.pageOffset.toNat + (options.lineSize - vaddr.pageOffset.toNat % options.lineSize) =
      (vaddr.pageOffset.toNat / options.lineSize + 1) * options.lineSize := by
    have rest := Nat.mod_lt vaddr.pageOffset.toNat options.positive
    have division := Nat.div_add_mod' vaddr.pageOffset.toNat options.lineSize
    rw [Nat.add_mul, Nat.one_mul]
    omega
  refine ⟨(if vaddr.pageOffset.toNat % options.lineSize = 0 then [newline] else []) ++
    options.addressPrint options.showAddr (frame.toNat * 4096 + vaddr.pageOffset.toNat) ++
    List.replicate (vaddr.pageOffset.toNat % options.lineSize)
      (.text (ascii ' ' :: ascii ' ' :: options.sep)), ?_, ?_⟩
  · have blank : bytesPrinted (if vaddr.pageOffset.toNat % options.lineSize = 0 then [newline] else []) =
        [] := by
      split <;> rfl
    have spaces (n : ℕ) : bytesPrinted (List.replicate n
        (.text (ascii ' ' :: ascii ' ' :: options.sep))) = [] := by
      induction n with
      | zero => rfl
      | succ n ih => exact ih
    simp [blank, spaces]
  · simp only [vmemPageDumpWithOptions, walks.pageWalk ⟨0, 0⟩, ok_bind, ne_eq, not_true_eq_false,
      ↓reduceIte, shifted, Nat.add_assoc, ended, List.append_assoc]

omit walks in
theorem lt_lineEnd : vaddr.pageOffset.toNat <
    (vaddr.pageOffset.toNat / options.lineSize + 1) * options.lineSize := by
  have rest := Nat.mod_lt vaddr.pageOffset.toNat options.positive
  have division := Nat.div_add_mod' vaddr.pageOffset.toNat options.lineSize
  rw [Nat.add_mul, Nat.one_mul]
  omega

/-- The lengths of the three dumps only add up to a page if the second one ends in it. -/
theorem lineEndsInPage_of_printsPage (prints : options.PrintsPage memSpace vaddr frame) :
    options.LineEndsInPage memSpace vaddr frame := by
  obtain ⟨between, noBytes, dumped⟩ := options.vmemPageDumpWithOptions_eq walks
  have below := vaddr.pageOffset.isLt
  have above : vaddr.pageOffset.toNat < _ := options.lt_lineEnd
  obtain ⟨printed, ran, bytes⟩ := prints
  rw [dumped] at ran
  obtain ⟨before, first, ran⟩ := bind_eq_ok_iff.mp ran
  obtain ⟨line, second, ran⟩ := bind_eq_ok_iff.mp ran
  obtain ⟨after, third, ran⟩ := bind_eq_ok_iff.mp ran
  cases ran
  obtain ⟨-, firstBytes⟩ := options.memDumpWithOptions_bytes first
  obtain ⟨secondInside, secondBytes⟩ := options.memDumpWithOptions_bytes second
  obtain ⟨thirdInside, thirdBytes⟩ := options.memDumpWithOptions_bytes third
  have lengths := congrArg List.length bytes
  simp only [bytesPrinted_append, firstBytes, noBytes, secondBytes, thirdBytes, List.append_nil,
    List.length_append, length_range] at lengths
  rw [LineEndsInPage]
  omega

/-- The three dumps make up the page if the second one ends in it. -/
theorem printsPage_of_lineEndsInPage (ends : options.LineEndsInPage memSpace vaddr frame) :
    options.PrintsPage memSpace vaddr frame := by
  obtain ⟨between, noBytes, dumped⟩ := options.vmemPageDumpWithOptions_eq walks
  have above : vaddr.pageOffset.toNat < _ := options.lt_lineEnd
  obtain ⟨inside, ends⟩ := ends
  rw [PrintsPage, dumped]
  dsimp only
  generalize (vaddr.pageOffset.toNat / options.lineSize + 1) * options.lineSize = stop at above ends ⊢
  generalize frame.toNat * 4096 = page at inside ⊢
  generalize vaddr.pageOffset.toNat = offset at above ⊢
  obtain ⟨before, first, firstBytes⟩ := options.memDumpWithOptions_inside options.showAddr
    (by omega : page + offset ≤ page ∨ page + offset ≤ memSpace.size)
  obtain ⟨line, second, secondBytes⟩ := options.memDumpWithOptions_inside .NONE
    (by omega : page + stop ≤ page + offset ∨ page + stop ≤ memSpace.size)
  obtain ⟨after, third, thirdBytes⟩ := options.memDumpWithOptions_inside options.showAddr
    (by omega : page + 4096 ≤ page + stop ∨ page + 4096 ≤ memSpace.size)
  refine ⟨before ++ between ++ line ++ after, by rw [first, ok_bind, second, ok_bind, third]; rfl, ?_⟩
  simp only [bytesPrinted_append, firstBytes, noBytes, secondBytes, thirdBytes, List.append_nil]
  have firstCount : page + offset - page = offset := by omega
  have secondCount : page + stop - (page + offset) = stop - offset := by omega
  have thirdCount : page + 4096 - (page + stop) = 4096 - stop := by omega
  have secondEnd : page + stop = page + (offset + (stop - offset)) := by omega
  rw [firstCount, secondCount, thirdCount, range_append, secondEnd, range_append]
  congr 1
  omega

/-- The dump prints its page exactly if the line of the offset ends in the page, which must be in the
memory. -/
theorem printsPage_iff :
    options.PrintsPage memSpace vaddr frame ↔ options.LineEndsInPage memSpace vaddr frame :=
  ⟨options.lineEndsInPage_of_printsPage walks, options.printsPage_of_lineEndsInPage walks⟩

omit walks in
/-- A page is a whole number of lines for every line size that divides it, such as the 16 of the
callers. -/
theorem lineEndsInPage_of_dvd (divides : options.lineSize ∣ 4096)
    (inside : frame.toNat * 4096 + 4096 ≤ memSpace.size) :
    options.LineEndsInPage memSpace vaddr frame := by
  refine ⟨inside, ?_⟩
  obtain ⟨lines, split⟩ := divides
  have below : vaddr.pageOffset.toNat < options.lineSize * lines := split ▸ vaddr.pageOffset.isLt
  have line := Nat.div_lt_of_lt_mul below
  rw [split, Nat.mul_comm options.lineSize]
  exact Nat.mul_le_mul_right _ line

end Page

theorem printsPage_iff_sixteen :
    PrintsPage ⟨.OFFSET, 16, by decide, [ascii ' '], fun _ => []⟩ blankMemory ⟨0, 0, 0, 0, 0, 5⟩ 0 :=
  (printsPage_iff _ (blankMemory_walks ⟨0, 0, 0, 0, 0, 5⟩)).mpr ⟨by decide, by decide⟩

/-- With 10 bytes on a line, the line of the last byte of the page ends four bytes behind the page. -/
theorem lastLine_strays :
    Walks blankMemory (virtAddrTToVirtualPageNumber ⟨0, 0, 0, 0, 0, 4095⟩) 0 ∧
    ¬ PrintsPage ⟨.OFFSET, 10, by decide, [ascii ' '], fun _ => []⟩ blankMemory
      ⟨0, 0, 0, 0, 0, 4095⟩ 0 := by
  refine ⟨blankMemory_walks _, fun prints => ?_⟩
  obtain ⟨_, ends⟩ := lineEndsInPage_of_printsPage _ (blankMemory_walks _) prints
  exact absurd ends (by decide)

end DumpOptions

end KabyLake
