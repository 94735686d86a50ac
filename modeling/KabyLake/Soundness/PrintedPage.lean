import Mathlib.Data.List.GetD
import KabyLake.Soundness.MemoryDump
import KabyLake.Soundness.MemoryFile
import KabyLake.Stdio.Fields

/-! # What the dump of a page shows

What a dump prints besides the bytes of the page does not depend on the memory, and every byte takes two
digits. The text of a dump therefore tells the bytes of the page, and for a memory that was loaded from
a file they are the bytes of the file.
-/

namespace KabyLake

open Machine Stdio

/-- What the same call writes on another memory. -/
def Printed.refill (memSpace : MemSpace) : Printed → Printed
  | text written => text written
  | byte addr _ => byte addr (memSpace.byte addr)

namespace DumpOptions

variable (options : DumpOptions) {memSpace other : MemSpace} {showAddr : AddrFmt}

section Refill

theorem refill_addressPrint (showAddr : AddrFmt) (addr : ℕ) :
    (options.addressPrint showAddr addr).map (Printed.refill other) = options.addressPrint showAddr addr := by
  cases showAddr <;> rfl

/-- The loops over a range that lies in both memories differ in the bytes only. -/
theorem dumpLoop_refill (count addr nbToPrint : ℕ) (inside : count = 0 ∨ addr + count ≤ memSpace.size)
    (inside' : count = 0 ∨ addr + count ≤ other.size) : ∃ printed last,
    options.dumpLoop memSpace showAddr count addr nbToPrint = .ok (printed, last) ∧
      options.dumpLoop other showAddr count addr nbToPrint =
        .ok (printed.map (Printed.refill other), last) := by
  induction count generalizing addr nbToPrint with
  | zero => exact ⟨[], nbToPrint, rfl, rfl⟩
  | succ count ih =>
    have read : memSpace.readByte addr = .ok (memSpace.byte addr) := if_pos (by omega)
    have read' : other.readByte addr = .ok (other.byte addr) := if_pos (by omega)
    obtain ⟨address, shown, texts⟩ : ∃ address,
        (if nbToPrint = options.lineSize then options.addressPrint showAddr addr else []) = address ∧
        address.map (Printed.refill other) = address := by
      split
      · exact ⟨_, rfl, options.refill_addressPrint showAddr addr⟩
      · exact ⟨_, rfl, rfl⟩
    obtain ⟨next, ended, stepped, line⟩ : ∃ next ended,
        (if nbToPrint - 1 = 0 then (options.lineSize, [newline]) else (nbToPrint - 1, [])) = (next, ended) ∧
        ended.map (Printed.refill other) = ended := by
      split
      · exact ⟨_, _, rfl, rfl⟩
      · exact ⟨_, _, rfl, rfl⟩
    obtain ⟨printed, last, ran, ran'⟩ := ih (addr + 1) next (by omega) (by omega)
    refine ⟨address ++ .byte addr (memSpace.byte addr) :: (ended ++ printed), last, ?_, ?_⟩
    · simp only [dumpLoop, shown, read, ok_bind, stepped, ran, pure_eq_ok]
    · simp only [dumpLoop, shown, read', ok_bind, stepped, ran', pure_eq_ok, List.map_append, List.map_cons,
        texts, line, Printed.refill]

theorem memDumpWithOptions_refill (showAddr : AddrFmt) {from' to' : ℕ}
    (inside : to' ≤ from' ∨ to' ≤ memSpace.size) (inside' : to' ≤ from' ∨ to' ≤ other.size) : ∃ printed,
    options.memDumpWithOptions memSpace from' to' showAddr = .ok printed ∧
      options.memDumpWithOptions other from' to' showAddr =
        .ok (printed.map (Printed.refill other)) := by
  obtain ⟨printed, last, ran, ran'⟩ : ∃ printed last,
      options.dumpLoop memSpace showAddr (to' - from') from' options.lineSize = .ok (printed, last) ∧
      options.dumpLoop other showAddr (to' - from') from' options.lineSize =
        .ok (printed.map (Printed.refill other), last) :=
    options.dumpLoop_refill (to' - from') from' options.lineSize (by omega) (by omega)
  rw [memDumpWithOptions, memDumpWithOptions, ran, ran', ok_bind, ok_bind]
  by_cases complete : last = options.lineSize
  · exact ⟨printed, if_neg (not_not.mpr complete), if_neg (not_not.mpr complete)⟩
  · refine ⟨printed ++ [newline], if_pos complete, (if_pos complete).trans ?_⟩
    rw [List.map_append]
    rfl

def between (vaddr : VirtAddr) (frame : BitVec 20) : List Printed :=
  (if vaddr.pageOffset.toNat % options.lineSize = 0 then [newline] else []) ++
    options.addressPrint options.showAddr (frame.toNat * 4096 + vaddr.pageOffset.toNat) ++
    List.replicate (vaddr.pageOffset.toNat % options.lineSize) (.text (ascii ' ' :: ascii ' ' :: options.sep))

theorem refill_between (vaddr : VirtAddr) (frame : BitVec 20) :
    (options.between vaddr frame).map (Printed.refill other) = options.between vaddr frame := by
  have blank : (if vaddr.pageOffset.toNat % options.lineSize = 0 then [newline] else []).map
      (Printed.refill other) = if vaddr.pageOffset.toNat % options.lineSize = 0 then [newline] else [] := by
    split <;> rfl
  rw [between, List.map_append, List.map_append, blank, refill_addressPrint, List.map_replicate]
  rfl

theorem vmemPageDumpWithOptions_mapped {vaddr : VirtAddr} {frame : BitVec 20}
    (walks : Walks memSpace (virtAddrTToVirtualPageNumber vaddr) frame) :
    options.vmemPageDumpWithOptions memSpace vaddr = (do
      let start := frame.toNat * 4096 + vaddr.pageOffset.toNat
      let endLine := start + (options.lineSize - vaddr.pageOffset.toNat % options.lineSize)
      let before ← options.memDumpWithOptions memSpace (frame.toNat * 4096) start options.showAddr
      let line ← options.memDumpWithOptions memSpace start endLine .NONE
      let after ← options.memDumpWithOptions memSpace endLine (frame.toNat * 4096 + 4096) options.showAddr
      return (.errNone, before ++ options.between vaddr frame ++ line ++ after)) := by
  have shifted : (frame.setWidth 32 <<< 12).toNat = frame.toNat * 4096 := by
    have small := frame.isLt
    rw [BitVec.toNat_shiftLeft, BitVec.toNat_setWidth, Nat.shiftLeft_eq]
    omega
  simp only [vmemPageDumpWithOptions, walks.pageWalk ⟨0, 0⟩, ok_bind, ne_eq, not_true_eq_false, ↓reduceIte,
    shifted, between, List.append_assoc]

/-- The dumps of a page that two memories map to the same frame differ in the bytes only. -/
theorem vmemPageDumpWithOptions_refill {vaddr : VirtAddr} {frame : BitVec 20}
    (walks : Walks memSpace (virtAddrTToVirtualPageNumber vaddr) frame)
    (walks' : Walks other (virtAddrTToVirtualPageNumber vaddr) frame)
    (ends : options.LineEndsInPage memSpace vaddr frame) (inside : frame.toNat * 4096 + 4096 ≤ other.size) :
    ∃ printed, options.vmemPageDumpWithOptions memSpace vaddr = .ok (.errNone, printed) ∧
      options.vmemPageDumpWithOptions other vaddr =
        .ok (.errNone, printed.map (Printed.refill other)) := by
  obtain ⟨inside', ends⟩ := ends
  have start : vaddr.pageOffset.toNat ≤ 4096 := vaddr.pageOffset.isLt.le
  have stop : vaddr.pageOffset.toNat + (options.lineSize - vaddr.pageOffset.toNat % options.lineSize) ≤
      4096 := by
    have rest := Nat.mod_lt vaddr.pageOffset.toNat options.positive
    have division := Nat.div_add_mod' vaddr.pageOffset.toNat options.lineSize
    rw [Nat.add_mul, Nat.one_mul] at ends
    omega
  have dump (showAddr : AddrFmt) (from' to' : ℕ) (within : to' ≤ frame.toNat * 4096 + 4096) :=
    options.memDumpWithOptions_refill showAddr (.inr (within.trans inside') : to' ≤ from' ∨ _)
      (.inr (within.trans inside))
  obtain ⟨before, first, first'⟩ := dump options.showAddr (frame.toNat * 4096)
    (frame.toNat * 4096 + vaddr.pageOffset.toNat) (Nat.add_le_add_left start _)
  obtain ⟨line, second, second'⟩ := dump .NONE (frame.toNat * 4096 + vaddr.pageOffset.toNat)
    (frame.toNat * 4096 + vaddr.pageOffset.toNat +
      (options.lineSize - vaddr.pageOffset.toNat % options.lineSize))
    (by rw [Nat.add_assoc]; exact Nat.add_le_add_left stop _)
  obtain ⟨after, third, third'⟩ := dump options.showAddr (frame.toNat * 4096 + vaddr.pageOffset.toNat +
    (options.lineSize - vaddr.pageOffset.toNat % options.lineSize)) (frame.toNat * 4096 + 4096) (le_refl _)
  refine ⟨before ++ options.between vaddr frame ++ line ++ after, ?_, ?_⟩
  · rw [options.vmemPageDumpWithOptions_mapped walks]
    simp only [first, second, third, ok_bind, pure_eq_ok]
  · rw [options.vmemPageDumpWithOptions_mapped walks']
    simp only [first', second', third', ok_bind, pure_eq_ok, List.map_append, refill_between]

end Refill

section Text

/-- Every byte takes two digits, whatever the separator is. -/
theorem byteText_recoverable (sep : Text) :
    Recoverable (fun value : Byte => paddedNumeral 16 2 value.toNat ++ sep) Anything := by
  have two : ∀ value : Byte, (paddedNumeral 16 2 value.toNat).length = 2 := by decide +kernel
  have digits : Recoverable (fun value : Byte => paddedNumeral 16 2 value.toNat) Anything := by
    apply Recoverable.of_length
    · intro value value'
      rw [two, two]
    · intro value value' same
      exact BitVec.eq_of_toNat_eq (paddedNumeral_injective (by decide) (by decide) 2 same)
  exact digits.append_literal fun _ _ => trivial

/-- The text tells the bytes. -/
theorem output_refill_iff (printed : List Printed) :
    options.output printed = options.output (printed.map (Printed.refill other)) ↔
      printed = printed.map (Printed.refill other) := by
  constructor
  · intro same
    induction printed with
    | nil => rfl
    | cons item printed ih =>
      simp only [output, List.map_cons, List.flatMap_cons] at same ih
      cases item with
      | text written =>
        simp only [Printed.refill, Printed.render] at same
        rw [List.map_cons, Printed.refill, ← ih (List.append_cancel_left same)]
      | byte addr value =>
        obtain ⟨values, rest⟩ := byteText_recoverable options.sep trivial trivial same
        rw [List.map_cons, Printed.refill, ← ih rest, values]
  · intro same
    rw [← same]

theorem refill_eq_iff (printed : List Printed) : printed = printed.map (Printed.refill other) ↔
    ∀ cell ∈ bytesPrinted printed, cell.2 = other.byte cell.1 := by
  induction printed with
  | nil => simp
  | cons item printed ih =>
    cases item with
    | text written =>
      rw [List.map_cons, Printed.refill, List.cons.injEq, ih]
      exact and_iff_right rfl
    | byte addr value =>
      rw [List.map_cons, Printed.refill, List.cons.injEq, ih, bytesPrinted_cons_byte, List.forall_mem_cons,
        Printed.byte.injEq]
      exact and_congr_left fun _ => and_iff_right rfl

/-- Two memories at one place (`options.pointer`) that map an address to one frame give the same text
exactly if they hold the same bytes in the frame, whatever the format, the line size and the separator. -/
theorem printed_pages_iff {vaddr : VirtAddr} {frame : BitVec 20}
    (walks : Walks memSpace (virtAddrTToVirtualPageNumber vaddr) frame)
    (walks' : Walks other (virtAddrTToVirtualPageNumber vaddr) frame)
    (ends : options.LineEndsInPage memSpace vaddr frame) (inside : frame.toNat * 4096 + 4096 ≤ other.size) :
    (options.vmemPageDumpWithOptions memSpace vaddr).map (fun result => options.output result.2) =
        (options.vmemPageDumpWithOptions other vaddr).map (fun result => options.output result.2) ↔
      ∀ k < 4096, memSpace.byte (frame.toNat * 4096 + k) = other.byte (frame.toNat * 4096 + k) := by
  obtain ⟨printed, dumped, dumped'⟩ := options.vmemPageDumpWithOptions_refill walks walks' ends inside
  obtain ⟨again, ran, bytes⟩ := options.printsPage_of_lineEndsInPage walks ends
  obtain ⟨_, rfl⟩ := Prod.mk.inj (Except.ok.inj (dumped.symm.trans ran))
  have texts : (options.vmemPageDumpWithOptions memSpace vaddr).map (fun result => options.output result.2) =
      (options.vmemPageDumpWithOptions other vaddr).map (fun result => options.output result.2) ↔
        options.output printed = options.output (printed.map (Printed.refill other)) := by
    rw [dumped, dumped']
    exact ⟨Except.ok.inj, congrArg Except.ok⟩
  rw [texts, options.output_refill_iff, refill_eq_iff, bytes]
  simp only [MemSpace.range, List.forall_mem_map, List.mem_range'_1]
  constructor
  · intro same k bound
    exact same _ ⟨Nat.le_add_right _ _, by omega⟩
  · intro same addr within
    obtain ⟨k, rfl⟩ := Nat.exists_eq_add_of_le within.1
    exact same k (by omega)

private def sixteen : DumpOptions := ⟨.OFFSET, 16, by decide, [ascii ' '], fun _ => []⟩

private def lastByte : MemSpace := ⟨8192, fun a => if a = 8191 then 1 else 0⟩

theorem printed_pages_iff_zero :
    (sixteen.vmemPageDumpWithOptions blankMemory ⟨0, 0, 0, 0, 0, 5⟩).map (fun result => sixteen.output result.2) =
      (sixteen.vmemPageDumpWithOptions lastByte ⟨0, 0, 0, 0, 0, 5⟩).map
        (fun result => sixteen.output result.2) := by
  have first : ∀ a < 4096, lastByte.byte a = 0 := fun a bound => if_neg (by omega)
  have walks := blankMemory_walks ⟨0, 0, 0, 0, 0, 5⟩
  have walks' := @zeroed_walks lastByte (by decide) first ⟨0, 0, 0, 0, 0, 5⟩
  have inside : (0 : BitVec 20).toNat * 4096 + 4096 ≤ lastByte.size := by decide
  have ends : sixteen.LineEndsInPage blankMemory ⟨0, 0, 0, 0, 0, 5⟩ 0 :=
    sixteen.lineEndsInPage_of_dvd (by decide) inside
  apply (sixteen.printed_pages_iff walks walks' ends inside).mpr
  intro k bound
  have zero : (0 : BitVec 20).toNat * 4096 + k = k := by simp
  rw [zero, first k bound]
  rfl

end Text

section File

theorem length_le_ftell (file : DiskFile) :
    file.bytes.length ≤ (BitVec.ofInt 64 (fopen file).fseekEnd.2.ftell).toNat := by
  have small := file.small
  rw [ftell_fseekEnd, BitVec.toNat_ofInt]
  split <;> omega

/-- The loader of a dump stores the bytes that can be read, in a block that has room for all bytes of the
file. -/
theorem memInitFromDumpfile_eq (file : DiskFile) (outcome : Option (ℕ → Byte)) :
    memInitFromDumpfile (some file) outcome = (do
      let count := BitVec.ofInt 64 (fopen file).fseekEnd.2.ftell
      let bytes := file.bytes.take file.readable
      let memory ← storeBytes (outcome.map fun garbage => ⟨count.toNat, garbage⟩) 0 bytes
      if ¬ bytes.length > 0 then return ⟨.errBadParameter, memory, count⟩
      else return ⟨.errNone, memory, count⟩) := by
  have enough := length_le_ftell file
  have transferred : (fopen file).fread (BitVec.ofInt 64 (fopen file).fseekEnd.2.ftell).toNat =
      file.bytes.take file.readable := by
    rw [BinaryStream.fread, fopen, List.drop_zero]
    exact List.take_of_length_le ((List.length_take_le' ..).trans enough)
  simp only [memInitFromDumpfile, rewind_fseekEnd, transferred]

theorem memInitFromDumpfile_bytes {file : DiskFile} {outcome : Option (ℕ → Byte)} {memory : MemSpace}
    {count : BitVec 64} (loaded : memInitFromDumpfile (some file) outcome = .ok ⟨.errNone, some memory, count⟩) :
    (file.bytes.take file.readable).length ≤ memory.size ∧
      ∀ x < (file.bytes.take file.readable).length,
        memory.byte x = (file.bytes.take file.readable).getD x 0 := by
  rw [memInitFromDumpfile_eq] at loaded
  obtain ⟨stored, kept, rest⟩ := bind_eq_ok_iff.mp loaded
  by_cases nothing : (file.bytes.take file.readable).length > 0
  · rw [if_neg (not_not.mpr nothing)] at rest
    obtain rfl : stored = some memory := (LoadReply.mk.inj (Except.ok.inj rest)).2.1
    have nonempty : file.bytes.take file.readable ≠ [] := List.length_pos_iff.mp nothing
    cases outcome with
    | none => simp [storeBytes, nonempty] at kept
    | some garbage =>
      simp only [storeBytes, nonempty, Option.map_some, ↓reduceIte] at kept
      split at kept
      · next fits =>
        obtain rfl := Option.some.inj (Except.ok.inj kept)
        rw [Nat.zero_add] at fits
        refine ⟨fits, fun x bound => ?_⟩
        have inside : 0 ≤ x ∧ x < 0 + (file.bytes.take file.readable).length := ⟨Nat.zero_le x, by omega⟩
        exact if_pos inside
      · contradiction
  · rw [if_pos nothing] at rest
    cases (LoadReply.mk.inj (Except.ok.inj rest)).1

/-- A file that is not empty and can be read to its end is loaded if the allocation succeeds. -/
theorem memInitFromDumpfile_whole {file : DiskFile} (nonempty : file.bytes ≠ [])
    (whole : file.bytes.length ≤ file.readable) (garbage : ℕ → Byte) : ∃ memory count,
    memInitFromDumpfile (some file) (some garbage) = .ok ⟨.errNone, some memory, count⟩ := by
  have enough := length_le_ftell file
  have fits : 0 + file.bytes.length ≤ (BitVec.ofInt 64 (fopen file).fseekEnd.2.ftell).toNat := by omega
  have some_bytes : ¬ ¬ file.bytes.length > 0 := not_not.mpr (List.length_pos_iff.mpr nonempty)
  rw [memInitFromDumpfile_eq, List.take_of_length_le whole]
  simp only [storeBytes, nonempty, Option.map_some, ↓reduceIte, fits, ok_bind, some_bytes, pure_eq_ok]
  exact ⟨_, _, rfl⟩

/-- A page that was loaded from a dump file is printed byte for byte. -/
theorem printed_dumpfile {file : DiskFile} {outcome : Option (ℕ → Byte)} {memory : MemSpace}
    {count : BitVec 64} (loaded : memInitFromDumpfile (some file) outcome = .ok ⟨.errNone, some memory, count⟩)
    {vaddr : VirtAddr} {frame : BitVec 20} (walks : Walks memory (virtAddrTToVirtualPageNumber vaddr) frame)
    (divides : options.lineSize ∣ 4096)
    (inside : frame.toNat * 4096 + 4096 ≤ (file.bytes.take file.readable).length) :
    ∃ printed, options.vmemPageDumpWithOptions memory vaddr = .ok (.errNone, printed) ∧
      (bytesPrinted printed).map Prod.snd = (file.bytes.drop (frame.toNat * 4096)).take 4096 := by
  obtain ⟨size, stored⟩ := memInitFromDumpfile_bytes loaded
  obtain ⟨printed, dumped, bytes⟩ := options.printsPage_of_lineEndsInPage walks
    (options.lineEndsInPage_of_dvd divides (inside.trans size))
  refine ⟨printed, dumped, ?_⟩
  have length : (file.bytes.take file.readable).length ≤ file.bytes.length := List.length_take_le' ..
  rw [bytes, MemSpace.range, List.map_map]
  apply List.ext_getElem
  · rw [List.length_map, List.length_range', List.length_take, List.length_drop]
    omega
  · intro k bound _
    rw [List.length_map, List.length_range'] at bound
    have within : frame.toNat * 4096 + k < (file.bytes.take file.readable).length := by omega
    simp only [List.getElem_map, List.getElem_range', Function.comp_apply, Nat.one_mul, List.getElem_take,
      List.getElem_drop]
    rw [stored _ within, List.getD_eq_getElem?_getD, List.getElem?_eq_getElem within, Option.getD_some,
      List.getElem_take]

theorem printed_dumpfile_zero : ∃ memory count printed,
    memInitFromDumpfile (some zeroFile) (some fun _ => 1) = .ok ⟨.errNone, some memory, count⟩ ∧
      sixteen.vmemPageDumpWithOptions memory ⟨0, 0, 0, 0, 0, 5⟩ = .ok (.errNone, printed) ∧
      (bytesPrinted printed).map Prod.snd = (zeroFile.bytes.drop 0).take 4096 := by
  have nonempty : zeroFile.bytes ≠ [] := List.cons_ne_nil _ _
  have length : zeroFile.bytes.length = 4096 := List.length_replicate
  have whole : zeroFile.bytes.length ≤ zeroFile.readable := length.le
  obtain ⟨memory, count, loaded⟩ := memInitFromDumpfile_whole nonempty whole fun _ => 1
  have stored := memInitFromDumpfile_bytes loaded
  rw [List.take_of_length_le whole, length] at stored
  obtain ⟨size, stored⟩ := stored
  have zero : ∀ a < 4096, memory.byte a = 0 := by
    intro a bound
    rw [stored a bound]
    exact List.getD_replicate _ bound
  have inside : (0 : BitVec 20).toNat * 4096 + 4096 ≤ (zeroFile.bytes.take zeroFile.readable).length := by
    rw [List.take_of_length_le whole, length]
    decide
  obtain ⟨printed, dumped, bytes⟩ := sixteen.printed_dumpfile loaded
    (zeroed_walks size zero ⟨0, 0, 0, 0, 0, 5⟩) (by decide) inside
  exact ⟨memory, count, printed, loaded, dumped, bytes⟩

end File

end DumpOptions

end KabyLake
