import KabyLake.Model.Printing
import KabyLake.Proofs.LinkedList
import KabyLake.Soundness.ProgramRead
import KabyLake.Stdio.Fields

/-! # What is printed can be read back

The text that `print_list` writes for a well-formed list is that of its values in parentheses, and
`print_reverse_list` writes the same text for the reversed list.
-/

namespace KabyLake

open Stdio

section Lists

variable {heap : Heap} {this : ListT} {cells : List Cell}

def Follows (next : ListNode → NodePtr) (heap : Heap) : NodePtr → List Cell → Prop
  | ptr, [] => ptr = none
  | ptr, cell :: rest => ptr = some cell.1 ∧ ∃ node, heap.node cell.1 = some node ∧
      node.value = cell.2 ∧ Follows next heap (next node) rest

/-- From the front the nodes follow one another by their `next` pointers. -/
theorem Linked.follows_next {before : NodePtr} (linked : Linked heap before cells none) :
    Follows ListNode.next heap (firstPtr cells none) cells := by
  induction cells generalizing before with
  | nil => rfl
  | cons cell rest ih =>
    obtain ⟨stored, chain⟩ := linked
    exact ⟨rfl, _, stored, rfl, ih chain⟩

/-- From the back they follow one another by their `previous` pointers. -/
theorem Linked.follows_previous {after : NodePtr} (linked : Linked heap none cells after) :
    Follows ListNode.previous heap (lastPtr none cells) cells.reverse := by
  induction cells using List.reverseRecOn generalizing after with
  | nil => rfl
  | append_singleton cells cell ih =>
    rw [linked_append] at linked
    obtain ⟨chain, stored, _⟩ := linked
    rw [List.reverse_append, List.reverse_singleton, List.singleton_append, lastPtr_append]
    exact ⟨rfl, _, stored, rfl, ih chain⟩

/-- The loop prints the values with separators and counts the nodes. -/
theorem printNodes_eq {next : ListNode → NodePtr} {last ptr : NodePtr}
    (follows : Follows next heap ptr cells) (distinct : (cells.map Prod.fst).Nodup)
    (final : ∀ cell, cells.getLast? = some cell → last = some cell.1) {fuel : ℕ}
    (enough : cells.length ≤ fuel) :
    printNodes next last heap fuel ptr =
      .ok (List.intercalate (literal [',', ' ']) ((cells.map Prod.snd).map (numeral 10)), cells.length) := by
  induction cells generalizing ptr fuel with
  | nil =>
    obtain rfl : ptr = none := follows
    cases fuel <;> rfl
  | cons cell rest ih =>
    obtain ⟨rfl, node, stored, value, follows⟩ := follows
    obtain ⟨fuel, rfl⟩ := Nat.exists_eq_add_one_of_ne_zero (n := fuel) (by
      rw [List.length_cons] at enough
      omega)
    rw [List.map_cons, List.nodup_cons] at distinct
    have loaded : heap.load (some cell.1) = .ok node := by rw [Heap.load, stored]
    have others := ih follows distinct.2 (fun other found => final other (by
      cases rest with
      | nil => contradiction
      | cons => exact found)) (Nat.le_of_succ_le_succ enough)
    simp only [printNodes, loaded, Machine.ok_bind, others, Machine.pure_eq_ok, value]
    cases rest with
    | nil =>
      have ended := final cell rfl
      simp [ended]
    | cons second rest =>
      obtain ⟨behind, found⟩ : ∃ behind, (second :: rest).getLast? = some behind :=
        ⟨_, List.getLast?_eq_some_getLast (by simp)⟩
      have apart : last ≠ some cell.1 := by
        rw [final behind found]
        intro same
        apply distinct.1
        rw [← Option.some.inj same]
        exact List.mem_map_of_mem (List.mem_of_getLast? found)
      simp [apart, List.intercalate_cons_cons]

def listText (values : List ℕ) : Text :=
  ascii '(' :: List.intercalate (literal [',', ' ']) (values.map (numeral 10)) ++ [ascii ')']

theorem lastPtr_eq (cells : List Cell) : lastPtr none cells = cells.getLast?.map Prod.fst := by
  induction cells using List.reverseRecOn with
  | nil => rfl
  | append_singleton cells cell => rw [lastPtr_append, List.getLast?_append]; rfl

theorem firstPtr_eq (cells : List Cell) : firstPtr cells none = cells.head?.map Prod.fst := by
  cases cells <;> rfl

/-- A well-formed list is printed without a fault, in both directions. What is returned is one more than
the number of its nodes. -/
theorem WellFormed.printed (formed : WellFormed heap this cells) :
    printList heap this = .ok (cells.length + 1, listText (cells.map Prod.snd)) ∧
      printReverseList heap this = .ok (cells.length + 1, listText (cells.map Prod.snd).reverse) := by
  have enough := formed.length_le_top
  have back : ∀ cell, cells.getLast? = some cell → this.back = some cell.1 := by
    intro cell found
    rw [formed.back, lastPtr_eq, found]
    rfl
  have front : ∀ cell, cells.reverse.getLast? = some cell → this.front = some cell.1 := by
    intro cell found
    rw [List.getLast?_reverse] at found
    rw [formed.front, firstPtr_eq, found]
    rfl
  have forward := printNodes_eq formed.linked.follows_next formed.distinct back enough
  have distinct : (cells.reverse.map Prod.fst).Nodup := by
    rw [List.map_reverse]
    exact List.nodup_reverse.mpr formed.distinct
  have within : cells.reverse.length ≤ heap.top := by rwa [List.length_reverse]
  have backward := printNodes_eq formed.linked.follows_previous distinct front within
  rw [← formed.front] at forward
  rw [← formed.back, List.map_reverse, List.length_reverse] at backward
  constructor
  · simp only [printList, forward, Machine.ok_bind, Machine.pure_eq_ok, listText]
  · simp only [printReverseList, backward, Machine.ok_bind, Machine.pure_eq_ok, listText]

theorem listText_injective : Function.Injective listText := by
  have recoverable : Recoverable (fun values : List ℕ =>
      List.intercalate (literal [',', ' ']) (values.map (numeral 10)) ++ [ascii ')']) Anything :=
    Recoverable.intercalate (numeral_isDigit (by decide) (by decide)) (numeral_ne_nil 10)
      (numeral_injective (by decide) (by decide)) (by decide) (by decide) (by decide)
  intro values others same
  exact recoverable.injective (List.cons.inj same).2

/-- Lists print alike exactly if they hold the same values, and a list printed backwards is the reversed
list printed forwards. -/
theorem printed_lists_iff {other : Heap} {that : ListT} {cells' : List Cell}
    (formed : WellFormed heap this cells) (formed' : WellFormed other that cells') :
    (printList heap this = printList other that ↔ cells.map Prod.snd = cells'.map Prod.snd) ∧
      (printReverseList heap this = printList other that ↔
        (cells.map Prod.snd).reverse = cells'.map Prod.snd) ∧
      printList heap this = .ok (cells.length + 1, listText (cells.map Prod.snd)) := by
  have same (values others : List ℕ) :
      (Except.ok (values.length + 1, listText values) : Exec (ℕ × Text)) =
        .ok (others.length + 1, listText others) ↔ values = others := by
    constructor
    · intro printed
      exact listText_injective (Prod.mk.inj (Except.ok.inj printed)).2
    · rintro rfl
      rfl
  obtain ⟨forward, backward⟩ := formed.printed
  rw [forward, backward, formed'.printed.1]
  have lengths := same (cells.map Prod.snd) (cells'.map Prod.snd)
  have lengths' := same (cells.map Prod.snd).reverse (cells'.map Prod.snd)
  simp only [List.length_reverse, List.length_map] at lengths lengths'
  exact ⟨lengths, lengths', rfl⟩

theorem printed_lists_iff_push : ∃ heap this,
    pushBack Heap.empty initList 7 (some ⟨0, none, none⟩) = .ok (some 0, heap, this) ∧
      printList heap this = .ok (2, literal ['(', '7', ')']) ∧
      printList heap this ≠ printList Heap.empty initList := by
  have empty : WellFormed Heap.empty initList [] := ⟨rfl, rfl, trivial, List.nodup_nil⟩
  obtain ⟨heap, this, pushed, formed⟩ := empty.pushBack 7 ⟨0, none, none⟩
  obtain ⟨alike, _, printed⟩ := printed_lists_iff formed empty
  exact ⟨heap, this, pushed, printed.trans (by decide), by rw [ne_eq, alike]; simp⟩

end Lists

section Addresses

def virtualLabels : List Text :=
  [literal ['P', 'G', 'D', '=', '0', 'x'], literal [';', ' ', 'P', 'U', 'D', '=', '0', 'x'],
    literal [';', ' ', 'P', 'M', 'D', '=', '0', 'x'], literal [';', ' ', 'P', 'T', 'E', '=', '0', 'x'],
    literal [';', ' ', 'o', 'f', 'f', 's', 'e', 't', '=', '0', 'x']]

def physicalLabels : List Text :=
  [literal ['p', 'a', 'g', 'e', ' ', 'n', 'u', 'm', '=', '0', 'x'],
    literal [';', ' ', 'o', 'f', 'f', 's', 'e', 't', '=', '0', 'x']]

private theorem solid_labels : ∀ label ∈ virtualLabels ++ physicalLabels,
    label ≠ [] ∧ Outside (isDigit 16) label := by
  intro label member
  have first : ∀ label ∈ virtualLabels ++ physicalLabels, ∃ b rest, label = b :: rest ∧
      isDigit 16 b = false := by
    simp only [virtualLabels, physicalLabels, List.cons_append, List.nil_append, List.forall_mem_cons,
      List.not_mem_nil, false_implies, implies_true, and_true]
    exact ⟨⟨_, _, rfl, by decide⟩, ⟨_, _, rfl, by decide⟩, ⟨_, _, rfl, by decide⟩,
      ⟨_, _, rfl, by decide⟩, ⟨_, _, rfl, by decide⟩, ⟨_, _, rfl, by decide⟩, ⟨_, _, rfl, by decide⟩⟩
  obtain ⟨b, rest, rfl, outside⟩ := first label member
  exact ⟨List.cons_ne_nil _ _, outside_cons.mpr outside⟩

theorem printVirtualAddress_eq (vaddr : VirtAddr) :
    (printVirtualAddress vaddr).2 = labelled 16 virtualLabels [vaddr.pgdEntry.toNat,
      vaddr.pudEntry.toNat, vaddr.pmdEntry.toNat, vaddr.pteEntry.toNat, vaddr.pageOffset.toNat] := by
  simp only [printVirtualAddress, labelled, virtualLabels, List.append_assoc, List.append_nil]

theorem printPhysicalAddress_eq (paddr : PhyAddr) :
    (printPhysicalAddress paddr).2 =
      labelled 16 physicalLabels [paddr.phyPageNum.toNat, paddr.pageOffset.toNat] := by
  simp only [printPhysicalAddress, labelled, physicalLabels, List.append_assoc, List.append_nil]

/-- A virtual address is printed without its reserved bits. -/
theorem printVirtualAddress_eq_iff (vaddr other : VirtAddr) :
    printVirtualAddress vaddr = printVirtualAddress other ↔
      virtAddrTToUint64T vaddr = virtAddrTToUint64T other := by
  constructor
  · intro printed
    have texts := congrArg Prod.snd printed
    rw [printVirtualAddress_eq, printVirtualAddress_eq] at texts
    have fields := labelled_injective (by decide) (by decide) rfl rfl
      (fun label member => solid_labels label (List.mem_append_left _ member)) texts
    simp only [List.cons.injEq, and_true] at fields
    obtain ⟨pgd, pud, pmd, pte, offset⟩ := fields
    have same : ({ vaddr with reserved := 0 } : VirtAddr) = { other with reserved := 0 } :=
      VirtAddr.eq_of_toNat_eq rfl pgd pud pmd pte offset
    have numbers : virtAddrTToUint64T { vaddr with reserved := 0 } =
        virtAddrTToUint64T { other with reserved := 0 } := by rw [same]
    exact numbers
  · intro numbers
    have same := congrArg initVirtAddr64 numbers
    rw [initVirtAddr64_virtAddrTToUint64T, initVirtAddr64_virtAddrTToUint64T] at same
    have texts : printVirtualAddress { vaddr with reserved := 0 } =
        printVirtualAddress { other with reserved := 0 } := by rw [same]
    exact texts

theorem printPhysicalAddress_injective : Function.Injective printPhysicalAddress := by
  intro paddr other printed
  have texts := congrArg Prod.snd printed
  rw [printPhysicalAddress_eq, printPhysicalAddress_eq] at texts
  have fields := labelled_injective (by decide) (by decide) rfl rfl
    (fun label member => solid_labels label (List.mem_append_right _ member)) texts
  simp only [List.cons.injEq, and_true] at fields
  cases paddr
  cases other
  exact congrArg₂ PhyAddr.mk (BitVec.eq_of_toNat_eq fields.1) (BitVec.eq_of_toNat_eq fields.2)

/-- The text of a virtual address tells its number, and that of a physical address tells the address. -/
theorem printed_addresses_iff (vaddr vaddr' : VirtAddr) (paddr paddr' : PhyAddr) :
    (printVirtualAddress vaddr = printVirtualAddress vaddr' ↔
      virtAddrTToUint64T vaddr = virtAddrTToUint64T vaddr') ∧
    (printPhysicalAddress paddr = printPhysicalAddress paddr' ↔ paddr = paddr') :=
  ⟨printVirtualAddress_eq_iff vaddr vaddr', printPhysicalAddress_injective.eq_iff⟩

end Addresses

section Programs

/-- The kinds of commands that a program can hold; a data access is of a word or of a byte. -/
inductive LineKind where
  | fetch
  | read (word : Bool)
  | write (word : Bool)

/-- What is printed of an accepted command: its kind, the data of a write, and the address. -/
inductive ShownLine where
  | fetch (address : ℕ)
  | read (word : Bool) (address : ℕ)
  | write (word : Bool) (value address : ℕ)

def kindText : LineKind → Text
  | .fetch => literal ['R', ' ', 'I', ' ']
  | .read word => literal ['R', ' ', 'D', if word then 'W' else 'B', ' ']
  | .write word => literal ['W', ' ', 'D', if word then 'W' else 'B', ' ', '0', 'x']

theorem kindText_recoverable : Recoverable kindText Anything := by
  apply Recoverable.of_prefixFree
  rintro (_ | ⟨_ | _⟩ | ⟨_ | _⟩) (_ | ⟨_ | _⟩ | ⟨_ | _⟩) first
  all_goals first | rfl | exact absurd first (by decide)

def addressText (address : ℕ) : Text :=
  literal ['@', '0', 'x'] ++ (paddedNumeral 16 16 address ++ [ascii '\n'])

def writeText (word : Bool) (fields : ℕ × ℕ) : Text :=
  (if word then paddedNumeral 16 8 fields.1 else numeral 16 fields.1) ++
    (literal [' '] ++ addressText fields.2)

theorem addressText_recoverable : Recoverable addressText Anything := by
  have newline (rest : Text) : Outside (isDigit 16) ([ascii '\n'] ++ rest) := outside_cons.mpr (by decide)
  have padded : Recoverable (fun address => paddedNumeral 16 16 address ++ [ascii '\n']) Anything :=
    (paddedNumeral_recoverable (by decide) (by decide) 16).append_literal fun rest _ => newline rest
  exact padded.literal_append _

theorem writeText_recoverable (word : Bool) : Recoverable (writeText word) Anything := by
  have blank (address : ℕ) (rest : Text) : Anything rest →
      Outside (isDigit 16) (literal [' '] ++ addressText address ++ rest) :=
    fun _ => outside_cons.mpr (by decide)
  have address := addressText_recoverable.literal_append (literal [' '])
  cases word with
  | true => exact (paddedNumeral_recoverable (by decide) (by decide) 8).append address blank
  | false => exact (numeral_recoverable (by decide) (by decide)).append address blank

namespace ShownLine

def kind : ShownLine → LineKind
  | fetch _ => .fetch
  | read word _ => .read word
  | write word _ _ => .write word

def fieldsText : ShownLine → Text
  | fetch address => addressText address
  | read _ address => addressText address
  | write word value address => writeText word (value, address)

def text (shown : ShownLine) : Text := kindText shown.kind ++ shown.fieldsText

theorem text_recoverable : Recoverable text Anything := by
  intro shown other rest rest' _ _ same
  simp only [text, List.append_assoc] at same
  obtain ⟨kinds, fields⟩ := kindText_recoverable trivial trivial same
  cases shown with
  | fetch address =>
    cases other with
    | fetch address' =>
      obtain ⟨rfl, rests⟩ := addressText_recoverable trivial trivial fields
      exact ⟨rfl, rests⟩
    | read | write => cases kinds
  | read word address =>
    cases other with
    | read word' address' =>
      obtain rfl := LineKind.read.inj kinds
      obtain ⟨rfl, rests⟩ := addressText_recoverable trivial trivial fields
      exact ⟨rfl, rests⟩
    | fetch | write => cases kinds
  | write word value address =>
    cases other with
    | write word' value' address' =>
      obtain rfl := LineKind.write.inj kinds
      obtain ⟨values, rests⟩ := writeText_recoverable word trivial trivial fields
      obtain ⟨rfl, rfl⟩ := Prod.mk.inj values
      exact ⟨rfl, rests⟩
    | fetch | read => cases kinds

theorem text_ne_nil (shown : ShownLine) : shown.text ≠ [] := by
  cases shown <;> exact List.cons_ne_nil _ _

end ShownLine

def Command.shown (line : Command) : ShownLine :=
  let word := decide (line.dataSize.toNat = sizeofWord)
  let address := (virtAddrTToUint64T line.vaddr).toNat
  if line.order = CommandWord.READ then
    if line.type = MemAccess.INSTRUCTION.stored then .fetch address else .read word address
  else .write word line.writeData.toNat address

theorem printLine_eq {line : Command} (accepted : checkCommand line = true) :
    printLine line = line.shown.text := by
  obtain ⟨orders, types, _⟩ := checkCommand_iff.mp accepted
  have apart : CommandWord.WRITE ≠ CommandWord.READ := by decide
  have kinds : MemAccess.DATA.stored ≠ MemAccess.INSTRUCTION.stored := by decide
  rcases orders with ⟨reads, _⟩ | ⟨writes, data, _⟩
  · rcases types with fetch | ⟨data, _⟩
    · simp [printLine, Command.shown, reads, fetch, ShownLine.text, ShownLine.kind, ShownLine.fieldsText,
        kindText, printAddress, addressText, literal]
    · by_cases word : line.dataSize.toNat = sizeofWord <;>
        simp [printLine, Command.shown, reads, data, kinds, word, ShownLine.text, ShownLine.kind,
          ShownLine.fieldsText, kindText, printAddress, addressText, literal]
  · by_cases word : line.dataSize.toNat = sizeofWord <;>
      simp [printLine, Command.shown, writes, apart, data, kinds, word, ShownLine.text, ShownLine.kind,
        ShownLine.fieldsText, kindText, writeText, printAddress, addressText, literal]

theorem isWord_iff {size size' : BitVec 64} (sizes : size = BitVec.ofNat 64 sizeofWord ∨ size = 1)
    (sizes' : size' = BitVec.ofNat 64 sizeofWord ∨ size' = 1) :
    (size.toNat = sizeofWord ↔ size'.toNat = sizeofWord) ↔ size = size' := by
  rcases sizes with rfl | rfl <;> rcases sizes' with rfl | rfl <;> decide

/-- Accepted commands are shown alike exactly if they are the same. -/
theorem shown_eq_iff {line other : Command} (accepted : checkCommand line = true)
    (accepted' : checkCommand other = true) : line.shown = other.shown ↔ SameCommand line other := by
  obtain ⟨orders, types, _⟩ := checkCommand_iff.mp accepted
  obtain ⟨orders', types', _⟩ := checkCommand_iff.mp accepted'
  have apart : CommandWord.WRITE ≠ CommandWord.READ := by decide
  have kinds : MemAccess.DATA.stored ≠ MemAccess.INSTRUCTION.stored := by decide
  rcases orders with ⟨reads, zero⟩ | ⟨writes, data, _⟩
  · rcases orders' with ⟨reads', zero'⟩ | ⟨writes', data', _⟩
    · rcases types with fetch | ⟨data, size⟩ <;> rcases types' with fetch' | ⟨data', size'⟩
      · simp [Command.shown, SameCommand, reads, reads', fetch, fetch', kinds.symm, BitVec.toNat_inj]
      · simp [Command.shown, SameCommand, reads, reads', fetch, data', kinds, kinds.symm]
      · simp [Command.shown, SameCommand, reads, reads', fetch', data, kinds]
      · simp [Command.shown, SameCommand, reads, reads', data, data', kinds, zero, zero', BitVec.toNat_inj,
          isWord_iff size size', and_comm]
    · have unlike : ¬ SameCommand line other := fun same => apart (writes'.symm.trans (same.1.symm.trans reads))
      simp only [Command.shown, reads, writes', apart, ↓reduceIte, unlike, iff_false]
      split <;> simp
  · have size := types.resolve_left fun fetch => kinds (data.symm.trans fetch)
    rcases orders' with ⟨reads', _⟩ | ⟨writes', data', _⟩
    · have unlike : ¬ SameCommand line other := fun same => apart (writes.symm.trans (same.1.trans reads'))
      simp only [Command.shown, reads', writes, apart, ↓reduceIte, unlike, iff_false]
      split <;> simp
    · have size' := types'.resolve_left fun fetch => kinds (data'.symm.trans fetch)
      have fields : line.shown = other.shown ↔ line.dataSize = other.dataSize ∧
          line.writeData = other.writeData ∧ virtAddrTToUint64T line.vaddr = virtAddrTToUint64T other.vaddr := by
        simp [Command.shown, writes, writes', apart, BitVec.toNat_inj, isWord_iff size.2 size'.2]
      rw [fields]
      constructor
      · rintro ⟨size, value, address⟩
        exact ⟨writes.trans writes'.symm, data.trans data'.symm, address, fun _ => ⟨size, value⟩⟩
      · rintro ⟨_, _, address, fields⟩
        exact ⟨(fields data).1, (fields data).2, address⟩

theorem map_shown_eq_iff {lines others : List Command} (accepted : ∀ line ∈ lines, checkCommand line = true)
    (accepted' : ∀ line ∈ others, checkCommand line = true) :
    lines.map Command.shown = others.map Command.shown ↔ List.Forall₂ SameCommand lines others := by
  induction lines generalizing others with
  | nil => cases others <;> simp
  | cons line lines ih =>
    cases others with
    | nil => simp
    | cons other others =>
      rw [List.forall_mem_cons] at accepted accepted'
      rw [List.map_cons, List.map_cons, List.cons.injEq, List.forall₂_cons, ih accepted.2 accepted'.2,
        shown_eq_iff accepted.1 accepted'.1]

/-- Programs of accepted commands print alike exactly if they have the same commands. -/
theorem Program.Holds.print_eq_iff {program other : Program} {lines lines' : List Command}
    (holds : program.Holds lines) (holds' : other.Holds lines')
    (accepted : ∀ line ∈ lines, checkCommand line = true)
    (accepted' : ∀ line ∈ lines', checkCommand line = true) :
    programPrint program = programPrint other ↔ List.Forall₂ SameCommand lines lines' := by
  have texts (lines : List Command) (accepted : ∀ line ∈ lines, checkCommand line = true) :
      lines.flatMap printLine = (lines.map Command.shown).flatMap ShownLine.text := by
    rw [List.flatMap_map]
    exact List.flatMap_congr fun line member => printLine_eq (accepted line member)
  rw [holds.print, holds'.print, texts lines accepted, texts lines' accepted', Except.ok.injEq,
    Prod.mk.injEq, eq_self, true_and, ← map_shown_eq_iff accepted accepted']
  exact (ShownLine.text_recoverable.flatMap_injective ShownLine.text_ne_nil).eq_iff

/-- Two programs built by accepted commands print alike exactly if they have the same commands. -/
theorem printed_programs_iff {program other : Program} (built : Built program) (built' : Built other) :
    programPrint program = programPrint other ↔ List.Forall₂ SameCommand program.lines other.lines := by
  obtain ⟨lines, holds, accepted⟩ := built.holds
  obtain ⟨lines', holds', accepted'⟩ := built'.holds
  rw [holds.lines, holds'.lines]
  exact holds.print_eq_iff holds' accepted accepted'

def fetchProgram (size : BitVec 64) : Program :=
  (programInit true uninitialised).2.appended ⟨firstsize, fun _ => Command.zero⟩
    { Command.zero with dataSize := size } sizeofPointer

theorem fetchProgram_built (size : BitVec 64) : Built (fetchProgram size) :=
  .add (.init uninitialised) (show programAddCommand (programInit true uninitialised).2
    { Command.zero with dataSize := size } none = _ from rfl)

/-- The size of an instruction fetch is not printed. -/
theorem printed_programs_iff_fetch : (fetchProgram 0).lines = [{ Command.zero with dataSize := 0 }] ∧
    (fetchProgram 4).lines = [{ Command.zero with dataSize := 4 }] ∧
    programPrint (fetchProgram 0) = programPrint (fetchProgram 4) := by
  have same : List.Forall₂ SameCommand (fetchProgram 0).lines (fetchProgram 4).lines :=
    .cons ⟨rfl, rfl, rfl, fun data => absurd data (by decide)⟩ .nil
  exact ⟨rfl, rfl, (printed_programs_iff (fetchProgram_built 0) (fetchProgram_built 4)).mpr same⟩

theorem accepted_of_filled {passes : ℕ → Pass} {items : List Item} {lines : List Command}
    (filled : List.Forall₂ (Filled passes) items lines) : ∀ line ∈ lines, checkCommand line = true := by
  induction filled with
  | nil => simp
  | cons first _ ih => exact List.forall_mem_cons.mpr ⟨first.1, ih⟩

/-- What a successful execution of `program_read` stores is accepted. -/
theorem programRead_stored {overflow : Overflow} {text : Text} {zeroed : Bool} {passes : ℕ → Pass}
    {prior program : Program}
    (read : programRead overflow (some text) zeroed passes prior = .ok (.errNone, program)) :
    ∃ lines, program.Holds lines ∧ List.Forall₂ (Filled passes) (textItems overflow text) lines ∧
      ∀ line ∈ lines, checkCommand line = true := by
  have ready : prior.listing ≠ none ∧ zeroed = true := by
    by_contra refused
    rw [not_and_or, not_not, Bool.not_eq_true] at refused
    obtain ⟨next, failed⟩ := @programRead_refused overflow text zeroed prior refused passes
    simp [failed] at read
  obtain ⟨listing, rfl⟩ := ready
  obtain ⟨result, read', spec⟩ := programRead_spec overflow text passes listing
  obtain rfl := Except.ok.inj (read.symm.trans read')
  rcases spec with ⟨_, lines, holds, filled⟩ | ⟨failure, _⟩
  · rw [List.nil_append] at holds
    exact ⟨lines, holds, filled, accepted_of_filled filled⟩
  · simp at failure

/-- A program without writes is read back from what it prints, and prints the same again. -/
theorem Program.Holds.read_print {program : Program} {lines : List Command} (holds : program.Holds lines)
    (accepted : ∀ line ∈ lines, checkCommand line = true)
    (reads : ∀ line ∈ lines, line.order = CommandWord.READ) (overflow : Overflow) {passes : ℕ → Pass}
    (calm : Calm passes) {prior : Program} (listing : prior.listing ≠ none) :
    ∃ again, programRead overflow (some (lines.flatMap printLine)) true passes prior = .ok (.errNone, again) ∧
      List.Forall₂ SameCommand lines again.lines ∧ programPrint again = programPrint program := by
  obtain ⟨described, script, same, checked⟩ := print_script overflow accepted
  have describedReads := (reads_iff same).mp reads
  have found := script.passItems_eq describedReads (Nat.lt_succ_self _)
  obtain ⟨again, read, filled⟩ := programRead_calm (fit_of_matches found checked) calm listing
  have stored := sameCommands_trans same (sameCommands_of_filled filled found describedReads)
  obtain ⟨lines', holds', _, accepted'⟩ := programRead_stored read
  have alike := holds.print_eq_iff holds' accepted accepted'
  rw [← holds'.lines] at alike
  exact ⟨again, read, stored, (alike.mpr stored).symm⟩

/-- Reading a text and printing the program gives a normal form of the text: it is read as the same
commands, whatever the conversions do with numbers that are too large, and printed as itself. The bytes
of the text are at least 2, and in both readings the local command of every pass is zero and the
allocations are granted. -/
theorem reading_normalizes {overflow overflow' : Overflow} {text : Text} (bytes : ∀ b ∈ text, 2 ≤ b.toNat)
    {passes passes' : ℕ → Pass} (calm : Calm passes) (calm' : Calm passes') {zeroed : Bool}
    {prior prior' program : Program} (listing : prior'.listing ≠ none)
    (read : programRead overflow (some text) zeroed passes prior = .ok (.errNone, program)) :
    ∃ normal again, programPrint program = .ok (.errNone, normal) ∧
      programRead overflow' (some normal) true passes' prior' = .ok (.errNone, again) ∧
      List.Forall₂ SameCommand program.lines again.lines ∧ programPrint again = .ok (.errNone, normal) := by
  obtain ⟨lines, holds, filled, accepted⟩ := programRead_stored read
  have reads := reads_of_filled calm filled (passItems_no_write overflow bytes)
  obtain ⟨again, read', same, printed⟩ := holds.read_print accepted reads overflow' calm' listing
  rw [← holds.lines] at same
  exact ⟨_, again, holds.print, read', same, printed.trans holds.print⟩

/-- A fetch without blanks and without leading zeros gets its normal form. -/
theorem reading_normalizes_fetch : ∃ program normal again,
    programRead saturating (some (literal ['R', 'I', '@', '4'])) true blankPasses blankProgram =
        .ok (.errNone, program) ∧
      programPrint program = .ok (.errNone, normal) ∧
      programRead saturating (some normal) true blankPasses blankProgram = .ok (.errNone, again) ∧
      programPrint again = .ok (.errNone, normal) := by
  have accepted : (programRead saturating (some (literal ['R', 'I', '@', '4'])) true blankPasses
      blankProgram).map Prod.fst = .ok .errNone := by decide +kernel
  have bytes : ∀ b ∈ literal ['R', 'I', '@', '4'], 2 ≤ b.toNat := by decide
  have listing : blankProgram.listing ≠ none := by simp [blankProgram]
  cases read : programRead saturating (some (literal ['R', 'I', '@', '4'])) true blankPasses blankProgram with
  | error fault =>
    rw [read] at accepted
    contradiction
  | ok result =>
    obtain ⟨code, program⟩ := result
    rw [read] at accepted
    obtain rfl : code = .errNone := Except.ok.inj accepted
    obtain ⟨normal, again, printed, read', _, printed'⟩ :=
      @reading_normalizes saturating saturating _ bytes _ _ blankPasses_calm blankPasses_calm _ _ _ _ listing read
    exact ⟨program, normal, again, rfl, printed, read', printed'⟩

end Programs

end KabyLake
