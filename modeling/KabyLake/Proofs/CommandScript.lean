import KabyLake.Proofs.ProgramRead

/-! # The format of command files

A command file is a sequence of commands between blanks, each a letter for the order, the kind of
access, for a write its value, and a marked address. The scanner finds the commands of a file
without writes one by one, and what `program_print` writes is such a file.
-/

namespace KabyLake

open Stdio

/-- One blank or more. -/
def Gap (text : Text) : Prop := text ≠ [] ∧ Blank text

/-- The letter of a data size. -/
def sizeLetter (word : Bool) : Byte := if word then ascii 'W' else ascii 'B'

/-- The virtual address that a number in a command file stands for. -/
def addressOf (overflow : Overflow) (n : ℕ) : VirtAddr := initVirtAddr64 (convert overflow 64 false n)

/-- The text is a well-formed command; fields that it does not name are zero. -/
inductive CommandText (overflow : Overflow) : Text → Command → Prop
  | instruction {gap gap' address : Text} {n : ℕ} : Gap gap → Gap gap' → Denotes 16 address n →
      CommandText overflow (ascii 'R' :: (gap ++ ascii 'I' :: (gap' ++ ascii '@' :: address)))
        ⟨CommandWord.READ, MemAccess.INSTRUCTION.stored, 0, 0, addressOf overflow n⟩
  | data {gap gap' address : Text} {n : ℕ} (word : Bool) : Gap gap → Gap gap' → Denotes 16 address n →
      CommandText overflow
        (ascii 'R' :: (gap ++ ascii 'D' :: sizeLetter word :: (gap' ++ ascii '@' :: address)))
        ⟨CommandWord.READ, MemAccess.DATA.stored, sizeField word, 0, addressOf overflow n⟩
  | write {gap gap' gap'' value address : Text} {v n : ℕ} (word : Bool) : Gap gap → Gap gap' →
      Denotes 16 value v → Gap gap'' → Denotes 16 address n →
      CommandText overflow (ascii 'W' :: (gap ++ ascii 'D' :: sizeLetter word ::
          (gap' ++ (value ++ (gap'' ++ ascii '@' :: address)))))
        ⟨CommandWord.WRITE, MemAccess.DATA.stored, sizeField word, convert overflow 32 false v,
          addressOf overflow n⟩

/-- The text is a sequence of well-formed commands with blanks between them. -/
inductive Script (overflow : Overflow) : Text → List Command → Prop
  | nil {blanks : Text} : Blank blanks → Script overflow blanks []
  | cons {blanks text rest : Text} {command : Command} {commands : List Command} : Blank blanks →
      CommandText overflow text command → Boundary rest → Script overflow rest commands →
      Script overflow (blanks ++ (text ++ rest)) (command :: commands)

section Bytes

variable {overflow : Overflow}

private theorem blank_bytes {text : Text} (blank : Blank text) : ∀ b ∈ text, 2 ≤ b.toNat := by
  intro b member
  have space := blank b member
  simp only [isSpace, Bool.or_eq_true, beq_iff_eq, Bool.and_eq_true, decide_eq_true_eq] at space
  rcases space with rfl | ⟨low, _⟩
  · decide
  · omega

private theorem numeral_bytes {text : Text} {n : ℕ} (denotes : Denotes 16 text n) :
    ∀ b ∈ text, 2 ≤ b.toNat := by
  intro b member
  have := (denotes_bounds (by decide) denotes b member).1
  omega

/-- A command file has no byte of value zero or one. -/
theorem Script.bytes {text : Text} {commands : List Command} (script : Script overflow text commands) :
    ∀ b ∈ text, 2 ≤ b.toNat := by
  have letters : ∀ c ∈ ['R', 'I', 'D', '@', 'W'], 2 ≤ (ascii c).toNat := by
    simp only [List.forall_mem_cons, List.not_mem_nil, false_implies, implies_true, and_true]
    decide
  have size (word : Bool) : 2 ≤ (sizeLetter word).toNat := by cases word <;> decide
  have one {text : Text} {command : Command} (written : CommandText overflow text command) :
      ∀ b ∈ text, 2 ≤ b.toNat := by
    cases written with
    | instruction gap gap' address =>
      have := blank_bytes gap.2
      have := blank_bytes gap'.2
      have := numeral_bytes address
      grind
    | data word gap gap' address =>
      have := blank_bytes gap.2
      have := blank_bytes gap'.2
      have := numeral_bytes address
      grind
    | write word gap gap' value gap'' address =>
      have := blank_bytes gap.2
      have := blank_bytes gap'.2
      have := blank_bytes gap''.2
      have := numeral_bytes value
      have := numeral_bytes address
      grind
  induction script with
  | nil blank => exact blank_bytes blank
  | cons blank written _ _ ih =>
    intro b member
    rcases List.mem_append.mp member with front | others
    · exact blank_bytes blank b front
    · rcases List.mem_append.mp others with inside | behind
      · exact one written b inside
      · exact ih b behind

/-- A command file is blank or has an address mark. -/
theorem Script.mark {text : Text} {commands : List Command} (script : Script overflow text commands) :
    Blank text ∨ ascii '@' ∈ text := by
  cases script with
  | nil blank => exact .inl blank
  | cons _ written _ _ => exact .inr (by cases written <;> simp)

/-- Blanks in front of a command file do not count. -/
theorem Script.blank {text blanks : Text} {commands : List Command} (blank : Blank blanks)
    (script : Script overflow text commands) : Script overflow (blanks ++ text) commands := by
  cases script with
  | nil more => exact .nil (blank_append.mpr ⟨blank, more⟩)
  | cons more written boundary rest =>
    rw [← List.append_assoc]
    exact .cons (blank_append.mpr ⟨blank, more⟩) written boundary rest

end Bytes

/-- The item is what the command says, and no failure. -/
def Item.Matches (item : Item) (command : Command) : Prop :=
  item ≠ .failed ∧ item.command Command.zero = command

section Scan

variable {overflow : Overflow}

/-- A well-formed read is found as it is written. -/
theorem CommandText.passItem_eq {blanks text rest : Text} {command : Command} (blank : Blank blanks)
    (written : CommandText overflow text command) (reads : command.order = CommandWord.READ)
    (boundary : Boundary rest) : ∃ item, item.Matches command ∧
      passItem overflow ⟨blanks ++ (text ++ rest), false⟩ = (some item, ⟨rest, rest.isEmpty⟩) := by
  have number {address : Text} {n : ℕ} (denotes : Denotes 16 address n) :
      fscanfNumeral 16 none ⟨address ++ rest, false⟩ = (some (false, n), ⟨rest, rest.isEmpty⟩) :=
    fscanfNumeral_of_denotes (by decide) blank_nil denotes boundary
  have solid {c : Char} (known : c ∈ ['R', 'I', 'D', '@', 'W', 'B']) : isSpace (ascii c) = false := by
    revert c
    simp only [List.forall_mem_cons, List.not_mem_nil, false_implies, implies_true, and_true]
    decide
  cases written with
  | instruction gap gap' address =>
    refine ⟨.instruction (addressOf overflow _), ⟨by simp, rfl⟩, ?_⟩
    simp only [List.cons_append, List.append_assoc, passItem,
      nextNonspaceRead_blank blank (solid (c := 'R') (by simp)), ↓reduceIte, readRead,
      nextNonspaceRead_blank gap.2 (solid (c := 'I') (by simp)),
      nextNonspaceRead_blank gap'.2 (solid (c := '@') (by simp)), number address]
    rfl
  | @data gap gap' address n word spaces spaces' numeral =>
    have size : isSpace (sizeLetter word) = false := by cases word <;> decide
    have letter : sizeLetter word = ascii 'W' ∨ sizeLetter word = ascii 'B' := by
      cases word <;> decide
    have other : ascii 'D' ≠ eofChar ∧ ascii 'D' ≠ ascii 'I' := by decide
    have sized (others : Text) : nextNonspaceRead ⟨sizeLetter word :: others, false⟩ =
        (sizeLetter word, ⟨others, false⟩) := nextNonspaceRead_blank blank_nil size false
    refine ⟨.data word (addressOf overflow n), ⟨by simp, rfl⟩, ?_⟩
    simp only [List.cons_append, List.append_assoc, passItem,
      nextNonspaceRead_blank blank (solid (c := 'R') (by simp)), ↓reduceIte, readRead, other, letter,
      nextNonspaceRead_blank spaces.2 (solid (c := 'D') (by simp)), sized, not_true_eq_false,
      nextNonspaceRead_blank spaces'.2 (solid (c := '@') (by simp)), number numeral]
    cases word <;> rfl
  | write => simp [CommandWord.WRITE, CommandWord.READ] at reads

theorem CommandText.ne_nil {text : Text} {command : Command}
    (written : CommandText overflow text command) : text ≠ [] := by
  cases written <;> simp

theorem Script.eq_nil {text : Text} {commands : List Command} (script : Script overflow text commands)
    (empty : text = []) : commands = [] := by
  cases script with
  | nil => rfl
  | cons _ written _ _ =>
    rw [List.append_eq_nil_iff, List.append_eq_nil_iff] at empty
    exact (written.ne_nil empty.2.1).elim

/-- In a command file without writes the scanner finds exactly its commands. -/
theorem Script.passItems_eq {text : Text} {commands : List Command}
    (script : Script overflow text commands)
    (reads : ∀ command ∈ commands, command.order = CommandWord.READ) {fuel : ℕ}
    (enough : text.length < fuel) :
    List.Forall₂ Item.Matches (passItems overflow fuel (.opened text)) commands := by
  induction script generalizing fuel with
  | nil blank =>
    obtain ⟨fuel, rfl⟩ := Nat.exists_eq_add_one_of_ne_zero (Nat.ne_of_gt (Nat.zero_lt_of_lt enough))
    have other : eofChar ≠ ascii 'R' ∧ eofChar ≠ ascii 'W' := by decide
    simp [passItems_succ, passItem, Stream.opened, nextNonspaceRead_end blank, other]
  | @cons blanks text rest command commands blank written boundary script ih =>
    obtain ⟨fuel, rfl⟩ := Nat.exists_eq_add_one_of_ne_zero (Nat.ne_of_gt (Nat.zero_lt_of_lt enough))
    obtain ⟨item, same, found⟩ :=
      written.passItem_eq blank (reads command (List.mem_cons_self ..)) boundary
    rw [passItems_succ, Stream.opened, found]
    refine .cons same ?_
    cases rest with
    | nil =>
      rw [script.eq_nil rfl]
      exact .nil
    | cons b rest =>
      apply ih (fun other member => reads other (List.mem_cons_of_mem _ member))
      simp only [List.length_append, List.length_cons] at enough ⊢
      have := List.length_pos_iff.mpr written.ne_nil
      omega

end Scan

/-- The same command, as far as its kind uses the fields: the numbers of the addresses agree, and for
a data access size and data. -/
def SameCommand (command other : Command) : Prop :=
  command.order = other.order ∧ command.type = other.type ∧
    virtAddrTToUint64T command.vaddr = virtAddrTToUint64T other.vaddr ∧
    (command.type = MemAccess.DATA.stored →
      command.dataSize = other.dataSize ∧ command.writeData = other.writeData)

section Print

private theorem gap_blank : Gap [ascii ' '] := ⟨by simp, by decide⟩

/-- The address field of a line stands for its address, reserved bits apart. -/
private theorem addressOf_toNat (overflow : Overflow) (vaddr : VirtAddr) :
    addressOf overflow (virtAddrTToUint64T vaddr).toNat = { vaddr with reserved := 0 } := by
  rw [addressOf, convert, if_pos (BitVec.isLt _), BitVec.ofNat_toNat, BitVec.setWidth_eq,
    ← initVirtAddr64_virtAddrTToUint64T]
  rfl

private theorem printed_size {line : Command}
    (size : line.dataSize = BitVec.ofNat 64 sizeofWord ∨ line.dataSize = 1) :
    ∃ word, line.dataSize = sizeField word ∧
      (if line.dataSize.toNat = sizeofWord then 'W' else 'B') = if word then 'W' else 'B' := by
  rcases size with word | byte
  · exact ⟨true, word, by rw [word]; rfl⟩
  · exact ⟨false, byte, by rw [byte]; rfl⟩

/-- What `program_print` writes for an accepted command is a well-formed command, and an accepted
one. -/
theorem printLine_written (overflow : Overflow) {line : Command} (accepted : checkCommand line = true) :
    ∃ text command, printLine line = text ++ [ascii '\n'] ∧ CommandText overflow text command ∧
      SameCommand line command ∧ checkCommand command = true := by
  obtain ⟨orders, types, aligned⟩ := checkCommand_iff.mp accepted
  have address := denotes_paddedNumeral 16 (virtAddrTToUint64T line.vaddr).toNat
  have there := addressOf_toNat overflow line.vaddr
  have other : MemAccess.DATA.stored ≠ MemAccess.INSTRUCTION.stored := by decide
  rcases types with fetch | ⟨data, size⟩
  · have ⟨reads, _⟩ : line.order = CommandWord.READ ∧ line.writeData = 0 := by
      rcases orders with reads | ⟨_, data, _⟩
      · exact reads
      · exact (other (data.symm.trans fetch)).elim
    refine ⟨_, _, ?_, .instruction gap_blank gap_blank address, ?_, ?_⟩
    · simp [printLine, reads, fetch, literal, printAddress]
    · exact ⟨reads, fetch, by rw [there]; rfl, fun data => (other (data.symm.trans fetch)).elim⟩
    · rw [there]
      exact checkCommand_iff.mpr ⟨.inl ⟨rfl, rfl⟩, .inl rfl, aligned⟩
  · obtain ⟨word, sized, letter⟩ := printed_size size
    rw [sized] at size
    rcases orders with ⟨reads, zero⟩ | ⟨writes, _, small⟩
    · refine ⟨_, _, ?_, .data word gap_blank gap_blank address, ?_, ?_⟩
      · simp only [printLine, reads, data, other, letter, literal, printAddress]
        cases word <;> simp [sizeLetter]
      · exact ⟨reads, data, by rw [there]; rfl, fun _ => ⟨sized, zero⟩⟩
      · rw [there]
        exact checkCommand_iff.mpr ⟨.inl ⟨rfl, rfl⟩, .inr ⟨rfl, size⟩, aligned⟩
    · have order : CommandWord.WRITE ≠ CommandWord.READ := by decide
      have value : convert overflow 32 false line.writeData.toNat = line.writeData := by
        rw [convert, if_pos (BitVec.isLt _), BitVec.ofNat_toNat, BitVec.setWidth_eq]
        rfl
      obtain ⟨numeral, denotes, printed⟩ : ∃ numeral, Denotes 16 numeral line.writeData.toNat ∧
          printLine line = ascii 'W' :: ([ascii ' '] ++ ascii 'D' :: sizeLetter word ::
            ([ascii ' '] ++ (numeral ++ ([ascii ' '] ++ ascii '@' :: (ascii '0' :: ascii 'x' ::
              paddedNumeral 16 16 (virtAddrTToUint64T line.vaddr).toNat))))) ++ [ascii '\n'] := by
        cases word with
        | true =>
          refine ⟨_, denotes_paddedNumeral 8 line.writeData.toNat, ?_⟩
          simp only [printLine, writes, order, data, other, letter, literal, printAddress]
          simp [sizeLetter]
        | false =>
          refine ⟨_, denotes_numeral line.writeData.toNat, ?_⟩
          simp only [printLine, writes, order, data, other, letter, literal, printAddress]
          simp [sizeLetter]
      refine ⟨_, _, printed, .write word gap_blank gap_blank denotes gap_blank address, ?_, ?_⟩
      · exact ⟨writes, data, by rw [there]; rfl, fun _ => ⟨sized, value.symm⟩⟩
      · rw [there, value]
        rw [sized] at small
        exact checkCommand_iff.mpr ⟨.inr ⟨rfl, rfl, small⟩, .inr ⟨rfl, size⟩, aligned⟩

/-- What `program_print` writes for accepted commands is a file with the same commands. -/
theorem print_script (overflow : Overflow) {lines : List Command}
    (accepted : ∀ line ∈ lines, checkCommand line = true) :
    ∃ commands, Script overflow (lines.flatMap printLine) commands ∧
      List.Forall₂ SameCommand lines commands ∧
      ∀ command ∈ commands, checkCommand command = true := by
  induction lines with
  | nil => exact ⟨[], .nil blank_nil, .nil, by simp⟩
  | cons line rest ih =>
    obtain ⟨commands, script, same, checked⟩ :=
      ih fun other member => accepted other (List.mem_cons_of_mem _ member)
    obtain ⟨text, command, printed, written, first, check⟩ :=
      printLine_written overflow (accepted line (List.mem_cons_self ..))
    refine ⟨command :: commands, ?_, .cons first same, List.forall_mem_cons.mpr ⟨check, checked⟩⟩
    rw [List.flatMap_cons, printed, List.append_assoc, ← List.nil_append text, List.append_assoc]
    have newline : isSpace (ascii '\n') = true := by decide
    have separator : Blank [ascii '\n'] := by decide
    exact .cons blank_nil written (boundary_cons.mpr newline) (script.blank separator)

end Print

end KabyLake
