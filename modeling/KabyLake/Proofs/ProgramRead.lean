import KabyLake.Model.ProgramRead
import KabyLake.Proofs.Program

/-! # What the scanner of command files finds

The branches of the scanner only depend on the text, so a pass of the reading loop finds an item of
the text, and the item fills the local command as far as it goes. A file is therefore a list of
items, and a successful `program_read` has stored one command for each of them.
-/

namespace KabyLake

open Stdio

/-- What one pass of the reading loop finds behind an `R` or a `W`. -/
inductive Item where
  /-- the command could not be read -/
  | failed
  | instruction (vaddr : VirtAddr)
  | data (word : Bool) (vaddr : VirtAddr)
  | write (word : Bool) (value : BitVec 32) (vaddr : VirtAddr)
deriving DecidableEq, Repr

/-- The two values of `data_size`. -/
def sizeField (word : Bool) : BitVec 64 := if word then BitVec.ofNat 64 sizeofWord else 1

/-- The local command after the pass, which held `com` before. -/
def Item.command (com : Command) : Item → Command
  | failed => com
  | instruction vaddr =>
    { com with order := CommandWord.READ, type := MemAccess.INSTRUCTION.stored, vaddr }
  | data word vaddr =>
    { com with
      order := CommandWord.READ, type := MemAccess.DATA.stored, vaddr, dataSize := sizeField word }
  | write word value vaddr =>
    ⟨CommandWord.WRITE, MemAccess.DATA.stored, sizeField word, value, vaddr⟩

/-- The item that the results of `read_read` and `read_write` on a command of zeros show. -/
def Item.ofResult (result : ErrorCode × Command × Stream) : Item :=
  let command := result.2.1
  if result.1 ≠ .errNone then .failed
  else if command.order = CommandWord.WRITE then
    .write (command.dataSize.toNat == sizeofWord) command.writeData command.vaddr
  else if command.type = MemAccess.INSTRUCTION.stored then .instruction command.vaddr
  else .data (command.dataSize.toNat == sizeofWord) command.vaddr

/-- The item of one pass, if it starts with a letter that stands for a command. -/
def passItem (overflow : Overflow) (entree : Stream) : Option Item × Stream :=
  let (first, entree) := nextNonspaceRead entree
  if first = ascii 'R' then
    let result := readRead overflow entree Command.zero
    (some (Item.ofResult result), result.2.2)
  else if first = ascii 'W' then
    let result := readWrite overflow entree Command.zero
    (some (Item.ofResult result), result.2.2)
  else (none, entree)

/-- The items of at most `fuel` passes. -/
def passItems (overflow : Overflow) : ℕ → Stream → List Item
  | 0, _ => []
  | fuel + 1, entree =>
    let (item, entree) := passItem overflow entree
    item.toList ++ if entree.eof then [] else passItems overflow fuel entree

/-- The items of a text. -/
def textItems (overflow : Overflow) (text : Text) : List Item :=
  passItems overflow (text.length + 1) (.opened text)

section Stream

variable {overflow : Overflow} {entree : Stream}

theorem nextNonspaceRead_suffix (entree : Stream) :
    (nextNonspaceRead entree).2.rest <:+ entree.rest := by
  obtain ⟨rest, eof⟩ := entree
  simp only [nextNonspaceRead]
  induction rest with
  | nil => exact List.suffix_rfl
  | cons c rest ih =>
    rw [skipSpaces]
    split
    · exact ih.trans (List.suffix_cons c rest)
    · exact List.suffix_cons c rest

/-- Reading a character shortens the stream or meets its end. -/
theorem nextNonspaceRead_progress (entree : Stream) :
    (nextNonspaceRead entree).1 = eofChar ∧ (nextNonspaceRead entree).2.eof = true ∨
      (nextNonspaceRead entree).2.rest.length < entree.rest.length := by
  obtain ⟨rest, eof⟩ := entree
  simp only [nextNonspaceRead]
  induction rest with
  | nil => exact .inl ⟨rfl, rfl⟩
  | cons c rest ih =>
    rw [skipSpaces]
    split
    · rcases ih with stop | shorter
      · exact .inl stop
      · exact .inr (lt_trans shorter (by simp))
    · exact .inr (by simp)

/-- The character comes from the text unless it stands for the end of the file. -/
theorem nextNonspaceRead_mem (entree : Stream) :
    (nextNonspaceRead entree).1 = eofChar ∨ (nextNonspaceRead entree).1 ∈ entree.rest := by
  obtain ⟨rest, eof⟩ := entree
  simp only [nextNonspaceRead]
  induction rest with
  | nil => exact .inl rfl
  | cons c rest ih =>
    rw [skipSpaces]
    split
    · rcases ih with stop | member
      · exact .inl stop
      · exact .inr (List.mem_cons_of_mem c member)
    · exact .inr (List.mem_cons_self ..)

/-- Blanks in front of a character are skipped. -/
theorem nextNonspaceRead_blank {blanks rest : Text} {c : Byte} (blank : Blank blanks)
    (solid : isSpace c = false) (eof : Bool) :
    nextNonspaceRead ⟨blanks ++ c :: rest, eof⟩ = (c, ⟨rest, eof⟩) := by
  simp only [nextNonspaceRead]
  induction blanks with
  | nil => simp [skipSpaces, solid]
  | cons b blanks ih =>
    obtain ⟨space, others⟩ := blank_cons.mp blank
    have other : b ≠ eofChar := by
      rintro rfl
      exact absurd space (by decide)
    simp only [List.cons_append, skipSpaces, space, Bool.true_and, bne_iff_ne, ne_eq, other,
      not_false_eq_true, ↓reduceIte, ih others]

/-- Only blanks are left. -/
theorem nextNonspaceRead_end {blanks : Text} (blank : Blank blanks) (eof : Bool) :
    nextNonspaceRead ⟨blanks, eof⟩ = (eofChar, ⟨[], true⟩) := by
  simp only [nextNonspaceRead]
  induction blanks with
  | nil => rfl
  | cons b blanks ih =>
    obtain ⟨space, others⟩ := blank_cons.mp blank
    have other : b ≠ eofChar := by
      rintro rfl
      exact absurd space (by decide)
    simp only [skipSpaces, space, Bool.true_and, bne_iff_ne, ne_eq, other, not_false_eq_true, ↓reduceIte,
      ih others]

/-- A function of the scanner finds an item: for every local command it leaves the same stream and
fills the command with the item, and its code is `ERR_NONE` unless the item is a failure. -/
def Finds (read : Stream → Command → ErrorCode × Command × Stream) (entree : Stream) (item : Item)
    (after : Stream) : Prop :=
  ∀ com, ∃ code, read entree com = (code, item.command com, after) ∧
    (code = .errNone ↔ item ≠ .failed)

private theorem finds_failed {read : Stream → Command → ErrorCode × Command × Stream}
    {after : Stream} (result : ∀ com, read entree com = (.errBadParameter, com, after)) :
    Finds read entree .failed after :=
  fun com => ⟨.errBadParameter, result com, by simp⟩

private theorem sizeField_eq (size : Byte) :
    (if size = ascii 'W' then BitVec.ofNat 64 sizeofWord else 1#64) =
      sizeField (decide (size = ascii 'W')) := by
  simp only [sizeField, decide_eq_true_eq]
  rfl

/-- `read_read` finds an item that is no write. -/
theorem readRead_finds (overflow : Overflow) (entree : Stream) : ∃ item after,
    Finds (readRead overflow) entree item after ∧ (∀ word value vaddr, item ≠ .write word value vaddr) ∧
      after.rest <:+ entree.rest := by
  have first := nextNonspaceRead_suffix entree
  rcases orderRead : nextNonspaceRead entree with ⟨order, entree₁⟩
  rw [orderRead] at first
  by_cases stop : order = eofChar
  · exact ⟨.failed, entree₁, finds_failed fun com => by simp [readRead, orderRead, stop], by simp, first⟩
  have second := (nextNonspaceRead_suffix entree₁).trans first
  rcases sizeRead : nextNonspaceRead entree₁ with ⟨size, entree₂⟩
  rw [sizeRead] at second
  by_cases fetch : order = ascii 'I'
  · subst fetch
    by_cases mark : size = ascii '@'
    · have third := (fscanfNumeral_suffix 16 none entree₂).trans second
      rcases numberRead : fscanfNumeral 16 none entree₂ with ⟨_ | ⟨negative, n⟩, entree₃⟩
      · rw [numberRead] at third
        refine ⟨.failed, entree₃, finds_failed fun com => ?_, by simp, third⟩
        simp [readRead, orderRead, stop, sizeRead, mark, numberRead]
      · rw [numberRead] at third
        refine ⟨.instruction (initVirtAddr64 (convert overflow 64 negative n)), entree₃, fun com =>
          ⟨.errNone, ?_, by simp⟩, by simp, third⟩
        simp [readRead, orderRead, stop, sizeRead, mark, numberRead, Item.command]
    · refine ⟨.failed, entree₂, finds_failed fun com => ?_, by simp, second⟩
      simp [readRead, orderRead, stop, sizeRead, mark]
  by_cases letter : size = ascii 'W' ∨ size = ascii 'B'
  · have third := (nextNonspaceRead_suffix entree₂).trans second
    rcases markRead : nextNonspaceRead entree₂ with ⟨mark, entree₃⟩
    rw [markRead] at third
    by_cases marked : mark = ascii '@'
    · have fourth := (fscanfNumeral_suffix 16 none entree₃).trans third
      rcases numberRead : fscanfNumeral 16 none entree₃ with ⟨_ | ⟨negative, n⟩, entree₄⟩
      · rw [numberRead] at fourth
        refine ⟨.failed, entree₄, finds_failed fun com => ?_, by simp, fourth⟩
        simp [readRead, orderRead, stop, fetch, sizeRead, letter, markRead, marked, numberRead]
      · rw [numberRead] at fourth
        refine ⟨.data (decide (size = ascii 'W')) (initVirtAddr64 (convert overflow 64 negative n)),
          entree₄, fun com => ⟨.errNone, ?_, by simp⟩, by simp, fourth⟩
        simp [readRead, orderRead, stop, fetch, sizeRead, letter, markRead, marked, numberRead,
          Item.command, sizeField_eq]
    · refine ⟨.failed, entree₃, finds_failed fun com => ?_, by simp, third⟩
      simp [readRead, orderRead, stop, fetch, sizeRead, letter, markRead, marked]
  · refine ⟨.failed, entree₂, finds_failed fun com => ?_, by simp, second⟩
    simp [readRead, orderRead, stop, fetch, sizeRead, letter]

private theorem enumerator_toNat {order : Byte}
    (enumerator : order.signExtend 32 = CommandWord.WRITE ∨ order.signExtend 32 = CommandWord.READ) :
    order.toNat ≤ 1 := by
  revert order
  decide

/-- `read_write` finds a write only where a byte with the value of an enumerator stands. -/
theorem readWrite_finds (overflow : Overflow) (entree : Stream) : ∃ item after,
    Finds (readWrite overflow) entree item after ∧
      (item = .failed ∨ ∃ b ∈ entree.rest, b.toNat ≤ 1) ∧ after.rest <:+ entree.rest := by
  have first := nextNonspaceRead_suffix entree
  have source := nextNonspaceRead_mem entree
  rcases orderRead : nextNonspaceRead entree with ⟨order, entree₁⟩
  rw [orderRead] at first source
  by_cases enumerator : order.signExtend 32 = CommandWord.WRITE ∨ order.signExtend 32 = CommandWord.READ
  swap
  · refine ⟨.failed, entree₁, finds_failed fun com => ?_, .inl rfl, first⟩
    simp [readWrite, orderRead, enumerator]
  have small := enumerator_toNat enumerator
  have present : ∃ b ∈ entree.rest, b.toNat ≤ 1 := by
    rcases source with rfl | member
    · exact absurd small (by decide)
    · exact ⟨order, member, small⟩
  have second := (nextNonspaceRead_suffix entree₁).trans first
  rcases sizeRead : nextNonspaceRead entree₁ with ⟨size, entree₂⟩
  rw [sizeRead] at second
  by_cases letter : size = ascii 'W' ∨ size = ascii 'B'
  swap
  · refine ⟨.failed, entree₂, finds_failed fun com => ?_, .inl rfl, second⟩
    simp [readWrite, orderRead, enumerator, sizeRead, letter]
  have third := (fscanfNumeral_suffix 16 none entree₂).trans second
  rcases valueRead : fscanfNumeral 16 none entree₂ with ⟨_ | ⟨negative, value⟩, entree₃⟩
  · rw [valueRead] at third
    refine ⟨.failed, entree₃, finds_failed fun com => ?_, .inl rfl, third⟩
    simp [readWrite, orderRead, enumerator, sizeRead, letter, valueRead]
  rw [valueRead] at third
  have fourth := (nextNonspaceRead_suffix entree₃).trans third
  rcases markRead : nextNonspaceRead entree₃ with ⟨mark, entree₄⟩
  rw [markRead] at fourth
  by_cases marked : mark = ascii '@'
  swap
  · refine ⟨.failed, entree₄, finds_failed fun com => ?_, .inl rfl, fourth⟩
    simp [readWrite, orderRead, enumerator, sizeRead, letter, valueRead, markRead, marked]
  have fifth := (fscanfNumeral_suffix 16 (some 64) entree₄).trans fourth
  rcases numberRead : fscanfNumeral 16 (some 64) entree₄ with ⟨_ | ⟨minus, n⟩, entree₅⟩
  · rw [numberRead] at fifth
    refine ⟨.failed, entree₅, finds_failed fun com => ?_, .inl rfl, fifth⟩
    simp [readWrite, orderRead, enumerator, sizeRead, letter, valueRead, markRead, marked, numberRead]
  · rw [numberRead] at fifth
    refine ⟨.write (decide (size = ascii 'W')) (convert overflow 32 negative value)
      (initVirtAddr64 (convert overflow 64 minus n)), entree₅, fun com => ⟨.errNone, ?_, by simp⟩,
      .inr present, fifth⟩
    simp [readWrite, orderRead, enumerator, sizeRead, letter, valueRead, markRead, marked, numberRead,
      Item.command, sizeField_eq]

/-- The result on a command of zeros shows the item. -/
theorem Finds.ofResult {read : Stream → Command → ErrorCode × Command × Stream} {item : Item}
    {after : Stream} (finds : Finds read entree item after) :
    Item.ofResult (read entree Command.zero) = item ∧ (read entree Command.zero).2.2 = after := by
  obtain ⟨code, result, success⟩ := finds Command.zero
  rw [result]
  refine ⟨?_, rfl⟩
  cases item with
  | failed =>
    have failure : code ≠ .errNone := by simpa using success
    simp only [Item.ofResult, failure, ne_eq, not_false_eq_true, ↓reduceIte]
  | instruction vaddr =>
    obtain rfl : code = .errNone := success.mpr (by simp)
    rfl
  | data word vaddr =>
    obtain rfl : code = .errNone := success.mpr (by simp)
    cases word <;> rfl
  | write word value vaddr =>
    obtain rfl : code = .errNone := success.mpr (by simp)
    cases word <;> rfl

/-- One pass finds an item or none, whatever the local command held; it shortens the stream or meets
its end, and a write shows in a byte of the text. -/
theorem passItem_spec (overflow : Overflow) (entree : Stream) :
    (∀ com, programReadCommand overflow com entree =
      ((passItem overflow entree).1.map (Item.command com), (passItem overflow entree).2)) ∧
    (passItem overflow entree).2.rest <:+ entree.rest ∧
    ((passItem overflow entree).2.eof = true ∨
      (passItem overflow entree).2.rest.length < entree.rest.length) ∧
    ∀ word value vaddr, (passItem overflow entree).1 = some (.write word value vaddr) →
      ∃ b ∈ entree.rest, b.toNat ≤ 1 := by
  have kept := nextNonspaceRead_suffix entree
  have progress := nextNonspaceRead_progress entree
  rcases firstRead : nextNonspaceRead entree with ⟨first, entree₁⟩
  rw [firstRead] at kept progress
  have letter (c : Char) (other : ascii c ≠ eofChar) (here : first = ascii c) :
      entree₁.rest.length < entree.rest.length := by
    rcases progress with ⟨stop, _⟩ | shorter
    · exact absurd (here.symm.trans stop) other
    · exact shorter
  by_cases reads : first = ascii 'R'
  · obtain ⟨item, after, finds, noWrite, shorter⟩ := readRead_finds overflow entree₁
    have found : passItem overflow entree = (some item, after) := by
      simp only [passItem, firstRead, reads, ↓reduceIte, finds.ofResult]
    rw [found]
    refine ⟨fun com => ?_, shorter.trans kept, .inr ?_, ?_⟩
    · obtain ⟨code, result, _⟩ := finds com
      simp [programReadCommand, firstRead, reads, result]
    · exact lt_of_le_of_lt shorter.length_le (letter 'R' (by decide) reads)
    · rintro word value vaddr same
      exact (noWrite word value vaddr (Option.some.inj same)).elim
  by_cases writes : first = ascii 'W'
  · have other : ascii 'W' ≠ ascii 'R' := by decide
    obtain ⟨item, after, finds, source, shorter⟩ := readWrite_finds overflow entree₁
    have found : passItem overflow entree = (some item, after) := by
      simp only [passItem, firstRead, writes, other, ↓reduceIte, finds.ofResult]
    rw [found]
    refine ⟨fun com => ?_, shorter.trans kept, .inr ?_, ?_⟩
    · obtain ⟨code, result, _⟩ := finds com
      simp [programReadCommand, firstRead, writes, other, result]
    · exact lt_of_le_of_lt shorter.length_le (letter 'W' (by decide) writes)
    · rintro word value vaddr same
      rcases source with failure | ⟨b, member, small⟩
      · rw [failure] at same
        simp at same
      · exact ⟨b, kept.subset member, small⟩
  · have found : passItem overflow entree = (none, entree₁) := by
      simp only [passItem, firstRead, reads, writes, ↓reduceIte]
    rw [found]
    refine ⟨fun com => ?_, kept, progress.imp_left And.right, by simp⟩
    simp [programReadCommand, firstRead, reads, writes]

theorem passItems_succ (overflow : Overflow) (fuel : ℕ) (entree : Stream) :
    passItems overflow (fuel + 1) entree = (passItem overflow entree).1.toList ++
      if (passItem overflow entree).2.eof then [] else passItems overflow fuel (passItem overflow entree).2 :=
  rfl

/-- A text without bytes of value zero and one has no write item. -/
theorem passItems_no_write (overflow : Overflow) {fuel : ℕ} {entree : Stream}
    (text : ∀ b ∈ entree.rest, 2 ≤ b.toNat) (word : Bool) (value : BitVec 32) (vaddr : VirtAddr) :
    .write word value vaddr ∉ passItems overflow fuel entree := by
  induction fuel generalizing entree with
  | zero => simp [passItems]
  | succ fuel ih =>
    obtain ⟨_, kept, _, writes⟩ := passItem_spec overflow entree
    intro member
    rw [passItems_succ] at member
    rcases List.mem_append.mp member with first | later
    · obtain ⟨b, source, small⟩ := writes word value vaddr (Option.mem_toList.mp first)
      have := text b source
      omega
    · split at later
      · contradiction
      · exact ih (fun b source => text b (kept.subset source)) later

end Stream

/-- The command that a pass with some local command makes of an item, if it is accepted. -/
def Filled (passes : ℕ → Pass) (item : Item) (command : Command) : Prop :=
  checkCommand command = true ∧ ∃ i, command = item.command (passes i).command

/-- Why a command was refused: its allocation failed, or its checks. -/
def Refusal (passes : ℕ → Pass) (items : List Item) : Prop :=
  (∃ i, (passes i).outcome = none) ∨
    ∃ item ∈ items, ∃ i, checkCommand (item.command (passes i).command) = false

theorem Filled.shift {passes : ℕ → Pass} {item : Item} {command : Command}
    (filled : Filled (fun i => passes (i + 1)) item command) : Filled passes item command := by
  obtain ⟨accepted, i, source⟩ := filled
  exact ⟨accepted, i + 1, source⟩

theorem Refusal.shift {passes : ℕ → Pass} {items longer : List Item} (part : items ⊆ longer)
    (refusal : Refusal (fun i => passes (i + 1)) items) : Refusal passes longer := by
  rcases refusal with ⟨i, failed⟩ | ⟨item, member, i, rejected⟩
  · exact .inl ⟨i + 1, failed⟩
  · exact .inr ⟨item, part member, i + 1, rejected⟩

/-- What the reading loop returns: on success one accepted command for each item. -/
def ReadResult (passes : ℕ → Pass) (items : List Item) (commands : List Command)
    (result : ErrorCode × Program) : Prop :=
  (result.1 = .errNone ∧ ∃ added, result.2.Holds (commands ++ added) ∧
    List.Forall₂ (Filled passes) items added) ∨
  (result.1 = .errBadParameter ∧ Refusal passes items)

/-- The command of one pass is stored or refused. -/
private theorem pass_spec {program : Program} {commands : List Command} (holds : program.Holds commands)
    (passes : ℕ → Pass) (item : Option Item) : ∃ code next,
      programReadStore program (passes 0).outcome (item.map (Item.command (passes 0).command)) =
        .ok (code, next) ∧
      ReadResult passes item.toList commands (code, next) := by
  cases item with
  | none => exact ⟨.errNone, program, rfl, .inl ⟨rfl, [], by simpa using holds, .nil⟩⟩
  | some item =>
    cases accepted : checkCommand (item.command (passes 0).command) with
    | true =>
      obtain ⟨code, next, added, done | failed⟩ := holds.add_cases accepted (passes 0).outcome
      · exact ⟨code, next, added, .inl ⟨done.1, _, done.2, .cons ⟨accepted, 0, rfl⟩ .nil⟩⟩
      · exact ⟨code, next, added, .inr ⟨failed.1, .inl ⟨0, failed.2⟩⟩⟩
    | false =>
      refine ⟨.errBadParameter, program, programAddCommand_rejected accepted, .inr ⟨rfl, .inr ?_⟩⟩
      exact ⟨item, by simp, 0, accepted⟩

/-- The loop ends within the length of the text, and its result is that of its passes. -/
theorem programReadLoop_spec (overflow : Overflow) {fuel : ℕ} {entree : Stream}
    (enough : entree.rest.length < fuel) {program : Program} {commands : List Command}
    (holds : program.Holds commands) (passes : ℕ → Pass) :
    ∃ result, programReadLoop overflow fuel passes entree program = .ok result ∧
      ReadResult passes (passItems overflow fuel entree) commands result := by
  induction fuel generalizing entree program commands passes with
  | zero => omega
  | succ fuel ih =>
    obtain ⟨read, _, progress, _⟩ := passItem_spec overflow entree
    rw [passItems_succ]
    generalize passItem overflow entree = found at read progress ⊢
    obtain ⟨item, after⟩ := found
    obtain ⟨code, next, stored, result⟩ := pass_spec holds passes item
    simp only [programReadLoop, read, stored, Machine.ok_bind, Machine.pure_eq_ok]
    rcases result with ⟨rfl, added, held, filled⟩ | ⟨rfl, refusal⟩
    · simp only [ne_eq, not_true_eq_false, ↓reduceIte]
      cases stop : after.eof with
      | true =>
        refine ⟨_, rfl, .inl ⟨rfl, added, held, ?_⟩⟩
        simpa using filled
      | false =>
        have shorter : after.rest.length < fuel := by
          simp only [stop, Bool.false_eq_true, false_or] at progress
          omega
        obtain ⟨result, looped, rest⟩ := ih shorter held fun i => passes (i + 1)
        simp only [Bool.false_eq_true, ↓reduceIte]
        refine ⟨result, looped, ?_⟩
        rcases rest with ⟨success, others, final, filled'⟩ | ⟨failure, refusal⟩
        · refine .inl ⟨success, added ++ others, by simpa using final, ?_⟩
          exact List.rel_append filled (filled'.imp fun _ _ => Filled.shift)
        · exact .inr ⟨failure, refusal.shift (List.subset_append_right _ _)⟩
    · simp only [ne_eq, reduceCtorEq, not_false_eq_true, ↓reduceIte]
      refine ⟨_, rfl, .inr ⟨rfl, ?_⟩⟩
      rcases refusal with failed | ⟨item, member, rejected⟩
      · exact .inl failed
      · exact .inr ⟨item, List.mem_append_left _ member, rejected⟩

/-- `program_read` on a program with a listing and a file that can be opened. -/
theorem programRead_spec (overflow : Overflow) (text : Text) (passes : ℕ → Pass) {program : Program}
    (listing : program.listing ≠ none) :
    ∃ result, programRead overflow (some text) true passes program = .ok result ∧
      ReadResult passes (textItems overflow text) [] result := by
  obtain ⟨block, here⟩ := Option.ne_none_iff_exists'.mp listing
  obtain ⟨result, looped, spec⟩ := programReadLoop_spec overflow
    (Nat.lt_succ_self (Stream.opened text).rest.length) (programInit_holds program) passes
  refine ⟨result, ?_, spec⟩
  simp only [programRead, here]
  exact looped

end KabyLake
