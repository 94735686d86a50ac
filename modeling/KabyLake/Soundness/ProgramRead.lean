import KabyLake.Proofs.CommandScript

/-! # What `program_read` guarantees

The codes of `read_read` and `read_write` are ignored, a write is never recognised in a text, and
commands are completed from uninitialised storage. Each result below says for which texts the
guarantee survives this.
-/

namespace KabyLake

open Stdio

variable {overflow : Overflow}

/-- No local command can make the item acceptable. -/
def Item.Unfit : Item → Prop
  | failed => False
  | instruction vaddr | data _ vaddr => vaddr.pageOffset.toNat % sizeofWord ≠ 0
  | write word value vaddr => vaddr.pageOffset.toNat % sizeofWord ≠ 0 ∨ word = false ∧ 0xFF < value

instance (item : Item) : Decidable item.Unfit :=
  match item with
  | .failed => inferInstanceAs (Decidable False)
  | .instruction _ | .data _ _ => inferInstanceAs (Decidable (_ ≠ _))
  | .write _ _ _ => inferInstanceAs (Decidable (_ ∨ _ ∧ _))

theorem Item.Unfit.rejected {item : Item} (unfit : item.Unfit) (com : Command) :
    checkCommand (item.command com) = false := by
  rw [← Bool.not_eq_true, checkCommand_iff]
  rintro ⟨order, _, aligned⟩
  cases item with
  | failed => exact unfit
  | instruction vaddr => exact unfit aligned
  | data word vaddr => exact unfit aligned
  | write word value vaddr =>
    rcases unfit with misaligned | ⟨rfl, large⟩
    · exact misaligned aligned
    · rcases order with ⟨reads, _⟩ | ⟨_, _, small⟩
      · exact absurd (show CommandWord.WRITE = CommandWord.READ from reads) (by decide)
      · exact absurd (small rfl) (BitVec.not_le.mpr large)

/-- A local command of zeros completes every other item. -/
theorem Item.accepted_zero {item : Item} (fit : ¬ item.Unfit) :
    checkCommand (item.command Command.zero) = true := by
  have sized (word : Bool) :
      sizeField word = BitVec.ofNat 64 sizeofWord ∨ sizeField word = 1 := by
    cases word
    · exact .inr rfl
    · exact .inl rfl
  cases item with
  | failed => decide
  | instruction vaddr =>
    exact checkCommand_iff.mpr ⟨.inl ⟨rfl, rfl⟩, .inl rfl, not_not.mp fit⟩
  | data word vaddr =>
    exact checkCommand_iff.mpr ⟨.inl ⟨rfl, rfl⟩, .inr ⟨rfl, sized word⟩, not_not.mp fit⟩
  | write word value vaddr =>
    simp only [Item.Unfit, not_or, not_not, not_and, BitVec.not_lt] at fit
    refine checkCommand_iff.mpr ⟨.inr ⟨rfl, rfl, fun byte => fit.2 ?_⟩, .inr ⟨rfl, sized word⟩, fit.1⟩
    cases word with
    | false => rfl
    | true => exact absurd (show sizeField true = 1 from byte) (by decide)

theorem Filled.fit {passes : ℕ → Pass} {item : Item} {command : Command}
    (filled : Filled passes item command) : ¬ item.Unfit := by
  rintro unfit
  obtain ⟨accepted, i, rfl⟩ := filled
  rw [unfit.rejected] at accepted
  contradiction

/-- The local command of every pass is zero, and every allocation succeeds. -/
def Calm (passes : ℕ → Pass) : Prop :=
  ∀ i, (passes i).command = Command.zero ∧ (passes i).outcome.isSome

def blankPasses : ℕ → Pass := fun _ => ⟨Command.zero, some fun _ => Command.zero⟩

theorem blankPasses_calm : Calm blankPasses := fun _ => ⟨rfl, rfl⟩

def blankProgram : Program := ⟨some ⟨firstsize, fun _ => Command.zero⟩, 0, sizeofPointer⟩

private theorem programRead_success {text : Text} {passes : ℕ → Pass}
    (free : ¬ Refusal passes (textItems overflow text)) {program : Program}
    (listing : program.listing ≠ none) :
    ∃ next, programRead overflow (some text) true passes program = .ok (.errNone, next) ∧
      List.Forall₂ (Filled passes) (textItems overflow text) next.lines := by
  obtain ⟨⟨code, next⟩, read, ⟨rfl, added, holds, filled⟩ | ⟨_, refusal⟩⟩ :=
    programRead_spec overflow text passes listing
  · rw [List.nil_append] at holds
    exact ⟨next, read, holds.lines ▸ filled⟩
  · exact (free refusal).elim

/-- Without unfit items a calm execution succeeds. -/
theorem programRead_calm {text : Text} (fit : ∀ item ∈ textItems overflow text, ¬ item.Unfit)
    {passes : ℕ → Pass} (calm : Calm passes) {program : Program} (listing : program.listing ≠ none) :
    ∃ next, programRead overflow (some text) true passes program = .ok (.errNone, next) ∧
      List.Forall₂ (Filled passes) (textItems overflow text) next.lines := by
  apply programRead_success _ listing
  rintro (⟨i, failed⟩ | ⟨item, member, i, rejected⟩)
  · have granted := (calm i).2
    simp [failed] at granted
  · rw [(calm i).1, Item.accepted_zero (fit item member)] at rejected
    contradiction

theorem programRead_writes {text : Text} (fit : ∀ item ∈ textItems overflow text, ¬ item.Unfit)
    (writes : ∀ item ∈ textItems overflow text, ∃ word value vaddr, item = .write word value vaddr)
    {passes : ℕ → Pass} (granted : ∀ i, (passes i).outcome.isSome) {program : Program}
    (listing : program.listing ≠ none) :
    ∃ next, programRead overflow (some text) true passes program = .ok (.errNone, next) ∧
      List.Forall₂ (Filled passes) (textItems overflow text) next.lines := by
  apply programRead_success _ listing
  rintro (⟨i, failed⟩ | ⟨item, member, i, rejected⟩)
  · have success := granted i
    simp [failed] at success
  · obtain ⟨word, value, vaddr, rfl⟩ := writes item member
    have accepted := Item.accepted_zero (fit _ member)
    simp only [Item.command] at accepted rejected
    rw [accepted] at rejected
    contradiction

/-- Without a listing, or without the first allocation, the file is not read. -/
theorem programRead_refused {text : Text} {zeroed : Bool} {program : Program}
    (refused : program.listing = none ∨ zeroed = false) (passes : ℕ → Pass) :
    ∃ next, programRead overflow (some text) zeroed passes program = .ok (.errBadParameter, next) := by
  cases listing : program.listing with
  | none => exact ⟨program, by simp only [programRead, listing]⟩
  | some block =>
    obtain rfl : zeroed = false := by simpa [listing] using refused
    exact ⟨{ program with listing := none }, by simp only [programRead, listing]; rfl⟩

/-- With an unfit item every execution ends with an error. -/
theorem programRead_unfit {text : Text} (unfit : ∃ item ∈ textItems overflow text, item.Unfit)
    (zeroed : Bool) (passes : ℕ → Pass) (program : Program) :
    ∃ next, programRead overflow (some text) zeroed passes program = .ok (.errBadParameter, next) := by
  rcases em (program.listing = none ∨ zeroed = false) with refused | ready
  · exact programRead_refused refused passes
  · simp only [not_or, Bool.not_eq_false] at ready
    obtain ⟨listing, rfl⟩ := ready
    obtain ⟨⟨code, next⟩, read, ⟨_, added, _, filled⟩ | ⟨rfl, _⟩⟩ :=
      programRead_spec overflow text passes listing
    · obtain ⟨item, member, misfit⟩ := unfit
      have fit := (List.forall₂_and_left ..).mp (filled.imp fun _ _ done => ⟨done.fit, done⟩)
      exact (fit.1 item member misfit).elim
    · exact ⟨next, read⟩

/-- Whatever the program, the local commands and the allocations: `program_read` ends, and it returns
`ERR_NONE` only for a command file, whose commands are then the listing. -/
def ReadsSoundly (overflow : Overflow) (text : Text) : Prop :=
  ∀ zeroed passes program, ∃ code next,
    programRead overflow (some text) zeroed passes program = .ok (code, next) ∧
    (code = .errNone → ∃ commands, Script overflow text commands ∧
      List.Forall₂ SameCommand commands next.lines)

private theorem sameCommand_of_filled {passes : ℕ → Pass} {item : Item} {command described : Command}
    (filled : Filled passes item command) (same : item.Matches described)
    (reads : described.order = CommandWord.READ) : SameCommand described command := by
  obtain ⟨accepted, i, rfl⟩ := filled
  obtain ⟨success, rfl⟩ := same
  have types : MemAccess.INSTRUCTION.stored ≠ MemAccess.DATA.stored := by decide
  have orders : CommandWord.READ ≠ CommandWord.WRITE := by decide
  cases item with
  | failed => exact (success rfl).elim
  | instruction vaddr => exact ⟨rfl, rfl, rfl, fun data => (types data).elim⟩
  | data word vaddr =>
    refine ⟨rfl, rfl, rfl, fun _ => ⟨rfl, ?_⟩⟩
    rcases (checkCommand_iff.mp accepted).1 with ⟨_, zero⟩ | ⟨writes, _⟩
    · exact zero.symm
    · exact (orders writes).elim
  | write word value vaddr => exact (orders reads.symm).elim

/-- The commands stored for a file without writes are those of the file. -/
theorem sameCommands_of_filled {passes : ℕ → Pass} {items : List Item}
    {commands lines : List Command} (filled : List.Forall₂ (Filled passes) items lines)
    (same : List.Forall₂ Item.Matches items commands)
    (reads : ∀ command ∈ commands, command.order = CommandWord.READ) :
    List.Forall₂ SameCommand commands lines := by
  induction filled generalizing commands with
  | nil =>
    cases same
    exact .nil
  | cons first _ ih =>
    cases same with
    | cons here rest =>
      exact .cons (sameCommand_of_filled first here (reads _ (List.mem_cons_self ..)))
        (ih rest fun other member => reads other (List.mem_cons_of_mem _ member))

/-- With local commands of zeros and no write item, every stored command is a read. -/
theorem reads_of_filled {passes : ℕ → Pass} (calm : Calm passes) {items : List Item}
    {lines : List Command} (filled : List.Forall₂ (Filled passes) items lines)
    (noWrite : ∀ word value vaddr, .write word value vaddr ∉ items) :
    ∀ line ∈ lines, line.order = CommandWord.READ := by
  induction filled with
  | nil => simp
  | @cons item line items lines first _ ih =>
    intro other member
    rcases List.mem_cons.mp member with rfl | later
    · obtain ⟨_, i, rfl⟩ := first
      rw [(calm i).1]
      cases item with
      | write word value vaddr => exact (noWrite word value vaddr (List.mem_cons_self ..)).elim
      | failed | instruction _ | data _ _ => rfl
    · exact ih (fun word value vaddr found => noWrite word value vaddr (List.mem_cons_of_mem _ found))
        other later

theorem reads_iff {commands lines : List Command} (same : List.Forall₂ SameCommand commands lines) :
    (∀ command ∈ commands, command.order = CommandWord.READ) ↔
      ∀ line ∈ lines, line.order = CommandWord.READ := by
  induction same with
  | nil => simp
  | cons first _ ih => rw [List.forall_mem_cons, List.forall_mem_cons, ih, first.1]

/-- The parser is sound on the command files without writes and on the texts that it cannot accept
in any state of its uninitialised command, and on no other text. -/
theorem readsSoundly_iff (overflow : Overflow) (text : Text) : ReadsSoundly overflow text ↔
    (∃ commands, Script overflow text commands ∧
      ∀ command ∈ commands, command.order = CommandWord.READ) ∨
    ∃ item ∈ textItems overflow text, item.Unfit := by
  constructor
  · intro sound
    rcases em (∃ item ∈ textItems overflow text, item.Unfit) with unfit | fit
    · exact .inr unfit
    · simp only [not_exists, not_and] at fit
      obtain ⟨next, read, filled⟩ :=
        programRead_calm fit blankPasses_calm (show blankProgram.listing ≠ none by simp [blankProgram])
      obtain ⟨code, other, again, script⟩ := sound true blankPasses blankProgram
      obtain ⟨rfl, rfl⟩ := Prod.mk.inj (Except.ok.inj (read.symm.trans again))
      obtain ⟨commands, script, same⟩ := script rfl
      have lines := reads_of_filled blankPasses_calm filled (passItems_no_write overflow script.bytes)
      exact .inl ⟨commands, script, (reads_iff same).mpr lines⟩
  · rintro (⟨commands, script, reads⟩ | unfit) zeroed passes program
    · rcases em (program.listing = none ∨ zeroed = false) with refused | ready
      · obtain ⟨next, read⟩ := programRead_refused refused passes
        exact ⟨.errBadParameter, next, read, by simp⟩
      · simp only [not_or, Bool.not_eq_false] at ready
        obtain ⟨listing, rfl⟩ := ready
        obtain ⟨⟨code, next⟩, read, result⟩ := programRead_spec overflow text passes listing
        refine ⟨code, next, read, ?_⟩
        rintro rfl
        rcases result with ⟨_, added, holds, filled⟩ | ⟨failure, _⟩
        · have same := script.passItems_eq reads (Nat.lt_succ_self text.length)
          rw [List.nil_append] at holds
          rw [← holds.lines] at filled
          exact ⟨commands, script, sameCommands_of_filled filled same reads⟩
        · simp at failure
    · obtain ⟨next, read⟩ := programRead_unfit unfit zeroed passes program
      exact ⟨.errBadParameter, next, read, by simp⟩

def saturating : Overflow := fun width _ _ => BitVec.allOnes width

/-- A character that no command starts with is skipped and accepted. -/
theorem stray_character_accepted : ¬ ReadsSoundly saturating [ascii '?'] := by
  intro sound
  obtain ⟨code, next, read, script⟩ := sound true blankPasses blankProgram
  have accepted : programRead saturating (some [ascii '?']) true blankPasses blankProgram =
      .ok (.errNone, blankProgram) := by rfl
  obtain ⟨rfl, rfl⟩ := Prod.mk.inj (Except.ok.inj (accepted.symm.trans read))
  obtain ⟨commands, script, _⟩ := script rfl
  exact absurd script.mark (by decide)

def SameResult (read read' : Exec (ErrorCode × Program)) : Prop :=
  ∃ result result', read = .ok result ∧ read' = .ok result' ∧ result.1 = result'.1 ∧
    (result.1 = .errNone → result.2.lines = result'.2.lines)

/-- `program_read` has the same result for any two programs and any two contents of its local
commands; its allocations succeed. -/
def Independent (overflow : Overflow) (file : Option Text) : Prop :=
  ∀ (program other : Program) (passes passes' : ℕ → Pass), (∀ i, (passes i).outcome.isSome) →
    (∀ i, (passes' i).outcome.isSome) →
    SameResult (programRead overflow file true passes program)
      (programRead overflow file true passes' other)

/-- The result is independent of uninitialised storage exactly when the file can be opened and has an
item that no local command makes acceptable. -/
theorem independent_iff (overflow : Overflow) (file : Option Text) : Independent overflow file ↔
    ∃ text, file = some text ∧ ∃ item ∈ textItems overflow text, item.Unfit := by
  constructor
  · intro independent
    -- a program without a listing is refused before the file is looked at
    obtain ⟨result, result', refused, read, codes, _⟩ := independent ⟨none, 0, 0⟩ blankProgram
      blankPasses blankPasses (fun _ => rfl) (fun _ => rfl)
    obtain rfl := Except.ok.inj refused
    cases file with
    | none =>
      obtain rfl := Except.ok.inj read
      simp at codes
    | some text =>
      refine ⟨text, rfl, ?_⟩
      by_contra fit
      simp only [not_exists, not_and] at fit
      obtain ⟨next, success, _⟩ :=
        programRead_calm fit blankPasses_calm (show blankProgram.listing ≠ none by simp [blankProgram])
      obtain rfl := Except.ok.inj (success.symm.trans read)
      simp at codes
  · rintro ⟨text, rfl, unfit⟩ program other passes passes' _ _
    obtain ⟨next, read⟩ := programRead_unfit unfit true passes program
    obtain ⟨next', read'⟩ := programRead_unfit unfit true passes' other
    exact ⟨_, _, read, read', rfl, by simp⟩

private theorem Item.rejected_or_write {com : Command} (order : com.order ≠ CommandWord.READ)
    (neither : com.order ≠ CommandWord.WRITE) (data : com.writeData ≠ 0) (item : Item) :
    checkCommand (item.command com) = false ∨ ∃ word value vaddr, item = .write word value vaddr := by
  cases item with
  | write word value vaddr => exact .inr ⟨word, value, vaddr, rfl⟩
  | failed =>
    left
    rw [← Bool.not_eq_true, checkCommand_iff]
    rintro ⟨⟨reads, _⟩ | ⟨writes, _⟩, _⟩
    · exact order reads
    · exact neither writes
  | instruction vaddr | data word vaddr =>
    left
    rw [← Bool.not_eq_true, checkCommand_iff]
    rintro ⟨⟨_, zero⟩ | ⟨writes, _⟩, _⟩
    · exact data zero
    · exact absurd (show CommandWord.READ = CommandWord.WRITE from writes) (by decide)

private theorem lines_of_writes {passes passes' : ℕ → Pass} {items : List Item}
    {lines lines' : List Command}
    (writes : ∀ item ∈ items, ∃ word value vaddr, item = .write word value vaddr)
    (filled : List.Forall₂ (Filled passes) items lines)
    (filled' : List.Forall₂ (Filled passes') items lines') : lines = lines' := by
  induction filled generalizing lines' with
  | nil =>
    cases filled'
    rfl
  | cons first _ ih =>
    cases filled' with
    | cons first' rest' =>
      obtain ⟨word, value, vaddr, rfl⟩ := writes _ (List.mem_cons_self ..)
      obtain ⟨_, i, rfl⟩ := first
      obtain ⟨_, j, rfl⟩ := first'
      rw [ih (fun other member => writes other (List.mem_cons_of_mem _ member)) rest']
      rfl

/-- Where both programs have a listing, the local commands still decide on every item that is no
write and no misfit. -/
theorem sameResult_iff_of_listing (overflow : Overflow) (text : Text) :
    (∀ (program other : Program) (passes passes' : ℕ → Pass), program.listing ≠ none →
      other.listing ≠ none → (∀ i, (passes i).outcome.isSome) → (∀ i, (passes' i).outcome.isSome) →
      SameResult (programRead overflow (some text) true passes program)
        (programRead overflow (some text) true passes' other)) ↔
    (∃ item ∈ textItems overflow text, item.Unfit) ∨
      ∀ item ∈ textItems overflow text, ∃ word value vaddr, item = .write word value vaddr := by
  constructor
  · intro same
    rcases em (∃ item ∈ textItems overflow text, item.Unfit) with unfit | fit
    · exact .inl unfit
    · simp only [not_exists, not_and] at fit
      have listing : blankProgram.listing ≠ none := by simp [blankProgram]
      -- a local command that no check accepts, and that no read completes
      let hostile : ℕ → Pass := fun _ => ⟨{ Command.zero with order := 2, writeData := 1 },
        some fun _ => Command.zero⟩
      obtain ⟨next, read, _⟩ := programRead_calm fit blankPasses_calm listing
      obtain ⟨result, result', first, second, codes, _⟩ := same blankProgram blankProgram blankPasses
        hostile listing listing (fun _ => rfl) (fun _ => rfl)
      obtain rfl := Except.ok.inj (read.symm.trans first)
      obtain ⟨other, read', spec⟩ := programRead_spec overflow text hostile listing
      obtain rfl := Except.ok.inj (second.symm.trans read')
      rcases spec with ⟨_, added, _, filled⟩ | ⟨failure, _⟩
      · right
        refine ((List.forall₂_and_left ..).mp (filled.imp fun item command done => ⟨?_, done⟩)).1
        obtain ⟨accepted, i, rfl⟩ := done
        have reads : (hostile i).command.order ≠ CommandWord.READ := by simp [hostile, CommandWord.READ]
        have writes : (hostile i).command.order ≠ CommandWord.WRITE := by
          simp [hostile, CommandWord.WRITE]
        have value : (hostile i).command.writeData ≠ 0 := by simp [hostile]
        rcases Item.rejected_or_write reads writes value item with rejected | write
        · rw [rejected] at accepted
          contradiction
        · exact write
      · rw [failure] at codes
        contradiction
  · rintro (unfit | writes) program other passes passes' listing listing' granted granted'
    · obtain ⟨next, read⟩ := programRead_unfit unfit true passes program
      obtain ⟨next', read'⟩ := programRead_unfit unfit true passes' other
      exact ⟨_, _, read, read', rfl, by simp⟩
    · rcases em (∃ item ∈ textItems overflow text, item.Unfit) with unfit | fit
      · obtain ⟨next, read⟩ := programRead_unfit unfit true passes program
        obtain ⟨next', read'⟩ := programRead_unfit unfit true passes' other
        exact ⟨_, _, read, read', rfl, by simp⟩
      · simp only [not_exists, not_and] at fit
        obtain ⟨next, read, filled⟩ := programRead_writes fit writes granted listing
        obtain ⟨next', read', filled'⟩ := programRead_writes fit writes granted' listing'
        exact ⟨_, _, read, read', rfl, fun _ => lines_of_writes writes filled filled'⟩

/-- The bits of the local command decide whether an instruction fetch is accepted. -/
theorem local_command_decides :
    ¬ Independent saturating (some (literal ['R', ' ', 'I', ' ', '@', '0'])) := by
  intro independent
  obtain ⟨result, result', read, read', codes, _⟩ := independent blankProgram blankProgram blankPasses
    (fun _ => ⟨{ Command.zero with writeData := 1 }, some fun _ => Command.zero⟩) (fun _ => rfl)
    (fun _ => rfl)
  have accepted : (programRead saturating (some (literal ['R', ' ', 'I', ' ', '@', '0'])) true
      blankPasses blankProgram).map Prod.fst = .ok .errNone := by decide +kernel
  have rejected : (programRead saturating (some (literal ['R', ' ', 'I', ' ', '@', '0'])) true
      (fun _ => ⟨{ Command.zero with writeData := 1 }, some fun _ => Command.zero⟩)
      blankProgram).map Prod.fst = .ok .errBadParameter := by decide +kernel
  rw [read] at accepted
  rw [read'] at rejected
  have first : result.1 = .errNone := Except.ok.inj accepted
  have second : result'.1 = .errBadParameter := Except.ok.inj rejected
  rw [first, second] at codes
  contradiction

/-- Programs built by accepted commands. -/
inductive Built : Program → Prop
  | init (start : Program) : Built (programInit true start).2
  | add {program next : Program} {command : Command} {outcome : Option (ℕ → Command)} :
      Built program → programAddCommand program command outcome = .ok (.errNone, next) → Built next

theorem Built.holds {program : Program} (built : Built program) :
    ∃ commands, program.Holds commands ∧ ∀ command ∈ commands, checkCommand command = true := by
  induction built with
  | init start => exact ⟨[], programInit_holds start, by simp⟩
  | @add program next command outcome _ added ih =>
    obtain ⟨commands, holds, accepted⟩ := ih
    cases check : checkCommand command with
    | false =>
      rw [programAddCommand_rejected check] at added
      simp at added
    | true =>
      obtain ⟨code, after, stored, ⟨rfl, grown⟩ | ⟨rfl, _⟩⟩ := holds.add_cases check outcome
      · obtain ⟨_, rfl⟩ := Prod.mk.inj (Except.ok.inj (stored.symm.trans added))
        refine ⟨commands ++ [command], grown, fun other member => ?_⟩
        rcases List.mem_append.mp member with earlier | last
        · exact accepted other earlier
        · obtain rfl := List.mem_singleton.mp last
          exact check
      · simp [added] at stored

theorem mapM_load (block : Block) {indices : List ℕ}
    (inside : ∀ i ∈ indices, i < block.count) :
    indices.mapM block.load = .ok (indices.map block.element) := by
  induction indices with
  | nil => rfl
  | cons i rest ih =>
    have here : block.load i = .ok (block.element i) := if_pos (inside i (List.mem_cons_self ..))
    rw [List.mapM_cons, here, ih fun j member => inside j (List.mem_cons_of_mem _ member)]
    rfl

/-- A program whose lines are in its block is printed line by line. -/
theorem Program.Holds.print {program : Program} {commands : List Command}
    (holds : program.Holds commands) :
    programPrint program = .ok (.errNone, commands.flatMap printLine) := by
  obtain ⟨block, listing, large⟩ := holds.block
  have used := holds.used
  have lines := holds.lines
  simp only [Program.lines, listing] at lines
  have inside : ∀ i ∈ List.range program.nbLines, i < block.count := fun i member => by
    have := List.mem_range.mp member
    omega
  have loaded := mapM_load block inside
  simp only [programPrint, listing, loaded, lines]
  rfl

theorem SameCommand.symm {command other : Command} (same : SameCommand command other) :
    SameCommand other command := by
  obtain ⟨order, type, address, fields⟩ := same
  exact ⟨order.symm, type.symm, address.symm, fun data => (fields (type.trans data)).imp .symm .symm⟩

theorem SameCommand.trans {first second third : Command} (left : SameCommand first second)
    (right : SameCommand second third) : SameCommand first third := by
  obtain ⟨order, type, address, fields⟩ := left
  obtain ⟨order', type', address', fields'⟩ := right
  refine ⟨order.trans order', type.trans type', address.trans address', fun data => ?_⟩
  obtain ⟨size, value⟩ := fields data
  obtain ⟨size', value'⟩ := fields' (type.symm.trans data)
  exact ⟨size.trans size', value.trans value'⟩

theorem sameCommands_trans {first second third : List Command}
    (left : List.Forall₂ SameCommand first second) (right : List.Forall₂ SameCommand second third) :
    List.Forall₂ SameCommand first third := by
  induction left generalizing third with
  | nil => exact right
  | cons same _ ih =>
    cases right with
    | cons same' rest => exact .cons (same.trans same') (ih rest)

theorem fit_of_matches {items : List Item} {commands : List Command}
    (same : List.Forall₂ Item.Matches items commands)
    (checked : ∀ command ∈ commands, checkCommand command = true) : ∀ item ∈ items, ¬ item.Unfit := by
  induction same with
  | nil => simp
  | cons first _ ih =>
    intro item member
    rcases List.mem_cons.mp member with rfl | later
    · intro unfit
      have accepted := checked _ (List.mem_cons_self ..)
      rw [← first.2, unfit.rejected] at accepted
      contradiction
    · exact ih (fun command found => checked command (List.mem_cons_of_mem _ found)) item later

/-- Reading back what `program_print` writes gives the program, for local commands of zeros, exactly
when the program has no write. -/
theorem roundTrip_iff (overflow : Overflow) {program : Program} (built : Built program) :
    ∃ text, programPrint program = .ok (.errNone, text) ∧
      ∀ (prior : Program) (passes : ℕ → Pass), prior.listing ≠ none → Calm passes →
        ((∃ again, programRead overflow (some text) true passes prior = .ok (.errNone, again) ∧
            List.Forall₂ SameCommand program.lines again.lines) ↔
          ∀ line ∈ program.lines, line.order = CommandWord.READ) := by
  obtain ⟨commands, holds, accepted⟩ := built.holds
  obtain ⟨described, script, same, checked⟩ := print_script overflow accepted
  refine ⟨_, holds.print, fun prior passes listing calm => ?_⟩
  rw [holds.lines]
  constructor
  · rintro ⟨again, read, stored⟩
    obtain ⟨result, read', spec⟩ :=
      programRead_spec overflow (commands.flatMap printLine) passes listing
    obtain rfl := Except.ok.inj (read.symm.trans read')
    rcases spec with ⟨_, added, held, filled⟩ | ⟨failure, _⟩
    · rw [List.nil_append] at held
      rw [held.lines] at stored
      exact (reads_iff stored).mpr
        (reads_of_filled calm filled (passItems_no_write overflow script.bytes))
    · simp at failure
  · intro reads
    have describedReads := (reads_iff same).mp reads
    have found := script.passItems_eq describedReads (Nat.lt_succ_self _)
    obtain ⟨again, read, filled⟩ := programRead_calm (fit_of_matches found checked) calm listing
    exact ⟨again, read, sameCommands_trans same (sameCommands_of_filled filled found describedReads)⟩

theorem roundTrip_iff_fetch : ∃ program again text, Built program ∧
    programPrint program = .ok (.errNone, text) ∧
    programRead saturating (some text) true blankPasses blankProgram = .ok (.errNone, again) ∧
    program.lines ≠ [] ∧ List.Forall₂ SameCommand program.lines again.lines := by
  have built : Built (blankProgram.appended ⟨firstsize, fun _ => Command.zero⟩ Command.zero 8) :=
    .add (.init blankProgram)
      (show programAddCommand (programInit true blankProgram).2 Command.zero none = _ from rfl)
  obtain ⟨text, printed, reading⟩ := roundTrip_iff saturating built
  obtain ⟨again, read, same⟩ := (reading blankProgram blankPasses (by simp [blankProgram])
    blankPasses_calm).mpr (by decide)
  exact ⟨_, again, text, built, printed, read, by decide, same⟩

private def byteWrite : Command :=
  ⟨CommandWord.WRITE, MemAccess.DATA.stored, 1, 0xAA, ⟨0, 0, 0, 0, 0, 0⟩⟩

private def oneWrite : Program :=
  blankProgram.appended ⟨firstsize, fun _ => Command.zero⟩ byteWrite sizeofPointer

/-- The byte write is read back as an instruction fetch. -/
theorem write_not_read_back : Built oneWrite ∧ ∃ text, programPrint oneWrite = .ok (.errNone, text) ∧
    ¬ ∃ again, programRead saturating (some text) true blankPasses blankProgram = .ok (.errNone, again) ∧
      List.Forall₂ SameCommand oneWrite.lines again.lines := by
  have added : programAddCommand (programInit true blankProgram).2 byteWrite none =
    .ok (.errNone, oneWrite) := rfl
  refine ⟨.add (.init blankProgram) added, [byteWrite].flatMap printLine, rfl, ?_⟩
  rintro ⟨again, read, same⟩
  have orders : (programRead saturating (some ([byteWrite].flatMap printLine)) true blankPasses
      blankProgram).map (fun result => result.2.lines.map Command.order) =
        .ok [CommandWord.READ] := by decide +kernel
  rw [read] at orders
  have readOrders : again.lines.map Command.order = [CommandWord.READ] := Except.ok.inj orders
  have lines : oneWrite.lines = [byteWrite] := rfl
  rw [lines, List.forall₂_cons_left_iff] at same
  obtain ⟨line, rest, first, _, all⟩ := same
  rw [all, List.map_cons, List.cons.injEq] at readOrders
  exact absurd (first.1.trans readOrders.1) (by decide)

end KabyLake
