import KabyLake.Model.Program

/-! # One call on a program

What a call does to the listing is said in terms of two counts: how many commands the block was
allocated for, and how many lines it holds. Without a `program_shrink` the field `allocated` never
exceeds the block.
-/

namespace KabyLake

open Stdio

/-- A call on one program, with the outcome of its allocation. -/
inductive ProgramCall where
  | init (zeroed : Bool)
  | addCommand (command : Command) (outcome : Option (ℕ → Command))
  | shrink (outcome : Option (ℕ → Command))

/-- The allocation of the call succeeds. -/
def ProgramCall.Granted : ProgramCall → Prop
  | init zeroed => zeroed = true
  | addCommand _ outcome => outcome.isSome
  | shrink outcome => outcome.isSome

/-- Execute a call. -/
def programCall (program : Program) : ProgramCall → Exec (Program × ErrorCode)
  | .init zeroed => .ok (programInit zeroed program).swap
  | .addCommand command outcome => do
    let result ← programAddCommand program command outcome
    return result.swap
  | .shrink outcome => .ok (programShrink program outcome).swap

theorem Block.store_inside {block : Block} {i : ℕ} (command : Command) (inside : i < block.count) :
    block.store i command = .ok { block with element := Function.update block.element i command } :=
  if_pos inside

theorem Block.store_outside {block : Block} {i : ℕ} (command : Command) (outside : block.count ≤ i) :
    block.store i command = .error .arrayBounds := if_neg (Nat.not_lt.mpr outside)

/-- The block after a successful `realloc` to `count` elements. -/
def Block.resized (block : Block) (count : ℕ) (garbage : ℕ → Command) : Block :=
  ⟨count, fun i => if i < block.count then block.element i else garbage i⟩

theorem Block.realloc_eq (block : Block) (count : ℕ) (garbage : ℕ → Command) :
    block.realloc (count * sizeofCommand) (some garbage) = some (block.resized count garbage) := by
  rw [Block.realloc, Nat.mul_div_cancel _ (by decide)]
  rfl

/-- The program after a line was stored in the given block. -/
def Program.appended (program : Program) (block : Block) (command : Command) (allocated : ℕ) :
    Program where
  listing := some { block with element := Function.update block.element program.nbLines command }
  nbLines := program.nbLines + 1
  allocated := allocated

/-- What the checks of `program_add_command` accept. -/
theorem checkCommand_iff {command : Command} : checkCommand command = true ↔
    (command.order = CommandWord.READ ∧ command.writeData = 0 ∨
      command.order = CommandWord.WRITE ∧ command.type = MemAccess.DATA.stored ∧
        (command.dataSize = 1 → command.writeData ≤ 0xFF)) ∧
    (command.type = MemAccess.INSTRUCTION.stored ∨ command.type = MemAccess.DATA.stored ∧
      (command.dataSize = BitVec.ofNat 64 sizeofWord ∨ command.dataSize = 1)) ∧
    command.vaddr.pageOffset.toNat % sizeofWord = 0 := by
  have orders : CommandWord.READ ≠ CommandWord.WRITE := by decide
  have types : MemAccess.DATA.stored ≠ MemAccess.INSTRUCTION.stored := by decide
  have size : command.dataSize.toNat = sizeofWord ↔ command.dataSize = BitVec.ofNat 64 sizeofWord := by
    rw [← BitVec.toNat_inj]
    rfl
  have sizes : command.dataSize = BitVec.ofNat 64 sizeofWord ∨ command.dataSize = 1 →
      command.dataSize ≠ 0 := by
    rintro (same | same)
    · rw [same]
      decide
    · rw [same]
      decide
  simp only [checkCommand, Bool.and_eq_true, Bool.or_eq_true, Bool.not_eq_true', beq_iff_eq,
    decide_eq_true_eq, bne_iff_ne, beq_eq_false_iff_ne, Bool.and_eq_false_iff, size]
  grind

section Add

variable {program : Program} {block : Block} {command : Command} {outcome : Option (ℕ → Command)}

theorem programAddCommand_rejected (rejected : checkCommand command = false) :
    programAddCommand program command outcome = .ok (.errBadParameter, program) := by
  rw [programAddCommand]
  split
  · rfl
  · rw [rejected]
    rfl

/-- A line that `allocated` leaves room for goes to the block as it is. -/
theorem programAddCommand_room (listing : program.listing = some block)
    (accepted : checkCommand command = true) (room : program.nbLines < program.allocated) :
    programAddCommand program command outcome =
      if program.nbLines < block.count then
        .ok (.errNone, program.appended block command program.allocated)
      else .error .arrayBounds := by
  simp only [programAddCommand, listing, accepted, Bool.not_true, Bool.false_eq_true, ↓reduceIte, room]
  split
  · next inside =>
    rw [Block.store_inside command inside]
    rfl
  · next outside =>
    rw [Block.store_outside command (Nat.not_lt.mp outside)]
    rfl

/-- Otherwise the block grows to twice the number in `allocated`. -/
theorem programAddCommand_full (listing : program.listing = some block)
    (accepted : checkCommand command = true) (full : ¬ program.nbLines < program.allocated)
    (garbage : ℕ → Command) :
    programAddCommand program command (some garbage) =
      if program.nbLines < program.allocated * 2 then
        .ok (.errNone, program.appended (block.resized (program.allocated * 2) garbage) command
          (program.allocated * 2))
      else .error .arrayBounds := by
  simp only [programAddCommand, listing, accepted, Bool.not_true, Bool.false_eq_true, ↓reduceIte, full,
    Block.realloc_eq]
  split
  · next inside =>
    have stored : (block.resized (program.allocated * 2) garbage).store program.nbLines command = _ :=
      Block.store_inside command inside
    rw [stored]
    rfl
  · next outside =>
    have strayed : (block.resized (program.allocated * 2) garbage).store program.nbLines command = _ :=
      Block.store_outside command (Nat.not_lt.mp outside)
    rw [strayed]
    rfl

theorem programAddCommand_refused (listing : program.listing = some block)
    (accepted : checkCommand command = true) (full : ¬ program.nbLines < program.allocated) :
    programAddCommand program command none = .ok (.errBadParameter,
      { program with listing := none, allocated := program.allocated * 2 }) := by
  simp only [programAddCommand, listing, accepted, Bool.not_true, Bool.false_eq_true, ↓reduceIte, full,
    Block.realloc, Option.map_none]

end Add

/-- The lines after an element was stored behind them. -/
theorem lines_appended (program : Program) (block : Block) (command : Command) (allocated : ℕ) :
    (program.appended block command allocated).lines =
      (List.range program.nbLines).map block.element ++ [command] := by
  simp only [Program.lines, Program.appended]
  rw [List.range_succ, List.map_append, List.map_singleton, Function.update_self]
  congr 1
  apply List.map_congr_left
  intro i member
  have earlier := List.mem_range.mp member
  exact Function.update_of_ne (by omega) ..

/-- The block is at least as large as `allocated` says, and holds the given commands. -/
structure Program.Holds (program : Program) (commands : List Command) : Prop where
  block : ∃ block, program.listing = some block ∧ program.allocated ≤ block.count
  used : program.nbLines ≤ program.allocated
  positive : 0 < program.allocated
  lines : program.lines = commands

theorem programInit_holds (program : Program) : (programInit true program).2.Holds [] where
  block := ⟨⟨firstsize, fun _ => Command.zero⟩, rfl, show sizeofPointer ≤ firstsize by decide⟩
  used := show 0 ≤ sizeofPointer by decide
  positive := show 0 < sizeofPointer by decide
  lines := rfl

/-- An accepted command is appended. -/
theorem Program.Holds.add {program : Program} {commands : List Command}
    (holds : program.Holds commands) {command : Command} (accepted : checkCommand command = true)
    (garbage : ℕ → Command) : ∃ next,
      programAddCommand program command (some garbage) = .ok (.errNone, next) ∧
      next.Holds (commands ++ [command]) := by
  obtain ⟨⟨block, listing, large⟩, used, positive, lines⟩ := holds
  simp only [Program.lines, listing] at lines
  rcases Nat.lt_or_eq_of_le used with room | full
  · refine ⟨_, (programAddCommand_room listing accepted room).trans (if_pos (lt_of_lt_of_le room large)),
      ⟨_, rfl, large⟩, room, positive, ?_⟩
    rw [lines_appended, lines]
  · refine ⟨_, (programAddCommand_full listing accepted (by omega) garbage).trans
      (if_pos (by omega)), ⟨_, rfl, le_rfl⟩, ?_, ?_, ?_⟩
    · simp only [Program.appended]
      omega
    · simp only [Program.appended]
      omega
    · rw [lines_appended, ← lines]
      congr 1
      apply List.map_congr_left
      intro i member
      have inside := List.mem_range.mp member
      exact if_pos (by omega)

/-- Only a refused allocation keeps an accepted command out. -/
theorem Program.Holds.add_cases {program : Program} {commands : List Command}
    (holds : program.Holds commands) {command : Command} (accepted : checkCommand command = true)
    (outcome : Option (ℕ → Command)) : ∃ code next,
      programAddCommand program command outcome = .ok (code, next) ∧
      (code = .errNone ∧ next.Holds (commands ++ [command]) ∨
        code = .errBadParameter ∧ outcome = none) := by
  cases outcome with
  | some garbage =>
    obtain ⟨next, added, after⟩ := holds.add accepted garbage
    exact ⟨.errNone, next, added, .inl ⟨rfl, after⟩⟩
  | none =>
    obtain ⟨block, listing, large⟩ := holds.block
    by_cases room : program.nbLines < program.allocated
    · obtain ⟨next, added, after⟩ := holds.add accepted fun _ => Command.zero
      rw [programAddCommand_room listing accepted room] at added
      exact ⟨.errNone, next, (programAddCommand_room listing accepted room).trans added, .inl ⟨rfl, after⟩⟩
    · exact ⟨_, _, programAddCommand_refused listing accepted room, .inr ⟨rfl, rfl⟩⟩

/-- How many lines were added since the last `program_init`, and whether the program was shrunk
since. -/
structure Tally where
  lines : ℕ
  shrunk : Bool
deriving DecidableEq, Repr

/-- Count one more call; a rejected command is no line. -/
def Tally.next (tally : Tally) : ProgramCall → Tally
  | .init _ => ⟨0, false⟩
  | .addCommand command _ =>
    if checkCommand command then { tally with lines := tally.lines + 1 } else tally
  | .shrink _ => { tally with shrunk := true }

/-- The call adds a line to a program that was shrunk and has at least ten lines. -/
def ProgramCall.Overruns (tally : Tally) : ProgramCall → Prop
  | addCommand command _ => checkCommand command = true ∧ tally.shrunk = true ∧ firstsize ≤ tally.lines
  | _ => False

instance (tally : Tally) (call : ProgramCall) : Decidable (call.Overruns tally) :=
  match call with
  | .init _ | .shrink _ => inferInstanceAs (Decidable False)
  | .addCommand _ _ => inferInstanceAs (Decidable (_ ∧ _ ∧ _))

/-- The fields of a program after calls with the given tally. After a `program_shrink` the block
holds ten commands or the lines alone, while `allocated` is a number of bytes. -/
structure Program.Tallied (program : Program) (tally : Tally) : Prop where
  lines : program.nbLines = tally.lines
  positive : 0 < program.allocated
  block : ∃ block, program.listing = some block ∧ program.nbLines ≤ block.count ∧
    if tally.shrunk then program.allocated = block.count * sizeofCommand ∧ firstsize ≤ block.count ∧
      (block.count = firstsize ∨ program.nbLines = block.count)
    else program.nbLines ≤ program.allocated ∧ program.allocated ≤ block.count

theorem programInit_tallied (program : Program) : (programInit true program).2.Tallied ⟨0, false⟩ where
  lines := rfl
  positive := show 0 < sizeofPointer by decide
  block := ⟨⟨firstsize, fun _ => Command.zero⟩, rfl, Nat.zero_le _, Nat.zero_le _,
    show sizeofPointer ≤ firstsize by decide⟩

namespace Program.Tallied

variable {program : Program} {tally : Tally}

/-- An accepted command is stored inside the block unless it overruns it. -/
theorem add (tallied : program.Tallied tally) {command : Command}
    (accepted : checkCommand command = true) (garbage : ℕ → Command)
    (inside : ¬ (tally.shrunk = true ∧ firstsize ≤ tally.lines)) : ∃ next,
      programAddCommand program command (some garbage) = .ok (.errNone, next) ∧
      next.Tallied { tally with lines := tally.lines + 1 } := by
  obtain ⟨lines, positive, block, listing, bounded, shape⟩ := tallied
  cases shrunk : tally.shrunk with
  | true =>
    simp only [shrunk, ↓reduceIte, true_and, not_le] at shape inside
    obtain ⟨bytes, atLeast, tight⟩ := shape
    have below : program.nbLines < block.count := by omega
    have room : program.nbLines < program.allocated := by
      rw [bytes, sizeofCommand]
      omega
    refine ⟨_, (programAddCommand_room listing accepted room).trans (if_pos below), ?_, positive,
      _, rfl, below, ?_⟩
    · simp only [Program.appended, lines]
    · simp only [Program.appended, ↓reduceIte]
      exact ⟨bytes, atLeast, by omega⟩
  | false =>
    simp only [shrunk, Bool.false_eq_true, ↓reduceIte] at shape
    obtain ⟨used, large⟩ := shape
    rcases Nat.lt_or_eq_of_le used with room | full
    · refine ⟨_, (programAddCommand_room listing accepted room).trans (if_pos (by omega)), ?_, positive,
        _, rfl, ?_, ?_⟩
      · simp only [Program.appended, lines]
      · simp only [Program.appended]
        omega
      · simp only [Program.appended, Bool.false_eq_true, ↓reduceIte]
        exact ⟨room, large⟩
    · refine ⟨_, (programAddCommand_full listing accepted (by omega) garbage).trans
        (if_pos (by omega)), ?_, ?_, _, rfl, ?_, ?_⟩
      · simp only [Program.appended, lines]
      · simp only [Program.appended]
        omega
      · simp only [Program.appended, Block.resized]
        omega
      · simp only [Program.appended, Block.resized, Bool.false_eq_true, ↓reduceIte, le_refl, and_true]
        omega

/-- A command that overruns is stored behind the end of the block. -/
theorem add_overruns (tallied : program.Tallied tally) {command : Command}
    (accepted : checkCommand command = true) (outcome : Option (ℕ → Command))
    (shrunk : tally.shrunk = true) (ten : firstsize ≤ tally.lines) :
    programAddCommand program command outcome = .error .arrayBounds := by
  obtain ⟨lines, positive, block, listing, bounded, shape⟩ := tallied
  simp only [shrunk, ↓reduceIte] at shape
  obtain ⟨bytes, atLeast, tight⟩ := shape
  have room : program.nbLines < program.allocated := by
    rw [bytes, sizeofCommand]
    simp only [firstsize] at atLeast
    omega
  exact (programAddCommand_room listing accepted room).trans (if_neg (by omega))

theorem shrink (tallied : program.Tallied tally) (garbage : ℕ → Command) : ∃ next,
    programShrink program (some garbage) = (.errNone, next) ∧
    next.Tallied { tally with shrunk := true } := by
  obtain ⟨lines, positive, block, listing, bounded, shape⟩ := tallied
  have size : (if program.nbLines > firstsize then program.nbLines * sizeofCommand
      else firstsize * sizeofCommand) = max program.nbLines firstsize * sizeofCommand := by
    split
    · rw [Nat.max_eq_left (by omega)]
    · rw [Nat.max_eq_right (by omega)]
  refine ⟨⟨some (block.resized (max program.nbLines firstsize) garbage), program.nbLines,
    max program.nbLines firstsize * sizeofCommand⟩, ?_, lines, ?_, _, rfl, ?_, ?_⟩
  · simp only [programShrink, listing, size, Block.realloc_eq]
  · simp only [sizeofCommand, firstsize]
    omega
  · exact Nat.le_max_left ..
  · simp only [Block.resized, ↓reduceIte, true_and]
    exact ⟨Nat.le_max_right .., by omega⟩

/-- What a granted call does to a program with a known tally. -/
theorem call (tallied : program.Tallied tally) {call : ProgramCall} (granted : call.Granted)
    (inside : ¬ call.Overruns tally) :
    ∃ next code, programCall program call = .ok (next, code) ∧ next.Tallied (tally.next call) := by
  cases call with
  | init zeroed =>
    obtain rfl : zeroed = true := granted
    exact ⟨_, _, rfl, programInit_tallied program⟩
  | addCommand command outcome =>
    obtain ⟨garbage, rfl⟩ := Option.isSome_iff_exists.mp granted
    cases accepted : checkCommand command with
    | true =>
      simp only [ProgramCall.Overruns, accepted, true_and] at inside
      obtain ⟨next, added, after⟩ := tallied.add accepted garbage inside
      refine ⟨next, .errNone, by simp [programCall, added], ?_⟩
      simpa only [Tally.next, accepted, ↓reduceIte] using after
    | false =>
      refine ⟨program, .errBadParameter, by simp [programCall, programAddCommand_rejected accepted], ?_⟩
      simpa only [Tally.next, accepted, Bool.false_eq_true, ↓reduceIte] using tallied
  | shrink outcome =>
    obtain ⟨garbage, rfl⟩ := Option.isSome_iff_exists.mp granted
    obtain ⟨next, shrunk, after⟩ := tallied.shrink garbage
    exact ⟨next, .errNone, by simp [programCall, shrunk], after⟩

theorem call_overruns (tallied : program.Tallied tally) {call : ProgramCall}
    (overruns : call.Overruns tally) : programCall program call = .error .arrayBounds := by
  cases call with
  | addCommand command outcome =>
    obtain ⟨accepted, shrunk, ten⟩ := overruns
    simp [programCall, tallied.add_overruns accepted outcome shrunk ten]
  | init | shrink => exact overruns.elim

end Program.Tallied

/-- A program before its initialisation. -/
def uninitialised : Program := ⟨none, 0, 0⟩

end KabyLake
