import KabyLake.Proofs.Program

/-! # What a program admits, and what a failed call leaves of it

`program_add_command` accepts the legal commands whose page offset is a multiple of four, and keeps
them in the order of the calls. When `realloc` fails, both functions that call it lose the listing.
-/

namespace KabyLake

open Machine

/-- The commands that a processor can execute. Only a one-byte data access may have any offset. -/
def Command.Legal (command : Command) : Prop :=
  (command.order = CommandWord.READ ∨ command.order = CommandWord.WRITE) ∧
  (command.type = MemAccess.INSTRUCTION.stored ∨ command.type = MemAccess.DATA.stored) ∧
  ¬ (command.order = CommandWord.WRITE ∧ command.type = MemAccess.INSTRUCTION.stored) ∧
  (command.type = MemAccess.DATA.stored → command.dataSize = 1 ∨ command.dataSize = 4) ∧
  (command.order = CommandWord.READ → command.writeData = 0) ∧
  (command.order = CommandWord.WRITE ∧ command.dataSize = 1 → command.writeData ≤ 0xFF) ∧
  (command.vaddr.pageOffset.toNat % 4 = 0 ∨
    command.type = MemAccess.DATA.stored ∧ command.dataSize = 1)

/-- A legal command that is refused all the same: a byte of data that does not start a word. -/
def Command.UnalignedByte (command : Command) : Prop :=
  command.Legal ∧ command.vaddr.pageOffset.toNat % 4 ≠ 0

instance (command : Command) : Decidable command.Legal :=
  inferInstanceAs (Decidable (_ ∧ _))

instance (command : Command) : Decidable command.UnalignedByte :=
  inferInstanceAs (Decidable (_ ∧ _))

/-- The checks of `program_add_command` ask every command for an aligned offset. -/
theorem checkCommand_iff_legal {command : Command} :
    checkCommand command = true ↔ command.Legal ∧ command.vaddr.pageOffset.toNat % 4 = 0 := by
  have orders : CommandWord.READ ≠ CommandWord.WRITE := by decide
  have types : MemAccess.INSTRUCTION.stored ≠ MemAccess.DATA.stored := by decide
  have word : BitVec.ofNat 64 sizeofWord = 4 := rfl
  rw [checkCommand_iff, word, Command.Legal, sizeofWord]
  grind

structure Addition where
  command : Command
  garbage : ℕ → Command

def addStep (program : Program) (addition : Addition) : Exec (Program × ErrorCode) :=
  programCall program (.addCommand addition.command (some addition.garbage))

/-- Every call of the sequence accepts the legal commands only and leaves the program alone when it
rejects one; in the end the lines of the listing are `accepted` and the commands that were accepted
after them, in the order of the calls. -/
def Admits : Program → List Command → List Addition → Prop
  | program, accepted, [] => ∃ block, program.listing = some block ∧
      program.nbLines ≤ block.count ∧ (List.range program.nbLines).map block.element = accepted
  | program, accepted, addition :: rest => ∃ next code,
      addStep program addition = .ok (next, code) ∧
      (code = .errNone ↔ addition.command.Legal) ∧ (code ≠ .errNone → next = program) ∧
      Admits next (if code = .errNone then accepted ++ [addition.command] else accepted) rest

/-- A command that passes the checks is appended, any other one changes nothing. -/
theorem Program.Holds.addStep {program : Program} {commands : List Command}
    (holds : program.Holds commands) (addition : Addition) :
    ∃ next code, KabyLake.addStep program addition = .ok (next, code) ∧
      (code = .errNone ↔ checkCommand addition.command = true) ∧
      (code ≠ .errNone → next = program) ∧
      next.Holds (if code = .errNone then commands ++ [addition.command] else commands) := by
  cases accepted : checkCommand addition.command with
  | true =>
    obtain ⟨next, added, after⟩ := holds.add accepted addition.garbage
    exact ⟨next, .errNone, by simp [KabyLake.addStep, programCall, added], by simp, by simp,
      by simpa using after⟩
  | false =>
    exact ⟨program, .errBadParameter,
      by simp [KabyLake.addStep, programCall, programAddCommand_rejected accepted], by simp, by simp,
      by simpa using holds⟩

/-- Along a sequence of calls what `Admits` says fails at the first legal byte of data that does
not start a word, and nowhere else. -/
theorem Program.Holds.admits_iff {program : Program} {commands : List Command}
    (holds : program.Holds commands) (additions : List Addition) :
    Admits program commands additions ↔
      ∀ addition ∈ additions, ¬ addition.command.UnalignedByte := by
  induction additions generalizing program commands with
  | nil =>
    obtain ⟨block, listing, large⟩ := holds.block
    have lines := holds.lines
    simp only [Program.lines, listing] at lines
    simp only [List.not_mem_nil, IsEmpty.forall_iff, implies_true, iff_true]
    exact ⟨block, listing, le_trans holds.used large, lines⟩
  | cons addition rest ih =>
    obtain ⟨next, code, stepped, decided, kept, after⟩ := holds.addStep addition
    have judged : (code = .errNone ↔ addition.command.Legal) ↔
        ¬ addition.command.UnalignedByte := by
      rw [decided, checkCommand_iff_legal, Command.UnalignedByte]
      tauto
    rw [List.forall_mem_cons, ← judged, ← ih after]
    constructor
    · rintro ⟨next', code', stepped', legal, -, others⟩
      obtain ⟨rfl, rfl⟩ := Prod.mk.inj (Except.ok.inj (stepped.symm.trans stepped'))
      exact ⟨legal, others⟩
    · rintro ⟨legal, others⟩
      exact ⟨next, code, stepped, legal, kept, others⟩

/-- On a new program every sequence of calls admits exactly the legal commands and keeps them in
order, provided that none of them is a legal byte of data that does not start a word. -/
theorem admits_iff_aligned (start : Program) (additions : List Addition) :
    Admits (programInit true start).2 [] additions ↔
      ∀ addition ∈ additions, ¬ addition.command.UnalignedByte :=
  (programInit_holds start).admits_iff additions

private def byteRead : Command :=
  ⟨CommandWord.READ, MemAccess.DATA.stored, 1, 0, initVirtAddr64 0x40200002⟩

/-- The byte at offset 2 of a page cannot be read by any program. -/
theorem byteRead_refused : byteRead.Legal ∧
    programAddCommand (programInit true uninitialised).2 byteRead none =
      .ok (.errBadParameter, (programInit true uninitialised).2) ∧
    ¬ Admits (programInit true uninitialised).2 [] [⟨byteRead, fun _ => Command.zero⟩] := by
  refine ⟨by decide, programAddCommand_rejected (by decide), ?_⟩
  rw [(programInit_holds _).admits_iff]
  decide

/-- A call of `program_add_command` or `program_shrink` that returns an error leaves the program as it
was: the listing, the number of lines and the number of allocated lines. -/
def ProgramCall.KeepsOnFailure (program : Program) : ProgramCall → Prop
  | init _ => True
  | call => match programCall program call with
    | .ok (next, code) => code ≠ .errNone → next = program
    | .error _ => True

/-- The call asks `realloc` for another listing and gets `NULL`. -/
def ProgramCall.LosesListing (program : Program) : ProgramCall → Prop
  | init _ => False
  | addCommand command outcome => program.listing.isSome ∧ checkCommand command = true ∧
      program.allocated ≤ program.nbLines ∧ outcome = none
  | shrink outcome => program.listing.isSome ∧ outcome = none

theorem keepsOnFailure_addCommand (program : Program) (command : Command)
    (outcome : Option (ℕ → Command)) :
    (ProgramCall.addCommand command outcome).KeepsOnFailure program ↔
      ¬ (ProgramCall.addCommand command outcome).LosesListing program := by
  cases listing : program.listing with
  | none =>
    have kept : programAddCommand program command outcome = .ok (.errBadParameter, program) := by
      rw [programAddCommand, listing]
    simp [ProgramCall.KeepsOnFailure, ProgramCall.LosesListing, programCall, kept, listing]
  | some block =>
    cases accepted : checkCommand command with
    | false =>
      simp [ProgramCall.KeepsOnFailure, ProgramCall.LosesListing, programCall, accepted,
        programAddCommand_rejected accepted]
    | true =>
      by_cases room : program.nbLines < program.allocated
      · -- the command is stored or the execution ends
        simp only [ProgramCall.KeepsOnFailure, ProgramCall.LosesListing, programCall,
          programAddCommand_room listing accepted room]
        split_ifs <;> simp [room]
      · cases outcome with
        | some garbage =>
          -- the block grows, and again the command is stored or the execution ends
          simp only [ProgramCall.KeepsOnFailure, ProgramCall.LosesListing, programCall,
            programAddCommand_full listing accepted room]
          split_ifs <;> simp
        | none =>
          -- the old block is given up together with the field that held it
          have lost := programAddCommand_refused listing accepted room
          have changed : { program with listing := none, allocated := program.allocated * 2 } ≠
              program := by
            intro same
            rw [← same] at listing
            contradiction
          simp [ProgramCall.KeepsOnFailure, ProgramCall.LosesListing, programCall, lost, changed,
            listing, accepted, Nat.not_lt.mp room]

theorem keepsOnFailure_shrink (program : Program) (outcome : Option (ℕ → Command)) :
    (ProgramCall.shrink outcome).KeepsOnFailure program ↔
      ¬ (ProgramCall.shrink outcome).LosesListing program := by
  cases listing : program.listing with
  | none =>
    simp [ProgramCall.KeepsOnFailure, ProgramCall.LosesListing, programCall, programShrink, listing]
  | some block =>
    cases outcome with
    | some garbage =>
      simp [ProgramCall.KeepsOnFailure, ProgramCall.LosesListing, programCall, programShrink, listing,
        Block.realloc]
    | none =>
      have changed (allocated : ℕ) :
          { program with listing := none, allocated := allocated } ≠ program := by
        intro same
        rw [← same] at listing
        contradiction
      simp [ProgramCall.KeepsOnFailure, ProgramCall.LosesListing, programCall, programShrink, listing,
        Block.realloc, changed]

/-- A failed call leaves the program as it was unless it has to give up the listing. -/
theorem keepsOnFailure_iff (program : Program) (call : ProgramCall) :
    call.KeepsOnFailure program ↔ ¬ call.LosesListing program := by
  cases call with
  | init zeroed => simp [ProgramCall.KeepsOnFailure, ProgramCall.LosesListing]
  | addCommand command outcome => exact keepsOnFailure_addCommand program command outcome
  | shrink outcome => exact keepsOnFailure_shrink program outcome

/-- In every sequence of calls after `program_init`, the failed calls leave the program as it was
exactly if no call has to give up the listing for want of memory. -/
theorem keepsOnFailure_along_iff (zeroed : Bool) (start : Program) (calls : List ProgramCall) :
    Along programCall (fun program call => call.KeepsOnFailure program)
        (programInit zeroed start).2 calls ↔
      Along programCall (fun program call => ¬ call.LosesListing program)
        (programInit zeroed start).2 calls :=
  along_congr keepsOnFailure_iff (programInit zeroed start).2 calls

/-- A new program that cannot be shrunk, and one whose ninth command finds no memory, have lost their
listing when the call returns. -/
theorem listing_lost :
    programShrink (programInit true uninitialised).2 none = (.errBadParameter, ⟨none, 0, 320⟩) ∧
    (∃ program, replay programCall
        (List.replicate 8 (.addCommand Command.zero none)) (programInit true uninitialised).2 =
          .ok program ∧
      program.lines = List.replicate 8 Command.zero ∧ program.allocated = 8 ∧
      programAddCommand program Command.zero none = .ok (.errBadParameter, ⟨none, 8, 16⟩)) ∧
    ¬ Along programCall (fun program call => call.KeepsOnFailure program)
        (programInit true uninitialised).2 [.shrink none] := by
  refine ⟨rfl, ⟨_, rfl, by decide, rfl, rfl⟩, ?_⟩
  rintro ⟨kept, -⟩
  exact (keepsOnFailure_shrink _ _).mp kept ⟨rfl, rfl⟩

end KabyLake
