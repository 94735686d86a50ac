import KabyLake.Machine.Refinement
import KabyLake.Soundness.ProgramRead

/-! # The life of a program

Every order of `program_init`, `program_add_command`, `program_shrink` and `program_free` on one
program, with any outcomes of the allocations. The program is a list of commands that has its listing,
has lost it for want of memory, or has given it back. The listing grows when its length is eight times a
power of two; only a command added to a shrunk list of ten lines or more, and a use of a freed listing,
leave defined behaviour.
-/

namespace KabyLake

open Machine Stdio

inductive LifeCall where
  | call (call : ProgramCall)
  | free

def ProgramCall.Touches (program : Program) : ProgramCall → Prop
  | init _ => False
  | addCommand command _ => program.listing.isSome = true ∧ checkCommand command = true
  | shrink _ => program.listing.isSome = true

instance (program : Program) (call : ProgramCall) : Decidable (call.Touches program) :=
  match call with
  | .init _ => inferInstanceAs (Decidable False)
  | .addCommand _ _ => inferInstanceAs (Decidable (_ ∧ _))
  | .shrink _ => inferInstanceAs (Decidable (_ = _))

/-- Execute a call; a freed listing can neither be stored to nor reallocated nor freed, and
`program_init` replaces it. -/
def lifeCall (owned : OwnedProgram) : LifeCall → Exec (OwnedProgram × ErrorCode)
  | .free => do
    let result ← programFree owned
    return result.swap
  | .call (.init zeroed) => do
    let (program, code) ← programCall owned.program (.init zeroed)
    return (⟨program, false⟩, code)
  | .call call =>
    if owned.freed = true ∧ call.Touches owned.program then .error .danglingPointer
    else do
      let (program, code) ← programCall owned.program call
      return ({ owned with program }, code)

/-- What a program is to its user. -/
inductive Life where
  /-- there is no listing -/
  | lost
  | freed
  | live (lines : List Command) (shrunk : Bool)

def FullListing (lines : List Command) : Prop := ∃ k, lines.length = sizeofPointer * 2 ^ k

/-- What a call does to the life of a program, and the code it returns. -/
inductive LifeStep : Life → LifeCall → ErrorCode → Life → Prop
  | init (before : Life) : LifeStep before (.call (.init true)) .errNone (.live [] false)
  | initRefused (before : Life) : LifeStep before (.call (.init false)) .errBadParameter .lost
  | add {command : Command} {outcome : Option (ℕ → Command)} {lines : List Command} {shrunk : Bool} :
      checkCommand command = true → (shrunk = true → lines.length < firstsize) →
      (shrunk = false → FullListing lines → outcome ≠ none) →
      LifeStep (.live lines shrunk) (.call (.addCommand command outcome)) .errNone
        (.live (lines ++ [command]) shrunk)
  | addRefused {command : Command} {lines : List Command} : checkCommand command = true → FullListing lines →
      LifeStep (.live lines false) (.call (.addCommand command none)) .errBadParameter .lost
  | addRejected {before : Life} {command : Command} {outcome : Option (ℕ → Command)} :
      before = .lost ∨ checkCommand command = false →
      LifeStep before (.call (.addCommand command outcome)) .errBadParameter before
  | shrink {garbage : ℕ → Command} {lines : List Command} {shrunk : Bool} :
      LifeStep (.live lines shrunk) (.call (.shrink (some garbage))) .errNone (.live lines true)
  | shrinkRefused {lines : List Command} {shrunk : Bool} :
      LifeStep (.live lines shrunk) (.call (.shrink none)) .errBadParameter .lost
  | shrinkLost {outcome : Option (ℕ → Command)} :
      LifeStep .lost (.call (.shrink outcome)) .errBadParameter .lost
  | free {lines : List Command} {shrunk : Bool} : LifeStep (.live lines shrunk) .free .errNone .freed
  | freeLost : LifeStep .lost .free .errNone .lost

/-- The calls that leave defined behaviour. -/
def Life.Breaks : Life → LifeCall → Prop
  | .freed, .call (.addCommand command _) => checkCommand command = true
  | .freed, .call (.shrink _) | .freed, .free => True
  | .live lines true, .call (.addCommand command _) =>
    checkCommand command = true ∧ firstsize ≤ lines.length
  | _, _ => False

def Life.print : Life → ErrorCode × Text
  | .lost => (.errBadParameter, [])
  | .freed => (.errNone, [])
  | .live lines _ => (.errNone, lines.flatMap printLine)

/-- The field `allocated` is eight times a power of two, and the smallest such number that is large
enough. -/
def Program.Doubled (program : Program) : Prop :=
  ∃ k, program.allocated = sizeofPointer * 2 ^ k ∧ (k = 0 ∨ program.allocated < 2 * program.nbLines)

/-- The program stands for the given life. -/
def OwnedProgram.Lives (owned : OwnedProgram) : Life → Prop
  | .lost => owned.program.listing = none
  | .freed => owned.freed = true ∧ owned.program.listing.isSome = true ∧ owned.program.nbLines = 0
  | .live lines shrunk => owned.freed = false ∧ owned.program.lines = lines ∧
      owned.program.Tallied ⟨lines.length, shrunk⟩ ∧ (shrunk = false → owned.program.Doubled)

section Lines

variable {program next : Program} {block : Block} {command : Command} {outcome : Option (ℕ → Command)}

theorem lines_resized (block : Block) {count nbLines : ℕ} (garbage : ℕ → Command)
    (bounded : nbLines ≤ block.count) :
    (List.range nbLines).map (block.resized count garbage).element =
      (List.range nbLines).map block.element := by
  apply List.map_congr_left
  intro i member
  have inside := List.mem_range.mp member
  exact if_pos (by omega)

theorem lines_add (listing : program.listing = some block) (bounded : program.nbLines ≤ block.count)
    (added : programAddCommand program command outcome = .ok (.errNone, next)) :
    next.lines = program.lines ++ [command] := by
  have lines : program.lines = (List.range program.nbLines).map block.element := by
    rw [Program.lines, listing]
  cases accepted : checkCommand command with
  | false =>
    rw [programAddCommand_rejected accepted] at added
    cases added
  | true =>
    by_cases room : program.nbLines < program.allocated
    · rw [programAddCommand_room listing accepted room] at added
      split at added
      · cases added
        rw [lines_appended, lines]
      · contradiction
    · cases outcome with
      | none =>
        rw [programAddCommand_refused listing accepted room] at added
        cases added
      | some garbage =>
        rw [programAddCommand_full listing accepted room] at added
        split at added
        · cases added
          rw [lines_appended, lines_resized block garbage bounded, lines]
        · contradiction

theorem programShrink_granted (listing : program.listing = some block) (garbage : ℕ → Command) :
    programShrink program (some garbage) =
      (.errNone, ⟨some (block.resized (max program.nbLines firstsize) garbage), program.nbLines,
        max program.nbLines firstsize * sizeofCommand⟩) := by
  have size : (if program.nbLines > firstsize then program.nbLines * sizeofCommand
      else firstsize * sizeofCommand) = max program.nbLines firstsize * sizeofCommand := by
    split
    · rw [Nat.max_eq_left (by omega)]
    · rw [Nat.max_eq_right (by omega)]
  simp only [programShrink, listing, size, Block.realloc_eq]

theorem lines_shrink (listing : program.listing = some block) (bounded : program.nbLines ≤ block.count)
    {garbage : ℕ → Command} (shrunk : programShrink program (some garbage) = (.errNone, next)) :
    next.lines = program.lines := by
  rw [programShrink_granted listing] at shrunk
  obtain ⟨_, rfl⟩ := Prod.mk.inj shrunk
  simp only [Program.lines, listing]
  exact lines_resized block garbage bounded

/-- The listing is full exactly when the number of lines is eight times a power of two. -/
theorem Program.Doubled.full_iff (doubled : program.Doubled) (used : program.nbLines ≤ program.allocated)
    {lines : List Command} (length : lines.length = program.nbLines) :
    FullListing lines ↔ ¬ program.nbLines < program.allocated := by
  obtain ⟨k, allocated, shape⟩ := doubled
  rw [FullListing, length]
  constructor
  · rintro ⟨j, power⟩ room
    rw [power, allocated, sizeofPointer] at room
    rcases shape with rfl | half
    · have := Nat.one_le_two_pow (n := j)
      omega
    · rw [power, allocated, sizeofPointer] at half
      have lower : 2 ^ j < 2 ^ k := by omega
      have upper : 2 ^ k < 2 ^ (j + 1) := by
        rw [Nat.pow_succ]
        omega
      have := (Nat.pow_lt_pow_iff_right (by decide)).mp lower
      have := (Nat.pow_lt_pow_iff_right (by decide)).mp upper
      omega
  · intro full
    exact ⟨k, by omega⟩

/-- The number of allocated lines stays the smallest that is large enough. -/
theorem Program.Doubled.add (doubled : program.Doubled) (used : program.nbLines ≤ program.allocated)
    (added : programAddCommand program command outcome = .ok (.errNone, next)) : next.Doubled := by
  obtain ⟨k, allocated, shape⟩ := doubled
  cases listing : program.listing with
  | none => simp [programAddCommand, listing] at added
  | some block =>
    cases accepted : checkCommand command with
    | false =>
      rw [programAddCommand_rejected accepted] at added
      cases added
    | true =>
      by_cases room : program.nbLines < program.allocated
      · rw [programAddCommand_room listing accepted room] at added
        split at added
        · cases added
          refine ⟨k, allocated, shape.imp_right fun half => ?_⟩
          simp only [Program.appended]
          omega
        · contradiction
      · cases outcome with
        | none =>
          rw [programAddCommand_refused listing accepted room] at added
          cases added
        | some garbage =>
          rw [programAddCommand_full listing accepted room] at added
          split at added
          · cases added
            refine ⟨k + 1, ?_, .inr ?_⟩
            · simp only [Program.appended, allocated, Nat.pow_succ, Nat.mul_assoc]
            · simp only [Program.appended]
              omega
          · contradiction

end Lines

/-- A call either does what the life says, or breaks and faults. -/
inductive Answers (owned : OwnedProgram) (life : Life) (call : LifeCall) : Prop
  | step {next : OwnedProgram} {code : ErrorCode} {after : Life} :
      lifeCall owned call = .ok (next, code) → LifeStep life call code after → next.Lives after →
      Answers owned life call
  | fault {fault : Fault} : lifeCall owned call = .error fault → life.Breaks call → Answers owned life call

section Step

variable {owned : OwnedProgram} {life : Life} {lines : List Command} {shrunk : Bool}

theorem answers_init (owned : OwnedProgram) (life : Life) (zeroed : Bool) :
    Answers owned life (.call (.init zeroed)) := by
  cases zeroed with
  | true =>
    refine .step rfl (.init life) ⟨rfl, rfl, programInit_tallied owned.program, fun _ => ?_⟩
    exact ⟨0, rfl, .inl rfl⟩
  | false => exact .step rfl (.initRefused life) rfl

/-- A call that does not touch a freed listing does what it does to the program. -/
theorem lifeCall_spared {call : ProgramCall} (ordinary : ∀ zeroed, call ≠ .init zeroed)
    (spared : ¬ (owned.freed = true ∧ call.Touches owned.program)) {program : Program} {code : ErrorCode}
    (ran : programCall owned.program call = .ok (program, code)) :
    lifeCall owned (.call call) = .ok ({ owned with program }, code) := by
  cases call with
  | init zeroed => exact (ordinary zeroed rfl).elim
  | addCommand | shrink => simp only [lifeCall, spared, ↓reduceIte, ran, ok_bind, pure_eq_ok]

theorem lifeCall_freed {call : ProgramCall} (freed : owned.freed = true) (touches : call.Touches owned.program) :
    lifeCall owned (.call call) = .error .danglingPointer := by
  cases call with
  | init => exact touches.elim
  | addCommand | shrink => exact if_pos ⟨freed, touches⟩

/-- A command that the checks refuse changes nothing. -/
theorem answers_rejected (lives : owned.Lives life) {command : Command} {outcome : Option (ℕ → Command)}
    (rejected : checkCommand command = false) :
    Answers owned life (.call (.addCommand command outcome)) := by
  have ran : programCall owned.program (.addCommand command outcome) =
      .ok (owned.program, .errBadParameter) := by
    rw [programCall, programAddCommand_rejected rejected]
    rfl
  refine .step (lifeCall_spared (by simp) (fun touched => ?_) ran) (.addRejected (.inr rejected)) lives
  obtain ⟨_, _, accepted⟩ := touched
  rw [rejected] at accepted
  contradiction

theorem answers_lost (lost : owned.program.listing = none) (call : LifeCall) :
    Answers owned .lost call := by
  have untouched (call : ProgramCall) : ¬ (owned.freed = true ∧ call.Touches owned.program) := by
    cases call <;> simp [ProgramCall.Touches, lost]
  cases call with
  | free =>
    have ran : lifeCall owned .free =
        .ok ({ owned with program := { owned.program with nbLines := 0, allocated := 0 } }, .errNone) := by
      rw [lifeCall, programFree, lost]
      rfl
    exact .step ran .freeLost lost
  | call call =>
    cases call with
    | init zeroed => exact answers_init owned .lost zeroed
    | addCommand command outcome =>
      have ran : programCall owned.program (.addCommand command outcome) =
          .ok (owned.program, .errBadParameter) := by
        rw [programCall, programAddCommand, lost]
        rfl
      exact .step (lifeCall_spared (by simp) (untouched _) ran) (.addRejected (.inl rfl)) lost
    | shrink outcome =>
      have ran : programCall owned.program (.shrink outcome) = .ok (owned.program, .errBadParameter) := by
        rw [programCall, programShrink, lost]
        rfl
      exact .step (lifeCall_spared (by simp) (untouched _) ran) .shrinkLost lost

theorem answers_freed (lives : owned.Lives .freed) (call : LifeCall) : Answers owned .freed call := by
  have ⟨freed, listing, empty⟩ := lives
  cases call with
  | free =>
    obtain ⟨block, held⟩ := Option.isSome_iff_exists.mp listing
    exact .fault (by rw [lifeCall, programFree, held, if_pos freed]; rfl) trivial
  | call call =>
    cases call with
    | init zeroed => exact answers_init owned .freed zeroed
    | addCommand command outcome =>
      cases accepted : checkCommand command with
      | true => exact .fault (lifeCall_freed freed ⟨listing, accepted⟩) accepted
      | false => exact answers_rejected lives accepted
    | shrink outcome => exact .fault (lifeCall_freed freed listing) trivial

/-- An accepted command is appended or breaks a shrunk listing, unless it finds no memory for a full
one. -/
theorem answers_accepted (lives : owned.Lives (.live lines shrunk)) {command : Command}
    (accepted : checkCommand command = true) (outcome : Option (ℕ → Command)) :
    Answers owned (.live lines shrunk) (.call (.addCommand command outcome)) := by
  obtain ⟨owns, held, tallied, doubled⟩ := lives
  have spared : ¬ (owned.freed = true ∧ (ProgramCall.addCommand command outcome).Touches owned.program) := by
    simp [owns]
  obtain ⟨block, listing, bounded, shape⟩ := tallied.block
  have length : lines.length = owned.program.nbLines := tallied.lines.symm
  by_cases overruns : shrunk = true ∧ firstsize ≤ lines.length
  · obtain ⟨rfl, ten⟩ := overruns
    have stray := tallied.add_overruns accepted outcome rfl ten
    have ran : lifeCall owned (.call (.addCommand command outcome)) = .error .arrayBounds := by
      simp only [lifeCall, spared, ↓reduceIte, programCall, stray, error_bind]
    exact .fault ran ⟨accepted, ten⟩
  · have few : shrunk = true → lines.length < firstsize := fun small => by
      have := mt (And.intro small) overruns
      omega
    have appended {next : Program} (added : programAddCommand owned.program command outcome = .ok (.errNone, next))
        (counted : next.Tallied ⟨lines.length + 1, shrunk⟩)
        (room : shrunk = false → FullListing lines → outcome ≠ none) :
        Answers owned (.live lines shrunk) (.call (.addCommand command outcome)) := by
      have ran : programCall owned.program (.addCommand command outcome) = .ok (next, .errNone) := by
        rw [programCall, added]
        rfl
      refine .step (lifeCall_spared (by simp) spared ran) (.add accepted few room) ⟨owns, ?_, ?_, fun whole => ?_⟩
      · rw [lines_add listing bounded added, held]
      · rw [List.length_append]
        exact counted
      · subst whole
        simp only [Bool.false_eq_true, ↓reduceIte] at shape
        exact (doubled rfl).add shape.1 added
    cases outcome with
    | some garbage =>
      obtain ⟨next, added, counted⟩ := tallied.add accepted garbage overruns
      exact appended added counted fun _ _ => by simp
    | none =>
      by_cases room : owned.program.nbLines < owned.program.allocated
      · obtain ⟨next, added, counted⟩ := tallied.add accepted (fun _ => Command.zero) overruns
        have same : programAddCommand owned.program command none =
            programAddCommand owned.program command (some fun _ => Command.zero) := by
          rw [programAddCommand_room listing accepted room, programAddCommand_room listing accepted room]
        rw [← same] at added
        refine appended added counted fun whole full => ?_
        subst whole
        simp only [Bool.false_eq_true, ↓reduceIte] at shape
        exact (((doubled rfl).full_iff shape.1 length).mp full room).elim
      · have refused := programAddCommand_refused listing accepted room
        have ran : programCall owned.program (.addCommand command none) =
            .ok ({ owned.program with listing := none, allocated := owned.program.allocated * 2 },
              .errBadParameter) := by
          rw [programCall, refused]
          rfl
        cases shrunk with
        | true =>
          simp only [↓reduceIte, sizeofCommand] at shape
          have := few rfl
          omega
        | false =>
          simp only [Bool.false_eq_true, ↓reduceIte] at shape
          have full := ((doubled rfl).full_iff shape.1 length).mpr room
          exact .step (lifeCall_spared (by simp) spared ran) (.addRefused accepted full) rfl

theorem answers_live (lives : owned.Lives (.live lines shrunk)) (call : LifeCall) :
    Answers owned (.live lines shrunk) call := by
  have ⟨owns, held, tallied, doubled⟩ := lives
  obtain ⟨block, listing, bounded, shape⟩ := tallied.block
  cases call with
  | free =>
    have ran : lifeCall owned .free =
        .ok (⟨{ owned.program with nbLines := 0, allocated := 0 }, true⟩, .errNone) := by
      rw [lifeCall, programFree, listing, owns]
      rfl
    exact .step ran .free ⟨rfl, by rw [listing]; rfl, rfl⟩
  | call call =>
    cases call with
    | init zeroed => exact answers_init owned _ zeroed
    | addCommand command outcome =>
      cases accepted : checkCommand command with
      | true => exact answers_accepted lives accepted outcome
      | false => exact answers_rejected lives accepted
    | shrink outcome =>
      have spared : ¬ (owned.freed = true ∧ (ProgramCall.shrink outcome).Touches owned.program) := by
        simp [owns]
      cases outcome with
      | some garbage =>
        obtain ⟨next, shrunk, counted⟩ := tallied.shrink garbage
        have ran : programCall owned.program (.shrink (some garbage)) = .ok (next, .errNone) := by
          rw [programCall, shrunk]
          rfl
        refine .step (lifeCall_spared (by simp) spared ran) .shrink ⟨owns, ?_, counted, by simp⟩
        rw [lines_shrink listing bounded shrunk, held]
      | none =>
        have ran : programCall owned.program (.shrink none) =
            .ok ((programShrink owned.program none).2, .errBadParameter) := by
          simp [programCall, programShrink, listing, Block.realloc]
        have gone : (programShrink owned.program none).2.listing = none := by
          simp [programShrink, listing, Block.realloc]
        exact .step (lifeCall_spared (by simp) spared ran) .shrinkRefused gone

/-- One call does what the life of the program says, or breaks it. -/
theorem OwnedProgram.Lives.answers (lives : owned.Lives life) (call : LifeCall) :
    Answers owned life call := by
  cases life with
  | lost => exact answers_lost lives call
  | freed => exact answers_freed lives call
  | live lines shrunk => exact answers_live lives call

/-- What the life allows does not break it. -/
theorem LifeStep.not_breaks {call : LifeCall} {code : ErrorCode} {after : Life}
    (step : LifeStep life call code after) : ¬ life.Breaks call := by
  cases step with
  | @add _ _ lines shrunk _ few _ =>
    cases shrunk with
    | true =>
      have := few rfl
      simp only [Life.Breaks]
      omega
    | false => exact id
  | @addRejected life command _ rejected =>
    rcases rejected with rfl | rejected
    · exact id
    · cases life with
      | lost => exact id
      | freed => simp [Life.Breaks, rejected]
      | live lines shrunk => cases shrunk <;> simp [Life.Breaks, rejected]
  | init | initRefused => rcases life with _ | _ | ⟨_, _ | _⟩ <;> exact id
  | @shrink _ _ shrunk | @shrinkRefused _ shrunk | @free _ shrunk => cases shrunk <;> exact id
  | addRefused | shrinkLost | freeLost => exact id

theorem OwnedProgram.Lives.print (lives : owned.Lives life) :
    programPrint owned.program = .ok life.print := by
  cases life with
  | lost => rw [programPrint, show owned.program.listing = none from lives, Life.print]
  | freed =>
    obtain ⟨_, listing, empty⟩ := lives
    obtain ⟨block, held⟩ := Option.isSome_iff_exists.mp listing
    rw [programPrint, held, empty]
    rfl
  | live lines shrunk =>
    obtain ⟨_, held, tallied, _⟩ := lives
    obtain ⟨block, listing, bounded, _⟩ := tallied.block
    rw [Program.lines, listing] at held
    have loaded := mapM_load block fun i member => lt_of_lt_of_le (List.mem_range.mp member) bounded
    simp only [programPrint, listing, loaded, held]
    rfl

end Step

theorem lifeCall_simulates :
    Simulates lifeCall (fun _ _ => True) LifeStep OwnedProgram.Lives := by
  intro owned life call next code lives _ stepped
  cases lives.answers call with
  | step ran step kept =>
    obtain ⟨rfl, rfl⟩ := Prod.mk.inj (Except.ok.inj (stepped.symm.trans ran))
    exact ⟨_, step, kept⟩
  | fault stopped _ =>
    rw [stopped] at stepped
    contradiction

/-- After every sequence of calls on an initialised program, whatever the allocations return, the program
prints the list of its accepted commands, in order, unless it has lost or freed its listing; and the next
call leaves defined behaviour exactly when it uses a freed listing or adds to a shrunk listing of ten
lines or more. -/
theorem program_refines_life (zeroed : Bool) (program : Program) {history : List (LifeCall × ErrorCode)}
    {owned : OwnedProgram}
    (run : Run lifeCall (fun _ _ => True) ⟨(programInit zeroed program).2, false⟩ history owned) :
    ∃ life, Trace LifeStep (if zeroed then .live [] false else .lost) history life ∧
      programPrint owned.program = .ok life.print ∧
      ∀ call, (∃ fault, lifeCall owned call = .error fault) ↔ life.Breaks call := by
  have initial : OwnedProgram.Lives ⟨(programInit zeroed program).2, false⟩
      (if zeroed then .live [] false else .lost) := by
    cases zeroed with
    | true => exact ⟨rfl, rfl, programInit_tallied program, fun _ => ⟨0, rfl, .inl rfl⟩⟩
    | false => rfl
  obtain ⟨life, trace, lives⟩ := lifeCall_simulates.trace initial run
  refine ⟨life, trace, lives.print, fun call => ?_⟩
  cases lives.answers call with
  | step ran step _ => simp [ran, step.not_breaks]
  | fault stopped breaks => simp [stopped, breaks]

private def wordWrite : Command :=
  ⟨CommandWord.WRITE, MemAccess.DATA.stored, 4, 0xBEEF, initVirtAddr64 16⟩

private def shrinkingHistory : List (LifeCall × ErrorCode) :=
  [(.call (.addCommand wordWrite none), .errNone), (.call (.shrink (some fun _ => Command.zero)), .errNone),
    (.call (.addCommand Command.zero none), .errNone)]

private theorem shrinkingHistory_trace {life : Life}
    (trace : Trace LifeStep (.live [] false) shrinkingHistory life) :
    life = .live [Command.zero, wordWrite] true := by
  cases trace with
  | snoc shrunk second =>
    cases shrunk with
    | snoc added shrink =>
      cases added with
      | snoc start first =>
        cases start
        cases first
        cases shrink
        cases second
        rfl

/-- A program prints the commands that it got before and after it was shrunk, and another one can be
added; once it is freed it prints nothing, and can neither be added to nor freed again. -/
theorem program_refines_life_freed : ∃ listed owned,
    Run lifeCall (fun _ _ => True) ⟨(programInit true uninitialised).2, false⟩ shrinkingHistory listed ∧
    programPrint listed.program = .ok (.errNone, printLine Command.zero ++ printLine wordWrite) ∧
    (¬ ∃ fault, lifeCall listed (.call (.addCommand wordWrite none)) = .error fault) ∧
    lifeCall listed .free = .ok (owned, .errNone) ∧
    programPrint owned.program = .ok (.errNone, []) ∧
    (∃ fault, lifeCall owned (.call (.addCommand wordWrite none)) = .error fault) ∧
    ∃ fault, lifeCall owned .free = .error fault := by
  obtain ⟨listed, run, owned, freed⟩ : ∃ listed, Run lifeCall (fun _ _ => True)
        ⟨(programInit true uninitialised).2, false⟩ shrinkingHistory listed ∧
      ∃ owned, lifeCall listed .free = .ok (owned, .errNone) :=
    ⟨_, .snoc (.snoc (.snoc .nil trivial rfl) trivial rfl) trivial rfl, _, rfl⟩
  obtain ⟨life, trace, printed, breaks⟩ := program_refines_life true uninitialised run
  obtain ⟨ended, trace', printed', breaks'⟩ :=
    program_refines_life true uninitialised (run.snoc trivial freed)
  have gone : ended = .freed := by
    cases trace' with
    | snoc kept last =>
      obtain rfl := shrinkingHistory_trace kept
      cases last
      rfl
  obtain rfl := shrinkingHistory_trace trace
  subst gone
  refine ⟨listed, owned, run, printed, ?_, freed, printed', (breaks' _).mpr ?_, (breaks' .free).mpr trivial⟩
  · rw [breaks]
    simp [Life.Breaks, firstsize]
  · exact (by decide : checkCommand wordWrite = true)

end KabyLake
