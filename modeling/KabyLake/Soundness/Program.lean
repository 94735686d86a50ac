import KabyLake.Proofs.Program

/-! # The listing of a program stays in its block

`program_shrink` stores a number of bytes in the field that `program_add_command` compares with a
number of lines. Without a command added to a shrunk program of ten lines or more, every element is
written inside the block, in every order of the calls.
-/

namespace KabyLake

open Machine

/-- The calls write inside the block, and after each of them the block holds all lines. -/
def InBounds (start : Program) (calls : List ProgramCall) : Prop :=
  ∀ part, part <+: calls → ∃ program block, replay programCall part start = .ok program ∧
    program.listing = some block ∧ program.nbLines ≤ block.count

/-- No call of the sequence adds a line to a program that has at least ten lines and was shrunk
since its last initialisation. -/
def NeverOverruns : Tally → List ProgramCall → Prop
  | _, [] => True
  | tally, call :: rest => ¬ call.Overruns tally ∧ NeverOverruns (tally.next call) rest

instance decidableNeverOverruns : ∀ (tally : Tally) (calls : List ProgramCall),
    Decidable (NeverOverruns tally calls)
  | _, [] => inferInstanceAs (Decidable True)
  | tally, call :: rest =>
    have := decidableNeverOverruns (tally.next call) rest
    inferInstanceAs (Decidable (¬ call.Overruns tally ∧ NeverOverruns (tally.next call) rest))

theorem inBounds_cons {program next : Program} {call : ProgramCall} {code : ErrorCode}
    {rest : List ProgramCall} (stepped : programCall program call = .ok (next, code))
    (here : ∃ block, program.listing = some block ∧ program.nbLines ≤ block.count) :
    InBounds program (call :: rest) ↔ InBounds next rest := by
  have continued (part : List ProgramCall) :
      replay programCall (call :: part) program = replay programCall part next := by
    rw [replay, stepped]
    rfl
  constructor
  · intro bounds part first
    simpa only [continued] using bounds (call :: part) (List.cons_prefix_cons.mpr ⟨rfl, first⟩)
  · intro bounds part first
    rcases List.prefix_cons_iff.mp first with rfl | ⟨part, rfl, shorter⟩
    · obtain ⟨block, listing, bounded⟩ := here
      exact ⟨program, block, rfl, listing, bounded⟩
    · simpa only [continued] using bounds part shorter

theorem Program.Tallied.inBounds_iff {program : Program} {tally : Tally}
    (tallied : program.Tallied tally) {calls : List ProgramCall}
    (granted : ∀ call ∈ calls, call.Granted) :
    InBounds program calls ↔ NeverOverruns tally calls := by
  induction calls generalizing program tally with
  | nil =>
    obtain ⟨block, listing, bounded, _⟩ := tallied.block
    simp only [NeverOverruns, iff_true]
    intro part first
    obtain rfl := List.prefix_nil.mp first
    exact ⟨program, block, rfl, listing, bounded⟩
  | cons call rest ih =>
    obtain ⟨block, listing, bounded, _⟩ := tallied.block
    rw [NeverOverruns]
    rcases em (call.Overruns tally) with overruns | inside
    · simp only [overruns, not_true_eq_false, false_and, iff_false]
      intro bounds
      obtain ⟨_, _, replayed, _⟩ := bounds [call] (List.cons_prefix_cons.mpr ⟨rfl, List.nil_prefix⟩)
      simp [replay, tallied.call_overruns overruns] at replayed
    · obtain ⟨next, code, stepped, after⟩ := tallied.call (granted call (List.mem_cons_self ..)) inside
      rw [inBounds_cons stepped ⟨block, listing, bounded⟩,
        ih after fun other member => granted other (List.mem_cons_of_mem _ member)]
      simp only [inside, not_false_eq_true, true_and]

/-- Calls that start with `program_init` and whose allocations succeed keep to the block exactly
when none of them adds a line to a shrunk program of ten lines or more. -/
theorem inBounds_iff_neverOverruns (start : Program) {calls : List ProgramCall}
    (granted : ∀ call ∈ calls, call.Granted) :
    InBounds (programInit true start).2 calls ↔ NeverOverruns ⟨0, false⟩ calls :=
  (programInit_tallied start).inBounds_iff granted

theorem inBounds_iff_neverOverruns_shrink :
    InBounds (programInit true uninitialised).2
      (List.replicate 11 (.addCommand Command.zero (some fun _ => Command.zero)) ++
        [.shrink (some fun _ => Command.zero)]) := by
  have granted : ∀ call ∈
      List.replicate 11 (ProgramCall.addCommand Command.zero (some fun _ => Command.zero)) ++
        [.shrink (some fun _ => Command.zero)], call.Granted := by
    simp [ProgramCall.Granted]
  exact (inBounds_iff_neverOverruns _ granted).mpr (by decide)

/-- The eleventh command after a `program_shrink` is stored behind the ten elements. -/
theorem shrink_overruns :
    ¬ InBounds (programInit true uninitialised).2
      (.shrink (some fun _ => Command.zero) ::
        List.replicate 11 (.addCommand Command.zero (some fun _ => Command.zero))) := by
  intro bounds
  obtain ⟨_, _, replayed, _⟩ := bounds _ (List.prefix_refl _)
  have fault : replay programCall (.shrink (some fun _ => Command.zero) ::
      List.replicate 11 (.addCommand Command.zero (some fun _ => Command.zero)))
        (programInit true uninitialised).2 = .error .arrayBounds := by rfl
  rw [fault] at replayed
  contradiction

end KabyLake
