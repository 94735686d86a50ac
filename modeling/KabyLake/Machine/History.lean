import KabyLake.Machine.Run

/-! # Cells of the state as functions of the history

Some events write a cell of the state and the others leave it. After a run the cell then holds what the
last event that wrote it put there, so it can be read off the history.
-/

namespace Machine

universe u v

variable {ε : Type u} {β : Type v}

/-- What an event does to a cell after the events `older`: `none` leaves the cell, and `some content`
is its new content. -/
abbrev Effect (ε : Type u) (β : Type v) := List ε → ε → Option (Option β)

/-- The content of a cell that starts empty. -/
def cellAfter (effect : Effect ε β) : List ε → Option β
  | [] => none
  | event :: older => (effect older event).getD (cellAfter effect older)

/-- None of the events `newer`, which follow `older`, writes the cell. -/
def Untouched (effect : Effect ε β) (older : List ε) : List ε → Prop
  | [] => True
  | event :: newer => effect (newer ++ older) event = none ∧ Untouched effect older newer

variable {effect : Effect ε β}

theorem cellAfter_untouched {older newer : List ε} (untouched : Untouched effect older newer) :
    cellAfter effect (newer ++ older) = cellAfter effect older := by
  induction newer with
  | nil => rfl
  | cons event newer ih =>
    obtain ⟨left, rest⟩ := untouched
    rw [List.cons_append, cellAfter, left, Option.getD_none, ih rest]

/-- A cell holds what some event wrote, if no later event wrote the cell. -/
theorem cellAfter_eq_some_iff {history : List ε} {b : β} :
    cellAfter effect history = some b ↔ ∃ newer event older, history = newer ++ event :: older ∧
      effect older event = some (some b) ∧ Untouched effect (event :: older) newer := by
  constructor
  · intro holds
    induction history with
    | nil => contradiction
    | cons event older ih =>
      cases wrote : effect older event with
      | some content =>
        rw [cellAfter, wrote, Option.getD_some] at holds
        subst holds
        exact ⟨[], event, older, rfl, wrote, trivial⟩
      | none =>
        rw [cellAfter, wrote, Option.getD_none] at holds
        obtain ⟨newer, writer, before, rfl, written, untouched⟩ := ih holds
        exact ⟨event :: newer, writer, before, rfl, written, wrote, untouched⟩
  · rintro ⟨newer, event, older, rfl, wrote, untouched⟩
    rw [cellAfter_untouched untouched, cellAfter, wrote, Option.getD_some]

/-- Where what an event does needs no history, a cell is untouched if no event writes it. -/
theorem untouched_iff {writes : ε → Option (Option β)} {older newer : List ε} :
    Untouched (fun _ => writes) older newer ↔ ∀ event ∈ newer, writes event = none := by
  induction newer with
  | nil => exact iff_of_true trivial (by simp)
  | cons event newer ih => rw [Untouched, ih, List.forall_mem_cons]

end Machine
