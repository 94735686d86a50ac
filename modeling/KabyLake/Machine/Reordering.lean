import KabyLake.Machine.Run

/-! # Reordering the steps of a run

Two sequences are shuffles of each other when neighbours that are apart were exchanged any number of
times. Where apart actions commute in reachable states, a shuffle of a run is a run with the same
result. Sequences whose elements fall into classes are shuffles as soon as each class occurs in the
same order in both.
-/

namespace Machine

universe u v w

section Shuffle

variable {α β : Type u} {κ : Type w} {apart : α → α → Prop}

/-- The sequences reached by exchanging neighbours that are apart. -/
inductive Shuffle (apart : α → α → Prop) : List α → List α → Prop
  | nil : Shuffle apart [] []
  | cons (a : α) {front back : List α} : Shuffle apart front back →
      Shuffle apart (a :: front) (a :: back)
  | swap {a b : α} (rest : List α) : apart a b → Shuffle apart (a :: b :: rest) (b :: a :: rest)
  | trans {first second third : List α} : Shuffle apart first second → Shuffle apart second third →
      Shuffle apart first third

namespace Shuffle

theorem refl (elements : List α) : Shuffle apart elements elements := by
  induction elements with
  | nil => exact .nil
  | cons a rest ih => exact .cons a ih

/-- An element moves over a prefix whose elements are all apart from it. -/
theorem middle {a : α} {front : List α} (rest : List α) (others : ∀ b ∈ front, apart a b) :
    Shuffle apart (a :: (front ++ rest)) (front ++ a :: rest) := by
  induction front with
  | nil => exact refl _
  | cons b front ih =>
    have first := others b (List.mem_cons_self ..)
    have later := ih fun c member => others c (List.mem_cons_of_mem _ member)
    exact .trans (.swap _ first) (.cons b later)

/-- Sequences in which every class occurs in the same order are shuffles across the classes. -/
theorem of_filter_eq [DecidableEq κ] (cls : α → κ) {left right : List α}
    (same : ∀ k, left.filter (cls · = k) = right.filter (cls · = k)) :
    Shuffle (fun a b => cls a ≠ cls b) left right := by
  induction left generalizing right with
  | nil =>
    cases right with
    | nil => exact .nil
    | cons a rest => simpa using same (cls a)
  | cons a rest ih =>
    have here := same (cls a)
    rw [List.filter_cons_of_pos (by simp), eq_comm, List.filter_eq_cons_iff] at here
    obtain ⟨front, back, rfl, others, _, later⟩ := here
    have differ : ∀ b ∈ front, cls a ≠ cls b := fun b member equal =>
      others b member (by simp [equal])
    have remaining : ∀ k, rest.filter (cls · = k) = (front ++ back).filter (cls · = k) := by
      intro k
      have whole := same k
      rcases eq_or_ne (cls a) k with rfl | other
      · have empty : front.filter (cls · = cls a) = [] :=
          List.filter_eq_nil_iff.mpr fun b member => by simpa using (differ b member).symm
        rw [List.filter_append, empty, List.nil_append, later]
      · rwa [List.filter_append, List.filter_cons_of_neg (by simpa using other),
          List.filter_cons_of_neg (by simpa using other), ← List.filter_append] at whole
    exact .trans (.cons a (ih remaining)) (middle back differ)

/-- A shuffle of the labels is a shuffle of the labelled elements. -/
theorem lift {label : β → α} {labels : List α} {elements : List β}
    (shuffled : Shuffle apart (elements.map label) labels) :
    ∃ reordered, reordered.map label = labels ∧
      Shuffle (fun a b => apart (label a) (label b)) elements reordered := by
  generalize same : elements.map label = before at shuffled
  induction shuffled generalizing elements with
  | nil => exact ⟨[], rfl, by rw [List.map_eq_nil_iff.mp same]; exact .nil⟩
  | cons a _ ih =>
    obtain ⟨b, rest, rfl, rfl, rest'⟩ := List.map_eq_cons_iff.mp same
    obtain ⟨reordered, labels, shuffled⟩ := ih rest'
    exact ⟨b :: reordered, by rw [List.map_cons, labels], .cons b shuffled⟩
  | swap rest differ =>
    obtain ⟨a, others, rfl, rfl, tail⟩ := List.map_eq_cons_iff.mp same
    obtain ⟨b, others, rfl, rfl, rfl⟩ := List.map_eq_cons_iff.mp tail
    exact ⟨b :: a :: others, rfl, .swap _ differ⟩
  | trans _ _ first second =>
    obtain ⟨middle, labels, earlier⟩ := first same
    obtain ⟨reordered, labels', later⟩ := second labels
    exact ⟨reordered, labels', earlier.trans later⟩

/-- Exchanging elements of different classes keeps every class. -/
theorem filter_eq [DecidableEq κ] {cls : α → κ} {left right : List α}
    (shuffled : Shuffle (fun a b => cls a ≠ cls b) left right) (k : κ) :
    left.filter (cls · = k) = right.filter (cls · = k) := by
  induction shuffled with
  | nil => rfl
  | cons a _ ih => rw [List.filter_cons, List.filter_cons, ih]
  | @swap a b rest differ =>
    simp only [List.filter_cons, decide_eq_true_eq]
    split
    · next first =>
      have second : cls b ≠ k := fun second => differ (first.trans second.symm)
      simp only [second, ↓reduceIte]
    · rfl
  | trans _ _ first second => exact first.trans second

end Shuffle

end Shuffle

variable {ε : Type v} {σ α ρ : Type u} {step : σ → α → Except ε (σ × ρ)} {guard : α → Prop} {start : σ}

/-- A shuffle of a run, if actions that are apart commute in every state that is reached. -/
theorem Run.shuffle (apart : α → α → Prop)
    (commutes : ∀ history state middle final first second reply reply',
      Run step (fun _ => guard) start history state → guard first → guard second → apart second first →
      step state first = .ok (middle, reply) → step middle second = .ok (final, reply') →
      ∃ other, step state second = .ok (other, reply') ∧ step other first = .ok (final, reply))
    {history reordered : List (α × ρ)} {state : σ}
    (run : Run step (fun _ => guard) start history state)
    (shuffled : Shuffle (fun a b => apart a.1 b.1) history reordered) :
    Run step (fun _ => guard) start reordered state := by
  induction shuffled generalizing state with
  | nil => exact run
  | cons entry _ ih =>
    cases run with
    | snoc run allowed stepped => exact .snoc (ih run) allowed stepped
  | swap rest differ =>
    cases run with
    | snoc run second later =>
      cases run with
      | snoc run first earlier =>
        obtain ⟨other, early, late⟩ := commutes _ _ _ _ _ _ _ _ run first second differ earlier later
        exact .snoc (.snoc run second early) first late
  | trans _ _ first second => exact second (first run)

end Machine
