import Mathlib.Data.List.Forall2
import Mathlib.Data.List.Induction

/-! # Finite runs of a machine whose steps may leave defined behaviour

A step of the machine either faults, which ends the run without any further observation, or
returns the next state together with the reply its caller sees. `Run` collects the steps of one
finite run, most recent first, under a guard that every step of the run satisfies in the state it
starts from. The run rules below reduce a statement about every reachable state to one step.
-/

namespace Machine

universe u v

variable {ε : Type v} {α β : Type u}

@[simp] theorem ok_bind (a : α) (f : α → Except ε β) : (Except.ok a >>= f) = f a := rfl

@[simp] theorem error_bind (e : ε) (f : α → Except ε β) :
    ((Except.error e : Except ε α) >>= f) = .error e := rfl

@[simp] theorem pure_eq_ok (a : α) : (pure a : Except ε α) = .ok a := rfl

/-- A sequence of two computations succeeds exactly when both parts do. -/
theorem bind_eq_ok_iff {x : Except ε α} {f : α → Except ε β} {b : β} :
    x >>= f = .ok b ↔ ∃ a, x = .ok a ∧ f a = .ok b := by
  cases x with
  | error e => simp
  | ok a => simp

/-- A sequence of two computations faults exactly when the first part does, or the second after it. -/
theorem bind_eq_error_iff {x : Except ε α} {f : α → Except ε β} {e : ε} :
    x >>= f = .error e ↔ x = .error e ∨ ∃ a, x = .ok a ∧ f a = .error e := by
  cases x with
  | error fault => simp
  | ok a => simp

/-- A sequence of computations that all succeed. -/
theorem mapM_ok {f : α → Except ε β} {g : α → β} {xs : List α} (runs : ∀ x ∈ xs, f x = .ok (g x)) :
    xs.mapM f = .ok (xs.map g) := by
  induction xs with
  | nil => rfl
  | cons x xs ih =>
    rw [List.mapM_cons, runs x (List.mem_cons_self ..),
      ih fun y member => runs y (List.mem_cons_of_mem _ member)]
    rfl

/-- A sequence of computations succeeds only if all of them do. -/
theorem exists_of_mapM_ok {f : α → Except ε β} {xs : List α} {ys : List β} (ran : xs.mapM f = .ok ys) :
    ∀ x ∈ xs, ∃ y, f x = .ok y := by
  induction xs generalizing ys with
  | nil => simp
  | cons x xs ih =>
    rw [List.mapM_cons] at ran
    obtain ⟨y, first, rest⟩ := bind_eq_ok_iff.mp ran
    obtain ⟨others, behind, _⟩ := bind_eq_ok_iff.mp rest
    exact List.forall_mem_cons.mpr ⟨⟨y, first⟩, ih behind⟩

variable {σ ρ : Type u}

/-- The finite runs from `start` whose steps all satisfy `guard`, newest step first. -/
inductive Run (step : σ → α → Except ε (σ × ρ)) (guard : σ → α → Prop) (start : σ) :
    List (α × ρ) → σ → Prop
  | nil : Run step guard start [] start
  | snoc {history : List (α × ρ)} {state next : σ} {action : α} {reply : ρ} :
      Run step guard start history state → guard state action →
      step state action = .ok (next, reply) →
      Run step guard start ((action, reply) :: history) next

/-- Take the given actions in order. -/
def replay (step : σ → α → Except ε (σ × ρ)) : List α → σ → Except ε σ
  | [], state => .ok state
  | action :: rest, state => step state action >>= fun result => replay step rest result.1

/-- The property holds of every action of the sequence, in the state in which the action is taken. -/
def Along (step : σ → α → Except ε (σ × ρ)) (property : σ → α → Prop) : σ → List α → Prop
  | _, [] => True
  | state, action :: rest => property state action ∧
      ∀ next reply, step state action = .ok (next, reply) → Along step property next rest

/-- What is the same in every state is the same along every sequence. -/
theorem along_congr {step : σ → α → Except ε (σ × ρ)} {property other : σ → α → Prop}
    (same : ∀ state action, property state action ↔ other state action) (state : σ)
    (actions : List α) :
    Along step property state actions ↔ Along step other state actions := by
  induction actions generalizing state with
  | nil => exact Iff.rfl
  | cons action rest ih => simp only [Along, same, ih]

namespace Run

variable {step : σ → α → Except ε (σ × ρ)} {guard weaker : σ → α → Prop} {start state : σ}
  {history : List (α × ρ)}

/-- What holds at the start and is preserved by every guarded step holds after every run,
together with the history that led there. -/
theorem invariant_history (inv : List (α × ρ) → σ → Prop) (initial : inv [] start)
    (preserved : ∀ history state action next reply, inv history state → guard state action →
      step state action = .ok (next, reply) → inv ((action, reply) :: history) next)
    (run : Run step guard start history state) : inv history state := by
  induction run with
  | nil => exact initial
  | snoc _ allowed stepped ih => exact preserved _ _ _ _ _ ih allowed stepped

theorem invariant (inv : σ → Prop) (initial : inv start)
    (preserved : ∀ state action next reply, inv state → guard state action →
      step state action = .ok (next, reply) → inv next)
    (run : Run step guard start history state) : inv state :=
  run.invariant_history (fun _ => inv) initial
    (fun _ state action next reply => preserved state action next reply)

/-- A run under a stronger guard is a run under a weaker one. -/
theorem mono (implied : ∀ state action, guard state action → weaker state action)
    (run : Run step guard start history state) : Run step weaker start history state := by
  induction run with
  | nil => exact .nil
  | snoc _ allowed stepped ih => exact .snoc ih (implied _ _ allowed) stepped

/-- Where every allowed action can be taken and keeps the invariant, every list of allowed
actions is executed to its end. -/
theorem exists_of_progress (inv : σ → Prop) (allowed : α → Prop) (initial : inv start)
    (progress : ∀ state action, inv state → allowed action →
      ∃ next reply, guard state action ∧ step state action = .ok (next, reply) ∧ inv next)
    (actions : List α) (permitted : ∀ action ∈ actions, allowed action) :
    ∃ history state, Run step guard start history state ∧
      history.map Prod.fst = actions.reverse ∧ inv state := by
  induction actions using List.reverseRecOn with
  | nil => exact ⟨[], start, .nil, rfl, initial⟩
  | append_singleton actions action ih =>
    obtain ⟨history, state, run, labels, holds⟩ :=
      ih (fun other member => permitted other (List.mem_append_left _ member))
    obtain ⟨next, reply, guarded, stepped, kept⟩ :=
      progress state action holds (permitted action (by simp))
    refine ⟨(action, reply) :: history, next, run.snoc guarded stepped, ?_, kept⟩
    simp only [List.map_cons, labels, List.reverse_append, List.reverse_cons, List.reverse_nil,
      List.nil_append, List.singleton_append]

/-- Replaying actions whose guard holds everywhere continues a run. -/
theorem replay (run : Run step guard start history state) {actions : List α} {final : σ}
    (allowed : ∀ action ∈ actions, ∀ state, guard state action)
    (replayed : Machine.replay step actions state = .ok final) :
    ∃ longer, Run step guard start longer final ∧
      longer.map Prod.fst = actions.reverse ++ history.map Prod.fst := by
  induction actions generalizing history state with
  | nil =>
    cases replayed
    exact ⟨history, run, rfl⟩
  | cons action rest ih =>
    obtain ⟨⟨next, reply⟩, stepped, replayed⟩ := bind_eq_ok_iff.mp replayed
    obtain ⟨longer, last, labels⟩ := ih (run.snoc (allowed action (List.mem_cons_self ..) state) stepped)
      (fun other member => allowed other (List.mem_cons_of_mem _ member)) replayed
    exact ⟨longer, last, by simp [labels]⟩

/-- Two runs in lockstep: where related states and related actions give equal replies and related
states, runs over related actions give equal sequences of replies. -/
theorem lockstep {guard' : σ → α → Prop} {start' state' : σ} {history' : List (α × ρ)}
    (related : σ → σ → Prop) (same : α → α → Prop) (initial : related start start')
    (preserved : ∀ state state' action action' next next' reply reply', related state state' →
      same action action' → guard state action → guard' state' action' →
      step state action = .ok (next, reply) → step state' action' = .ok (next', reply') →
      reply = reply' ∧ related next next')
    (run : Run step guard start history state) (run' : Run step guard' start' history' state')
    (actions : List.Forall₂ same (history.map Prod.fst) (history'.map Prod.fst)) :
    history.map Prod.snd = history'.map Prod.snd ∧ related state state' := by
  induction run generalizing history' state' with
  | nil =>
    cases run' with
    | nil => exact ⟨rfl, initial⟩
    | snoc => cases actions
  | snoc _ allowed stepped ih =>
    cases run' with
    | nil => cases actions
    | snoc run' allowed' stepped' =>
      obtain ⟨first, rest⟩ := List.forall₂_cons.mp actions
      obtain ⟨replies, before⟩ := ih run' rest
      obtain ⟨reply, after⟩ := preserved _ _ _ _ _ _ _ _ before first allowed allowed' stepped stepped'
      exact ⟨by simp only [List.map_cons, reply, replies], after⟩

end Run

end Machine
