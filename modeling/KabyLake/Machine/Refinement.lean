import KabyLake.Machine.Footprint

/-! # Refinement of a machine by a specification

A specification says which replies an action may get in an abstract state and which abstract state
may follow. A machine refines it when every guarded step is a step of the specification between
related states; what holds of a step then holds of every run.
-/

namespace Machine

universe u v w

variable {ε : Type v} {σ α ρ : Type u} {τ : Type w}

/-- The finite sequences of actions and replies that a specification allows from `start`, newest
first. -/
inductive Trace (spec : τ → α → ρ → τ → Prop) (start : τ) : List (α × ρ) → τ → Prop
  | nil : Trace spec start [] start
  | snoc {history : List (α × ρ)} {before after : τ} {action : α} {reply : ρ} :
      Trace spec start history before → spec before action reply after →
      Trace spec start ((action, reply) :: history) after

/-- What holds at the start and is preserved by every step of the specification holds along a trace. -/
theorem Trace.invariant_history {spec : τ → α → ρ → τ → Prop} {start final : τ} {history : List (α × ρ)}
    (inv : List (α × ρ) → τ → Prop) (initial : inv [] start)
    (preserved : ∀ history before action reply after, inv history before →
      spec before action reply after → inv ((action, reply) :: history) after)
    (trace : Trace spec start history final) : inv history final := by
  induction trace with
  | nil => exact initial
  | snoc _ allowed ih => exact preserved _ _ _ _ _ ih allowed

/-- Every guarded step from a related state is a step of the specification. -/
def Simulates (step : σ → α → Except ε (σ × ρ)) (guard : σ → α → Prop)
    (spec : τ → α → ρ → τ → Prop) (related : σ → τ → Prop) : Prop :=
  ∀ state abstract action next reply, related state abstract → guard state action →
    step state action = .ok (next, reply) →
    ∃ after, spec abstract action reply after ∧ related next after

variable {step : σ → α → Except ε (σ × ρ)} {guard : σ → α → Prop} {spec : τ → α → ρ → τ → Prop}
  {related : σ → τ → Prop} {start state : σ} {history : List (α × ρ)}

/-- A run of the machine is a trace of the specification. -/
theorem Simulates.trace (simulates : Simulates step guard spec related) {abstract : τ}
    (initial : related start abstract) (run : Run step guard start history state) :
    ∃ final, Trace spec abstract history final ∧ related state final := by
  induction run with
  | nil => exact ⟨abstract, .nil, initial⟩
  | snoc _ allowed stepped ih =>
    obtain ⟨before, trace, holds⟩ := ih
    obtain ⟨after, taken, kept⟩ := simulates _ _ _ _ _ holds allowed stepped
    exact ⟨after, trace.snoc taken, kept⟩

section Machines

variable {α' ρ' σ' : Type u} {step' : σ' → α' → Except ε (σ' × ρ')} {linked : σ → σ' → Prop}
  {same : α → α' → Prop} {agree : ρ → ρ' → Prop}

/-- Where guarded steps fault and reply alike on the same actions from linked states, a guarded run is
followed by the other machine over any actions that are the same. -/
theorem Run.transfer_same {start' : σ'} {actions' : List α'}
    (alike : ∀ state state' action action', linked state state' → same action action' → guard state action →
      Related (fun result result' => agree result.2 result'.2 ∧ linked result.1 result'.1)
        (step state action) (step' state' action'))
    (initial : linked start start') (run : Run step guard start history state)
    (actions : List.Forall₂ same (history.map Prod.fst) actions') :
    ∃ history' state', Run step' (fun _ _ => True) start' history' state' ∧
      history'.map Prod.fst = actions' ∧
      List.Forall₂ agree (history.map Prod.snd) (history'.map Prod.snd) ∧ linked state state' := by
  induction run generalizing actions' with
  | nil =>
    cases actions
    exact ⟨[], start', .nil, rfl, .nil, initial⟩
  | snoc _ allowed stepped ih =>
    cases actions with
    | @cons _ action' _ _ first rest =>
      obtain ⟨history', before, run', rfl, replies, holds⟩ := ih rest
      obtain ⟨⟨after, reply'⟩, stepped', reply, kept⟩ :=
        (alike _ _ _ _ holds first allowed).of_ok stepped
      exact ⟨(action', reply') :: history', after, run'.snoc trivial stepped', rfl, .cons reply replies, kept⟩

/-- A machine whose steps fault and reply like those of another one from linked states has the runs
of the other one. -/
theorem Run.transfer {step' : σ' → α → Except ε (σ' × ρ)} {start' : σ'}
    (alike : ∀ state state' action, linked state state' →
      Related (fun result result' => result.2 = result'.2 ∧ linked result.1 result'.1)
        (step state action) (step' state' action))
    (initial : linked start start') (run : Run step guard start history state) :
    ∃ state', Run step' (fun _ _ => True) start' history state' ∧ linked state state' := by
  have followed : ∀ state state' action action', linked state state' → action = action' →
      guard state action →
      Related (fun result result' => result.2 = result'.2 ∧ linked result.1 result'.1)
        (step state action) (step' state' action') := by
    rintro state state' action _ holds rfl _
    exact alike state state' action holds
  obtain ⟨history', state', run', actions, replies, kept⟩ :=
    run.transfer_same followed initial (List.forall₂_refl _)
  rw [List.forall₂_eq_eq_eq] at replies
  obtain rfl : history = history' :=
    (List.zip_of_prod rfl replies).trans (List.zip_of_prod actions rfl).symm
  exact ⟨state', run', kept⟩

end Machines

end Machine
