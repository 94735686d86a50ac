import Mathlib.Data.Set.Basic
import KabyLake.Machine.Loop

/-! # Steps that touch few cells

Two executions of one piece of code are compared side by side: they fault alike or return related
results. A state is seen as a family of cells. The footprint of a step names the cells it may read
and the cells it may write, and two steps commute when neither of them writes a cell that the other
one reads.
-/

namespace Machine

universe u v w x

variable {ε : Type v}

section Related

variable {α β γ δ : Type u}

/-- Two computations that fault alike or return related results. -/
inductive Related (related : α → β → Prop) : Except ε α → Except ε β → Prop
  | ok {a : α} {b : β} : related a b → Related related (.ok a) (.ok b)
  | error (fault : ε) : Related related (.error fault) (.error fault)

namespace Related

variable {related weaker : α → β → Prop} {after : γ → δ → Prop} {left : Except ε α} {right : Except ε β}

theorem bind {f : α → Except ε γ} {g : β → Except ε δ} (first : Related related left right)
    (rest : ∀ a b, related a b → Related after (f a) (g b)) :
    Related after (left >>= f) (right >>= g) := by
  cases first with
  | ok here => exact rest _ _ here
  | error fault => exact .error fault

/-- The same computation on both sides, followed by related ones. -/
theorem bind_same {left' : Except ε α} (same : left = left') {f : α → Except ε γ} {g : α → Except ε δ}
    (rest : ∀ a, left = .ok a → Related after (f a) (g a)) :
    Related after (left >>= f) (left' >>= g) := by
  subst same
  cases left with
  | ok a => exact rest a rfl
  | error fault => exact .error fault

theorem of_eq {right : Except ε α} {related : α → α → Prop} {left : Except ε α} (same : left = right)
    (reflexive : ∀ a, left = .ok a → related a a) : Related related left right := by
  subst same
  cases left with
  | ok a => exact .ok (reflexive a rfl)
  | error fault => exact .error fault

theorem ite {condition : Prop} [Decidable condition] {left' : Except ε α} {right' : Except ε β}
    (positive : condition → Related related left right)
    (negative : ¬ condition → Related related left' right') :
    Related related (if condition then left else left') (if condition then right else right') := by
  split
  · next holds => exact positive holds
  · next fails => exact negative fails

theorem mono (implied : ∀ a b, related a b → weaker a b) (both : Related related left right) :
    Related weaker left right := by
  cases both with
  | ok here => exact .ok (implied _ _ here)
  | error fault => exact .error fault

theorem symm (both : Related related left right) : Related (fun b a => related a b) right left := by
  cases both with
  | ok here => exact .ok here
  | error fault => exact .error fault

/-- What the two sides are observed by is the same. -/
theorem map_eq {f : α → γ} {g : β → γ} (same : ∀ a b, related a b → f a = g b)
    (both : Related related left right) : left.map f = right.map g := by
  cases both with
  | ok here => exact congrArg Except.ok (same _ _ here)
  | error fault => rfl

/-- The left result is one that the left computation returns. -/
theorem returned (both : Related related left right) :
    Related (fun a b => related a b ∧ left = .ok a) left right := by
  cases both with
  | ok here => exact .ok ⟨here, rfl⟩
  | error fault => exact .error fault

/-- Where the left computation returns, the right one returns a related result. -/
theorem of_ok {a : α} (both : Related related left right) (ran : left = .ok a) :
    ∃ b, right = .ok b ∧ related a b := by
  cases both with
  | ok here =>
    obtain rfl := Except.ok.inj ran
    exact ⟨_, rfl, here⟩
  | error fault => contradiction

end Related

/-- Loops whose bodies keep two states related. -/
theorem forLoop_related {related : α → β → Prop} {body : ℕ → α → Except ε α}
    {body' : ℕ → β → Except ε β} {n : ℕ} {a : α} {b : β} (initial : related a b)
    (preserved : ∀ i < n, ∀ a b, related a b → Related related (body i a) (body' i b)) :
    Related related (forLoop body n a) (forLoop body' n b) := by
  induction n with
  | zero => exact .ok initial
  | succ n ih => exact (ih fun i below => preserved i (by omega)).bind (preserved n (by omega))

theorem forLoop_congr {body body' : ℕ → α → Except ε α} {n : ℕ} (state : α)
    (same : ∀ i < n, ∀ state, body i state = body' i state) :
    forLoop body n state = forLoop body' n state := by
  induction n with
  | zero => rfl
  | succ n ih =>
    have last : body n = body' n := funext (same n (by omega))
    rw [forLoop, forLoop, ih fun i below => same i (by omega), last]

theorem returnLoop_congr {body body' : ℕ → Except ε (Option α)} {n : ℕ}
    (same : ∀ i < n, body i = body' i) : returnLoop body n = returnLoop body' n := by
  induction n with
  | zero => rfl
  | succ n ih => rw [returnLoop, returnLoop, ih fun i below => same i (by omega), same n (by omega)]

end Related

section Footprint

variable {ι : Type w} {κ : ι → Type x}

/-- Two executions that agree on the cells of `cells` and keep every other cell as it was when they
started. -/
structure Twin (cells : Set ι) (start start' now now' : ∀ i, κ i) : Prop where
  inside : ∀ i ∈ cells, now i = now' i
  outside : ∀ i, i ∉ cells → now i = start i
  outside' : ∀ i, i ∉ cells → now' i = start' i

theorem Twin.initial {cells : Set ι} {start start' : ∀ i, κ i}
    (agree : ∀ i ∈ cells, start i = start' i) : Twin cells start start' start start' :=
  ⟨agree, fun _ _ => rfl, fun _ _ => rfl⟩

theorem Twin.update [DecidableEq ι] {cells : Set ι} {start start' now now' : ∀ i, κ i}
    (twin : Twin cells start start' now now') {i : ι} (member : i ∈ cells) (value : κ i) :
    Twin cells start start' (Function.update now i value) (Function.update now' i value) := by
  refine ⟨fun j inside => ?_, fun j outside => ?_, fun j outside => ?_⟩
  · rcases eq_or_ne j i with rfl | other
    · rw [Function.update_self, Function.update_self]
    · rw [Function.update_of_ne other, Function.update_of_ne other, twin.inside j inside]
  · rw [Function.update_of_ne (ne_of_mem_of_not_mem member outside).symm, twin.outside j outside]
  · rw [Function.update_of_ne (ne_of_mem_of_not_mem member outside).symm, twin.outside' j outside]

variable {σ ρ ρ' : Type u} {cell : σ → ∀ i, κ i} {inv : σ → Prop} {reads writes reads' writes' : Set ι}
  {f : σ → Except ε (σ × ρ)} {g : σ → Except ε (σ × ρ')}

/-- From states of the invariant the step reads cells of `reads` only, and writes cells of `writes`
only. -/
structure Footprint (cell : σ → ∀ i, κ i) (inv : σ → Prop) (reads writes : Set ι)
    (f : σ → Except ε (σ × ρ)) : Prop where
  seen : writes ⊆ reads
  keeps : ∀ state next reply, inv state → f state = .ok (next, reply) → inv next
  twin : ∀ state state', inv state → inv state' → (∀ i ∈ reads, cell state i = cell state' i) →
    Related (fun result result' => result.2 = result'.2 ∧
      Twin writes (cell state) (cell state') (cell result.1) (cell result'.1)) (f state) (f state')

theorem Footprint.frame (footprint : Footprint cell inv reads writes f) {state next : σ} {reply : ρ}
    (holds : inv state) (stepped : f state = .ok (next, reply)) {i : ι} (outside : i ∉ writes) :
    cell next i = cell state i := by
  obtain ⟨_, again, _, twin⟩ :=
    (footprint.twin state state holds holds fun _ _ => rfl).of_ok stepped
  exact twin.outside i outside

theorem Footprint.same (footprint : Footprint cell inv reads writes f) {state state' next : σ} {reply : ρ}
    (holds : inv state) (holds' : inv state') (agree : ∀ i ∈ reads, cell state i = cell state' i)
    (stepped : f state = .ok (next, reply)) :
    ∃ next', f state' = .ok (next', reply) ∧ ∀ i ∈ writes, cell next i = cell next' i := by
  obtain ⟨⟨next', reply'⟩, stepped', replies, twin⟩ :=
    (footprint.twin state state' holds holds' agree).of_ok stepped
  obtain rfl : reply = reply' := replies
  exact ⟨next', stepped', twin.inside⟩

/-- Two steps in either order: where neither writes a cell that the other reads, the second order
ends in the same state with the same replies. -/
theorem Footprint.commute (determined : Function.Injective cell)
    (left : Footprint cell inv reads writes f) (right : Footprint cell inv reads' writes' g)
    (apart : ∀ i ∈ writes, i ∉ reads') (apart' : ∀ i ∈ writes', i ∉ reads)
    {state middle final : σ} {reply : ρ} {reply' : ρ'} (holds : inv state)
    (first : f state = .ok (middle, reply)) (second : g middle = .ok (final, reply')) :
    ∃ other, g state = .ok (other, reply') ∧ f other = .ok (final, reply) := by
  have holdsMiddle := left.keeps _ _ _ holds first
  have agree : ∀ i ∈ reads', cell middle i = cell state i := fun i member =>
    left.frame holds first fun written => apart i written member
  obtain ⟨other, early, written⟩ := right.same holdsMiddle holds agree second
  have holdsOther := right.keeps _ _ _ holds early
  have agree' : ∀ i ∈ reads, cell state i = cell other i := fun i member =>
    (right.frame holds early fun written => apart' i written member).symm
  obtain ⟨last, late, written'⟩ := left.same holds holdsOther agree' first
  refine ⟨other, early, ?_⟩
  suffices final = last by rw [this, late]
  apply determined
  funext i
  by_cases byLeft : i ∈ writes
  · have notRight : i ∉ writes' := fun member => apart i byLeft (right.seen member)
    rw [right.frame holdsMiddle second notRight, written' i byLeft]
  · rw [left.frame holdsOther late byLeft]
    by_cases byRight : i ∈ writes'
    · exact written i byRight
    · rw [right.frame holdsMiddle second byRight, left.frame holds first byLeft,
        right.frame holds early byRight]

end Footprint

end Machine
