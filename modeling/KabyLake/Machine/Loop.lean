import KabyLake.Machine.Run

/-! # Counted loops

`for (i = 0; i < n; i++)` over a state, and the same loop with a `return` in its body. Both recurse
on the bound, so an invariant of the loop is an induction on the number of completed iterations.
-/

namespace Machine

universe u v

variable {ε : Type v} {σ α : Type u}

/-- Run `body` for every counter below `n`, in increasing order. -/
def forLoop (body : ℕ → σ → Except ε σ) : ℕ → σ → Except ε σ
  | 0, state => .ok state
  | n + 1, state => forLoop body n state >>= body n

/-- Run `body` for the counters below `n` until it returns a value. -/
def returnLoop (body : ℕ → Except ε (Option α)) : ℕ → Except ε (Option α)
  | 0 => .ok none
  | n + 1 => returnLoop body n >>= fun
    | some value => .ok (some value)
    | none => body n

/-- The invariant rule: what one iteration preserves holds after the loop. -/
theorem forLoop_ok {body : ℕ → σ → Except ε σ} {n : ℕ} {state : σ} (inv : ℕ → σ → Prop)
    (initial : inv 0 state)
    (preserved : ∀ i state, i < n → inv i state →
      ∃ next, body i state = .ok next ∧ inv (i + 1) next) :
    ∃ final, forLoop body n state = .ok final ∧ inv n final := by
  induction n with
  | zero => exact ⟨state, rfl, initial⟩
  | succ n ih =>
    obtain ⟨middle, ran, holds⟩ := ih fun i state below => preserved i state (by omega)
    obtain ⟨final, last, kept⟩ := preserved n middle (by omega) holds
    exact ⟨final, by simp [forLoop, ran, last], kept⟩

/-- A loop whose body returns for the first time at `i` returns the value found there. -/
theorem returnLoop_found {body : ℕ → Except ε (Option α)} {n i : ℕ} {value : α} (below : i < n)
    (before : ∀ j < i, body j = .ok none) (found : body i = .ok (some value)) :
    returnLoop body n = .ok (some value) := by
  induction n with
  | zero => omega
  | succ n ih =>
    rcases eq_or_ne i n with rfl | earlier
    · have skipped : ∀ m ≤ i, returnLoop body m = .ok none := by
        intro m bound
        induction m with
        | zero => rfl
        | succ m ih => simp [returnLoop, ih (by omega), before m (by omega)]
      simp [returnLoop, skipped i (Nat.le_refl i), found]
    · simp [returnLoop, ih (by omega)]

/-- Whatever a searching loop returns was returned by one of its iterations. -/
theorem returnLoop_ok {body : ℕ → Except ε (Option α)} {n : ℕ} (returned : α → Prop)
    (runs : ∀ i < n, ∃ result, body i = .ok result ∧ ∀ value ∈ result, returned value) :
    ∃ result, returnLoop body n = .ok result ∧ ∀ value ∈ result, returned value := by
  induction n with
  | zero => exact ⟨none, rfl, by simp⟩
  | succ n ih =>
    obtain ⟨result, ran, holds⟩ := ih fun i below => runs i (by omega)
    cases result with
    | some value => exact ⟨some value, by simp [returnLoop, ran], holds⟩
    | none =>
      obtain ⟨last, stepped, kept⟩ := runs n (by omega)
      exact ⟨last, by simp [returnLoop, ran, stepped], kept⟩

end Machine
