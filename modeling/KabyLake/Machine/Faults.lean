import KabyLake.Machine.Run

/-! # Computations that avoid a fault

A computation yields a condition under a set of allowed faults if it returns a value of the
condition or stops with an allowed fault. The rules follow the structure of the code, so that a
single fault can be excluded without saying what the code computes.
-/

namespace Machine

universe u v

variable {ε : Type v} {α β : Type u}

/-- The computation returns a value of `post` or stops with a fault of `allowed`. -/
inductive Yields (allowed : ε → Prop) (post : α → Prop) : Except ε α → Prop
  | ok {a : α} : post a → Yields allowed post (.ok a)
  | error {fault : ε} : allowed fault → Yields allowed post (.error fault)

namespace Yields

variable {allowed : ε → Prop} {post : α → Prop} {after : β → Prop} {x y : Except ε α}

theorem of_eq {a : α} (ran : x = .ok a) (holds : post a) : Yields allowed post x := by
  rw [ran]
  exact .ok holds

/-- A computation that avoids one fault. -/
theorem of_avoids {fault : ε} (avoided : x ≠ .error fault) (holds : ∀ a, x = .ok a → post a) :
    Yields (· ≠ fault) post x := by
  cases x with
  | ok a => exact .ok (holds a rfl)
  | error other => exact .error fun same => avoided (congrArg Except.error same)

theorem bind {f : α → Except ε β} (first : Yields allowed post x)
    (rest : ∀ a, post a → Yields allowed after (f a)) : Yields allowed after (x >>= f) := by
  cases first with
  | ok holds => exact rest _ holds
  | error fault => exact .error fault

theorem ite {condition : Prop} [Decidable condition] (positive : condition → Yields allowed post x)
    (negative : ¬ condition → Yields allowed post y) :
    Yields allowed post (if condition then x else y) := by
  split
  · next holds => exact positive holds
  · next fails => exact negative fails

theorem any : Yields (fun _ => True) (fun _ => True) x := by
  cases x with
  | ok _ => exact .ok trivial
  | error _ => exact .error trivial

theorem post_of_eq {a : α} (yields : Yields allowed post x) (ran : x = .ok a) : post a := by
  rw [ran] at yields
  cases yields with
  | ok holds => exact holds

theorem avoids {fault : ε} (excluded : ¬ allowed fault) (yields : Yields allowed post x) :
    x ≠ .error fault := by
  rintro rfl
  cases yields with
  | error here => exact excluded here

end Yields

/-- The computation stops with the faults of `faults`, which is at most one, and else returns. -/
def Stops (faults : ε → Prop) (x : Except ε α) : Prop := ∀ fault, x = .error fault ↔ faults fault

namespace Stops

variable {faults : ε → Prop} {post : α → Prop} {x y : Except ε α}

theorem ok {a : α} (none : ∀ fault, ¬ faults fault) : Stops faults (.ok a : Except ε α) := by
  intro fault
  simp [none fault]

theorem error {fault : ε} (only : ∀ other, faults other ↔ other = fault) :
    Stops faults (.error fault : Except ε α) := by
  intro other
  rw [only, Except.error.injEq]
  exact eq_comm

theorem congr {other : ε → Prop} (same : ∀ fault, faults fault ↔ other fault) (stops : Stops faults x) :
    Stops other x :=
  fun fault => (stops fault).trans (same fault)

/-- After a part that returns. -/
theorem bind {f : α → Except ε β} (first : Yields (fun _ => False) post x)
    (rest : ∀ a, post a → Stops faults (f a)) : Stops faults (x >>= f) := by
  cases first with
  | ok holds => exact rest _ holds
  | error impossible => exact impossible.elim

theorem ite {condition : Prop} [Decidable condition] (positive : condition → Stops faults x)
    (negative : ¬ condition → Stops faults y) : Stops faults (if condition then x else y) := by
  split
  · next holds => exact positive holds
  · next fails => exact negative fails

end Stops

end Machine
