import Mathlib.Data.Finset.Card
import Mathlib.Data.Finset.Dedup
import Mathlib.Data.List.Nodup
import Mathlib.Data.List.TakeWhile

/-! # Recency order and the resident set of a least-recently-used buffer

A reference history is a list with the most recent reference first. `recencyOrder` lists its
distinct items, the most recently used one first, and a buffer of capacity `n` with
least-recently-used replacement holds the first `n` of them. `mem_take_recencyOrder_iff` is the
reuse-distance law: an item is resident when fewer than `n` distinct other items have been
referenced since its last reference.
-/

namespace List

variable {α : Type*} [DecidableEq α]

/-- The distinct items of a history, most recently used first. -/
def recencyOrder : List α → List α
  | [] => []
  | a :: history => a :: (recencyOrder history).erase a

@[simp] theorem mem_recencyOrder {a : α} {history : List α} :
    a ∈ history.recencyOrder ↔ a ∈ history := by
  induction history with
  | nil => rfl
  | cons b rest ih =>
    rcases eq_or_ne a b with rfl | other
    · simp [recencyOrder]
    · simp [recencyOrder, other, mem_erase_of_ne other, ih]

theorem nodup_recencyOrder (history : List α) : history.recencyOrder.Nodup := by
  induction history with
  | nil => exact nodup_nil
  | cons a rest ih => exact nodup_cons.mpr ⟨ih.not_mem_erase, ih.erase a⟩

theorem length_recencyOrder (history : List α) :
    history.recencyOrder.length = history.toFinset.card := by
  rw [← toFinset_card_of_nodup (nodup_recencyOrder history)]
  congr 1
  ext a
  simp only [mem_toFinset, mem_recencyOrder]

private theorem take_cons_erase_take (items : List α) (a : α) (n : ℕ) :
    (a :: (items.take n).erase a).take n = (a :: items.erase a).take n := by
  cases n with
  | zero => rfl
  | succ n =>
    simp only [take_succ_cons, cons.injEq, true_and]
    induction items generalizing n with
    | nil => rfl
    | cons b rest ih =>
      rcases eq_or_ne b a with rfl | other
      · simp
      · rw [take_succ_cons, erase_cons_tail (by simpa using other), erase_cons_tail (by simpa using other)]
        cases n with
        | zero => rfl
        | succ n => simpa only [take_succ_cons, cons.injEq, true_and] using ih n

/-- The resident set is computed from the previous one: the referenced item moves to the front,
and the last item leaves when it does not fit any more. -/
theorem take_recencyOrder_cons (a : α) (history : List α) (n : ℕ) :
    (recencyOrder (a :: history)).take n = (a :: (history.recencyOrder.take n).erase a).take n :=
  (take_cons_erase_take _ _ _).symm

/-- Referencing a resident item only moves it to the front. -/
theorem take_recencyOrder_cons_of_split {a : α} {history newer older : List α} {n : ℕ}
    (split : history.recencyOrder.take n = newer ++ a :: older) :
    (recencyOrder (a :: history)).take n = a :: (newer ++ older) := by
  have distinct : (newer ++ a :: older).Nodup :=
    split ▸ (nodup_recencyOrder history).sublist (take_sublist _ _)
  have notNewer : a ∉ newer := fun member =>
    (nodup_append.mp distinct).2.2 a member a (mem_cons_self ..) rfl
  have fits : (newer ++ a :: older).length ≤ n := split ▸ length_take_le _ _
  rw [take_recencyOrder_cons, split, erase_append_right _ notNewer, erase_cons_head,
    take_of_length_le]
  simpa [Nat.add_assoc] using fits

/-- Referencing an item that is not resident puts it in front of all others. -/
theorem take_recencyOrder_cons_of_notMem {a : α} {history : List α} {n : ℕ}
    (absent : a ∉ history.recencyOrder.take n) :
    (recencyOrder (a :: history)).take n = (a :: history.recencyOrder.take n).take n := by
  rw [take_recencyOrder_cons, erase_of_not_mem absent]

private theorem takeWhile_erase {a b : α} (other : b ≠ a) (items : List α) :
    (items.erase b).takeWhile (· ≠ a) = (items.takeWhile (· ≠ a)).erase b := by
  induction items with
  | nil => rfl
  | cons c rest ih =>
    rcases eq_or_ne c b with rfl | kept
    · simp [other]
    · rw [erase_cons_tail (by simpa using kept)]
      rcases eq_or_ne c a with rfl | before
      · simp
      · rw [takeWhile_cons_of_pos (by simpa using before), takeWhile_cons_of_pos (by simpa using before),
          erase_cons_tail (by simpa using kept), ih]

/-- What precedes an item in the recency order is what was referenced since its last reference. -/
theorem takeWhile_recencyOrder (a : α) (history : List α) :
    history.recencyOrder.takeWhile (· ≠ a) = (history.takeWhile (· ≠ a)).recencyOrder := by
  induction history with
  | nil => rfl
  | cons b rest ih =>
    rcases eq_or_ne b a with rfl | other
    · simp [recencyOrder]
    · rw [recencyOrder, takeWhile_cons_of_pos (by simpa using other),
        takeWhile_cons_of_pos (by simpa using other), recencyOrder, takeWhile_erase other, ih]

private theorem mem_take_iff (items : List α) (a : α) (n : ℕ) :
    a ∈ items.take n ↔ a ∈ items ∧ (items.takeWhile (· ≠ a)).length < n := by
  induction items generalizing n with
  | nil => simp
  | cons b rest ih =>
    cases n with
    | zero => simp
    | succ n =>
      rcases eq_or_ne b a with rfl | other
      · simp
      · rw [take_succ_cons, mem_cons, mem_cons, ih, takeWhile_cons_of_pos (by simpa using other)]
        simp [other.symm]

/-- The reuse-distance law of least-recently-used replacement. -/
theorem mem_take_recencyOrder_iff (a : α) (history : List α) (n : ℕ) :
    a ∈ history.recencyOrder.take n ↔
      a ∈ history ∧ (history.takeWhile (· ≠ a)).toFinset.card < n := by
  rw [mem_take_iff, mem_recencyOrder, takeWhile_recencyOrder, length_recencyOrder]

end List
