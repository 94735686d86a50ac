import Mathlib.Data.List.Basic
import Mathlib.Data.Set.Finite.Basic
import Mathlib.Order.Preorder.Finite

/-! # Age counters as a record of recency

A replacement set that keeps a counter for each slot, and not the history of its references, clears
the counter of the slot it touches and raises the other counters below some bound. Whatever bound
is used, the counters never contradict the order of the last references. They decide it if each
bound tells the touched slot from the others: a reference to a live slot takes the counter of that
slot, and a fill a number above all live counters.
-/

namespace AgeCounters

variable {ι α : Type*}

/-- The slots of a replacement set, some of them live, with their keys and counters. -/
structure Bank (ι α : Type*) where
  live : ι → Prop
  key : ι → α
  age : ι → ℕ

/-- What a counter becomes when another slot is touched. -/
def rise (bound age : ℕ) : ℕ := if age < bound then age + 1 else age

theorem rise_mono (bound : ℕ) : Monotone (rise bound) := by
  intro a b le
  unfold rise
  split <;> split <;> omega

/-- A counter other than the bound stays above the smaller ones. -/
theorem rise_lt_rise {bound a b : ℕ} (lt : a < b) (other : b ≠ bound) : rise bound a < rise bound b := by
  unfold rise
  split <;> split <;> omega

theorem rise_pos {bound age : ℕ} (other : age ≠ bound) : 0 < rise bound age := by
  unfold rise
  split <;> omega

/-- Slot `w` was touched with key `a`: the other live slots keep their keys and rise. -/
structure Touched (bank : Bank ι α) (w : ι) (a : α) (bound : ℕ) (next : Bank ι α) : Prop where
  here : next.live w
  key : next.key w = a
  age : next.age w = 0
  live : ∀ i, i ≠ w → (next.live i ↔ bank.live i)
  kept : ∀ i, i ≠ w → next.live i → next.key i = bank.key i
  other : ∀ i, i ≠ w → next.live i → next.key i ≠ a
  rises : ∀ i, i ≠ w → next.live i → next.age i = rise bound (bank.age i)

variable {bank next : Bank ι α} {history : List α} {w : ι} {a : α} {bound : ℕ}

theorem Touched.live_of_live (touched : Touched bank w a bound next) {i : ι} (live : bank.live i) :
    next.live i := by
  rcases eq_or_ne i w with rfl | other
  · exact touched.here
  · exact (touched.live i other).mpr live

/-- A touch adds its key to the known ones. -/
theorem Touched.mem (touched : Touched bank w a bound next) (known : ∀ i, bank.live i → bank.key i ∈ history)
    (i : ι) (live : next.live i) : next.key i ∈ a :: history := by
  rcases eq_or_ne i w with rfl | other
  · rw [touched.key]
    exact List.mem_cons_self ..
  · rw [touched.kept i other live]
    exact List.mem_cons_of_mem _ (known i ((touched.live i other).mp live))

variable [DecidableEq α]

/-- Of two live slots, the one with the later last reference never has the larger counter. -/
structure Ranked (bank : Bank ι α) (history : List α) : Prop where
  mem : ∀ i, bank.live i → bank.key i ∈ history
  ages : ∀ i j, bank.live i → bank.live j → history.idxOf (bank.key i) < history.idxOf (bank.key j) →
    bank.age i ≤ bank.age j

/-- Of two live slots, the one with the later last reference has the smaller counter. -/
structure Decided (bank : Bank ι α) (history : List α) : Prop where
  mem : ∀ i, bank.live i → bank.key i ∈ history
  ages : ∀ i j, bank.live i → bank.live j → history.idxOf (bank.key i) < history.idxOf (bank.key j) →
    bank.age i < bank.age j

/-- Slot `w` has the oldest last reference among the live slots. -/
structure LeastRecent (bank : Bank ι α) (history : List α) (w : ι) : Prop where
  live : bank.live w
  oldest : ∀ i, bank.live i → i ≠ w → history.idxOf (bank.key i) < history.idxOf (bank.key w)

theorem Decided.ranked (decided : Decided bank history) : Ranked bank history where
  mem := decided.mem
  ages i j live live' later := (decided.ages i j live live' later).le

theorem Decided.of_empty (empty : ∀ i, ¬ bank.live i) : Decided bank history where
  mem i live := (empty i live).elim
  ages i _ live := (empty i live).elim

/-- Slots with different keys have different counters when the counters decide recency. -/
theorem Decided.age_ne (decided : Decided bank history) {i j : ι} (live : bank.live i)
    (live' : bank.live j) (keys : bank.key i ≠ bank.key j) : bank.age i ≠ bank.age j := by
  have apart : history.idxOf (bank.key i) ≠ history.idxOf (bank.key j) :=
    fun same => keys ((List.idxOf_inj (decided.mem i live)).mp same)
  rcases Nat.lt_or_gt_of_ne apart with later | earlier
  · exact (decided.ages i j live live' later).ne
  · exact (decided.ages j i live' live earlier).ne'

namespace Touched

/-- A reference moves its key to the front and all other keys one place back. -/
theorem idxOf_self (touched : Touched bank w a bound next) :
    (a :: history).idxOf (next.key w) = 0 := by
  rw [touched.key, List.idxOf_cons_self]

theorem idxOf_other (touched : Touched bank w a bound next) {i : ι} (other : i ≠ w)
    (live : next.live i) : (a :: history).idxOf (next.key i) = history.idxOf (bank.key i) + 1 := by
  rw [List.idxOf_cons_ne _ (Ne.symm (touched.other i other live)), touched.kept i other live]

/-- Every touch keeps the counters from contradicting recency. -/
theorem ranked (touched : Touched bank w a bound next) (ranked : Ranked bank history) :
    Ranked next (a :: history) where
  mem := touched.mem ranked.mem
  ages i j live live' later := by
    rcases eq_or_ne j w with rfl | right
    · rw [touched.idxOf_self] at later
      contradiction
    rcases eq_or_ne i w with rfl | left
    · rw [touched.age]
      exact Nat.zero_le _
    rw [touched.idxOf_other left live, touched.idxOf_other right live'] at later
    rw [touched.rises i left live, touched.rises j right live']
    apply rise_mono
    exact ranked.ages i j ((touched.live i left).mp live) ((touched.live j right).mp live') (by omega)

/-- The counters keep deciding recency when the bound is the counter of no other live slot. -/
theorem decided (touched : Touched bank w a bound next) (decided : Decided bank history)
    (apart : ∀ i, i ≠ w → next.live i → bank.age i ≠ bound) : Decided next (a :: history) where
  mem := touched.mem decided.mem
  ages i j live live' later := by
    rcases eq_or_ne j w with rfl | right
    · rw [touched.idxOf_self] at later
      contradiction
    rw [touched.rises j right live']
    rcases eq_or_ne i w with rfl | left
    · rw [touched.age]
      exact rise_pos (apart j right live')
    rw [touched.idxOf_other left live, touched.idxOf_other right live'] at later
    rw [touched.rises i left live]
    apply rise_lt_rise _ (apart j right live')
    exact decided.ages i j ((touched.live i left).mp live) ((touched.live j right).mp live') (by omega)

end Touched

/-- Some live slot has the oldest last reference, if the live slots have different known keys. -/
theorem exists_leastRecent (finite : {i | bank.live i}.Finite) (nonempty : ∃ i, bank.live i)
    (known : ∀ i, bank.live i → bank.key i ∈ history)
    (distinct : ∀ i j, bank.live i → bank.live j → bank.key i = bank.key j → i = j) :
    ∃ w, LeastRecent bank history w := by
  obtain ⟨w, live, most⟩ :=
    finite.exists_maximalFor (fun i => history.idxOf (bank.key i)) {i | bank.live i} nonempty
  refine ⟨w, live, fun i present other => ?_⟩
  rcases Nat.lt_or_ge (history.idxOf (bank.key i)) (history.idxOf (bank.key w)) with later | earlier
  · exact later
  · have same := le_antisymm earlier (most present earlier)
    exact (other (distinct i w present live ((List.idxOf_inj (known w live)).mp same).symm)).elim

/-- The least recently referenced slot has the largest counter. -/
theorem LeastRecent.age_le (oldest : LeastRecent bank history w) (ranked : Ranked bank history) {i : ι}
    (live : bank.live i) : bank.age i ≤ bank.age w := by
  rcases eq_or_ne i w with rfl | other
  · exact le_rfl
  · exact ranked.ages i w live oldest.live (oldest.oldest i live other)

/-- Counters that decide recency leave the largest one to the least recently referenced slot. -/
theorem LeastRecent.age_lt (oldest : LeastRecent bank history w) (decided : Decided bank history) {i : ι}
    (live : bank.live i) (other : i ≠ w) : bank.age i < bank.age w :=
  decided.ages i w live oldest.live (oldest.oldest i live other)

/-- The counters decide recency, and the slots up to each live counter are live. -/
structure Graded {n : ℕ} (bank : Bank (Fin n) α) (history : List α) : Prop where
  decided : Decided bank history
  below : ∀ i j, bank.live i → j.val ≤ bank.age i → bank.live j

section Graded

variable {n : ℕ} {bank next : Bank (Fin n) α} {w : Fin n}

theorem Graded.of_empty (empty : ∀ i, ¬ bank.live i) : Graded bank history where
  decided := .of_empty empty
  below i _ live := (empty i live).elim

theorem Graded.age_lt (graded : Graded bank history) {i : Fin n} (live : bank.live i)
    (dead : ¬ bank.live w) : bank.age i < w := by
  by_contra reaches
  exact dead (graded.below i w live (Nat.not_lt.mp reaches))

/-- Touching a live slot with its own counter as the bound. -/
theorem Touched.graded_of_live (touched : Touched bank w a bound next) (graded : Graded bank history)
    (live : bank.live w) (key : bank.key w = a) (own : bound = bank.age w) :
    Graded next (a :: history) where
  decided := by
    apply touched.decided graded.decided
    intro i other present
    rw [own]
    apply graded.decided.age_ne ((touched.live i other).mp present) live
    rw [key, ← touched.kept i other present]
    exact touched.other i other present
  below i j present le := by
    apply touched.live_of_live
    rcases eq_or_ne i w with rfl | other
    · rw [touched.age] at le
      exact graded.below i j live (le.trans (Nat.zero_le _))
    · rw [touched.rises i other present, rise] at le
      split at le
      · exact graded.below w j live (by omega)
      · exact graded.below i j ((touched.live i other).mp present) le

/-- Filling the first slot that is not live, with a bound that no live counter reaches. -/
theorem Touched.graded_of_first (touched : Touched bank w a bound next) (graded : Graded bank history)
    (first : ∀ i < w, bank.live i) (dead : ¬ bank.live w)
    (above : ∀ i, bank.live i → bank.age i < bound) : Graded next (a :: history) where
  decided := by
    apply touched.decided graded.decided
    intro i other present
    exact (above i ((touched.live i other).mp present)).ne
  below i j present le := by
    rcases lt_trichotomy j w with before | rfl | after
    · exact touched.live_of_live (first j before)
    · exact touched.here
    · rcases eq_or_ne i w with rfl | other
      · rw [touched.age] at le
        omega
      · have young := graded.age_lt ((touched.live i other).mp present) dead
        rw [touched.rises i other present, rise] at le
        split at le <;> omega

/-- If the live slots are the first `k` and have different keys, their counters are the numbers below
`k` in some order. -/
theorem Graded.ages_perm {k : ℕ} (graded : Graded bank history) (fits : k ≤ n)
    (first : ∀ i, bank.live i ↔ i.val < k) (small : ∀ i, bank.live i → bank.age i < n)
    (distinct : ∀ i j, bank.live i → bank.live j → bank.key i = bank.key j → i = j) :
    (List.ofFn fun i : Fin k => bank.age (i.castLE fits)).Perm (List.range k) := by
  have live (i : Fin k) : bank.live (i.castLE fits) := (first _).mpr i.isLt
  have different : (List.ofFn fun i : Fin k => bank.age (i.castLE fits)).Nodup := by
    apply List.nodup_ofFn_ofInjective
    intro i j same
    by_contra other
    have apart : bank.key (i.castLE fits) ≠ bank.key (j.castLE fits) := fun keys =>
      other (Fin.castLE_injective fits (distinct _ _ (live i) (live j) keys))
    exact graded.decided.age_ne (live i) (live j) apart same
  have below : (List.ofFn fun i : Fin k => bank.age (i.castLE fits)) ⊆ List.range k := by
    intro age member
    obtain ⟨i, rfl⟩ := (List.mem_ofFn' _ _).mp member
    rw [List.mem_range]
    by_contra reaches
    -- slot `k` is at most the counter, hence live
    have enough : k < n := (Nat.not_lt.mp reaches).trans_lt (small _ (live i))
    have dead := graded.below (i.castLE fits) ⟨k, enough⟩ (live i) (Nat.not_lt.mp reaches)
    exact Nat.lt_irrefl k ((first _).mp dead)
  apply (List.Nodup.subperm different below).perm_of_length_le
  simp

end Graded

end AgeCounters
