import KabyLake.Proofs.LinkedList

/-! # Sequences of list operations

Pushing at either end, moving a node to the back and clearing implement the operations of the same
name on the sequence of values, along every sequence of calls. Of the two removals only `pop_front`
does, on a list of at least two nodes. Without memory `move_back` loses the front of a list.
-/

namespace KabyLake

open Machine

/-- The calls of a client of the list; an allocation hands out a node with any contents. -/
inductive ListOperation where
  | pushBack (value : ℕ) (garbage : ListNode)
  | pushFront (value : ℕ) (garbage : ListNode)
  | moveBack (node : ℕ) (garbage : ListNode)
  | clearList

def listStep (state : Heap × ListT) : ListOperation → Exec ((Heap × ListT) × NodePtr)
  | .pushBack value garbage => do
    let (newback, heap, this) ← pushBack state.1 state.2 value (some garbage)
    return ((heap, this), newback)
  | .pushFront value garbage => do
    let (newfront, heap, this) ← pushFront state.1 state.2 value (some garbage)
    return ((heap, this), newfront)
  | .moveBack node garbage => do
    let (heap, this) ← moveBack state.1 state.2 (some node) (some garbage)
    return ((heap, this), none)
  | .clearList => do
    let (heap, this) ← clearList state.1 state.2
    return ((heap, this), none)

def NodeOfList (state : Heap × ListT) : ListOperation → Prop
  | .moveBack node _ => ∃ cells, WellFormed state.1 state.2 cells ∧ node ∈ cells.map Prod.fst
  | _ => True

def ListOperation.Makes (cells : List Cell) : ListOperation → List ℕ → Prop
  | pushBack value _, values => values = cells.map Prod.snd ++ [value]
  | pushFront value _, values => values = value :: cells.map Prod.snd
  | moveBack node _, values => ∃ xs value ys, cells = xs ++ (node, value) :: ys ∧
      values = xs.map Prod.snd ++ ys.map Prod.snd ++ [value]
  | clearList, values => values = []

/-- What a sequence of operations, newest first, makes of `cells`. -/
inductive Obtained (cells : List Cell) : List ListOperation → List Cell → Prop
  | nil : Obtained cells [] cells
  | snoc {operations : List ListOperation} {operation : ListOperation} {now after : List Cell} :
      Obtained cells operations now → operation.Makes now (after.map Prod.snd) →
      Obtained cells (operation :: operations) after

variable {heap : Heap} {this : ListT} {cells : List Cell}

/-- One call does not fault and makes of the values what its documentation says; clearing frees all
nodes of the list. -/
theorem WellFormed.listStep (formed : WellFormed heap this cells) {operation : ListOperation}
    (given : NodeOfList (heap, this) operation) :
    ∃ next list reply after, KabyLake.listStep (heap, this) operation = .ok ((next, list), reply) ∧
      WellFormed next list after ∧ operation.Makes cells (after.map Prod.snd) ∧
      (operation = .clearList → ∀ cell ∈ cells, next.node cell.1 = none) := by
  cases operation with
  | pushBack value garbage =>
    obtain ⟨next, list, pushed, done⟩ := formed.pushBack value garbage
    exact ⟨next, list, some heap.top, _, by simp [KabyLake.listStep, pushed], done,
      by simp [ListOperation.Makes], by simp⟩
  | pushFront value garbage =>
    obtain ⟨next, list, pushed, done⟩ := formed.pushFront value garbage
    exact ⟨next, list, some heap.top, _, by simp [KabyLake.listStep, pushed], done,
      by simp [ListOperation.Makes], by simp⟩
  | moveBack node garbage =>
    obtain ⟨others, same, member⟩ := given
    obtain rfl := formed.unique same
    obtain ⟨cell, found, rfl⟩ := List.mem_map.mp member
    obtain ⟨xs, ys, rfl⟩ := List.append_of_mem found
    obtain ⟨next, list, moved, ran, done, values⟩ := formed.moveBack (some garbage) (fun _ _ => rfl)
    exact ⟨next, list, none, moved, by simp [KabyLake.listStep, ran], done,
      ⟨xs, cell.2, ys, rfl, values⟩, by simp⟩
  | clearList =>
    obtain ⟨next, cleared, freed⟩ := formed.clearList
    refine ⟨next, initList, none, [], by simp [KabyLake.listStep, cleared], ?_, rfl, ?_⟩
    · exact ⟨rfl, rfl, trivial, List.nodup_nil⟩
    · intro _ cell member
      rw [freed, if_pos (List.mem_map_of_mem (f := Prod.fst) member)]

/-- After every sequence of calls the list is well-formed and holds the values that the sequence
makes of the first ones, and no further call faults. -/
theorem list_refines_of_run (formed : WellFormed heap this cells)
    {history : List (ListOperation × NodePtr)} {state : Heap × ListT}
    (run : Run listStep NodeOfList (heap, this) history state) :
    ∃ now, WellFormed state.1 state.2 now ∧ Obtained cells (history.map Prod.fst) now ∧
      ∀ operation, NodeOfList state operation →
        ∃ next reply after, listStep state operation = .ok (next, reply) ∧
          WellFormed next.1 next.2 after ∧ operation.Makes now (after.map Prod.snd) ∧
          (operation = .clearList → ∀ cell ∈ now, next.1.node cell.1 = none) := by
  suffices reached : ∃ now, WellFormed state.1 state.2 now ∧ Obtained cells (history.map Prod.fst) now by
    obtain ⟨now, holds, obtained⟩ := reached
    refine ⟨now, holds, obtained, fun operation given => ?_⟩
    obtain ⟨next, list, reply, after, ran, step⟩ := holds.listStep given
    exact ⟨(next, list), reply, after, ran, step⟩
  induction run with
  | nil => exact ⟨cells, formed, .nil⟩
  | snoc before given stepped ih =>
    obtain ⟨now, holds, obtained⟩ := ih
    obtain ⟨next, list, reply, after, ran, done, makes, _⟩ := holds.listStep given
    obtain ⟨rfl, rfl⟩ := Prod.mk.inj (Except.ok.inj (stepped.symm.trans ran))
    exact ⟨after, done, .snoc obtained makes⟩

private theorem wellFormed_empty : WellFormed Heap.empty initList [] :=
  ⟨rfl, rfl, trivial, List.nodup_nil⟩

/-- A list that was cleared gets 1 at the back and 2 at the front; then 2 is moved to the back. -/
theorem list_refines_of_run_moved : ∃ before after reply cells,
    Run listStep NodeOfList (Heap.empty, initList)
      [(.pushFront 2 ⟨0, none, none⟩, some 2), (.pushBack 1 ⟨0, none, none⟩, some 1), (.clearList, none),
        (.pushBack 5 ⟨0, none, none⟩, some 0)] before ∧
    WellFormed before.1 before.2 [(2, 2), (1, 1)] ∧
    listStep before (.moveBack 2 ⟨0, none, none⟩) = .ok (after, reply) ∧
    WellFormed after.1 after.2 cells ∧ cells.map Prod.snd = [1, 2] := by
  obtain ⟨before, run, formed⟩ : ∃ before, Run listStep NodeOfList (Heap.empty, initList)
      [(.pushFront 2 ⟨0, none, none⟩, some 2), (.pushBack 1 ⟨0, none, none⟩, some 1), (.clearList, none),
        (.pushBack 5 ⟨0, none, none⟩, some 0)] before ∧
      WellFormed before.1 before.2 [(2, 2), (1, 1)] :=
    ⟨_, .snoc (.snoc (.snoc (.snoc .nil trivial rfl) trivial rfl) trivial rfl) trivial rfl,
      rfl, rfl, ⟨rfl, rfl, trivial⟩, by simp⟩
  obtain ⟨now, same, _, progress⟩ := list_refines_of_run wellFormed_empty run
  obtain rfl := formed.unique same
  obtain ⟨after, reply, cells, moved, done, makes, _⟩ :=
    progress (.moveBack 2 ⟨0, none, none⟩) ⟨_, formed, by simp⟩
  refine ⟨before, after, reply, cells, run, formed, moved, done, ?_⟩
  obtain ⟨xs, value, ys, split, values⟩ := makes
  cases xs with
  | nil =>
    obtain ⟨rfl, rfl⟩ : 2 = value ∧ [(1, 1)] = ys := by simpa using split
    simpa using values
  | cons first xs =>
    obtain ⟨_, rest⟩ := List.cons.inj split
    rcases xs with _ | ⟨second, xs⟩ <;> simp at rest

inductive Removal where
  | popBack | popFront
deriving DecidableEq, Repr

def Removal.pop : Removal → Heap → ListT → Exec (Heap × ListT)
  | popBack => KabyLake.popBack
  | popFront => KabyLake.popFront

def Removal.rest : Removal → List ℕ → List ℕ
  | popBack => List.dropLast
  | popFront => List.tail

/-- The removal does not fault and leaves a well-formed list of the other values; all nodes of a
well-formed list are allocated. -/
def Removal.Removes (removal : Removal) (heap : Heap) (this : ListT) (cells : List Cell) : Prop :=
  ∃ next list after, removal.pop heap this = .ok (next, list) ∧ WellFormed next list after ∧
    after.map Prod.snd = removal.rest (cells.map Prod.snd)

private theorem not_wellFormed_of_freed {a : ℕ} (back : this.back = some a)
    (freed : heap.node a = none) : ¬ WellFormed heap this cells := by
  intro formed
  rcases List.eq_nil_or_concat cells with rfl | ⟨init, last, rfl⟩
  · rw [formed.back] at back
    contradiction
  · rw [List.concat_eq_append] at formed
    have here := (linked_append.mp formed.linked).2.1
    rw [formed.back, lastPtr_append, lastPtr_cons, lastPtr_nil, Option.some.injEq] at back
    rw [back, freed] at here
    contradiction

private theorem not_removes_of_fault {removal : Removal} {fault : Fault}
    (faults : removal.pop heap this = .error fault) : ¬ removal.Removes heap this cells := by
  rintro ⟨next, list, after, ran, _⟩
  rw [faults] at ran
  contradiction

/-- `pop_back` on a list of at least two nodes frees the node that becomes the back. -/
private theorem not_removes_popBack {init : List Cell} {prior last : Cell}
    (formed : WellFormed heap this (init ++ [prior, last])) :
    ¬ Removal.popBack.Removes heap this (init ++ [prior, last]) := by
  obtain ⟨next, list, ran, back, freed⟩ := formed.popBack_long
  rintro ⟨next', list', after, ran', done, _⟩
  obtain ⟨rfl, rfl⟩ := Prod.mk.inj (Except.ok.inj (ran.symm.trans ran'))
  exact not_wellFormed_of_freed back freed done

/-- A removal does what its documentation says exactly if it is `pop_front` and there are two nodes. -/
theorem removes_iff (formed : WellFormed heap this cells) (nonempty : cells ≠ []) (removal : Removal) :
    removal.Removes heap this cells ↔ removal = .popFront ∧ 2 ≤ cells.length := by
  rcases cells with _ | ⟨first, _ | ⟨second, rest⟩⟩
  · contradiction
  · -- one node: both removals use it after it has been freed
    have faults : removal.pop heap this = .error .danglingPointer := by
      cases removal with
      | popBack => exact formed.popBack_singleton
      | popFront => exact formed.popFront_singleton
    simp [not_removes_of_fault faults]
  · cases removal with
    | popBack =>
      obtain ⟨init, prior, last, split⟩ : ∃ init prior last,
          first :: second :: rest = init ++ [prior, last] := by
        rcases List.eq_nil_or_concat (second :: rest) with nothing | ⟨middle, last, split⟩
        · contradiction
        · rcases List.eq_nil_or_concat (first :: middle) with nothing | ⟨init, prior, before⟩
          · contradiction
          · refine ⟨init, prior, last, ?_⟩
            rw [split, List.concat_eq_append, ← List.cons_append, before]
            simp
      simp only [reduceCtorEq, false_and, iff_false]
      rw [split] at formed ⊢
      exact not_removes_popBack formed
    | popFront =>
      obtain ⟨next, list, ran, done⟩ := formed.popFront
      refine iff_of_true ⟨next, list, _, ran, done, rfl⟩ ?_
      simp

private def pairHeap : Heap where
  node
    | 0 => some ⟨1, none, some 1⟩
    | 1 => some ⟨2, some 0, none⟩
    | _ => none
  top := 2
  unused a above := by
    cases a with
    | zero => contradiction
    | succ a =>
      cases a with
      | zero => contradiction
      | succ a => rfl

private theorem wellFormed_pair : WellFormed pairHeap ⟨some 0, some 1⟩ [(0, 1), (1, 2)] :=
  ⟨rfl, rfl, ⟨rfl, rfl, trivial⟩, by simp⟩

theorem removes_iff_pair : Removal.popFront.Removes pairHeap ⟨some 0, some 1⟩ [(0, 1), (1, 2)] :=
  (removes_iff wellFormed_pair (List.cons_ne_nil _ _) .popFront).mpr ⟨rfl, by simp⟩

/-- On a list of one node both removals fault, and on a list of two `pop_back` leaves a back that has
been freed. -/
theorem removals_fail : (∃ heap this, WellFormed heap this [(0, 1)] ∧
      ∀ removal : Removal, removal.pop heap this = .error .danglingPointer) ∧
    WellFormed pairHeap ⟨some 0, some 1⟩ [(0, 1), (1, 2)] ∧
    ¬ Removal.popBack.Removes pairHeap ⟨some 0, some 1⟩ [(0, 1), (1, 2)] := by
  refine ⟨?_, wellFormed_pair, ?_⟩
  · obtain ⟨heap, this, _, single⟩ := wellFormed_empty.pushBack 1 ⟨0, none, none⟩
    refine ⟨heap, this, single, fun removal => ?_⟩
    cases removal with
    | popBack => exact WellFormed.popBack_singleton single
    | popFront => exact WellFormed.popFront_singleton single
  · have split : WellFormed pairHeap ⟨some 0, some 1⟩ ([] ++ [(0, 1), (1, 2)]) := wellFormed_pair
    exact not_removes_popBack split

section MoveBack

variable {xs ys : List Cell} {node : Cell}

/-- `move_back` on the node between `xs` and `ys` leaves a well-formed list with the same values: the
value of the node stands behind the others, or all stand where they did. -/
def KeepsValues (heap : Heap) (this : ListT) (xs : List Cell) (node : Cell) (ys : List Cell)
    (outcome : Option ListNode) : Prop :=
  ∃ next list after, moveBack heap this (some node.1) outcome = .ok (next, list) ∧
    WellFormed next list after ∧
    (after.map Prod.snd).Perm ((xs ++ node :: ys).map Prod.snd) ∧
    (after.map Prod.snd = (xs ++ ys ++ [node]).map Prod.snd ∨
      after.map Prod.snd = (xs ++ node :: ys).map Prod.snd)

private theorem not_keepsValues {successor : Cell}
    (formed : WellFormed heap this (node :: successor :: ys)) :
    ¬ KeepsValues heap this [] node (successor :: ys) none := by
  obtain ⟨next, list, ran, done⟩ := formed.moveBack_refused
  rintro ⟨next', list', after, ran', done', permuted, _⟩
  obtain ⟨rfl, rfl⟩ := Prod.mk.inj (Except.ok.inj (ran.symm.trans ran'))
  obtain rfl := done.unique done'
  have lengths := permuted.length_eq
  simp at lengths

/-- `move_back` keeps the values of a list exactly if it is not asked to move the front of a list of
at least two nodes while there is no memory for the copy. -/
theorem keepsValues_iff (formed : WellFormed heap this (xs ++ node :: ys))
    (outcome : Option ListNode) :
    KeepsValues heap this xs node ys outcome ↔ ¬ (xs = [] ∧ ys ≠ [] ∧ outcome = none) := by
  constructor
  · rintro kept ⟨rfl, several, rfl⟩
    cases ys with
    | nil => contradiction
    | cons successor ys => exact not_keepsValues formed kept
  · intro granted
    obtain ⟨next, list, after, ran, done, values⟩ := formed.moveBack outcome (by
      intro front several
      rw [Option.isSome_iff_ne_none]
      exact fun refused => granted ⟨front, several, refused⟩)
    have moved : after.map Prod.snd = (xs ++ ys ++ [node]).map Prod.snd := by simp [values]
    refine ⟨next, list, after, ran, done, ?_, .inl moved⟩
    rw [moved, List.append_assoc]
    exact ((List.perm_append_singleton node ys).append_left xs).map Prod.snd

theorem keepsValues_iff_pair : KeepsValues pairHeap ⟨some 0, some 1⟩ [] (0, 1) [(1, 2)]
    (some ⟨0, none, none⟩) :=
  (keepsValues_iff wellFormed_pair (some ⟨0, none, none⟩)).mpr (by simp)

/-- Moving the front of a list of 1 and 2 when it cannot be allocated leaves only 2. -/
theorem moveBack_loses : WellFormed pairHeap ⟨some 0, some 1⟩ [(0, 1), (1, 2)] ∧
    (∃ next list, moveBack pairHeap ⟨some 0, some 1⟩ (some 0) none = .ok (next, list) ∧
      WellFormed next list [(1, 2)]) ∧
    ¬ KeepsValues pairHeap ⟨some 0, some 1⟩ [] (0, 1) [(1, 2)] none :=
  ⟨wellFormed_pair, wellFormed_pair.moveBack_refused, not_keepsValues wellFormed_pair⟩

end MoveBack

end KabyLake
