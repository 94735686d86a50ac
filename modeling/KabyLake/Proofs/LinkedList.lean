import Mathlib.Data.Fintype.Card
import KabyLake.Model.LinkedList

/-! # The list functions implement sequence operations

`WellFormed` relates the pointers of a list to the sequence of its cells, from front to back: the
`next` chain, the exactly reversed `previous` chain, and distinct allocated nodes. Each operation
the TLB replacement policy calls is shown to run without a fault and to change the sequence the
way its documentation says.
-/

namespace KabyLake

/-- The address of a node and the value it holds. -/
abbrev Cell := ℕ × ℕ

/-- Pointer to the first of `cells`, or to what comes after them. -/
def firstPtr : List Cell → NodePtr → NodePtr
  | [], after => after
  | cell :: _, _ => some cell.1

/-- Pointer to the last of `cells`, or to what comes before them. -/
def lastPtr : NodePtr → List Cell → NodePtr
  | before, [] => before
  | _, cell :: rest => lastPtr (some cell.1) rest

/-- The nodes of `cells` are chained both ways between the two neighbours `before` and `after`. -/
def Linked (heap : Heap) : NodePtr → List Cell → NodePtr → Prop
  | _, [], _ => True
  | before, cell :: rest, after =>
    heap.node cell.1 = some ⟨cell.2, before, firstPtr rest after⟩ ∧
      Linked heap (some cell.1) rest after

/-- The list header and its nodes represent `cells` from front to back. -/
structure WellFormed (heap : Heap) (this : ListT) (cells : List Cell) : Prop where
  front : this.front = firstPtr cells none
  back : this.back = lastPtr none cells
  linked : Linked heap none cells none
  distinct : (cells.map Prod.fst).Nodup

section Segments

variable {heap other : Heap} {before after : NodePtr} {xs ys cells : List Cell}

@[simp] theorem firstPtr_nil : firstPtr [] after = after := rfl

@[simp] theorem firstPtr_cons (cell : Cell) : firstPtr (cell :: cells) after = some cell.1 := rfl

@[simp] theorem lastPtr_nil : lastPtr before [] = before := rfl

@[simp] theorem lastPtr_cons (cell : Cell) :
    lastPtr before (cell :: cells) = lastPtr (some cell.1) cells := rfl

@[simp] theorem firstPtr_append :
    firstPtr (xs ++ ys) after = firstPtr xs (firstPtr ys after) := by
  cases xs <;> rfl

@[simp] theorem lastPtr_append :
    lastPtr before (xs ++ ys) = lastPtr (lastPtr before xs) ys := by
  induction xs generalizing before with
  | nil => rfl
  | cons cell rest ih => exact ih

/-- A segment can be cut at any point; the cut is visible in both neighbours' pointers. -/
theorem linked_append : Linked heap before (xs ++ ys) after ↔
    Linked heap before xs (firstPtr ys after) ∧ Linked heap (lastPtr before xs) ys after := by
  induction xs generalizing before with
  | nil => simp [Linked, lastPtr]
  | cons cell rest ih =>
    simp only [List.cons_append, Linked, firstPtr_append, ih, lastPtr, and_assoc]

/-- A segment only depends on the contents of its own nodes. -/
theorem Linked.congr (segment : Linked heap before cells after)
    (same : ∀ cell ∈ cells, other.node cell.1 = heap.node cell.1) :
    Linked other before cells after := by
  induction cells generalizing before with
  | nil => trivial
  | cons cell rest ih =>
    refine ⟨(same cell (List.mem_cons_self ..)).trans segment.1, ?_⟩
    exact ih segment.2 (fun cell member => same cell (List.mem_cons_of_mem _ member))

private theorem key_ne {cell target : Cell} (member : cell ∈ cells)
    (absent : target.1 ∉ cells.map Prod.fst) : cell.1 ≠ target.1 := by
  rintro same
  exact absent (same ▸ List.mem_map_of_mem (f := Prod.fst) member)

/-- Chaining one more node to the back writes to the old back and to the new node only. -/
theorem Linked.append_node {last new : Cell} (chain : Linked heap none (xs ++ [last]) none)
    (distinct : ((xs ++ [last] ++ [new]).map Prod.fst).Nodup)
    (atLast : other.node last.1 = some ⟨last.2, lastPtr none xs, some new.1⟩)
    (atNew : other.node new.1 = some ⟨new.2, some last.1, none⟩)
    (frame : ∀ a, a ≠ last.1 → a ≠ new.1 → other.node a = heap.node a) :
    Linked other none (xs ++ [last] ++ [new]) none := by
  rw [linked_append, linked_append]
  refine ⟨⟨?_, atLast, trivial⟩, ?_, trivial⟩
  · apply (linked_append.mp chain).1.congr
    intro cell member
    simp only [List.map_append, List.map_cons, List.map_nil, List.nodup_append, List.mem_append,
      List.mem_singleton] at distinct
    have key := List.mem_map_of_mem (f := Prod.fst) member
    exact frame _ (distinct.1.2.2 _ key _ rfl) (distinct.2.2 _ (.inl key) _ rfl)
  · simpa only [lastPtr_append, lastPtr_cons, lastPtr_nil, firstPtr_nil] using atNew

/-- Taking a node out from between two neighbours writes to the two neighbours only. -/
theorem Linked.remove_node {prior node successor : Cell}
    (chain : Linked heap none (xs ++ [prior] ++ node :: successor :: ys) none)
    (distinct : ((xs ++ [prior] ++ node :: successor :: ys).map Prod.fst).Nodup)
    (atPrior : other.node prior.1 = some ⟨prior.2, lastPtr none xs, some successor.1⟩)
    (atSuccessor : other.node successor.1 = some ⟨successor.2, some prior.1, firstPtr ys none⟩)
    (frame : ∀ a, a ≠ prior.1 → a ≠ successor.1 → other.node a = heap.node a) :
    Linked other none (xs ++ [prior] ++ successor :: ys) none := by
  simp only [List.map_append, List.map_cons, List.map_nil, List.nodup_append, List.nodup_cons,
    List.mem_append, List.mem_cons, List.not_mem_nil, or_false, not_or] at distinct
  obtain ⟨⟨_, _, xsPrior⟩, ⟨_, succYs, _⟩, cross⟩ := distinct
  have pieces := linked_append.mp chain
  rw [linked_append, linked_append]
  refine ⟨⟨?_, ?_, trivial⟩, ?_, ?_⟩
  · apply (linked_append.mp pieces.1).1.congr
    intro cell member
    have key := List.mem_map_of_mem (f := Prod.fst) member
    exact frame _ (xsPrior _ key _ rfl) (cross _ (.inl key) _ (.inr (.inl rfl)))
  · simpa only [firstPtr_nil, firstPtr_cons] using atPrior
  · simpa only [lastPtr_append, lastPtr_cons, lastPtr_nil] using atSuccessor
  · apply pieces.2.2.2.congr
    intro cell member
    have key := List.mem_map_of_mem (f := Prod.fst) member
    exact frame _ (cross _ (.inr rfl) _ (.inr (.inr key))).symm (key_ne member succYs)

theorem Linked.lt_top (segment : Linked heap before cells after) :
    ∀ cell ∈ cells, cell.1 < heap.top := by
  induction cells generalizing before with
  | nil => simp
  | cons cell rest ih =>
    intro found member
    rcases List.mem_cons.mp member with rfl | member
    · exact Heap.lt_top segment.1
    · exact ih segment.2 found member

/-- The chain from a pointer determines the cells. -/
theorem Linked.unique {before' : NodePtr} (left : Linked heap before xs none)
    (right : Linked heap before' ys none) (same : firstPtr xs none = firstPtr ys none) : xs = ys := by
  induction xs generalizing before before' ys with
  | nil =>
    cases ys with
    | nil => rfl
    | cons cell rest => contradiction
  | cons cell rest ih =>
    cases ys with
    | nil => contradiction
    | cons other rest' =>
      have key : cell.1 = other.1 := Option.some.inj same
      have node := left.1.symm.trans (key ▸ right.1)
      simp only [Option.some.injEq, ListNode.mk.injEq] at node
      rw [ih left.2 right.2 node.2.2, Prod.ext key node.1]

theorem firstPtr_isSome (after : NodePtr) (nonempty : cells ≠ []) :
    (firstPtr cells after).isSome := by
  cases cells with
  | nil => contradiction
  | cons cell rest => rfl

theorem lastPtr_isSome (before : NodePtr) (nonempty : cells ≠ []) :
    (lastPtr before cells).isSome := by
  induction cells generalizing before with
  | nil => contradiction
  | cons cell rest ih =>
    cases rest with
    | nil => rfl
    | cons next rest => exact ih (some cell.1) (List.cons_ne_nil _ _)

end Segments

namespace Heap

variable {heap : Heap} {a : ℕ} {node garbage : ListNode}

theorem load_ok (present : heap.node a = some node) : heap.load (some a) = .ok node := by
  simp only [load, present]

theorem store_ok (present : heap.node a = some node) (change : ListNode → ListNode) :
    heap.store (some a) change = .ok (heap.put a (change node) (lt_top present)) := by
  simp only [store]
  split
  · next absent => rw [present] at absent; contradiction
  · next found same => rw [present] at same; cases same; rfl

/-- An assignment through a pointer to an allocated node changes that node only. -/
theorem exists_store (present : heap.node a = some node) (change : ListNode → ListNode) :
    ∃ next : Heap, heap.store (some a) change = .ok next ∧
      next.node = Function.update heap.node a (some (change node)) :=
  ⟨_, store_ok present change, rfl⟩

/-- Freeing an allocated node leaves the others. -/
theorem exists_free (present : heap.node a = some node) :
    ∃ next : Heap, heap.free (some a) = .ok next ∧ next.node = Function.update heap.node a none := by
  refine ⟨_, by simp only [free, present]; rfl, rfl⟩

@[simp] theorem node_put (below : a < heap.top) :
    (heap.put a node below).node = Function.update heap.node a (some node) := rfl

/-- A successful allocation returns an address no list can contain yet. -/
theorem malloc_some (heap : Heap) (garbage : ListNode) :
    ∃ next : Heap, heap.malloc (some garbage) = (some heap.top, next) ∧
      next.node = Function.update heap.node heap.top (some garbage) := ⟨_, rfl, rfl⟩

/-- A new node that is filled at once. -/
theorem exists_new (heap : Heap) (garbage node : ListNode) :
    ∃ fresh filled : Heap, heap.malloc (some garbage) = (some heap.top, fresh) ∧
      fresh.store (some heap.top) (fun _ => node) = .ok filled ∧
      filled.node = Function.update heap.node heap.top (some node) := by
  obtain ⟨fresh, allocated, contents⟩ := malloc_some heap garbage
  have new : fresh.node heap.top = some garbage := by rw [contents, Function.update_self]
  obtain ⟨filled, stored, filledNode⟩ := exists_store new (fun _ => node)
  exact ⟨fresh, filled, allocated, stored, by rw [filledNode, contents, Function.update_idem]⟩

end Heap

namespace WellFormed

variable {heap : Heap} {this : ListT} {cells xs ys : List Cell}

theorem isEmptyList_eq (formed : WellFormed heap this cells) :
    isEmptyList this = if cells = [] then 1 else 0 := by
  cases cells with
  | nil =>
    simp [isEmptyList, formed.front, formed.back]
  | cons cell rest =>
    have front := firstPtr_isSome none (List.cons_ne_nil cell rest)
    have back := lastPtr_isSome none (List.cons_ne_nil cell rest)
    rw [← formed.front] at front
    rw [← formed.back] at back
    simp [isEmptyList, Option.isNone_eq_false_iff.mpr front, Option.isNone_eq_false_iff.mpr back]

/-- Distinct nodes cannot outnumber the addresses handed out. -/
theorem length_le_top (formed : WellFormed heap this cells) : cells.length ≤ heap.top := by
  have inside : cells.map Prod.fst ⊆ List.range heap.top := by
    intro a member
    obtain ⟨cell, found, rfl⟩ := List.mem_map.mp member
    exact List.mem_range.mpr (formed.linked.lt_top cell found)
  have bound := (formed.distinct.subperm inside).length_le
  simpa only [List.length_map, List.length_range] using bound

/-- A list represents one sequence of cells only. -/
theorem unique (left : WellFormed heap this xs) (right : WellFormed heap this ys) : xs = ys :=
  left.linked.unique right.linked (left.front.symm.trans right.front)

/-- No node of a list has the address that is handed out next. -/
private theorem top_notMem (formed : WellFormed heap this cells) :
    heap.top ∉ cells.map Prod.fst := by
  intro member
  obtain ⟨cell, found, key⟩ := List.mem_map.mp member
  exact (formed.linked.lt_top cell found).ne key

/-- `push_back` appends the value in a new node. -/
theorem pushBack (formed : WellFormed heap this cells) (value : ℕ) (garbage : ListNode) :
    ∃ next list, KabyLake.pushBack heap this value (some garbage) =
        .ok (some heap.top, next, list) ∧ WellFormed next list (cells ++ [(heap.top, value)]) := by
  have absent := formed.top_notMem
  have distinct : ((cells ++ [(heap.top, value)]).map Prod.fst).Nodup := by
    rw [List.map_append, List.nodup_append]
    refine ⟨formed.distinct, List.nodup_singleton _, ?_⟩
    intro a old b added
    rw [List.mem_singleton.mp added]
    exact ne_of_mem_of_not_mem old absent
  obtain ⟨fresh, filled, allocated, stored, filledNode⟩ :=
    Heap.exists_new heap garbage ⟨value, this.back, none⟩
  simp only [KabyLake.pushBack, allocated, stored, Machine.ok_bind, formed.isEmptyList_eq]
  rcases List.eq_nil_or_concat cells with rfl | ⟨init, last, rfl⟩
  · refine ⟨_, _, rfl, rfl, rfl, ⟨?_, trivial⟩, distinct⟩
    simp [filledNode, formed.back]
  · rw [List.concat_eq_append] at *
    have back : this.back = some last.1 := by simp [formed.back]
    have apart : last.1 ≠ heap.top := ne_of_mem_of_not_mem (by simp) absent
    have lastNode : filled.node last.1 = some ⟨last.2, lastPtr none init, none⟩ := by
      rw [filledNode, Function.update_of_ne apart]
      exact (linked_append.mp formed.linked).2.1
    obtain ⟨linked, chained, linkedNode⟩ :=
      Heap.exists_store lastNode (fun node => { node with next := some heap.top })
    simp only [List.append_eq_nil_iff, List.cons_ne_self, and_false, ↓reduceIte, back, chained,
      Machine.ok_bind, Machine.pure_eq_ok]
    refine ⟨_, _, rfl, ?_, ?_, ?_, distinct⟩
    · simp only [formed.front, firstPtr_append, firstPtr_cons]
    · simp only [lastPtr_append, lastPtr_cons, lastPtr_nil]
    · refine formed.linked.append_node distinct ?_ ?_ ?_
      · rw [linkedNode, Function.update_self]
      · rw [linkedNode, Function.update_of_ne apart.symm, filledNode, Function.update_self, back]
      · intro a notLast notNew
        rw [linkedNode, Function.update_of_ne notLast, filledNode, Function.update_of_ne notNew]

/-- `push_front` puts the value in a new node before all the others. -/
theorem pushFront (formed : WellFormed heap this cells) (value : ℕ) (garbage : ListNode) :
    ∃ next list, KabyLake.pushFront heap this value (some garbage) =
        .ok (some heap.top, next, list) ∧ WellFormed next list ((heap.top, value) :: cells) := by
  have absent := formed.top_notMem
  have distinct : (((heap.top, value) :: cells).map Prod.fst).Nodup :=
    List.nodup_cons.mpr ⟨absent, formed.distinct⟩
  obtain ⟨fresh, filled, allocated, stored, filledNode⟩ :=
    Heap.exists_new heap garbage ⟨value, none, this.front⟩
  simp only [KabyLake.pushFront, allocated, stored, Machine.ok_bind, formed.isEmptyList_eq]
  cases cells with
  | nil =>
    refine ⟨_, _, rfl, rfl, rfl, ⟨?_, trivial⟩, distinct⟩
    simp [filledNode, formed.front]
  | cons first rest =>
    simp only [List.map_cons, List.mem_cons, not_or] at absent
    have front : this.front = some first.1 := formed.front
    have others : ∀ cell ∈ rest, cell.1 ≠ first.1 ∧ cell.1 ≠ heap.top := by
      intro cell member
      have key := List.mem_map_of_mem (f := Prod.fst) member
      have unique := formed.distinct
      rw [List.map_cons, List.nodup_cons] at unique
      exact ⟨ne_of_mem_of_not_mem key unique.1, ne_of_mem_of_not_mem key absent.2⟩
    have firstNode : filled.node first.1 = some ⟨first.2, none, firstPtr rest none⟩ := by
      rw [filledNode, Function.update_of_ne (Ne.symm absent.1)]
      exact formed.linked.1
    obtain ⟨linked, chained, linkedNode⟩ :=
      Heap.exists_store firstNode (fun node => { node with previous := some heap.top })
    simp only [reduceCtorEq, ↓reduceIte, ne_eq, not_true_eq_false, front, chained,
      Machine.ok_bind, Machine.pure_eq_ok]
    refine ⟨_, _, rfl, rfl, formed.back, ⟨?_, ?_, ?_⟩, distinct⟩
    · rw [linkedNode, Function.update_of_ne absent.1, filledNode, Function.update_self, front]
      rfl
    · rw [linkedNode, Function.update_self]
    · apply formed.linked.2.congr
      intro cell member
      obtain ⟨notFirst, notNew⟩ := others cell member
      rw [linkedNode, Function.update_of_ne notFirst, filledNode, Function.update_of_ne notNew]

private theorem lastPtr_mem (before : NodePtr) (nonempty : cells ≠ []) :
    ∃ cell ∈ cells, lastPtr before cells = some cell.1 := by
  rcases List.eq_nil_or_concat cells with rfl | ⟨init, last, rfl⟩
  · contradiction
  · exact ⟨last, by simp, by simp⟩

/-- A node with a successor is not the back of its list. -/
theorem back_ne {cell : Cell} (formed : WellFormed heap this (xs ++ cell :: ys))
    (nonempty : ys ≠ []) : this.back ≠ some cell.1 := by
  obtain ⟨last, member, found⟩ := lastPtr_mem (some cell.1) nonempty
  have unique := formed.distinct
  rw [List.map_append, List.nodup_append, List.map_cons, List.nodup_cons] at unique
  rw [formed.back, lastPtr_append, lastPtr_cons, found]
  rintro same
  exact unique.2.1.1 (Option.some.inj same ▸ List.mem_map_of_mem (f := Prod.fst) member)

/-- A node with a predecessor is not the front of its list. -/
theorem front_ne {cell : Cell} (formed : WellFormed heap this (xs ++ cell :: ys))
    (nonempty : xs ≠ []) : this.front ≠ some cell.1 := by
  have unique := formed.distinct
  cases xs with
  | nil => contradiction
  | cons first rest =>
    rw [List.cons_append, List.map_cons, List.nodup_cons] at unique
    rw [formed.front, List.cons_append, firstPtr_cons]
    rintro same
    exact unique.1 (Option.some.inj same ▸ List.mem_map_of_mem (f := Prod.fst) (by simp))

/-- Only a list of at most one node has the same front and back. -/
theorem front_ne_back (formed : WellFormed heap this cells) (long : 2 ≤ cells.length) :
    this.front ≠ this.back := by
  obtain ⟨first, second, rest, rfl⟩ : ∃ first second rest, cells = first :: second :: rest := by
    match cells, long with
    | first :: second :: rest, _ => exact ⟨first, second, rest, rfl⟩
  rw [formed.front]
  rw [← List.nil_append (first :: second :: rest)] at formed
  exact (formed.back_ne (List.cons_ne_nil _ _)).symm

/-- `pop_front` drops the first value of a list with at least two. -/
theorem popFront {first second : Cell} {rest : List Cell}
    (formed : WellFormed heap this (first :: second :: rest)) :
    ∃ next list, KabyLake.popFront heap this = .ok (next, list) ∧
      WellFormed next list (second :: rest) := by
  have unique := formed.distinct
  simp only [List.map_cons, List.nodup_cons, List.mem_cons, not_or] at unique
  obtain ⟨⟨apart, _⟩, notRest, restDistinct⟩ := unique
  obtain ⟨firstNode, secondNode, tail⟩ := formed.linked
  have front : this.front = some first.1 := formed.front
  have back : this.back = lastPtr (some second.1) rest := formed.back
  have notBack : this.front ≠ this.back := formed.front_ne_back (by simp)
  have loaded : heap.load this.front = .ok ⟨first.2, none, some second.1⟩ := by
    rw [front, Heap.load_ok firstNode]
    rfl
  simp only [KabyLake.popFront, formed.isEmptyList_eq, notBack, ↓reduceIte, loaded,
    Heap.store_ok secondNode, Machine.ok_bind, Machine.pure_eq_ok, reduceCtorEq, ne_eq,
    not_true_eq_false]
  refine ⟨_, _, rfl, rfl, back, ⟨?_, ?_⟩, ?_⟩
  · rw [Heap.node_put, Function.update_self]
  · apply tail.congr
    intro cell member
    have other : cell.1 ≠ second.1 := by
      rintro same
      exact notRest (same ▸ List.mem_map_of_mem (f := Prod.fst) member)
    rw [Heap.node_put, Function.update_of_ne other]
  · simpa only [List.map_cons, List.nodup_cons] using ⟨notRest, restDistinct⟩

/-- `move_back` on a node between two neighbours takes it out and chains it to the back. -/
private theorem moveBack_middle {prior node successor : Cell}
    (formed : WellFormed heap this (xs ++ [prior] ++ node :: successor :: ys))
    (outcome : Option ListNode) :
    ∃ next list, KabyLake.moveBack heap this (some node.1) outcome = .ok (next, list) ∧
      WellFormed next list (xs ++ [prior] ++ successor :: ys ++ [node]) := by
  have notFront : this.front ≠ some node.1 := formed.front_ne (by simp)
  have notBack : this.back ≠ some node.1 := formed.back_ne (by simp)
  have several : this.front ≠ this.back := formed.front_ne_back (by simp; omega)
  have permuted : ((xs ++ [prior] ++ successor :: ys ++ [node]).map Prod.fst).Nodup := by
    refine (List.Perm.nodup_iff (List.Perm.map _ ?_)).mpr formed.distinct
    rw [List.append_assoc]
    exact (List.perm_append_singleton node (successor :: ys)).append_left _
  have chain := formed.linked
  simp only [linked_append, lastPtr_append, lastPtr_cons, lastPtr_nil, firstPtr_cons, Linked,
    and_true] at chain
  obtain ⟨⟨_, priorHere⟩, nodeHere, succHere, _⟩ := chain
  have unique := formed.distinct
  simp only [List.map_append, List.map_cons, List.map_nil, List.nodup_append, List.nodup_cons,
    List.mem_append, List.mem_cons, List.not_mem_nil, or_false, not_or] at unique
  obtain ⟨_, ⟨⟨nodeSucc, nodeYs⟩, succYs, _⟩, cross⟩ := unique
  have priorNode : prior.1 ≠ node.1 := cross _ (.inr rfl) _ (.inl rfl)
  have priorSucc : prior.1 ≠ successor.1 := cross _ (.inr rfl) _ (.inr (.inl rfl))
  obtain ⟨heap₁, stored₁, node₁⟩ :=
    Heap.exists_store priorHere (fun other => { other with next := some successor.1 })
  obtain ⟨heap₂, stored₂, node₂⟩ := Heap.exists_store
    (show heap₁.node successor.1 = some ⟨successor.2, some node.1, firstPtr ys none⟩ by
      rw [node₁, Function.update_of_ne priorSucc.symm, succHere])
    (fun other => { other with previous := some prior.1 })
  -- the two neighbours are now chained to each other
  have removed : Linked heap₂ none (xs ++ [prior] ++ successor :: ys) none := by
    refine formed.linked.remove_node formed.distinct ?_ ?_ ?_
    · rw [node₂, Function.update_of_ne priorSucc, node₁, Function.update_self]
    · rw [node₂, Function.update_self]
    · intro a notPrior notSucc
      rw [node₂, Function.update_of_ne notSucc, node₁, Function.update_of_ne notPrior]
  obtain ⟨init, last, split⟩ : ∃ init last, xs ++ [prior] ++ successor :: ys = init ++ [last] := by
    rcases List.eq_nil_or_concat (xs ++ [prior] ++ successor :: ys) with nothing | ⟨init, last, split⟩
    · simp at nothing
    · exact ⟨init, last, by rw [split, List.concat_eq_append]⟩
  have back : this.back = some last.1 := by
    have same := congrArg (lastPtr none) split
    simpa [formed.back] using same
  rw [split] at removed permuted ⊢
  have lastHere := (linked_append.mp removed).2.1
  have apart : last.1 ≠ node.1 := by
    rintro same
    exact notBack (by rw [back, same])
  obtain ⟨heap₃, stored₃, node₃⟩ :=
    Heap.exists_store lastHere (fun other => { other with next := some node.1 })
  have nodeStill : heap₃.node node.1 = some ⟨node.2, some prior.1, some successor.1⟩ := by
    rw [node₃, Function.update_of_ne apart.symm, node₂, Function.update_of_ne nodeSucc, node₁,
      Function.update_of_ne priorNode.symm, nodeHere]
  obtain ⟨heap₄, stored₄, node₄⟩ :=
    Heap.exists_store nodeStill (fun other => { other with previous := some last.1, next := none })
  rw [back] at several
  refine ⟨heap₄, { this with back := some node.1 }, ?_, ?_, ?_, ?_, permuted⟩
  · simp [KabyLake.moveBack, formed.isEmptyList_eq, several, apart, notFront, back,
      Heap.load_ok nodeHere, stored₁, stored₂, stored₃, stored₄]
  · have same := congrArg (fun cells => firstPtr cells none) split
    simpa [formed.front] using same
  · simp only [lastPtr_append, lastPtr_cons, lastPtr_nil]
  · refine removed.append_node permuted ?_ ?_ ?_
    · rw [node₄, Function.update_of_ne apart, node₃, Function.update_self]
    · rw [node₄, Function.update_self]
    · intro a notLast notNode
      rw [node₄, Function.update_of_ne notNode, node₃, Function.update_of_ne notLast]

/-- `move_back` on any node of the list moves its value behind all the others, which keep their
order. The front of a longer list is moved by copying its value to a new node, which `malloc` must
not refuse. -/
theorem moveBack {node : Cell} (formed : WellFormed heap this (xs ++ node :: ys))
    (outcome : Option ListNode) (granted : xs = [] → ys ≠ [] → outcome.isSome) :
    ∃ next list moved, KabyLake.moveBack heap this (some node.1) outcome = .ok (next, list) ∧
      WellFormed next list moved ∧
      moved.map Prod.snd = xs.map Prod.snd ++ ys.map Prod.snd ++ [node.2] := by
  have notEmpty : isEmptyList this = 0 := by simp [formed.isEmptyList_eq]
  cases ys with
  | nil =>
    have back : this.back = some node.1 := by simp [formed.back]
    refine ⟨heap, this, _, ?_, formed, by simp⟩
    simp [KabyLake.moveBack, notEmpty, back]
  | cons successor ys =>
    rcases List.eq_nil_or_concat xs with rfl | ⟨init, prior, rfl⟩
    · have several : this.front ≠ this.back := formed.front_ne_back (by simp)
      have notBack : this.back ≠ some node.1 := formed.back_ne (List.cons_ne_nil _ _)
      have front : this.front = some node.1 := formed.front
      have nodeHere : heap.node node.1 = _ := formed.linked.1
      obtain ⟨garbage, rfl⟩ := Option.isSome_iff_exists.mp (granted rfl (List.cons_ne_nil _ _))
      obtain ⟨middle, longer, pushed, appended⟩ := formed.pushBack node.2 garbage
      obtain ⟨next, list, popped, done⟩ := appended.popFront
      refine ⟨next, list, _, ?_, done, by simp⟩
      rw [front] at several
      simp [KabyLake.moveBack, notEmpty, front, several, notBack, Heap.load_ok nodeHere, pushed,
        popped]
    · rw [List.concat_eq_append] at *
      obtain ⟨next, list, moved, done⟩ := formed.moveBack_middle outcome
      exact ⟨next, list, _, moved, done, by simp⟩

/-- Without a new node the front of a longer list is dropped all the same. -/
theorem moveBack_refused {node successor : Cell}
    (formed : WellFormed heap this (node :: successor :: ys)) :
    ∃ next list, KabyLake.moveBack heap this (some node.1) none = .ok (next, list) ∧
      WellFormed next list (successor :: ys) := by
  have several : this.front ≠ this.back := formed.front_ne_back (by simp)
  have split : WellFormed heap this ([] ++ node :: successor :: ys) := formed
  have notBack : this.back ≠ some node.1 := split.back_ne (List.cons_ne_nil _ _)
  have front : this.front = some node.1 := formed.front
  have nodeHere : heap.node node.1 = _ := formed.linked.1
  obtain ⟨next, list, popped, done⟩ := formed.popFront
  refine ⟨next, list, ?_, done⟩
  rw [front] at several
  simp [KabyLake.moveBack, formed.isEmptyList_eq, front, several, notBack, Heap.load_ok nodeHere,
    KabyLake.pushBack, Heap.malloc, popped]

/-- What `move_back` leaves of a list, for every outcome of its `malloc`. -/
theorem moveBack_values {node : Cell} (formed : WellFormed heap this (xs ++ node :: ys))
    (outcome : Option ListNode) :
    ∃ next list moved, KabyLake.moveBack heap this (some node.1) outcome = .ok (next, list) ∧
      WellFormed next list moved ∧
      moved.map Prod.snd = if outcome = none ∧ xs = [] ∧ ys ≠ [] then ys.map Prod.snd
        else xs.map Prod.snd ++ ys.map Prod.snd ++ [node.2] := by
  by_cases refused : outcome = none ∧ xs = [] ∧ ys ≠ []
  · rw [if_pos refused]
    obtain ⟨rfl, rfl, several⟩ := refused
    obtain ⟨successor, rest, rfl⟩ := List.exists_cons_of_ne_nil several
    obtain ⟨next, list, ran, done⟩ := formed.moveBack_refused
    exact ⟨next, list, _, ran, done, rfl⟩
  · rw [if_neg refused]
    refine formed.moveBack outcome fun front several => ?_
    rw [Option.isSome_iff_ne_none]
    exact fun missing => refused ⟨missing, front, several⟩

end WellFormed

/-- What may stand before the rest of a list that is being cleared: nothing, or an allocated node that
is not in the rest. -/
private def Pending (heap : Heap) (before : NodePtr) (cells : List Cell) : Prop :=
  ∀ a, before = some a → a ∉ cells.map Prod.fst ∧ (heap.node a).isSome

/-- One iteration of `clear_list` frees the node before the current one. -/
private theorem clearNodes_step {heap : Heap} {before : NodePtr} {cell : Cell} {rest : List Cell}
    (chain : Linked heap before (cell :: rest) none) (distinct : ((cell :: rest).map Prod.fst).Nodup)
    (pending : Pending heap before (cell :: rest)) (fuel : ℕ) :
    ∃ next, clearNodes (fuel + 1) heap (some cell.1) = clearNodes fuel next (firstPtr rest none) ∧
      Linked next (some cell.1) rest none ∧ Pending next (some cell.1) rest ∧
      ∀ a, a ≠ cell.1 → next.node a = if before = some a then none else heap.node a := by
  rw [List.map_cons, List.nodup_cons] at distinct
  obtain ⟨marked, zeroed, markedNode⟩ :=
    Heap.exists_store chain.1 (fun node => { node with value := 0 })
  have here : marked.node cell.1 = some ⟨0, before, firstPtr rest none⟩ := by
    rw [markedNode, Function.update_self]
  -- the node before the current one, if there is one, is freed
  obtain ⟨freed, released, freedNode⟩ : ∃ freed, marked.free before = .ok freed ∧
      ∀ a, freed.node a = if before = some a then none else marked.node a := by
    cases before with
    | none => exact ⟨marked, rfl, fun a => by simp⟩
    | some b =>
      obtain ⟨outside, allocated⟩ := pending b rfl
      rw [List.map_cons, List.mem_cons, not_or] at outside
      obtain ⟨node, found⟩ := Option.isSome_iff_exists.mp allocated
      have still : marked.node b = some node := by
        rw [markedNode, Function.update_of_ne outside.1, found]
      obtain ⟨freed, released, freedNode⟩ := Heap.exists_free still
      refine ⟨freed, released, fun a => ?_⟩
      rcases eq_or_ne b a with rfl | other
      · rw [freedNode, Function.update_self, if_pos rfl]
      · rw [freedNode, Function.update_of_ne other.symm, if_neg (by simpa using other)]
  have notBefore : before ≠ some cell.1 := by
    intro same
    exact (pending _ same).1 (by simp)
  have there : freed.node cell.1 = some ⟨0, before, firstPtr rest none⟩ := by
    rw [freedNode, if_neg notBefore, here]
  obtain ⟨next, cut, nextNode⟩ :=
    Heap.exists_store there (fun node => { node with previous := none })
  have last : next.node cell.1 = some ⟨0, none, firstPtr rest none⟩ := by
    rw [nextNode, Function.update_self]
  have frame : ∀ a, a ≠ cell.1 → next.node a = if before = some a then none else heap.node a := by
    intro a other
    rw [nextNode, Function.update_of_ne other, freedNode, markedNode, Function.update_of_ne other]
  refine ⟨next, ?_, ?_, ?_, frame⟩
  · simp only [clearNodes, zeroed, Machine.ok_bind, Heap.load_ok here, released, cut,
      Heap.load_ok last]
  · apply chain.2.congr
    intro other member
    have key := List.mem_map_of_mem (f := Prod.fst) member
    rw [frame _ (ne_of_mem_of_not_mem key distinct.1), if_neg]
    intro same
    exact (pending _ same).1 (List.mem_cons_of_mem _ key)
  · rintro a ⟨⟩
    exact ⟨distinct.1, by rw [last]; rfl⟩

/-- The loop of `clear_list` frees every node but the last one. -/
private theorem clearNodes_linked {heap : Heap} {before : NodePtr} {cells : List Cell} {fuel : ℕ}
    (chain : Linked heap before cells none) (distinct : (cells.map Prod.fst).Nodup)
    (pending : Pending heap before cells) (enough : cells.length ≤ fuel) :
    ∃ next, clearNodes fuel heap (firstPtr cells none) = .ok next ∧
      (∀ a, lastPtr before cells = some a → (next.node a).isSome) ∧
      ∀ a, lastPtr before cells ≠ some a →
        next.node a = if before = some a ∨ a ∈ cells.map Prod.fst then none else heap.node a := by
  induction cells generalizing heap before fuel with
  | nil =>
    refine ⟨heap, by cases fuel <;> rfl, fun a found => (pending a found).2, fun a other => ?_⟩
    rw [if_neg]
    simpa using other
  | cons cell rest ih =>
    cases fuel with
    | zero => simp at enough
    | succ fuel =>
      obtain ⟨middle, stepped, chained, waiting, frame⟩ :=
        clearNodes_step chain distinct pending fuel
      have unique := distinct
      rw [List.map_cons, List.nodup_cons] at unique
      obtain ⟨next, ran, kept, freed⟩ := ih chained unique.2 waiting (by simpa using enough)
      refine ⟨next, stepped.trans ran, kept, fun a notLast => ?_⟩
      rw [freed a notLast]
      rcases eq_or_ne a cell.1 with rfl | other
      · simp
      · simp only [Option.some.injEq, other.symm, false_or, frame a other, List.map_cons,
          List.mem_cons, other]
        by_cases member : a ∈ rest.map Prod.fst
        · simp [member]
        · simp [member]

/-- `clear_list` frees every node of the list and no other node. -/
theorem WellFormed.clearList {heap : Heap} {this : ListT} {cells : List Cell}
    (formed : WellFormed heap this cells) :
    ∃ next, KabyLake.clearList heap this = .ok (next, initList) ∧
      ∀ a, next.node a = if a ∈ cells.map Prod.fst then none else heap.node a := by
  rcases List.eq_nil_or_concat cells with rfl | ⟨init, last, split⟩
  · have header : this = initList := by
      obtain ⟨front, back⟩ := this
      rw [initList, ListT.mk.injEq]
      exact ⟨formed.front, formed.back⟩
    subst header
    exact ⟨heap, rfl, fun a => by simp⟩
  · have nonempty : cells ≠ [] := by simp [split]
    have back : lastPtr none cells = some last.1 := by simp [split]
    obtain ⟨most, looped, kept, freed⟩ := clearNodes_linked formed.linked formed.distinct
      (fun a absent => by contradiction) formed.length_le_top
    obtain ⟨node, found⟩ := Option.isSome_iff_exists.mp (kept _ back)
    obtain ⟨next, released, contents⟩ := Heap.exists_free found
    refine ⟨next, ?_, fun a => ?_⟩
    · simp only [KabyLake.clearList, formed.isEmptyList_eq, nonempty, ↓reduceIte, ne_eq,
        not_true_eq_false, formed.front, looped, Machine.ok_bind, formed.back, back, released,
        Machine.pure_eq_ok, initList]
    · rcases eq_or_ne a last.1 with rfl | other
      · simp [contents, split]
      · rw [contents, Function.update_of_ne other, freed a (by simpa [back] using other.symm)]
        simp only [reduceCtorEq, false_or]

/-- `pop_back` faults on the only node of a list: it is read after it has been freed. -/
theorem WellFormed.popBack_singleton {heap : Heap} {this : ListT} {cell : Cell}
    (formed : WellFormed heap this [cell]) : KabyLake.popBack heap this = .error .danglingPointer := by
  have front : this.front = some cell.1 := formed.front
  have back : this.back = some cell.1 := formed.back
  obtain ⟨freed, released, contents⟩ := Heap.exists_free formed.linked.1
  have gone : freed.load (some cell.1) = .error .danglingPointer := by
    simp only [Heap.load, contents, Function.update_self]
  simp only [KabyLake.popBack, formed.isEmptyList_eq, front, back, List.cons_ne_self, ↓reduceIte,
    ne_eq, not_true_eq_false, released, Machine.ok_bind, Machine.pure_eq_ok, gone,
    Machine.error_bind]

/-- `pop_back` leaves a longer list with a back that has been freed. -/
theorem WellFormed.popBack_long {heap : Heap} {this : ListT} {init : List Cell} {prior last : Cell}
    (formed : WellFormed heap this (init ++ [prior, last])) :
    ∃ next list, KabyLake.popBack heap this = .ok (next, list) ∧ list.back = some prior.1 ∧
      next.node prior.1 = none := by
  have several : this.front ≠ this.back := formed.front_ne_back (by simp)
  have back : this.back = some last.1 := by simp [formed.back]
  have unique := formed.distinct
  have chain := formed.linked
  simp only [linked_append, firstPtr_cons, firstPtr_nil, Linked, and_true] at chain
  obtain ⟨_, priorHere, lastHere⟩ := chain
  have apart : prior.1 ≠ last.1 := by
    simp only [List.map_append, List.map_cons, List.map_nil, List.nodup_append, List.nodup_cons,
      List.mem_cons, List.not_mem_nil, or_false] at unique
    exact unique.2.1.1
  obtain ⟨marked, zeroed, markedNode⟩ :=
    Heap.exists_store lastHere (fun node => { node with value := 0 })
  have here : marked.node last.1 = some ⟨0, some prior.1, none⟩ := by
    rw [markedNode, Function.update_self]
  have there : marked.node prior.1 = some ⟨prior.2, lastPtr none init, some last.1⟩ := by
    rw [markedNode, Function.update_of_ne apart, priorHere]
  obtain ⟨freed, released, freedNode⟩ := Heap.exists_free there
  have still : freed.node last.1 = some ⟨0, some prior.1, none⟩ := by
    rw [freedNode, Function.update_of_ne apart.symm, here]
  obtain ⟨next, cut, nextNode⟩ :=
    Heap.exists_store still (fun node => { node with previous := none })
  rw [back] at several
  refine ⟨next, { this with back := some prior.1 }, ?_, rfl, ?_⟩
  · simp [KabyLake.popBack, formed.isEmptyList_eq, several, back, Heap.load_ok lastHere, zeroed,
      Heap.load_ok here, released, cut]
  · rw [nextNode, Function.update_of_ne apart, freedNode, Function.update_self]

/-- `pop_front` frees the only node of a list twice. -/
theorem WellFormed.popFront_singleton {heap : Heap} {this : ListT} {cell : Cell}
    (formed : WellFormed heap this [cell]) :
    KabyLake.popFront heap this = .error .danglingPointer := by
  have front : this.front = some cell.1 := formed.front
  have back : this.back = some cell.1 := formed.back
  obtain ⟨freed, released, contents⟩ := Heap.exists_free formed.linked.1
  have twice : freed.free (some cell.1) = .error .danglingPointer := by
    simp only [Heap.free, contents, Function.update_self]
  simp only [KabyLake.popFront, formed.isEmptyList_eq, front, back, List.cons_ne_self, ↓reduceIte,
    ne_eq, not_true_eq_false, released, Machine.ok_bind, twice, Machine.error_bind]

/-- The reverse traversal returns the last node whose value passes the test. -/
theorem findReverse_linked {heap : Heap} {after : NodePtr} {cells : List Cell}
    {test : ℕ → Exec Bool} (passes : ℕ → Bool)
    (tested : ∀ cell ∈ cells, test cell.2 = .ok (passes cell.2)) :
    ∀ {fuel : ℕ}, cells.length ≤ fuel → Linked heap none cells after →
      findReverse heap test fuel (lastPtr none cells) =
        .ok ((cells.reverse.find? (fun cell => passes cell.2)).map Prod.fst) := by
  induction cells using List.reverseRecOn generalizing after with
  | nil =>
    intro fuel _ _
    cases fuel <;> rfl
  | append_singleton cells cell ih =>
    intro fuel enough chain
    obtain ⟨front, last, _⟩ := linked_append.mp chain
    cases fuel with
    | zero => simp at enough
    | succ fuel =>
      have here := tested cell (by simp)
      have earlier := ih (fun other member => tested other (List.mem_append_left _ member))
        (by simpa using enough) front
      simp only [lastPtr_append, lastPtr_cons, lastPtr_nil, findReverse, Heap.load_ok last,
        Machine.ok_bind, here, List.reverse_append, List.reverse_cons, List.reverse_nil,
        List.nil_append, List.singleton_append, List.find?_cons]
      cases passes cell.2 with
      | true => rfl
      | false => simpa using earlier

end KabyLake
