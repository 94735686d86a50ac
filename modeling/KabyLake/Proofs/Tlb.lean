import Mathlib.Data.List.Perm.Basic
import KabyLake.Model.Tlb
import KabyLake.Proofs.LinkedList

/-! # One step of the fully associative TLB

`Represents` forgets the heap: a state is its lines together with the line numbers on the
replacement list, front to back. A search on a page that a valid line holds moves that line to the
back; any other search walks the page table and, on success, overwrites the line at the front and
moves it to the back.
-/

namespace KabyLake.Tlb

/-- The replacement list of the state holds `order`, from front to back. -/
def Represents (state : State) (order : List ℕ) : Prop :=
  ∃ cells, WellFormed state.heap state.ll cells ∧ cells.map Prod.snd = order

/-- Line `i` is valid and holds the page of `vaddr`. -/
def Matches (tlb : Lines) (vaddr : VirtAddr) (i : ℕ) : Prop :=
  (tlb i).tag.setWidth 64 = virtAddrTToVirtualPageNumber vaddr ∧ (tlb i).v = true

section Lookup

variable {state : State} {order : List ℕ} {vaddr : VirtAddr} {paddr : PhyAddr} {i : ℕ}

private theorem lineMatches_eq {tlb : Lines} {pageNumber : BitVec 64} (bound : i < tlbLines) :
    lineMatches tlb pageNumber i =
      .ok ((tlb i).tag.setWidth 64 == pageNumber && (tlb i).v) := by
  simp only [lineMatches, readLine, bound, ↓reduceIte, Machine.ok_bind, Machine.pure_eq_ok]

/-- The scan of `tlb_hit` finds the last matching line number of the list. -/
private theorem scan {cells : List Cell} (formed : WellFormed state.heap state.ll cells)
    (inside : ∀ i ∈ cells.map Prod.snd, i < tlbLines) :
    findReverse state.heap (lineMatches state.tlb (virtAddrTToVirtualPageNumber vaddr))
        state.heap.top state.ll.back =
      .ok ((cells.reverse.find? fun cell => (state.tlb cell.2).tag.setWidth 64 ==
        virtAddrTToVirtualPageNumber vaddr && (state.tlb cell.2).v).map Prod.fst) := by
  rw [formed.back]
  exact findReverse_linked
    (fun i => (state.tlb i).tag.setWidth 64 == virtAddrTToVirtualPageNumber vaddr &&
      (state.tlb i).v)
    (fun cell member => lineMatches_eq (inside _ (List.mem_map_of_mem (f := Prod.snd) member)))
    formed.length_le_top formed.linked

/-- A list of distinct values with one of them moved to the end. -/
private theorem moved_eq {xs ys : List ℕ} (distinct : (xs ++ i :: ys).Nodup) :
    xs ++ ys ++ [i] = (xs ++ i :: ys).erase i ++ [i] := by
  have notMem : i ∉ xs := by
    have := List.nodup_append.mp distinct
    exact fun member => this.2.2 i member i (List.mem_cons_self ..) rfl
  rw [List.erase_append_right _ notMem, List.erase_cons_head]

/-- The only matching line answers the lookup and moves to the back. -/
theorem tlbHit_of_matches (paddr : PhyAddr) (represents : Represents state order) (distinct : order.Nodup)
    (inside : ∀ i ∈ order, i < tlbLines) (member : i ∈ order) (found : Matches state.tlb vaddr i)
    (unique : ∀ j ∈ order, Matches state.tlb vaddr j → j = i) (garbage : ListNode) :
    ∃ next, tlbHit vaddr paddr state (some garbage) =
        .ok (1, ⟨(state.tlb i).phyPageNum, vaddr.pageOffset⟩, next) ∧
      next.tlb = state.tlb ∧ Represents next (order.erase i ++ [i]) := by
  obtain ⟨cells, formed, rfl⟩ := represents
  obtain ⟨cell, present, rfl⟩ := List.mem_map.mp member
  have someMatch : (cells.reverse.find? fun cell => (state.tlb cell.2).tag.setWidth 64 ==
      virtAddrTToVirtualPageNumber vaddr && (state.tlb cell.2).v).isSome := by
    rw [List.find?_isSome]
    exact ⟨cell, List.mem_reverse.mpr present, by simp [found.1, found.2]⟩
  obtain ⟨chosen, hit⟩ := Option.isSome_iff_exists.mp someMatch
  have chosenMember : chosen ∈ cells := List.mem_reverse.mp (List.mem_of_find?_eq_some hit)
  have chosenMatches : Matches state.tlb vaddr chosen.2 := by
    simpa [Matches] using List.find?_some hit
  have same : chosen.2 = cell.2 :=
    unique _ (List.mem_map_of_mem (f := Prod.snd) chosenMember) chosenMatches
  obtain ⟨xs, ys, split⟩ := List.append_of_mem chosenMember
  rw [split] at formed
  obtain ⟨heap, ll, moved, stepped, done, values⟩ := formed.moveBack (some garbage) (fun _ _ => rfl)
  have nodeHere := (linked_append.mp formed.linked).2.1
  rw [← split] at formed
  have readable : readLine state.tlb cell.2 = .ok (state.tlb cell.2) := if_pos (inside _ member)
  refine ⟨{ state with heap, ll }, ?_, rfl, moved, done, ?_⟩
  · simp [tlbHit, scan formed inside, hit, Heap.load_ok nodeHere, readable, stepped, same]
  · rw [values, ← same, split, List.map_append, List.map_cons]
    apply moved_eq
    simpa [split] using distinct

/-- Without a matching line the lookup misses and changes nothing. -/
theorem tlbHit_of_not_matches (paddr : PhyAddr) (represents : Represents state order)
    (inside : ∀ i ∈ order, i < tlbLines) (absent : ∀ i ∈ order, ¬ Matches state.tlb vaddr i)
    (newNode : Option ListNode) :
    tlbHit vaddr paddr state newNode = .ok (0, paddr, state) := by
  obtain ⟨cells, formed, rfl⟩ := represents
  have nothing : (cells.reverse.find? fun cell => (state.tlb cell.2).tag.setWidth 64 ==
      virtAddrTToVirtualPageNumber vaddr && (state.tlb cell.2).v) = none := by
    rw [List.find?_eq_none]
    intro cell member
    have unmatched := absent _ (List.mem_map_of_mem (f := Prod.snd) (List.mem_reverse.mp member))
    simpa [Matches] using unmatched
  simp [tlbHit, scan formed inside, nothing]

/-- The lookup, for every outcome of the `malloc` in `move_back`: the line that answers is the last
matching one of the list. -/
theorem tlbHit_cases (vaddr : VirtAddr) (paddr : PhyAddr) (represents : Represents state order)
    (inside : ∀ i ∈ order, i < tlbLines) (newNode : Option ListNode) :
    (tlbHit vaddr paddr state newNode = .ok (0, paddr, state) ∧
      ∀ i ∈ order, ¬ Matches state.tlb vaddr i) ∨
    ∃ older i newer next, order = older ++ i :: newer ∧ Matches state.tlb vaddr i ∧
      tlbHit vaddr paddr state newNode =
        .ok (1, ⟨(state.tlb i).phyPageNum, vaddr.pageOffset⟩, next) ∧ next.tlb = state.tlb ∧
      Represents next (if newNode = none ∧ older = [] ∧ newer ≠ [] then newer
        else older ++ newer ++ [i]) := by
  obtain ⟨cells, formed, rfl⟩ := represents
  cases found : cells.reverse.find? fun cell => (state.tlb cell.2).tag.setWidth 64 ==
      virtAddrTToVirtualPageNumber vaddr && (state.tlb cell.2).v with
  | none =>
    refine .inl ⟨by simp [tlbHit, scan formed inside, found], ?_⟩
    rw [List.find?_eq_none] at found
    intro i member
    obtain ⟨cell, present, rfl⟩ := List.mem_map.mp member
    simpa [Matches] using found cell (List.mem_reverse.mpr present)
  | some cell =>
    have member : cell ∈ cells := List.mem_reverse.mp (List.mem_of_find?_eq_some found)
    have answers : Matches state.tlb vaddr cell.2 := by simpa [Matches] using List.find?_some found
    obtain ⟨xs, ys, split⟩ := List.append_of_mem member
    rw [split] at formed
    obtain ⟨heap, ll, moved, stepped, done, values⟩ := formed.moveBack_values newNode
    have nodeHere := (linked_append.mp formed.linked).2.1
    rw [← split] at formed
    have readable : readLine state.tlb cell.2 = .ok (state.tlb cell.2) :=
      if_pos (inside _ (List.mem_map_of_mem member))
    refine .inr ⟨xs.map Prod.snd, cell.2, ys.map Prod.snd, { state with heap, ll }, by simp [split],
      answers, ?_, rfl, moved, done, ?_⟩
    · simp [tlbHit, scan formed inside, found, Heap.load_ok nodeHere, readable, stepped]
    · simpa using values

end Lookup

section Search

variable {state : State} {order : List ℕ} {call : Call} {i : ℕ}

/-- A search that hits only reorders the list. -/
theorem tlbSearch_hit (represents : Represents state order) (distinct : order.Nodup)
    (inside : ∀ i ∈ order, i < tlbLines) (member : i ∈ order)
    (found : Matches state.tlb call.vaddr i)
    (unique : ∀ j ∈ order, Matches state.tlb call.vaddr j → j = i)
    (allocated : call.MallocSucceeds) :
    ∃ next, tlbSearch state call =
        .ok (next, ⟨.errNone, 1, ⟨(state.tlb i).phyPageNum, call.vaddr.pageOffset⟩⟩) ∧
      next.tlb = state.tlb ∧ Represents next (order.erase i ++ [i]) := by
  obtain ⟨garbage, newNode⟩ := Option.isSome_iff_exists.mp allocated.1
  obtain ⟨next, hit, lines, reordered⟩ := tlbHit_of_matches call.paddr represents
    distinct inside member found unique garbage
  refine ⟨next, ?_, lines, reordered⟩
  simp [tlbSearch, newNode, hit]

/-- A search that misses does what its page walk does: a fault is a fault, a failed walk leaves
everything as it was, and a frame is entered in the line at the front of the list. -/
theorem tlbSearch_miss {front : ℕ} {rest : List ℕ} (represents : Represents state (front :: rest))
    (inside : ∀ i ∈ front :: rest, i < tlbLines)
    (absent : ∀ i ∈ front :: rest, ¬ Matches state.tlb call.vaddr i)
    (allocated : call.MallocSucceeds) :
    match pageWalk call.memSpace call.vaddr call.paddr with
    | .error fault => tlbSearch state call = .error fault
    | .ok (code, target) =>
      if code ≠ .errNone then tlbSearch state call = .ok (state, ⟨.errMem, 0, target⟩)
      else ∃ next, tlbSearch state call = .ok (next, ⟨.errNone, 0, target⟩) ∧
        next.tlb = Function.update state.tlb front
          ⟨(virtAddrTToVirtualPageNumber call.vaddr).setWidth 36, target.phyPageNum, true⟩ ∧
        Represents next (rest ++ [front]) := by
  have missed := tlbHit_of_not_matches call.paddr represents inside absent call.newNode
  cases walked : pageWalk call.memSpace call.vaddr call.paddr with
  | error fault => simp [tlbSearch, missed, walked]
  | ok result =>
    obtain ⟨code, target⟩ := result
    rcases eq_or_ne code .errNone with rfl | failure
    · obtain ⟨node, newNode⟩ := Option.isSome_iff_exists.mp allocated.1
      obtain ⟨entry, newEntry⟩ := Option.isSome_iff_exists.mp allocated.2
      obtain ⟨cells, formed, values⟩ := represents
      obtain ⟨cell, others, rfl, rfl, rfl⟩ : ∃ cell others, cells = cell :: others ∧
          cell.2 = front ∧ others.map Prod.snd = rest := by
        cases cells with
        | nil => simp at values
        | cons cell others => exact ⟨cell, others, rfl, by simpa using values⟩
      have front : state.ll.front = some cell.1 := formed.front
      have loaded := Heap.load_ok formed.linked.1
      rw [← List.nil_append (cell :: others)] at formed
      obtain ⟨heap, ll, moved, stepped, done, order⟩ := formed.moveBack (some node) (fun _ _ => rfl)
      have inserted : cell.2 < tlbLines := inside _ (List.mem_cons_self ..)
      rw [newNode] at missed
      simp only [ne_eq, not_true_eq_false, ↓reduceIte]
      refine ⟨⟨Function.update state.tlb cell.2 _, heap, ll⟩, ?_, rfl, moved, done, by simpa using order⟩
      simp [tlbSearch, missed, walked, newEntry, tlbEntryInit, front, loaded, tlbInsert, inserted,
        newNode, stepped]
    · simp [tlbSearch, missed, walked, failure]

end Search

end KabyLake.Tlb
