import KabyLake.Proofs.Tlb
import KabyLake.ToMathlib.Recency

/-! # The replacement list is a recency order

The valid lines of the fully associative TLB stand at the back of the replacement list, and their
pages, from back to front, are the resident set of a least-recently-used buffer of 128 pages fed
with the successful searches. Invalid lines come first, so they are used up before any page leaves.
-/

namespace KabyLake.Tlb

/-- The page held by line `i`. -/
def pageOf (tlb : Lines) (i : ℕ) : BitVec 64 := (tlb i).tag.setWidth 64

/-- The page a call searches. -/
def Call.page (call : Call) : BitVec 64 := virtAddrTToVirtualPageNumber call.vaddr

/-- The list holds every line once, the invalid lines `stale` before the valid lines `live`, and
`live` is ordered by the most recent searches. -/
structure Tracks (searched : List (BitVec 64)) (state : State) (stale live : List ℕ) : Prop where
  order : Represents state (stale ++ live)
  lines : (stale ++ live).Perm (List.range tlbLines)
  invalid : ∀ i ∈ stale, (state.tlb i).v = false
  valid : ∀ i ∈ live, (state.tlb i).v = true
  recency : live.map (pageOf state.tlb) = (searched.recencyOrder.take tlbLines).reverse

/-- The tag of a new entry determines the page it was made for. -/
theorem setWidth_page (call : Call) : (call.page.setWidth 36).setWidth 64 = call.page := by
  apply BitVec.eq_of_toNat_eq
  have := virtAddrTToVirtualPageNumber_lt call.vaddr
  simp only [BitVec.toNat_setWidth, Call.page]
  omega

namespace Tracks

variable {searched : List (BitVec 64)} {state : State} {stale live : List ℕ} {call : Call}

theorem inside (tracks : Tracks searched state stale live) :
    ∀ i ∈ stale ++ live, i < tlbLines :=
  fun _ member => List.mem_range.mp (tracks.lines.mem_iff.mp member)

theorem distinct (tracks : Tracks searched state stale live) : (stale ++ live).Nodup :=
  tracks.lines.nodup_iff.mpr List.nodup_range

theorem mem_resident_iff (tracks : Tracks searched state stale live) (page : BitVec 64) :
    page ∈ searched.recencyOrder.take tlbLines ↔ ∃ i ∈ live, pageOf state.tlb i = page := by
  rw [← List.mem_reverse, ← tracks.recency, List.mem_map]

/-- A line matches a call exactly when it is live and holds the page. -/
theorem matches_iff (tracks : Tracks searched state stale live) {i : ℕ} (member : i ∈ stale ++ live) :
    Matches state.tlb call.vaddr i ↔ i ∈ live ∧ pageOf state.tlb i = call.page := by
  constructor
  · rintro ⟨tag, valid⟩
    rcases List.mem_append.mp member with old | current
    · rw [tracks.invalid i old] at valid
      contradiction
    · exact ⟨current, tag⟩
  · rintro ⟨current, page⟩
    exact ⟨page, tracks.valid i current⟩

/-- No two live lines hold the same page. -/
theorem page_injective (tracks : Tracks searched state stale live) {i j : ℕ} (hi : i ∈ live)
    (hj : j ∈ live) (same : pageOf state.tlb i = pageOf state.tlb j) : i = j := by
  have pages : (live.map (pageOf state.tlb)).Nodup := by
    rw [tracks.recency, List.nodup_reverse]
    exact (List.nodup_recencyOrder searched).sublist (List.take_sublist _ _)
  exact List.inj_on_of_nodup_map pages hi hj same

/-- Searching a resident page hits, and the page becomes the most recent one. -/
theorem search_resident (tracks : Tracks searched state stale live)
    (resident : call.page ∈ searched.recencyOrder.take tlbLines) (allocated : call.MallocSucceeds) :
    ∃ i ∈ live, pageOf state.tlb i = call.page ∧ ∃ next, tlbSearch state call =
        .ok (next, ⟨.errNone, 1, ⟨(state.tlb i).phyPageNum, call.vaddr.pageOffset⟩⟩) ∧
      next.tlb = state.tlb ∧ ∃ live', Tracks (call.page :: searched) next stale live' := by
  obtain ⟨i, member, page⟩ := (tracks.mem_resident_iff _).mp resident
  have inList : i ∈ stale ++ live := List.mem_append_right _ member
  obtain ⟨next, hit, lines, order⟩ := tlbSearch_hit tracks.order tracks.distinct tracks.inside inList
    ((tracks.matches_iff inList).mpr ⟨member, page⟩)
    (fun j listed found => by
      obtain ⟨current, samePage⟩ := (tracks.matches_iff listed).mp found
      exact tracks.page_injective current member (samePage.trans page.symm))
    allocated
  refine ⟨i, member, page, next, hit, lines, live.erase i ++ [i], ?_⟩
  have notStale : i ∉ stale := fun old =>
    (List.nodup_append.mp tracks.distinct).2.2 i old i member rfl
  have reordered : (stale ++ live).erase i ++ [i] = stale ++ (live.erase i ++ [i]) := by
    rw [List.erase_append_right _ notStale, List.append_assoc]
  have sameLines : (live.erase i ++ [i]).Perm live :=
    (List.perm_append_singleton i _).trans (List.perm_cons_erase member).symm
  obtain ⟨older, newer, split⟩ := List.append_of_mem member
  have liveDistinct : (older ++ i :: newer).Nodup := split ▸ (List.nodup_append.mp tracks.distinct).2.1
  have erased : live.erase i = older ++ newer := by
    have notOlder : i ∉ older := fun old =>
      (List.nodup_append.mp liveDistinct).2.2 i old i (List.mem_cons_self ..) rfl
    rw [split, List.erase_append_right _ notOlder, List.erase_cons_head]
  refine ⟨reordered ▸ order, (sameLines.append_left stale).trans tracks.lines, ?_, ?_, ?_⟩
  · rw [lines]
    exact tracks.invalid
  · rw [lines]
    exact fun j moved => tracks.valid j (sameLines.mem_iff.mp moved)
  · have residents : searched.recencyOrder.take tlbLines =
        (newer.map (pageOf state.tlb)).reverse ++ call.page :: (older.map (pageOf state.tlb)).reverse := by
      rw [← List.reverse_reverse (List.take _ _), ← tracks.recency, split]
      simp [page]
    rw [lines, List.take_recencyOrder_cons_of_split residents, erased]
    simp [page]

/-- Writing one line keeps the pages of the others. -/
private theorem map_pageOf_update {next : State} {front : ℕ} {line : Entry} {others : List ℕ}
    (lines : next.tlb = Function.update state.tlb front line) (outside : front ∉ others) :
    others.map (pageOf next.tlb) = others.map (pageOf state.tlb) := by
  apply List.map_congr_left
  intro i member
  rw [pageOf, lines, Function.update_of_ne, pageOf]
  rintro rfl
  exact outside member

/-- Overwriting the line at the front of the list with the searched page and moving it to the back
makes the page the most recent one, in the place of an invalid line or of the least recently used
page. -/
private theorem install (tracks : Tracks searched state stale live)
    (absent : call.page ∉ searched.recencyOrder.take tlbLines) {front : ℕ} {rest : List ℕ}
    (split : stale ++ live = front :: rest) {next : State} {frame : BitVec 20}
    (lines : next.tlb = Function.update state.tlb front ⟨call.page.setWidth 36, frame, true⟩)
    (order : Represents next (rest ++ [front])) :
    ∃ stale' live', Tracks (call.page :: searched) next stale' live' := by
  have count : (stale ++ live).length = tlbLines := by
    rw [tracks.lines.length_eq, List.length_range]
  have liveCount : live.length = (searched.recencyOrder.take tlbLines).length := by
    have := congrArg List.length tracks.recency
    simpa only [List.length_map, List.length_reverse] using this
  have frontDistinct : front ∉ rest := by
    have := tracks.distinct
    rw [split] at this
    exact (List.nodup_cons.mp this).1
  have permuted : (rest ++ [front]).Perm (List.range tlbLines) := by
    have := tracks.lines
    rw [split] at this
    exact (List.perm_append_singleton front rest).trans this
  have frontLine : next.tlb front = ⟨call.page.setWidth 36, frame, true⟩ := by
    rw [lines, Function.update_self]
  have otherLine : ∀ i ∈ rest, next.tlb i = state.tlb i := by
    intro i member
    rw [lines, Function.update_of_ne]
    rintro rfl
    exact frontDistinct member
  have frontPage : pageOf next.tlb front = call.page := by
    rw [pageOf, frontLine, setWidth_page]
  cases stale with
  | cons first stale =>
    -- an invalid line is left, so no page has to go
    rw [List.cons_append] at split
    obtain ⟨rfl, rfl⟩ := List.cons.inj split
    have shorter : live.length < tlbLines := by
      rw [← count, List.length_append, List.length_cons]
      omega
    refine ⟨stale, live ++ [first], by simpa only [List.append_assoc] using order,
      by simpa only [List.append_assoc] using permuted, ?_, ?_, ?_⟩
    · intro i member
      rw [otherLine i (List.mem_append_left _ member)]
      exact tracks.invalid i (List.mem_cons_of_mem _ member)
    · intro i member
      rcases List.mem_append.mp member with old | new
      · rw [otherLine i (List.mem_append_right _ old)]
        exact tracks.valid i old
      · rw [List.mem_singleton.mp new, frontLine]
    · rw [List.take_recencyOrder_cons_of_notMem absent,
        List.take_of_length_le (by rw [List.length_cons, ← liveCount]; exact shorter),
        List.map_append, map_pageOf_update lines fun old => frontDistinct (List.mem_append_right _ old),
        tracks.recency]
      simp [frontPage]
  | nil =>
    -- every line is live, and the front holds the least recently used page
    rw [List.nil_append] at split count
    subst split
    refine ⟨[], rest ++ [front], order, permuted, by simp, ?_, ?_⟩
    · intro i member
      rcases List.mem_append.mp member with old | new
      · rw [otherLine i old]
        exact tracks.valid i (List.mem_cons_of_mem _ old)
      · rw [List.mem_singleton.mp new, frontLine]
    · have residents : searched.recencyOrder.take tlbLines =
          (rest.map (pageOf state.tlb)).reverse ++ [pageOf state.tlb front] := by
        rw [← List.reverse_reverse (List.take _ _), ← tracks.recency]
        simp
      have size : tlbLines = (rest.map (pageOf state.tlb)).reverse.length + 1 := by
        simpa using count.symm
      rw [List.take_recencyOrder_cons_of_notMem absent, residents, List.map_append,
        map_pageOf_update lines frontDistinct, size, List.take_succ_cons, List.take_left]
      simp [frontPage]

/-- Searching any other page does what its page walk does, and a page that is found becomes the
most recent one. -/
theorem search_absent (tracks : Tracks searched state stale live)
    (absent : call.page ∉ searched.recencyOrder.take tlbLines) (allocated : call.MallocSucceeds) :
    match pageWalk call.memSpace call.vaddr call.paddr with
    | .error fault => tlbSearch state call = .error fault
    | .ok (code, target) =>
      if code ≠ .errNone then tlbSearch state call = .ok (state, ⟨.errMem, 0, target⟩)
      else ∃ next front, tlbSearch state call = .ok (next, ⟨.errNone, 0, target⟩) ∧
        next.tlb = Function.update state.tlb front ⟨call.page.setWidth 36, target.phyPageNum, true⟩ ∧
        ∃ stale' live', Tracks (call.page :: searched) next stale' live' := by
  have unmatched : ∀ i ∈ stale ++ live, ¬ Matches state.tlb call.vaddr i := by
    intro i member found
    obtain ⟨current, page⟩ := (tracks.matches_iff member).mp found
    exact absent ((tracks.mem_resident_iff _).mpr ⟨i, current, page⟩)
  obtain ⟨front, rest, split⟩ : ∃ front rest, stale ++ live = front :: rest := by
    cases listed : stale ++ live with
    | nil =>
      have count := tracks.lines.length_eq
      simp [listed, tlbLines] at count
    | cons front rest => exact ⟨front, rest, rfl⟩
  have missed := tlbSearch_miss (split ▸ tracks.order) (split ▸ tracks.inside) (split ▸ unmatched)
    allocated
  cases walked : pageWalk call.memSpace call.vaddr call.paddr with
  | error fault => simpa only [walked] using missed
  | ok result =>
    obtain ⟨code, target⟩ := result
    rcases eq_or_ne code .errNone with rfl | failure
    · simp only [walked, ne_eq, not_true_eq_false, ↓reduceIte] at missed ⊢
      obtain ⟨next, stepped, lines, order⟩ := missed
      exact ⟨next, front, stepped, lines, tracks.install absent split lines order⟩
    · simp only [walked, failure, ne_eq, not_false_eq_true, ↓reduceIte] at missed ⊢
      exact missed

end Tracks

end KabyLake.Tlb
