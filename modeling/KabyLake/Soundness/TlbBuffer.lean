import KabyLake.Machine.Refinement
import KabyLake.Math.LruBuffer
import KabyLake.Soundness.Tlb

/-! # The fully associative TLB when memory runs out

Searches with any outcomes of their allocations. A used line is moved to the back of the list by a copy
of its node if it is at the front, and if there is no memory for the copy its number leaves the list:
the TLB is a least-recently-used buffer that starts with 128 slots and may lose all but one of them.
What it answers stays right: a hit returns the frame of the last search of the page that missed.
-/

namespace KabyLake.Tlb

open Machine LruBuffer

abbrev Buffer := Slots (BitVec 64) (BitVec 20)

/-- One search on a buffer. -/
inductive BufferStep (before : Buffer) (call : Call) : Reply → Buffer → Prop
  | hit {frame : BitVec 20} {after : Buffer} : Used call.page frame (call.newNode = none) before after →
      BufferStep before call ⟨.errNone, 1, ⟨frame, call.vaddr.pageOffset⟩⟩ after
  | unmapped {code : ErrorCode} {target : PhyAddr} : call.page ∉ keys before →
      pageWalk call.memSpace call.vaddr call.paddr = .ok (code, target) → code ≠ .errNone →
      BufferStep before call ⟨.errMem, 0, call.paddr⟩ before
  | refused {target : PhyAddr} : call.page ∉ keys before →
      pageWalk call.memSpace call.vaddr call.paddr = .ok (.errNone, target) → call.newEntry = none →
      BufferStep before call ⟨.errBadParameter, 0, target⟩ before
  | fill {target : PhyAddr} {after : Buffer} : call.page ∉ keys before →
      pageWalk call.memSpace call.vaddr call.paddr = .ok (.errNone, target) → call.newEntry ≠ none →
      Entered call.page target.phyPageNum (call.newNode = none) before after →
      BufferStep before call ⟨.errNone, 0, target⟩ after

def contents (tlb : Lines) (i : ℕ) : Option (BitVec 64 × BitVec 20) :=
  if (tlb i).v = true then some (pageOf tlb i, (tlb i).phyPageNum) else none

/-- The list names each line at most once, and the lines in its order are the slots. -/
inductive Buffered (state : State) (slots : Buffer) : Prop
  | mk {order : List ℕ} : Represents state order → order ≠ [] → order.Nodup → (∀ i ∈ order, i < tlbLines) →
      slots = order.map (contents state.tlb) → (keys slots).Nodup → Buffered state slots

section Step

variable {state next : State} {slots : Buffer} {call : Call} {reply : Reply} {order : List ℕ} {i : ℕ}

theorem matches_iff_contents : Matches state.tlb call.vaddr i ↔
    contents state.tlb i = some (call.page, (state.tlb i).phyPageNum) := by
  constructor
  · rintro ⟨tag, valid⟩
    rw [contents, if_pos valid, pageOf, tag, Call.page]
  · intro here
    obtain ⟨valid, same⟩ := Option.ite_none_right_eq_some.mp here
    exact ⟨congrArg Prod.fst (Option.some.inj same), valid⟩

theorem page_notMem (absent : ∀ i ∈ order, ¬ Matches state.tlb call.vaddr i) :
    call.page ∉ keys (order.map (contents state.tlb)) := by
  rw [mem_keys]
  rintro ⟨frame, member⟩
  obtain ⟨i, listed, here⟩ := List.mem_map.mp member
  have valid := (Option.ite_none_right_eq_some.mp here).2
  obtain rfl : (state.tlb i).phyPageNum = frame := congrArg Prod.snd (Option.some.inj valid)
  exact absent i listed (matches_iff_contents.mpr here)

/-- A miss on a mapped page, for every outcome of the `malloc` in `move_back`. -/
theorem tlbSearch_fill {front : ℕ} {rest : List ℕ} {target : PhyAddr} {garbage : Entry}
    (represents : Represents state (front :: rest)) (inside : front < tlbLines)
    (missed : tlbHit call.vaddr call.paddr state call.newNode = .ok (0, call.paddr, state))
    (walked : pageWalk call.memSpace call.vaddr call.paddr = .ok (.errNone, target))
    (newEntry : call.newEntry = some garbage) :
    ∃ next, tlbSearch state call = .ok (next, ⟨.errNone, 0, target⟩) ∧
      next.tlb = Function.update state.tlb front ⟨call.page.setWidth 36, target.phyPageNum, true⟩ ∧
      Represents next (if call.newNode = none ∧ rest ≠ [] then rest else rest ++ [front]) := by
  obtain ⟨cells, formed, values⟩ := represents
  obtain ⟨cell, others, rfl, rfl, rfl⟩ : ∃ cell others, cells = cell :: others ∧ cell.2 = front ∧
      others.map Prod.snd = rest := by
    cases cells with
    | nil => simp at values
    | cons cell others => exact ⟨cell, others, rfl, by simpa using values⟩
  have front : state.ll.front = some cell.1 := formed.front
  have loaded := Heap.load_ok formed.linked.1
  rw [← List.nil_append (cell :: others)] at formed
  obtain ⟨heap, ll, moved, stepped, done, order⟩ := formed.moveBack_values call.newNode
  refine ⟨⟨Function.update state.tlb cell.2 _, heap, ll⟩, ?_, rfl, moved, done, by simpa using order⟩
  simp [tlbSearch, missed, walked, newEntry, tlbEntryInit, front, loaded, tlbInsert, inside, stepped,
    Call.page]

private theorem map_contents_update {front : ℕ} {entry : Entry} {others : List ℕ} (outside : front ∉ others) :
    others.map (contents (Function.update state.tlb front entry)) = others.map (contents state.tlb) := by
  apply List.map_congr_left
  intro i member
  have other : i ≠ front := ne_of_mem_of_not_mem member outside
  simp only [contents, pageOf, Function.update_of_ne other]

private theorem Buffered.hit {older newer : List ℕ}
    (distinct : (older ++ i :: newer).Nodup) (inside : ∀ j ∈ older ++ i :: newer, j < tlbLines)
    (keysDistinct : (keys ((older ++ i :: newer).map (contents state.tlb))).Nodup)
    (answers : Matches state.tlb call.vaddr i) (lines : next.tlb = state.tlb)
    (represents : Represents next (if call.newNode = none ∧ older = [] ∧ newer ≠ [] then newer
      else older ++ newer ++ [i])) :
    ∃ after, Used call.page (state.tlb i).phyPageNum (call.newNode = none)
      ((older ++ i :: newer).map (contents state.tlb)) after ∧ Buffered next after := by
  have here := matches_iff_contents.mp answers
  have slots : (older ++ i :: newer).map (contents state.tlb) = older.map (contents state.tlb) ++
      some (call.page, (state.tlb i).phyPageNum) :: newer.map (contents state.tlb) := by
    rw [List.map_append, List.map_cons, here]
  rw [slots] at keysDistinct ⊢
  split at represents
  · next failed =>
    obtain ⟨refused, rfl, several⟩ := failed
    have used : Used call.page (state.tlb i).phyPageNum (call.newNode = none)
        (some (call.page, (state.tlb i).phyPageNum) :: newer.map (contents state.tlb))
        (newer.map (contents state.tlb)) := .lost refused (by simpa using several)
    refine ⟨_, used, .mk represents several distinct.of_cons ?_ (by rw [lines]) (used.keys_nodup keysDistinct)⟩
    exact fun j member => inside j (List.mem_cons_of_mem _ member)
  · next kept =>
    have used : Used call.page (state.tlb i).phyPageNum (call.newNode = none)
        (older.map (contents state.tlb) ++ some (call.page, (state.tlb i).phyPageNum) ::
          newer.map (contents state.tlb)) _ := .moved (by simpa using kept)
    have moved : (older ++ newer ++ [i]).Perm (older ++ i :: newer) := by
      rw [List.append_assoc]
      exact (List.perm_append_singleton i newer).append_left older
    refine ⟨_, used, .mk represents (by simp) (moved.nodup_iff.mpr distinct) ?_ ?_
      (used.keys_nodup keysDistinct)⟩
    · exact fun j member => inside j (moved.mem_iff.mp member)
    · rw [lines, List.map_append, List.map_append, List.map_singleton, here]

private theorem Buffered.fill {front : ℕ} {rest : List ℕ} {frame : BitVec 20}
    (distinct : (front :: rest).Nodup) (inside : ∀ j ∈ front :: rest, j < tlbLines)
    (keysDistinct : (keys ((front :: rest).map (contents state.tlb))).Nodup)
    (absent : call.page ∉ keys ((front :: rest).map (contents state.tlb)))
    (lines : next.tlb = Function.update state.tlb front ⟨call.page.setWidth 36, frame, true⟩)
    (represents : Represents next (if call.newNode = none ∧ rest ≠ [] then rest else rest ++ [front])) :
    ∃ after, Entered call.page frame (call.newNode = none)
      ((front :: rest).map (contents state.tlb)) after ∧ Buffered next after := by
  obtain ⟨outside, distinctRest⟩ := List.nodup_cons.mp distinct
  have others : rest.map (contents next.tlb) = rest.map (contents state.tlb) := by
    rw [lines]
    exact map_contents_update outside
  rw [List.map_cons] at keysDistinct absent ⊢
  split at represents
  · next failed =>
    obtain ⟨refused, several⟩ := failed
    have entered : Entered call.page frame (call.newNode = none)
        (contents state.tlb front :: rest.map (contents state.tlb)) (rest.map (contents state.tlb)) :=
      .lost refused (by simpa using several)
    refine ⟨_, entered, .mk represents several distinctRest ?_ others.symm
      (entered.keys_nodup absent keysDistinct)⟩
    exact fun j member => inside j (List.mem_cons_of_mem _ member)
  · next kept =>
    have entered : Entered call.page frame (call.newNode = none)
        (contents state.tlb front :: rest.map (contents state.tlb)) _ := .replaced (by simpa using kept)
    have moved : (rest ++ [front]).Perm (front :: rest) := List.perm_append_singleton front rest
    have here : contents next.tlb front = some (call.page, frame) := by
      rw [lines, contents, pageOf, Function.update_self, if_pos rfl, setWidth_page]
    refine ⟨_, entered, .mk represents (by simp) (moved.nodup_iff.mpr distinct) ?_ ?_
      (entered.keys_nodup absent keysDistinct)⟩
    · exact fun j member => inside j (moved.mem_iff.mp member)
    · rw [List.map_append, others, List.map_singleton, here]

/-- A search is a search of the buffer, or it faults in the page walk of a page that no slot holds. -/
theorem Buffered.search_cases (buffered : Buffered state slots) (call : Call) :
    (∃ next reply after, tlbSearch state call = .ok (next, reply) ∧ BufferStep slots call reply after ∧
        Buffered next after) ∨
      ∃ fault, tlbSearch state call = .error fault ∧ call.page ∉ keys slots ∧
        pageWalk call.memSpace call.vaddr call.paddr = .error fault := by
  obtain ⟨represents, nonempty, distinct, inside, rfl, keysDistinct⟩ := buffered
  rcases tlbHit_cases call.vaddr call.paddr represents inside call.newNode with ⟨missed, absent⟩ |
    ⟨older, i, newer, next, rfl, answers, hit, lines, moved⟩
  · have missing := page_notMem absent
    obtain ⟨front, rest, rfl⟩ := List.exists_cons_of_ne_nil nonempty
    cases walked : pageWalk call.memSpace call.vaddr call.paddr with
    | error fault =>
      refine .inr ⟨fault, ?_, missing, rfl⟩
      simp [tlbSearch, missed, walked]
    | ok result =>
      obtain ⟨code, target⟩ := result
      rcases eq_or_ne code .errNone with rfl | failure
      · cases newEntry : call.newEntry with
        | none =>
          refine .inl ⟨state, _, _, ?_, .refused missing walked newEntry,
            .mk represents nonempty distinct inside rfl keysDistinct⟩
          simp [tlbSearch, missed, walked, newEntry]
        | some garbage =>
          obtain ⟨next, searched, lines, moved⟩ := tlbSearch_fill represents
            (inside _ (List.mem_cons_self ..)) missed walked newEntry
          obtain ⟨after, entered, kept⟩ := Buffered.fill distinct inside keysDistinct missing lines moved
          exact .inl ⟨next, _, after, searched, .fill missing walked (by simp [newEntry]) entered, kept⟩
      · refine .inl ⟨state, _, _, ?_, .unmapped missing walked failure,
          .mk represents nonempty distinct inside rfl keysDistinct⟩
        simp [tlbSearch, missed, walked, failure, pageWalk_failure walked failure]
  · obtain ⟨after, used, kept⟩ := Buffered.hit distinct inside keysDistinct answers lines moved
    refine .inl ⟨next, _, after, ?_, .hit used, kept⟩
    simp [tlbSearch, hit]

/-- One search of the TLB is a search of the buffer, whatever its allocations return. -/
theorem tlbSearch_simulates : Simulates tlbSearch (fun _ _ => True) BufferStep Buffered := by
  intro state slots call next reply buffered _ stepped
  rcases buffered.search_cases call with ⟨next', reply', after, searched, step, kept⟩ | ⟨fault, stopped, _⟩
  · obtain ⟨rfl, rfl⟩ := Prod.mk.inj (Except.ok.inj (stepped.symm.trans searched))
    exact ⟨after, step, kept⟩
  · rw [stopped] at stepped
    contradiction

end Step

section Runs

variable {start state : State} {history : List (Call × Reply)} {slots : Buffer}

theorem Initial.buffered (initial : Initial start) : Buffered start (List.replicate 128 none) := by
  refine .mk initial.order (by decide) List.nodup_range (fun i member => List.mem_range.mp member) ?_ ?_
  · symm
    rw [List.eq_replicate_iff]
    refine ⟨by simp [tlbLines], fun slot member => ?_⟩
    obtain ⟨i, listed, rfl⟩ := List.mem_map.mp member
    rw [contents, initial.flushed i (List.mem_range.mp listed)]
    rfl
  · rw [keys, List.filterMap_replicate_of_none rfl]
    exact List.nodup_nil

/-- The buffer keeps a slot, and loses at most one with each search that gets no memory for a node. -/
private theorem length_of_trace (trace : Trace BufferStep (List.replicate 128 none) history slots) :
    slots ≠ [] ∧ slots.length ≤ 128 ∧
      128 ≤ slots.length + history.countP fun event => event.1.newNode.isNone := by
  refine trace.invariant_history (fun history slots => slots ≠ [] ∧ slots.length ≤ 128 ∧
    128 ≤ slots.length + history.countP fun event => event.1.newNode.isNone) (by simp) ?_
  rintro history before call reply after ⟨nonempty, most, least⟩ step
  rw [List.countP_cons]
  have changed (kept : after ≠ [] ∧ (after.length = before.length ∨
      call.newNode = none ∧ after.length + 1 = before.length)) : after ≠ [] ∧ after.length ≤ 128 ∧
      128 ≤ after.length + (history.countP (fun event => event.1.newNode.isNone) +
        if call.newNode.isNone then 1 else 0) := by
    obtain ⟨nonempty, same | ⟨refused, fewer⟩⟩ := kept
    · exact ⟨nonempty, by omega, by omega⟩
    · rw [refused, Option.isNone_none, if_pos rfl]
      exact ⟨nonempty, by omega, by omega⟩
  cases step with
  | hit used => exact changed used.length
  | fill _ _ _ entered => exact changed entered.length
  | unmapped | refused => exact ⟨nonempty, most, by omega⟩

/-- Whatever its allocations return and whatever the memory is at each call, a run of searches is a run
of a least-recently-used buffer, which starts with 128 empty slots, loses at most one with each search
that gets no memory for a list node, and keeps one; and a search faults only where its page walk does,
for a page that no slot holds. -/
theorem run_refines_buffer (initial : Initial start)
    (run : Run tlbSearch (fun _ _ => True) start history state) :
    ∃ slots, Trace BufferStep (List.replicate 128 none) history slots ∧ Buffered state slots ∧
      1 ≤ slots.length ∧ slots.length ≤ 128 ∧
      128 ≤ slots.length + (history.countP fun event => event.1.newNode.isNone) ∧
      ∀ call fault, tlbSearch state call = .error fault ↔ call.page ∉ keys slots ∧
        pageWalk call.memSpace call.vaddr call.paddr = .error fault := by
  obtain ⟨slots, trace, buffered⟩ := tlbSearch_simulates.trace initial.buffered run
  obtain ⟨nonempty, most, least⟩ := length_of_trace trace
  refine ⟨slots, trace, buffered, List.length_pos_iff.mpr nonempty, most, least, fun call fault => ?_⟩
  rcases buffered.search_cases call with ⟨next, reply, after, searched, step, _⟩ | ⟨other, stopped, both⟩
  · rw [searched]
    refine iff_of_false (by simp) ?_
    rintro ⟨missing, walked⟩
    cases step with
    | hit used =>
      apply missing
      rw [mem_keys]
      cases used with
      | moved => exact ⟨_, List.mem_append_right _ (List.mem_cons_self ..)⟩
      | lost => exact ⟨_, List.mem_cons_self ..⟩
    | unmapped _ ended | refused _ ended | fill _ ended => rw [walked] at ended; contradiction
  · rw [stopped]
    constructor
    · intro same
      obtain rfl := Except.error.inj same
      exact both
    · rintro ⟨_, walked⟩
      rw [both.2] at walked
      exact congrArg Except.error (Except.error.inj walked)

/-- The last search of the page that missed with success got this frame from its page walk, in the
memory of that call. -/
def LastFill (history : List (Call × Reply)) (page : BitVec 64) (frame : BitVec 20) : Prop :=
  ∃ newer call reply older, history = newer ++ (call, reply) :: older ∧ call.page = page ∧
    reply.code = .errNone ∧ reply.hitOrMiss = 0 ∧
    pageWalk call.memSpace call.vaddr call.paddr = .ok (.errNone, reply.paddr) ∧
    reply.paddr.phyPageNum = frame ∧
    ∀ later ∈ newer, later.1.page = page → later.2.code = .errNone → later.2.hitOrMiss = 1

/-- A search that is no successful miss of the page leaves its last fill. -/
theorem LastFill.snoc {page : BitVec 64} {frame : BitVec 20} {call : Call} {reply : Reply}
    (filled : LastFill history page frame)
    (other : call.page = page → reply.code = .errNone → reply.hitOrMiss = 1) :
    LastFill ((call, reply) :: history) page frame := by
  obtain ⟨newer, event, answer, older, rfl, same, success, missed, walked, found, hits⟩ := filled
  refine ⟨(call, reply) :: newer, event, answer, older, rfl, same, success, missed, walked, found, ?_⟩
  intro later member
  rcases List.mem_cons.mp member with rfl | earlier
  · exact other
  · exact hits later earlier

private theorem lastFill_of_trace (trace : Trace BufferStep (List.replicate 128 none) history slots) :
    ∀ page frame, some (page, frame) ∈ slots → LastFill history page frame := by
  refine trace.invariant_history
    (fun history slots => ∀ page frame, some (page, frame) ∈ slots → LastFill history page frame)
    (by simp) ?_
  intro history before call reply after filled step page frame member
  cases step with
  | hit used => exact (filled page frame (used.mem member)).snoc fun _ _ => rfl
  | unmapped => exact (filled page frame member).snoc fun _ success => by contradiction
  | refused => exact (filled page frame member).snoc fun _ success => by contradiction
  | @fill target _ missing walked _ entered =>
    rcases entered.mem member with old | new
    · refine (filled page frame old).snoc fun same => ?_
      subst same
      exact (missing (mem_keys.mpr ⟨frame, old⟩)).elim
    · obtain ⟨rfl, rfl⟩ := Prod.mk.inj new
      exact ⟨[], call, _, history, rfl, rfl, rfl, rfl, walked, rfl, by simp⟩

/-- Whatever the allocations return, a hit answers with the frame that the page walk of the last search
of the page that missed found in the memory of its time. -/
theorem hit_returns_lastFill (initial : Initial start)
    (run : Run tlbSearch (fun _ _ => True) start history state) {call : Call} {next : State}
    {reply : Reply} (stepped : tlbSearch state call = .ok (next, reply)) (hit : reply.hitOrMiss = 1) :
    reply.code = .errNone ∧ reply.paddr.pageOffset = call.vaddr.pageOffset ∧
      LastFill history call.page reply.paddr.phyPageNum := by
  obtain ⟨slots, trace, buffered⟩ := tlbSearch_simulates.trace initial.buffered run
  obtain ⟨after, step, _⟩ := tlbSearch_simulates _ _ _ _ _ buffered trivial stepped
  cases step with
  | hit used => exact ⟨rfl, rfl, lastFill_of_trace trace _ _ used.found⟩
  | unmapped | refused | fill => contradiction

/-- Over one memory every successful search returns what the page walk of its address returns, also
after searches that ran out of memory. -/
theorem translation_anyMalloc {memSpace : MemSpace} (initial : Initial start)
    (run : Run tlbSearch (fun _ call => call.memSpace = memSpace) start history state) {call : Call}
    (fixed : call.memSpace = memSpace) {next : State} {reply : Reply}
    (stepped : tlbSearch state call = .ok (next, reply)) (success : reply.code = .errNone) :
    pageWalk memSpace call.vaddr call.paddr = .ok (.errNone, reply.paddr) := by
  have anyRun := run.mono fun _ _ _ => trivial
  obtain ⟨slots, trace, buffered⟩ := tlbSearch_simulates.trace initial.buffered anyRun
  obtain ⟨after, step, _⟩ := tlbSearch_simulates _ _ _ _ _ buffered trivial stepped
  have memories : ∀ event ∈ history, event.1.memSpace = memSpace := by
    refine run.invariant_history (fun history _ => ∀ event ∈ history, event.1.memSpace = memSpace)
      (by simp) fun history _ call _ reply same fixed _ event member => ?_
    rcases List.mem_cons.mp member with rfl | earlier
    · exact fixed
    · exact same event earlier
  cases step with
  | @hit frame after used =>
    obtain ⟨newer, event, answer, older, split, same, _, _, walked, found, _⟩ :=
      lastFill_of_trace trace call.page frame used.found
    rw [memories (event, answer) (by rw [split]; simp)] at walked
    have walks : Walks memSpace call.page frame := ⟨event.vaddr, event.paddr, answer.paddr, same, walked, found⟩
    exact walks.pageWalk call.paddr
  | unmapped | refused => contradiction
  | fill _ walked => rwa [fixed] at walked

private theorem pageCall_tag (newNode : Option ListNode) : (pageCall newNode).page.setWidth 36 = 0 := by
  have page : (pageCall newNode).page = virtAddrTToVirtualPageNumber ⟨0, 0, 0, 0, 0, 0⟩ := rfl
  rw [page]
  decide

private theorem pageCall_miss {front : ℕ} {rest : List ℕ} (represents : Represents state (front :: rest))
    (several : rest ≠ []) (inside : ∀ i ∈ front :: rest, i < tlbLines)
    (flushed : ∀ i ∈ front :: rest, state.tlb i = ⟨0, 0, false⟩) (newNode : Option ListNode) :
    ∃ next, tlbSearch state (pageCall newNode) = .ok (next, ⟨.errNone, 0, ⟨0, 0⟩⟩) ∧
      next.tlb = Function.update state.tlb front ⟨0, 0, true⟩ ∧
      Represents next (if newNode = none then rest else rest ++ [front]) := by
  have absent : ∀ i ∈ front :: rest, ¬ Matches state.tlb (pageCall newNode).vaddr i := by
    rintro i member ⟨_, valid⟩
    rw [flushed i member] at valid
    contradiction
  have missed := tlbHit_of_not_matches (pageCall newNode).paddr represents inside absent newNode
  obtain ⟨next, searched, lines, moved⟩ :=
    tlbSearch_fill represents (inside _ List.mem_cons_self) missed (pageCall_walk newNode) rfl
  rw [pageCall_tag] at lines
  have asked : (pageCall newNode).newNode = newNode := rfl
  simp only [asked, several, ne_eq, not_false_eq_true, and_true] at moved
  exact ⟨next, searched, lines, moved⟩

private theorem pageCall_search (initial : Initial start) (newNode : Option ListNode) :
    ∃ state, tlbSearch start (pageCall newNode) = .ok (state, ⟨.errNone, 0, ⟨0, 0⟩⟩) ∧
      state.tlb = Function.update start.tlb 0 ⟨0, 0, true⟩ ∧
      Represents state (if newNode = none then List.range' 1 127 else List.range' 1 127 ++ [0]) := by
  have order : List.range tlbLines = 0 :: List.range' 1 127 := rfl
  have inside : ∀ i ∈ List.range tlbLines, i < tlbLines := fun i => List.mem_range.mp
  have flushed : ∀ i ∈ List.range tlbLines, start.tlb i = ⟨0, 0, false⟩ :=
    fun i member => initial.flushed i (inside i member)
  have represents := initial.order
  rw [order] at represents inside flushed
  exact pageCall_miss represents (by simp) inside flushed newNode

theorem run_refines_buffer_starved : ∃ start state slots,
    setUp (fun _ => ⟨0, 0, false⟩) ⟨0, none, none⟩ = .ok start ∧
      Trace BufferStep (List.replicate 128 none) [(pageCall none, ⟨.errNone, 0, ⟨0, 0⟩⟩)] slots ∧
      Buffered state slots ∧ 127 ≤ slots.length := by
  obtain ⟨start, prepared, initial⟩ := setUp_ok (fun _ => ⟨0, 0, false⟩) ⟨0, none, none⟩
  obtain ⟨state, searched, _⟩ := pageCall_search initial none
  obtain ⟨slots, trace, buffered, _, _, least, _⟩ :=
    run_refines_buffer initial (.snoc .nil trivial searched)
  have lost : [(pageCall none, (⟨.errNone, 0, ⟨0, 0⟩⟩ : Reply))].countP
      (fun event => event.1.newNode.isNone) = 1 := rfl
  exact ⟨start, state, slots, prepared, trace, buffered, by omega⟩

private theorem pageCall_again (initial : Initial start) : ∃ state next,
    Run tlbSearch (fun _ call => call.memSpace = zeroPage) start
        [(zeroCall, ⟨.errNone, 0, ⟨0, 0⟩⟩)] state ∧
      tlbSearch state zeroCall = .ok (next, ⟨.errNone, 1, ⟨0, 0⟩⟩) := by
  obtain ⟨state, searched, lines, moved⟩ := pageCall_search initial (some ⟨0, none, none⟩)
  rw [if_neg (by simp)] at moved
  have page : Matches state.tlb zeroCall.vaddr 0 := by
    rw [Matches, lines, Function.update_self]
    exact ⟨rfl, rfl⟩
  have unique : ∀ j ∈ List.range' 1 127 ++ [0],
      Matches state.tlb zeroCall.vaddr j → j = 0 := by
    intro j member found
    by_contra other
    have valid := found.2
    have below : j < tlbLines := by
      rcases List.mem_append.mp member with later | first
      · have range := List.mem_range'_1.mp later
        rw [tlbLines]
        omega
      · exact absurd (List.mem_singleton.mp first) other
    rw [lines, Function.update_of_ne other, initial.flushed j below] at valid
    contradiction
  have distinct : (List.range' 1 127 ++ [0]).Nodup :=
    List.Nodup.append List.nodup_range' (List.nodup_singleton 0) (by simp)
  have bounds : ∀ i ∈ List.range' 1 127 ++ [0], i < tlbLines := by
    intro i member
    simp only [List.mem_append, List.mem_range'_1, List.mem_singleton] at member
    rw [tlbLines]
    omega
  obtain ⟨next, again, _⟩ := tlbSearch_hit moved distinct bounds (by simp) page unique ⟨rfl, rfl⟩
  rw [lines, Function.update_self] at again
  exact ⟨state, next, .snoc .nil rfl searched, again⟩

theorem hit_returns_lastFill_again : ∃ start state next,
    setUp (fun _ => ⟨0, 0, false⟩) ⟨0, none, none⟩ = .ok start ∧
      Run tlbSearch (fun _ _ => True) start [(zeroCall, ⟨.errNone, 0, ⟨0, 0⟩⟩)] state ∧
      tlbSearch state zeroCall = .ok (next, ⟨.errNone, 1, ⟨0, 0⟩⟩) ∧
      LastFill [(zeroCall, ⟨.errNone, 0, ⟨0, 0⟩⟩)] zeroCall.page 0 := by
  obtain ⟨start, prepared, initial⟩ := setUp_ok (fun _ => ⟨0, 0, false⟩) ⟨0, none, none⟩
  obtain ⟨state, next, run, again⟩ := pageCall_again initial
  have anyRun := run.mono fun _ _ _ => trivial
  exact ⟨start, state, next, prepared, anyRun, again, (hit_returns_lastFill initial anyRun again rfl).2.2⟩

/-- The first search gets no memory for a node, so that its page is entered a second time. -/
theorem translation_anyMalloc_starved : ∃ start state next,
    setUp (fun _ => ⟨0, 0, false⟩) ⟨0, none, none⟩ = .ok start ∧
      Run tlbSearch (fun _ call => call.memSpace = zeroPage) start
        [(pageCall none, ⟨.errNone, 0, ⟨0, 0⟩⟩)] state ∧
      tlbSearch state zeroCall = .ok (next, ⟨.errNone, 0, ⟨0, 0⟩⟩) ∧
      pageWalk zeroPage ⟨0, 0, 0, 0, 0, 0⟩ ⟨0, 0⟩ = .ok (.errNone, ⟨0, 0⟩) := by
  obtain ⟨start, prepared, initial⟩ := setUp_ok (fun _ => ⟨0, 0, false⟩) ⟨0, none, none⟩
  obtain ⟨state, searched, lines, order⟩ := pageCall_search initial none
  have left : List.range' 1 127 = 1 :: List.range' 2 126 := rfl
  have inside : ∀ i ∈ List.range' 1 127, i < tlbLines := fun i member => by
    simpa [tlbLines] using (List.mem_range'_1.mp member).2
  have flushed : ∀ i ∈ List.range' 1 127, state.tlb i = ⟨0, 0, false⟩ := by
    intro i member
    have other : i ≠ 0 := Nat.one_le_iff_ne_zero.mp (List.mem_range'_1.mp member).1
    rw [lines, Function.update_of_ne other, initial.flushed i (inside i member)]
  rw [if_pos rfl, left] at order
  rw [left] at inside flushed
  obtain ⟨next, again, _⟩ := pageCall_miss order (by simp) inside flushed (some ⟨0, none, none⟩)
  have run : Run tlbSearch (fun _ call => call.memSpace = zeroPage) start
      [(pageCall none, ⟨.errNone, 0, ⟨0, 0⟩⟩)] state := .snoc .nil rfl searched
  exact ⟨start, state, next, prepared, run, again, translation_anyMalloc initial run rfl again rfl⟩

end Runs

end KabyLake.Tlb
