import KabyLake.Proofs.TlbRecency

/-! # Runs of the fully associative TLB

Every run of searches from the initial state keeps the replacement list a recency order. Hits are
therefore exactly those of a least-recently-used buffer of 128 pages, and over one memory a hit
answers what the page walk would.
-/

namespace KabyLake.Tlb

open Machine

/-- A flushed TLB whose list holds all line numbers in order. -/
structure Initial (state : State) : Prop where
  order : Represents state (List.range tlbLines)
  flushed : ∀ i < tlbLines, state.tlb i = ⟨0, 0, false⟩

private theorem fillList_ok (garbage : ListNode) :
    ∀ (count next : ℕ) {heap : Heap} {ll : ListT} {cells : List Cell},
      WellFormed heap ll cells → ∃ heap' ll' cells',
        fillList garbage count next heap ll = .ok (heap', ll') ∧ WellFormed heap' ll' cells' ∧
        cells'.map Prod.snd = cells.map Prod.snd ++ List.range' next count
  | 0, _, heap, ll, cells, formed => ⟨heap, ll, cells, rfl, formed, by simp⟩
  | count + 1, next, _, _, _, formed => by
    obtain ⟨longer, list, pushed, appended⟩ := formed.pushBack next garbage
    obtain ⟨heap', ll', cells', filled, done, values⟩ := fillList_ok garbage count (next + 1) appended
    refine ⟨heap', ll', cells', ?_, done, ?_⟩
    · simp [fillList, pushed, filled]
    · simp [values, List.range'_succ]

theorem setUp_ok (tlb : Lines) (garbage : ListNode) :
    ∃ state, setUp tlb garbage = .ok state ∧ Initial state := by
  have nothing : WellFormed Heap.empty initList [] := ⟨rfl, rfl, trivial, List.nodup_nil⟩
  obtain ⟨heap, ll, cells, filled, formed, values⟩ := fillList_ok garbage tlbLines 0 nothing
  refine ⟨⟨tlbFlush tlb, heap, ll⟩, by simp [setUp, filled], ⟨cells, formed, ?_⟩, ?_⟩
  · simpa [List.range_eq_range'] using values
  · intro i bound
    exact if_pos bound

def searched (history : List (Call × Reply)) : List (BitVec 64) :=
  (history.filter fun event => event.2.code = .errNone).map fun event => event.1.page

variable {start state : State} {history : List (Call × Reply)} {frame : BitVec 20}

theorem searched_cons_success (call : Call) (reply : Reply) (success : reply.code = .errNone) :
    searched ((call, reply) :: history) = call.page :: searched history := by
  simp [searched, success]

theorem searched_cons_failure (call : Call) (reply : Reply) (failure : reply.code ≠ .errNone) :
    searched ((call, reply) :: history) = searched history := by
  simp [searched, failure]

theorem Initial.tracks (initial : Initial start) : Tracks [] start (List.range tlbLines) [] where
  order := by simpa using initial.order
  lines := by simp
  invalid i member := by rw [initial.flushed i (List.mem_range.mp member)]
  valid := by simp
  recency := rfl

inductive Searched (pages : List (BitVec 64)) (state : State) (call : Call) : State → Reply → Prop
  | hit {next : State} {stale live : List ℕ} {i : ℕ} :
      call.page ∈ pages.recencyOrder.take tlbLines → pageOf state.tlb i = call.page →
      next.tlb = state.tlb → Tracks (call.page :: pages) next stale live →
      Searched pages state call next
        ⟨.errNone, 1, ⟨(state.tlb i).phyPageNum, call.vaddr.pageOffset⟩⟩
  | failure {code : ErrorCode} {target : PhyAddr} : call.page ∉ pages.recencyOrder.take tlbLines →
      pageWalk call.memSpace call.vaddr call.paddr = .ok (code, target) → code ≠ .errNone →
      Searched pages state call state ⟨.errMem, 0, target⟩
  | miss {next : State} {stale live : List ℕ} {target : PhyAddr} {front : ℕ} :
      call.page ∉ pages.recencyOrder.take tlbLines →
      pageWalk call.memSpace call.vaddr call.paddr = .ok (.errNone, target) →
      next.tlb = Function.update state.tlb front ⟨call.page.setWidth 36, target.phyPageNum, true⟩ →
      Tracks (call.page :: pages) next stale live →
      Searched pages state call next ⟨.errNone, 0, target⟩

theorem Tracks.search_cases {pages : List (BitVec 64)} {stale live : List ℕ}
    (tracks : Tracks pages state stale live) {call : Call} (allocated : call.MallocSucceeds)
    {next : State} {reply : Reply} (stepped : tlbSearch state call = .ok (next, reply)) :
    Searched pages state call next reply := by
  rcases em (call.page ∈ pages.recencyOrder.take tlbLines) with resident | absent
  · obtain ⟨_, _, page, after, hit, lines, _, kept⟩ := tracks.search_resident resident allocated
    obtain ⟨rfl, rfl⟩ := Prod.mk.inj (Except.ok.inj (stepped.symm.trans hit))
    exact .hit resident page lines kept
  · have missed := tracks.search_absent absent allocated
    cases walked : pageWalk call.memSpace call.vaddr call.paddr with
    | error fault =>
      simp only [walked, stepped, reduceCtorEq] at missed
    | ok result =>
      obtain ⟨code, target⟩ := result
      rcases eq_or_ne code .errNone with rfl | failure
      · simp only [walked, ne_eq, not_true_eq_false, ↓reduceIte] at missed
        obtain ⟨after, front, found, lines, _, _, kept⟩ := missed
        obtain ⟨rfl, rfl⟩ := Prod.mk.inj (Except.ok.inj (stepped.symm.trans found))
        exact .miss absent walked lines kept
      · simp only [walked, failure, ne_eq, not_false_eq_true, ↓reduceIte] at missed
        obtain ⟨rfl, rfl⟩ := Prod.mk.inj (Except.ok.inj (stepped.symm.trans missed))
        exact .failure absent walked failure

/-- One search keeps the list a recency order, whatever the call does. -/
theorem Tracks.step {stale live : List ℕ} (tracks : Tracks (searched history) state stale live)
    {call : Call} (allocated : call.MallocSucceeds) {next : State} {reply : Reply}
    (stepped : tlbSearch state call = .ok (next, reply)) :
    ∃ stale' live', Tracks (searched ((call, reply) :: history)) next stale' live' := by
  cases tracks.search_cases allocated stepped with
  | hit _ _ _ kept | miss _ _ _ kept =>
    rw [searched_cons_success _ _ rfl]
    exact ⟨_, _, kept⟩
  | failure =>
    rw [searched_cons_failure _ _ (by simp)]
    exact ⟨stale, live, tracks⟩

/-- After every run the list is the recency order of the successful searches. -/
theorem tracks_of_run (initial : Initial start)
    (run : Run tlbSearch (fun _ call => call.MallocSucceeds) start history state) :
    ∃ stale live, Tracks (searched history) state stale live :=
  run.invariant_history (fun history state => ∃ stale live, Tracks (searched history) state stale live)
    ⟨_, _, initial.tracks⟩
    (fun _ _ _ _ _ ⟨_, _, tracks⟩ allocated stepped => tracks.step allocated stepped)

def zeroPage : MemSpace := ⟨4096, fun _ => 0⟩

def pageCall (newNode : Option ListNode) : Call :=
  ⟨zeroPage, ⟨0, 0, 0, 0, 0, 0⟩, ⟨0, 0⟩, newNode, some ⟨0, 0, false⟩⟩

abbrev zeroCall : Call := pageCall (some ⟨0, none, none⟩)

theorem zeroPage_walk : pageWalk zeroPage ⟨0, 0, 0, 0, 0, 0⟩ ⟨0, 0⟩ = .ok (.errNone, ⟨0, 0⟩) := by rfl

theorem pageCall_walk (newNode : Option ListNode) :
    pageWalk (pageCall newNode).memSpace (pageCall newNode).vaddr (pageCall newNode).paddr =
      .ok (.errNone, ⟨0, 0⟩) := zeroPage_walk

private theorem zeroCall_search {start : State} (initial : Initial start) :
    ∃ state, tlbSearch start zeroCall = .ok (state, ⟨.errNone, 0, ⟨0, 0⟩⟩) := by
  have absent : zeroCall.page ∉ (List.recencyOrder []).take tlbLines := by simp [List.recencyOrder]
  have missed := initial.tracks.search_absent absent ⟨rfl, rfl⟩
  simp only [pageCall_walk, ne_eq, not_true_eq_false, ↓reduceIte] at missed
  obtain ⟨state, _, first, _⟩ := missed
  exact ⟨state, first⟩

/-- The replacement list, read from front to back, holds every line number once and no valid line
before an invalid one, and the valid lines have distinct tags. -/
structure Arranged (state : State) : Prop where
  list : ∃ order, Represents state order ∧ order.Perm (List.range 128) ∧
    order.Pairwise fun i j => (state.tlb i).v = true → (state.tlb j).v = true
  tags : ∀ i < 128, ∀ j < 128, (state.tlb i).v = true → (state.tlb j).v = true →
    (state.tlb i).tag = (state.tlb j).tag → i = j

theorem Tracks.arranged {pages : List (BitVec 64)} {stale live : List ℕ}
    (tracks : Tracks pages state stale live) : Arranged state where
  list := by
    refine ⟨stale ++ live, tracks.order, tracks.lines, List.pairwise_append.mpr ⟨?_, ?_, ?_⟩⟩
    · apply List.pairwise_of_forall_mem_list
      intro i member j _ valid
      simp [tracks.invalid i member] at valid
    · apply List.pairwise_of_forall_mem_list
      exact fun _ _ j member _ => tracks.valid j member
    · exact fun _ _ j member _ => tracks.valid j member
  tags := by
    have covered {i : ℕ} (bound : i < 128) (valid : (state.tlb i).v = true) : i ∈ live := by
      have listed : i ∈ stale ++ live := tracks.lines.mem_iff.mpr (List.mem_range.mpr bound)
      rcases List.mem_append.mp listed with old | current
      · simp [tracks.invalid i old] at valid
      · exact current
    intro i hi j hj validI validJ same
    apply tracks.page_injective (covered hi validI) (covered hj validJ)
    rw [pageOf, pageOf, same]

/-- No run loses or duplicates a line of the list, and none enters a page twice. -/
theorem arranged_of_run (initial : Initial start)
    (run : Run tlbSearch (fun _ call => call.MallocSucceeds) start history state) :
    Arranged state := by
  obtain ⟨stale, live, tracks⟩ := tracks_of_run initial run
  exact tracks.arranged

theorem arranged_of_run_search :
    ∃ start state, setUp (fun _ => ⟨0, 0, false⟩) ⟨0, none, none⟩ = .ok start ∧
      tlbSearch start zeroCall = .ok (state, ⟨.errNone, 0, ⟨0, 0⟩⟩) ∧ Arranged state := by
  obtain ⟨start, prepared, initial⟩ := setUp_ok (fun _ => ⟨0, 0, false⟩) ⟨0, none, none⟩
  obtain ⟨state, first⟩ := zeroCall_search initial
  have run : Run tlbSearch (fun _ call => call.MallocSucceeds) start
      [(zeroCall, ⟨.errNone, 0, ⟨0, 0⟩⟩)] state := .snoc .nil ⟨rfl, rfl⟩ first
  exact ⟨start, state, prepared, first, arranged_of_run initial run⟩

/-- Hits are those of least-recently-used replacement over 128 pages: the page was searched with
success, and fewer than 128 distinct other pages have been since. -/
theorem hit_iff_recentlySearched (initial : Initial start)
    (run : Run tlbSearch (fun _ call => call.MallocSucceeds) start history state)
    {call : Call} (allocated : call.MallocSucceeds) {next : State} {reply : Reply}
    (stepped : tlbSearch state call = .ok (next, reply)) :
    reply.hitOrMiss = 1 ↔ call.page ∈ searched history ∧
      ((searched history).takeWhile (· ≠ call.page)).toFinset.card < 128 := by
  obtain ⟨stale, live, tracks⟩ := tracks_of_run initial run
  rw [← List.mem_take_recencyOrder_iff, show 128 = tlbLines from rfl]
  cases tracks.search_cases allocated stepped with
  | hit resident _ _ _ => simp [resident]
  | failure absent _ _ => simp [absent]
  | miss absent _ _ _ => simp [absent]

theorem hit_iff_recentlySearched_twice :
    ∃ start state next reply, setUp (fun _ => ⟨0, 0, false⟩) ⟨0, none, none⟩ = .ok start ∧
      tlbSearch start zeroCall = .ok (state, ⟨.errNone, 0, ⟨0, 0⟩⟩) ∧
      tlbSearch state zeroCall = .ok (next, reply) ∧ reply.hitOrMiss = 1 := by
  obtain ⟨start, prepared, initial⟩ := setUp_ok (fun _ => ⟨0, 0, false⟩) ⟨0, none, none⟩
  have allocated : zeroCall.MallocSucceeds := ⟨rfl, rfl⟩
  obtain ⟨state, first⟩ := zeroCall_search initial
  have run : Run tlbSearch (fun _ call => call.MallocSucceeds) start
      [(zeroCall, ⟨.errNone, 0, ⟨0, 0⟩⟩)] state := .snoc .nil allocated first
  obtain ⟨_, _, tracks⟩ := tracks_of_run initial run
  have resident : zeroCall.page ∈
      (searched [(zeroCall, ⟨.errNone, 0, ⟨0, 0⟩⟩)]).recencyOrder.take tlbLines := by decide
  obtain ⟨_, _, _, next, second, _⟩ := tracks.search_resident resident allocated
  refine ⟨start, state, next, _, prepared, first, second, ?_⟩
  exact (hit_iff_recentlySearched initial run allocated second).mpr (by decide)

/-- Every valid line answers what a page walk of its page finds. -/
def Coherent (memSpace : MemSpace) (tlb : Lines) : Prop :=
  ∀ i, (tlb i).v = true → i < tlbLines → Walks memSpace (pageOf tlb i) (tlb i).phyPageNum

theorem Coherent.update {memSpace : MemSpace} {tlb : Lines} (coherent : Coherent memSpace tlb)
    {call : Call} (walks : Walks memSpace call.page frame) (front : ℕ) :
    Coherent memSpace (Function.update tlb front ⟨call.page.setWidth 36, frame, true⟩) := by
  intro i valid bound
  rcases eq_or_ne i front with rfl | other
  · simpa only [pageOf, Function.update_self, setWidth_page] using walks
  · rw [Function.update_of_ne other] at valid ⊢
    simpa only [pageOf, Function.update_of_ne other] using coherent i valid bound

/-- Over a fixed memory one search keeps the lines coherent. -/
theorem Tracks.step_coherent {memSpace : MemSpace} {stale live : List ℕ}
    (tracks : Tracks (searched history) state stale live) (coherent : Coherent memSpace state.tlb)
    {call : Call} (allocated : call.MallocSucceeds) (fixed : call.memSpace = memSpace) {next : State}
    {reply : Reply} (stepped : tlbSearch state call = .ok (next, reply)) :
    Coherent memSpace next.tlb := by
  subst fixed
  cases tracks.search_cases allocated stepped with
  | hit _ _ lines _ =>
    rw [lines]
    exact coherent
  | failure => exact coherent
  | miss _ walked lines _ =>
    rw [lines]
    exact coherent.update ⟨call.vaddr, call.paddr, _, rfl, walked, rfl⟩ _

/-- After every run over a fixed memory, all valid lines answer what the page walk would. -/
theorem coherent_of_run {memSpace : MemSpace} (initial : Initial start)
    (run : Run tlbSearch (fun _ call => call.MallocSucceeds ∧ call.memSpace = memSpace) start
      history state) :
    (∃ stale live, Tracks (searched history) state stale live) ∧ Coherent memSpace state.tlb := by
  refine run.invariant_history (fun history state =>
    (∃ stale live, Tracks (searched history) state stale live) ∧ Coherent memSpace state.tlb) ?_ ?_
  · refine ⟨⟨_, _, initial.tracks⟩, ?_⟩
    intro i valid bound
    rw [initial.flushed i bound] at valid
    contradiction
  · rintro history state call next reply ⟨⟨stale, live, tracks⟩, coherent⟩ ⟨allocated, fixed⟩ stepped
    exact ⟨tracks.step allocated stepped, tracks.step_coherent coherent allocated fixed stepped⟩

/-- Over a fixed memory a search returns what the page walk of its address returns, on a hit as on
a miss, and a search whose walk fails changes neither the lines, the list nor `*paddr`. -/
theorem translation_eq_pageWalk {memSpace : MemSpace} (initial : Initial start)
    (run : Run tlbSearch (fun _ call => call.MallocSucceeds ∧ call.memSpace = memSpace) start
      history state)
    {call : Call} (allocated : call.MallocSucceeds) (fixed : call.memSpace = memSpace) :
    match pageWalk memSpace call.vaddr call.paddr with
    | .error fault => tlbSearch state call = .error fault
    | .ok (code, target) => ∃ next reply, tlbSearch state call = .ok (next, reply) ∧
        (reply.code = .errNone ↔ code = .errNone) ∧ (code = .errNone → reply.paddr = target) ∧
        (code ≠ .errNone → next = state ∧ reply.paddr = call.paddr) := by
  obtain ⟨⟨stale, live, tracks⟩, coherent⟩ := coherent_of_run initial run
  rcases em (call.page ∈ (searched history).recencyOrder.take tlbLines) with resident | absent
  · obtain ⟨i, member, page, next, hit, _⟩ := tracks.search_resident resident allocated
    have walks : Walks memSpace call.page (state.tlb i).phyPageNum := by
      rw [← page]
      exact coherent i (tracks.valid i member) (tracks.inside i (List.mem_append_right _ member))
    rw [walks.pageWalk call.paddr]
    exact ⟨next, _, hit, by simp⟩
  · have missed := tracks.search_absent absent allocated
    rw [fixed] at missed
    cases walked : pageWalk memSpace call.vaddr call.paddr with
    | error fault => simpa only [walked] using missed
    | ok result =>
      obtain ⟨code, target⟩ := result
      rcases eq_or_ne code .errNone with rfl | failure
      · simp only [walked, ne_eq, not_true_eq_false, ↓reduceIte] at missed
        obtain ⟨next, _, found, _⟩ := missed
        exact ⟨next, _, found, by simp⟩
      · simp only [walked, failure, ne_eq, not_false_eq_true, ↓reduceIte] at missed
        exact ⟨state, _, missed, by simp [failure, pageWalk_failure walked failure]⟩

theorem translation_eq_pageWalk_samePage :
    ∃ start state next reply, setUp (fun _ => ⟨0, 0, false⟩) ⟨0, none, none⟩ = .ok start ∧
      tlbSearch start zeroCall = .ok (state, ⟨.errNone, 0, ⟨0, 0⟩⟩) ∧
      tlbSearch state { zeroCall with vaddr := ⟨0, 0, 0, 0, 0, 5⟩ } = .ok (next, reply) ∧
      reply.code = .errNone ∧ reply.paddr = ⟨0, 5⟩ := by
  obtain ⟨start, prepared, initial⟩ := setUp_ok (fun _ => ⟨0, 0, false⟩) ⟨0, none, none⟩
  have allocated : zeroCall.MallocSucceeds := ⟨rfl, rfl⟩
  obtain ⟨state, first⟩ := zeroCall_search initial
  have run : Run tlbSearch (fun _ call => call.MallocSucceeds ∧ call.memSpace = zeroPage) start
      [(zeroCall, ⟨.errNone, 0, ⟨0, 0⟩⟩)] state := .snoc .nil ⟨allocated, rfl⟩ first
  have walked : pageWalk zeroPage ⟨0, 0, 0, 0, 0, 5⟩ ⟨0, 0⟩ = .ok (.errNone, ⟨0, 5⟩) := by rfl
  have again : { zeroCall with vaddr := ⟨0, 0, 0, 0, 0, 5⟩ }.MallocSucceeds := allocated
  have answered := translation_eq_pageWalk initial run again rfl
  simp only [show zeroCall.paddr = ⟨0, 0⟩ from rfl, walked] at answered
  obtain ⟨next, reply, second, code, paddr, _⟩ := answered
  exact ⟨start, state, next, reply, prepared, first, second, code.mpr trivial, paddr trivial⟩

end KabyLake.Tlb
