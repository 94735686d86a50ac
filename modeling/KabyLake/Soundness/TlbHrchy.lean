import KabyLake.Proofs.TlbHrchy

/-! # Runs of the two-level TLB

Both L1 tables stay included in the L2 table along every run, so the L2 table alone decides hits
and answers. It is direct mapped: a page is resident as long as no other page of its line has been
searched. Over one memory the answers are those of the page walk.
-/

namespace KabyLake.TlbHrchy

open Machine

variable {type : TlbT} {start state : State} {history : List (Call × Tlb.Reply)}

theorem lookup_tlbFlush (tlb : Lines type) (page : ℕ) : lookup (tlbFlush tlb) page = none := by
  have bound := Nat.mod_lt page (TlbT.lines_pos type)
  simp [lookup, tlbFlush, bound]

theorem State.flushed_inclusive (state : State) : state.flushed.Inclusive where
  l1Itlb page frame found := by simp [State.flushed, lookup_tlbFlush] at found
  l1Dtlb page frame found := by simp [State.flushed, lookup_tlbFlush] at found

/-- What one search does, seen from the L2 table. -/
inductive Searched (state : State) (call : Call) : State → Tlb.Reply → Prop
  | hit {next : State} {frame : BitVec 20} : lookup state.l2Tlb call.page = some frame →
      next.l2Tlb = state.l2Tlb → next.Inclusive →
      Searched state call next ⟨.errNone, 1, ⟨frame, call.vaddr.pageOffset⟩⟩
  | failure {code : ErrorCode} {target : PhyAddr} : lookup state.l2Tlb call.page = none →
      pageWalk call.memSpace call.vaddr call.paddr = .ok (code, target) → code ≠ .errNone →
      Searched state call state ⟨.errBadParameter, 0, target⟩
  | miss {next : State} {target : PhyAddr} : lookup state.l2Tlb call.page = none →
      pageWalk call.memSpace call.vaddr call.paddr = .ok (.errNone, target) →
      next.l2Tlb = install state.l2Tlb call.vaddr target → next.Inclusive →
      Searched state call next ⟨.errNone, 0, target⟩

theorem State.Inclusive.searched (inclusive : state.Inclusive) {call : Call}
    (allocated : call.MallocSucceeds) {next : State} {reply : Tlb.Reply}
    (stepped : tlbSearch state call = .ok (next, reply)) : Searched state call next reply := by
  cases resident : lookup state.l2Tlb call.page with
  | some frame =>
    obtain ⟨after, hit, table, kept⟩ := tlbSearch_hit inclusive allocated resident
    obtain ⟨rfl, rfl⟩ := Prod.mk.inj (Except.ok.inj (stepped.symm.trans hit))
    exact .hit resident table kept
  | none =>
    have missed := tlbSearch_miss inclusive allocated resident
    cases walked : pageWalk call.memSpace call.vaddr call.paddr with
    | error fault =>
      simp only [walked, stepped, reduceCtorEq] at missed
    | ok result =>
      obtain ⟨code, target⟩ := result
      rcases eq_or_ne code .errNone with rfl | failure
      · simp only [walked, ne_eq, not_true_eq_false, ↓reduceIte] at missed
        obtain ⟨after, found, table, kept⟩ := missed
        obtain ⟨rfl, rfl⟩ := Prod.mk.inj (Except.ok.inj (stepped.symm.trans found))
        exact .miss resident walked table kept
      · simp only [walked, failure, ne_eq, not_false_eq_true, ↓reduceIte] at missed
        obtain ⟨rfl, rfl⟩ := Prod.mk.inj (Except.ok.inj (stepped.symm.trans missed))
        exact .failure resident walked failure

theorem Searched.inclusive {call : Call} {next : State} {reply : Tlb.Reply}
    (step : Searched state call next reply) (inclusive : state.Inclusive) : next.Inclusive := by
  cases step with
  | hit _ _ kept => exact kept
  | failure => exact inclusive
  | miss _ _ _ kept => exact kept

/-- Inclusion holds in every reachable state, whatever memory each call sees. -/
theorem inclusive_of_run
    (run : Run tlbSearch (fun _ call => call.MallocSucceeds) start.flushed history state) :
    state.Inclusive :=
  run.invariant State.Inclusive start.flushed_inclusive
    (fun _ _ _ _ inclusive allocated stepped => (inclusive.searched allocated stepped).inclusive inclusive)

/-- Every valid line of an L1 table has its page, named by tag and index, in a valid L2 line with
the same frame. -/
def LinesIncluded (l1 : Lines type) (l2 : Lines .L2_TLB) : Prop :=
  ∀ i < type.lines, (l1 i).v = true → ∃ j < TlbT.L2_TLB.lines, (l2 j).v = true ∧
    (l2 j).tag.toNat * TlbT.L2_TLB.lines + j = (l1 i).tag.toNat * type.lines + i ∧
    (l2 j).phyPageNum = (l1 i).phyPageNum

theorem Included.lines {l1 : Lines type} {l2 : Lines .L2_TLB} (included : Included l1 l2) :
    LinesIncluded l1 l2 := by
  intro i bound valid
  have resident := included _ _ (lookup_line valid bound)
  rw [lookup_eq_some_iff] at resident
  obtain ⟨stored, tag, frame⟩ := resident
  refine ⟨_, Nat.mod_lt _ (TlbT.lines_pos _), stored, ?_, frame⟩
  rw [tag, Nat.mul_comm, Nat.div_add_mod]

/-- Both L1 tables are included in the L2 table, line by line, in every reachable state. -/
theorem linesIncluded_of_run
    (run : Run tlbSearch (fun _ call => call.MallocSucceeds) start.flushed history state) :
    LinesIncluded state.l1Itlb state.l2Tlb ∧ LinesIncluded state.l1Dtlb state.l2Tlb :=
  ⟨(inclusive_of_run run).l1Itlb.lines, (inclusive_of_run run).l1Dtlb.lines⟩

def blankState : State := ⟨fun _ => ⟨0, 0, false⟩, fun _ => ⟨0, 0, false⟩, fun _ => ⟨0, 0, false⟩⟩

def blankCall : Call := ⟨⟨4096, fun _ => 0⟩, ⟨0, 0, 0, 0, 0, 0⟩, ⟨0, 0⟩, .DATA, true, true⟩

theorem blankCall_search : ∃ state,
    tlbSearch blankState.flushed blankCall = .ok (state, ⟨.errNone, 0, ⟨0, 0⟩⟩) ∧
      state.l2Tlb = install blankState.flushed.l2Tlb blankCall.vaddr ⟨0, 0⟩ ∧
      (state.l1Dtlb 0).v = true := by
  refine ⟨_, rfl, rfl, rfl⟩

theorem linesIncluded_of_run_search : ∃ state reply,
    tlbSearch blankState.flushed blankCall = .ok (state, reply) ∧ (state.l1Dtlb 0).v = true ∧
      LinesIncluded state.l1Itlb state.l2Tlb ∧ LinesIncluded state.l1Dtlb state.l2Tlb := by
  obtain ⟨state, first, _, valid⟩ := blankCall_search
  have run : Run tlbSearch (fun _ call => call.MallocSucceeds) blankState.flushed
      [(blankCall, ⟨.errNone, 0, ⟨0, 0⟩⟩)] state := .snoc .nil ⟨rfl, rfl⟩ first
  exact ⟨state, _, first, valid, linesIncluded_of_run run⟩

def searched (history : List (Call × Tlb.Reply)) : List ℕ :=
  (history.filter fun event => event.2.code = .errNone).map fun event => event.1.page

def lastOfLine (history : List (Call × Tlb.Reply)) (page : ℕ) : Option ℕ :=
  (searched history).find? fun other => other % 64 = page % 64

theorem lastOfLine_cons_failure {call : Call} {reply : Tlb.Reply} (failure : reply.code ≠ .errNone)
    (page : ℕ) : lastOfLine ((call, reply) :: history) page = lastOfLine history page := by
  simp [lastOfLine, searched, failure]

theorem lastOfLine_cons_success {call : Call} {reply : Tlb.Reply} (success : reply.code = .errNone)
    (page : ℕ) : lastOfLine ((call, reply) :: history) page =
      if call.page % 64 = page % 64 then some call.page else lastOfLine history page := by
  by_cases line : call.page % 64 = page % 64
  · simp [lastOfLine, searched, success, line]
  · simp [lastOfLine, searched, success, line]

/-- The L2 table holds a page exactly when the last search of its line was for it. -/
def Resident (history : List (Call × Tlb.Reply)) (state : State) : Prop :=
  ∀ page, (lookup state.l2Tlb page).isSome ↔ lastOfLine history page = some page

theorem Searched.resident {call : Call} {next : State} {reply : Tlb.Reply}
    (step : Searched state call next reply) (resident : Resident history state) :
    Resident ((call, reply) :: history) next := by
  intro page
  cases step with
  | hit found table _ =>
    rw [lastOfLine_cons_success rfl, table, resident page]
    split
    · next line =>
      have own : lastOfLine history call.page = some call.page :=
        (resident call.page).mp (by rw [found]; rfl)
      rw [← own, lastOfLine, lastOfLine, line]
    · rfl
  | failure _ _ _ =>
    rw [lastOfLine_cons_failure (by simp)]
    exact resident page
  | miss _ _ table _ =>
    rw [lastOfLine_cons_success rfl, table, lookup_install, show TlbT.L2_TLB.lines = 64 from rfl,
      show (virtAddrTToVirtualPageNumber call.vaddr).toNat = call.page from rfl]
    rcases eq_or_ne (page % 64) (call.page % 64) with line | apart
    · rw [if_pos line, if_pos line.symm]
      rcases eq_or_ne page call.page with rfl | other
      · simp
      · simp [other, other.symm]
    · rw [if_neg apart, if_neg apart.symm, resident page]

theorem resident_of_run
    (run : Run tlbSearch (fun _ call => call.MallocSucceeds) start.flushed history state) :
    state.Inclusive ∧ Resident history state := by
  refine run.invariant_history (fun history state => state.Inclusive ∧ Resident history state) ?_ ?_
  · refine ⟨start.flushed_inclusive, fun page => ?_⟩
    simp [State.flushed, lookup_tlbFlush, lastOfLine, searched]
  · rintro history state call next reply ⟨inclusive, resident⟩ allocated stepped
    have step := inclusive.searched allocated stepped
    exact ⟨step.inclusive inclusive, step.resident resident⟩

/-- The purpose of the hierarchy: one direct-mapped table in front of the page walk, which knows no
kinds of access. -/
def directSearch (l2Tlb : Lines .L2_TLB) (call : Call) : Exec (Lines .L2_TLB × Tlb.Reply) := do
  match lookup l2Tlb call.page with
  | some frame => return (l2Tlb, ⟨.errNone, 1, ⟨frame, call.vaddr.pageOffset⟩⟩)
  | none =>
    let (code, target) ← pageWalk call.memSpace call.vaddr call.paddr
    if code ≠ .errNone then return (l2Tlb, ⟨.errBadParameter, 0, target⟩)
    else return (install l2Tlb call.vaddr target, ⟨.errNone, 0, target⟩)

/-- The hierarchy refines the single table. -/
theorem Searched.refines {call : Call} {next : State} {reply : Tlb.Reply}
    (step : Searched state call next reply) :
    directSearch state.l2Tlb call = .ok (next.l2Tlb, reply) := by
  cases step with
  | hit found table _ => simp [directSearch, found, table]
  | failure absent walked failed => simp [directSearch, absent, walked, failed]
  | miss absent walked table _ => simp [directSearch, absent, walked, table]

def SameButAccess (call other : Call) : Prop := other = { call with access := other.access }

theorem directSearch_sameButAccess {call other : Call} (same : SameButAccess call other)
    (l2Tlb : Lines .L2_TLB) : directSearch l2Tlb other = directSearch l2Tlb call := by
  rw [same]
  rfl

/-- The kind of access has no influence on the replies of a run. -/
theorem replies_eq_of_sameButAccess {start state other : State}
    {history history' : List (Call × Tlb.Reply)}
    (run : Run tlbSearch (fun _ call => call.MallocSucceeds) start.flushed history state)
    (run' : Run tlbSearch (fun _ call => call.MallocSucceeds) start.flushed history' other)
    (calls : List.Forall₂ SameButAccess (history.map Prod.fst) (history'.map Prod.fst)) :
    history.map Prod.snd = history'.map Prod.snd := by
  refine (run.lockstep (fun state other =>
    state.Inclusive ∧ other.Inclusive ∧ state.l2Tlb = other.l2Tlb) SameButAccess
    ⟨start.flushed_inclusive, start.flushed_inclusive, rfl⟩ ?_ run' calls).1
  rintro state other call call' next next' reply reply' ⟨inclusive, inclusive', table⟩ same allocated
    allocated' stepped stepped'
  have step := inclusive.searched allocated stepped
  have step' := inclusive'.searched allocated' stepped'
  have direct := step.refines
  rw [table, ← directSearch_sameButAccess same, step'.refines] at direct
  obtain ⟨tables, replies⟩ := Prod.mk.inj (Except.ok.inj direct)
  exact ⟨replies.symm, step.inclusive inclusive, step'.inclusive inclusive', tables.symm⟩

/-- A search hits exactly when some page of its L2 line was searched before with success and the
last of these searches was for the same page, and no kind of access has an influence on this. -/
theorem hit_iff_lastOfLine
    (run : Run tlbSearch (fun _ call => call.MallocSucceeds) start.flushed history state)
    {call : Call} (allocated : call.MallocSucceeds) {next : State} {reply : Tlb.Reply}
    (stepped : tlbSearch state call = .ok (next, reply)) :
    (reply.hitOrMiss = 1 ↔ lastOfLine history call.page = some call.page) ∧
    ∀ {history' state'},
      Run tlbSearch (fun _ call => call.MallocSucceeds) start.flushed history' state' →
      List.Forall₂ SameButAccess (call :: history.map Prod.fst) (history'.map Prod.fst) →
      history'.map (fun event => event.2.hitOrMiss) =
        reply.hitOrMiss :: history.map (fun event => event.2.hitOrMiss) := by
  obtain ⟨inclusive, resident⟩ := resident_of_run run
  constructor
  · rw [← resident call.page]
    cases inclusive.searched allocated stepped with
    | hit found _ _ => simp [found]
    | failure absent _ _ => simp [absent]
    | miss absent _ _ _ => simp [absent]
  · intro history' state' run' calls
    have replies := replies_eq_of_sameButAccess (run.snoc allocated stepped) run' calls
    have hits := congrArg (List.map Tlb.Reply.hitOrMiss) replies
    simpa only [List.map_map, List.map_cons, Function.comp_def] using hits.symm

theorem hit_iff_lastOfLine_twice : ∃ state next reply,
    tlbSearch blankState.flushed blankCall = .ok (state, ⟨.errNone, 0, ⟨0, 0⟩⟩) ∧
      tlbSearch state blankCall = .ok (next, reply) ∧ reply.hitOrMiss = 1 := by
  obtain ⟨state, first, table, _⟩ := blankCall_search
  have allocated : blankCall.MallocSucceeds := ⟨rfl, rfl⟩
  have run : Run tlbSearch (fun _ call => call.MallocSucceeds) blankState.flushed
      [(blankCall, ⟨.errNone, 0, ⟨0, 0⟩⟩)] state := .snoc .nil allocated first
  have resident : lookup state.l2Tlb blankCall.page = some 0 := by
    rw [table]
    rfl
  obtain ⟨next, second, _⟩ := tlbSearch_hit (inclusive_of_run run) allocated resident
  exact ⟨state, next, _, first, second,
    (hit_iff_lastOfLine run allocated second).1.mpr (by decide)⟩

/-- The L2 table answers what a page walk finds. -/
def Coherent (memSpace : MemSpace) (l2Tlb : Lines .L2_TLB) : Prop :=
  ∀ (page : BitVec 64) (frame : BitVec 20), lookup l2Tlb page.toNat = some frame →
    Walks memSpace page frame

theorem Searched.coherent {memSpace : MemSpace} {call : Call} {next : State} {reply : Tlb.Reply}
    (step : Searched state call next reply) (fixed : call.memSpace = memSpace)
    (coherent : Coherent memSpace state.l2Tlb) : Coherent memSpace next.l2Tlb := by
  cases step with
  | hit _ table _ =>
    rw [table]
    exact coherent
  | failure => exact coherent
  | miss _ walked table _ =>
    intro page frame found
    rw [table, lookup_install] at found
    split at found
    · split at found
      · next own =>
        obtain rfl := BitVec.eq_of_toNat_eq own
        rw [fixed] at walked
        exact ⟨call.vaddr, call.paddr, _, rfl, walked, Option.some.inj found⟩
      · contradiction
    · exact coherent page frame found

theorem coherent_of_run {memSpace : MemSpace}
    (run : Run tlbSearch (fun _ call => call.MallocSucceeds ∧ call.memSpace = memSpace) start.flushed
      history state) :
    state.Inclusive ∧ Coherent memSpace state.l2Tlb := by
  refine run.invariant (fun state => state.Inclusive ∧ Coherent memSpace state.l2Tlb) ?_ ?_
  · refine ⟨start.flushed_inclusive, fun page frame found => ?_⟩
    simp [State.flushed, lookup_tlbFlush] at found
  · rintro state call next reply ⟨inclusive, coherent⟩ ⟨allocated, fixed⟩ stepped
    have step := inclusive.searched allocated stepped
    exact ⟨step.inclusive inclusive, step.coherent fixed coherent⟩

/-- Over a fixed memory a search returns what the page walk of its address returns, on a hit in
either level as on a miss, and a search whose walk fails changes neither the tables nor `*paddr`. -/
theorem hierarchy_eq_pageWalk {memSpace : MemSpace}
    (run : Run tlbSearch (fun _ call => call.MallocSucceeds ∧ call.memSpace = memSpace) start.flushed
      history state)
    {call : Call} (allocated : call.MallocSucceeds) (fixed : call.memSpace = memSpace) :
    match pageWalk memSpace call.vaddr call.paddr with
    | .error fault => tlbSearch state call = .error fault
    | .ok (code, target) => ∃ next reply, tlbSearch state call = .ok (next, reply) ∧
        (reply.code = .errNone ↔ code = .errNone) ∧ (code = .errNone → reply.paddr = target) ∧
        (code ≠ .errNone → next = state ∧ reply.paddr = call.paddr) := by
  obtain ⟨inclusive, coherent⟩ := coherent_of_run run
  cases resident : lookup state.l2Tlb call.page with
  | some frame =>
    obtain ⟨next, hit, _⟩ := tlbSearch_hit inclusive allocated resident
    rw [(coherent _ _ resident).pageWalk call.paddr]
    exact ⟨next, _, hit, by simp⟩
  | none =>
    have missed := tlbSearch_miss inclusive allocated resident
    rw [fixed] at missed
    cases walked : pageWalk memSpace call.vaddr call.paddr with
    | error fault => simpa only [walked] using missed
    | ok result =>
      obtain ⟨code, target⟩ := result
      rcases eq_or_ne code .errNone with rfl | failure
      · simp only [walked, ne_eq, not_true_eq_false, ↓reduceIte] at missed
        obtain ⟨next, found, _⟩ := missed
        exact ⟨next, _, found, by simp⟩
      · simp only [walked, failure, ne_eq, not_false_eq_true, ↓reduceIte] at missed
        exact ⟨state, _, missed, by simp [failure, pageWalk_failure walked failure]⟩

theorem hierarchy_eq_pageWalk_samePage : ∃ state next reply,
    tlbSearch blankState.flushed blankCall = .ok (state, ⟨.errNone, 0, ⟨0, 0⟩⟩) ∧
      tlbSearch state { blankCall with vaddr := ⟨0, 0, 0, 0, 0, 5⟩, access := .INSTRUCTION } =
        .ok (next, reply) ∧ reply.code = .errNone ∧ reply.paddr = ⟨0, 5⟩ := by
  obtain ⟨state, first, _⟩ := blankCall_search
  have run : Run tlbSearch (fun _ call => call.MallocSucceeds ∧ call.memSpace = blankCall.memSpace)
      blankState.flushed [(blankCall, ⟨.errNone, 0, ⟨0, 0⟩⟩)] state :=
    .snoc .nil ⟨⟨rfl, rfl⟩, rfl⟩ first
  have walked : pageWalk blankCall.memSpace ⟨0, 0, 0, 0, 0, 5⟩ blankCall.paddr =
      .ok (.errNone, ⟨0, 5⟩) := by rfl
  have allocated : { blankCall with vaddr := ⟨0, 0, 0, 0, 0, 5⟩, access := .INSTRUCTION }.MallocSucceeds :=
    ⟨rfl, rfl⟩
  have answered := hierarchy_eq_pageWalk run allocated rfl
  simp only [walked] at answered
  obtain ⟨next, reply, second, code, paddr, _⟩ := answered
  exact ⟨state, next, reply, first, second, code.mpr trivial, paddr trivial⟩

theorem tlbHit_install (tlb : Lines type) (vaddr : VirtAddr) (target prior : PhyAddr) :
    tlbHit vaddr prior (install tlb vaddr target) = (1, ⟨target.phyPageNum, vaddr.pageOffset⟩) := by
  rw [tlbHit_eq, lookup_install, if_pos rfl, if_pos rfl]

/-- The L1 table of the kind of access answers `address`, and that of the other kind has gained no
entry. -/
def FillsOwn (call : Call) (address : PhyAddr) (state next : State) : Prop :=
  match call.access with
  | .INSTRUCTION => (∀ prior, tlbHit call.vaddr prior next.l1Itlb = (1, address)) ∧
      OnlyCleared state.l1Dtlb next.l1Dtlb
  | .DATA => (∀ prior, tlbHit call.vaddr prior next.l1Dtlb = (1, address)) ∧
      OnlyCleared state.l1Itlb next.l1Itlb

def DataRefill (state : State) (call : Call) : Prop :=
  call.access = .DATA ∧ (tlbHit call.vaddr call.paddr state.l1Dtlb).1 = 0 ∧
    (tlbHit call.vaddr call.paddr state.l2Tlb).1 = 1

/-- The refill test of the code in terms of what the tables answer. -/
theorem dataRefill_iff (state : State) (call : Call) :
    DataRefill state call ↔ call.access = .DATA ∧ state.first call.access call.page = none ∧
      (lookup state.l2Tlb call.page).isSome := by
  have miss {type : TlbT} (tlb : Lines type) :
      (tlbHit call.vaddr call.paddr tlb).1 = 0 ↔ lookup tlb call.page = none := by
    rw [tlbHit_eq, Call.page]
    split <;> simp_all
  have hit {type : TlbT} (tlb : Lines type) :
      (tlbHit call.vaddr call.paddr tlb).1 = 1 ↔ (lookup tlb call.page).isSome := by
    rw [tlbHit_eq, Call.page]
    split <;> simp_all
  constructor
  · rintro ⟨access, absent, resident⟩
    rw [access]
    exact ⟨rfl, (miss _).mp absent, (hit _).mp resident⟩
  · rintro ⟨access, absent, resident⟩
    rw [access] at absent
    exact ⟨access, (miss _).mpr absent, (hit _).mpr resident⟩

private theorem fillsOwn_first {call : Call} {frame : BitVec 20}
    (found : state.first call.access call.page = some frame) :
    FillsOwn call ⟨frame, call.vaddr.pageOffset⟩ state state := by
  cases access : call.access with
  | INSTRUCTION =>
    simp only [State.first, access, Call.page] at found
    simp only [FillsOwn, access, tlbHit_eq, found, implies_true, OnlyCleared.refl, and_self]
  | DATA =>
    simp only [State.first, access, Call.page] at found
    simp only [FillsOwn, access, tlbHit_eq, found, implies_true, OnlyCleared.refl, and_self]

private theorem fillsOwn_filled {call : Call} {target : PhyAddr}
    (offset : target.pageOffset = call.vaddr.pageOffset) :
    FillsOwn call target state (state.filled call target) := by
  have address : (⟨target.phyPageNum, call.vaddr.pageOffset⟩ : PhyAddr) = target := by rw [← offset]
  cases access : call.access with
  | INSTRUCTION =>
    simp only [FillsOwn, State.filled, access, tlbHit_install, address, implies_true, true_and]
    exact searchInvalid_onlyCleared _ _ _
  | DATA =>
    simp only [FillsOwn, State.filled, access, tlbHit_install, address, implies_true, true_and]
    exact searchInvalid_onlyCleared _ _ _

private theorem fillsOwn_second {call : Call} {frame : BitVec 20}
    (absent : state.first call.access call.page = none) :
    FillsOwn call ⟨frame, call.vaddr.pageOffset⟩ state
      { state with l1Itlb := install state.l1Itlb call.vaddr ⟨frame, call.vaddr.pageOffset⟩ } ↔
      call.access = .INSTRUCTION := by
  cases access : call.access with
  | INSTRUCTION =>
    simp only [FillsOwn, access, tlbHit_install, implies_true, OnlyCleared.refl, and_self]
  | DATA =>
    -- the data table still misses
    simp only [State.first, access, Call.page] at absent
    simp only [FillsOwn, access, reduceCtorEq, iff_false]
    intro fills
    simpa [tlbHit_eq, absent] using fills.1 call.paddr

/-- A successful search fills the table of its access unless it refills the data table from L2. -/
theorem fillsOwn_iff {call : Call} (allocated : call.MallocSucceeds) {next : State}
    {reply : Tlb.Reply} (stepped : tlbSearch state call = .ok (next, reply))
    (success : reply.code = .errNone) :
    FillsOwn call reply.paddr state next ↔ ¬ DataRefill state call := by
  rw [dataRefill_iff]
  cases first : state.first call.access call.page with
  | some frame =>
    obtain ⟨rfl, rfl⟩ := Prod.mk.inj (Except.ok.inj (stepped.symm.trans (tlbSearch_first first)))
    simpa using fillsOwn_first first
  | none =>
    cases second : lookup state.l2Tlb call.page with
    | some frame =>
      obtain ⟨rfl, rfl⟩ :=
        Prod.mk.inj (Except.ok.inj (stepped.symm.trans (tlbSearch_second first second allocated.1)))
      rw [fillsOwn_second first]
      cases access : call.access <;> simp
    | none =>
      rw [tlbSearch_walk first second allocated, bind_eq_ok_iff] at stepped
      obtain ⟨⟨code, target⟩, walked, result⟩ := stepped
      split at result
      · cases result
        simp at success
      · next done =>
        cases result
        rcases pageWalk_result walked with ⟨_, offset⟩ | ⟨failed, _⟩
        · simpa using fillsOwn_filled offset
        · simp [failed] at done

/-- The last search of a run, if it succeeds, fills the L1 table of its kind of access and no other
one, unless it is a data access whose page is in the L2 table and not in the data table. -/
theorem fillsOwn_iff_of_run {call : Call} {reply : Tlb.Reply} {next : State}
    (run : Run tlbSearch (fun _ call => call.MallocSucceeds) start.flushed ((call, reply) :: history)
      next)
    (success : reply.code = .errNone) :
    ∃ state, Run tlbSearch (fun _ call => call.MallocSucceeds) start.flushed history state ∧
      tlbSearch state call = .ok (next, reply) ∧
      (FillsOwn call reply.paddr state next ↔ ¬ DataRefill state call) := by
  cases run with
  | snoc before allocated stepped =>
    exact ⟨_, before, stepped, fillsOwn_iff allocated stepped success⟩

theorem fillsOwn_iff_of_run_search : ∃ state next reply,
    tlbSearch state blankCall = .ok (next, reply) ∧ FillsOwn blankCall reply.paddr state next := by
  obtain ⟨next, first, _⟩ := blankCall_search
  have run : Run tlbSearch (fun _ call => call.MallocSucceeds) blankState.flushed
      [(blankCall, ⟨.errNone, 0, ⟨0, 0⟩⟩)] next := .snoc .nil ⟨rfl, rfl⟩ first
  obtain ⟨state, before, stepped, fills⟩ := fillsOwn_iff_of_run run rfl
  refine ⟨state, next, _, stepped, fills.mpr ?_⟩
  cases before
  simp [DataRefill, tlbHit_eq, State.flushed, lookup_tlbFlush]

/-- An instruction search of a page, then a data search of it: the data table stays without it. -/
theorem data_refill_misses : ∃ state next reply,
    Run tlbSearch (fun _ call => call.MallocSucceeds) blankState.flushed
      [({ blankCall with access := .INSTRUCTION }, ⟨.errNone, 0, ⟨0, 0⟩⟩)] state ∧
    blankCall.MallocSucceeds ∧ tlbSearch state blankCall = .ok (next, reply) ∧
    reply.code = .errNone ∧ ¬ FillsOwn blankCall reply.paddr state next := by
  refine ⟨_, _, _, .snoc .nil ⟨rfl, rfl⟩ rfl, ⟨rfl, rfl⟩, rfl, rfl, ?_⟩
  intro fills
  exact absurd (fills.1 ⟨0, 0⟩) (by decide)

end KabyLake.TlbHrchy
