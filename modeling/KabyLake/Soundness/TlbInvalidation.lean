import KabyLake.Soundness.TlbHrchy

/-! # Cross-invalidation and failed searches

Cross-invalidation compares page numbers in 32 bits and ignores the valid bit of the L2 line. In the
reachable states it is exact all the same, since both L1 tables are included in the L2 table. It comes
before the entries are allocated, so a search that runs out of memory may leave changed tables.
-/

namespace KabyLake.TlbHrchy

open Machine

variable {type : TlbT} {start state : State} {history : List (Call × Tlb.Reply)}

/-- The line of an L1 table at the index of `page` and the L2 line at the index of `page` are valid and
name the same page. -/
def NamesEvicted (l1 : Lines type) (l2Tlb : Lines .L2_TLB) (page : ℕ) : Prop :=
  (l1 (page % 16)).v = true ∧ (l2Tlb (page % 64)).v = true ∧
    (l1 (page % 16)).tag.toNat * 16 + page % 16 = (l2Tlb (page % 64)).tag.toNat * 64 + page % 64

theorem Included.condemned_iff {l1 : Lines type} {l2Tlb : Lines .L2_TLB}
    (included : Included l1 l2Tlb) (level : type ≠ .L2_TLB) (page : ℕ) :
    Condemned l1 l2Tlb page ↔ NamesEvicted l1 l2Tlb page := by
  have lines : type.lines = 16 := by cases type <;> first | rfl | exact (level rfl).elim
  constructor
  · rintro ⟨valid, named⟩
    have resident := included _ _ (lookup_line valid (by rw [lines]; exact Nat.mod_lt _ (by decide)))
    rw [lookup_eq_some_iff, lines, show TlbT.L2_TLB.lines = 64 from rfl] at resident
    obtain ⟨stored, tag, _⟩ := resident
    -- the page has the L2 index of the searched page, so the L2 line is its own
    have index : ((l1 (page % 16)).tag.toNat * 16 + page % 16) % 64 = page % 64 := by omega
    rw [index] at stored tag
    exact ⟨valid, stored, by omega⟩
  · rintro ⟨valid, _, named⟩
    exact ⟨valid, by rw [named]⟩

/-- `after` is `before` without the line at the index of `page`, if that line names the page of the L2
line at the index of `page`, and is `before` otherwise. -/
structure ClearsEvicted (before after : Lines type) (l2Tlb : Lines .L2_TLB) (page : ℕ) : Prop where
  cleared : NamesEvicted before l2Tlb page →
    after (page % 16) = { before (page % 16) with v := false }
  kept : ¬ NamesEvicted before l2Tlb page → after (page % 16) = before (page % 16)
  others : ∀ i, i ≠ page % 16 → after i = before i

theorem Included.clearsEvicted {l1 : Lines type} {l2Tlb : Lines .L2_TLB}
    (included : Included l1 l2Tlb) (level : type ≠ .L2_TLB) (virtPageNumber : BitVec 64) :
    ClearsEvicted l1 (searchInvalid l1 virtPageNumber (evictedVaddr l2Tlb virtPageNumber)) l2Tlb
      virtPageNumber.toNat := by
  rw [searchInvalid_eq l1 l2Tlb level]
  refine ⟨fun named => ?_, fun unnamed => ?_, fun i other => ?_⟩
  · rw [if_pos ((included.condemned_iff level _).mpr named), Function.update_self]
  · rw [if_neg ((included.condemned_iff level _).not.mpr unnamed)]
  · split
    · rw [Function.update_of_ne other]
    · rfl

/-- In every reachable state the cross-invalidation before a fill clears the line of the other kind of
access if and only if it names the valid L2 entry that is about to be evicted. -/
theorem tlbSearchInvalid_exact_of_run
    (run : Run tlbSearch (fun _ call => call.MallocSucceeds) start.flushed history state)
    (virtPageNumber : BitVec 64) (access : MemAccess) :
    ∃ l1Itlb l1Dtlb, tlbSearchInvalid state.l1Itlb state.l1Dtlb virtPageNumber access state.l2Tlb =
        (.errNone, l1Itlb, l1Dtlb) ∧
      match access with
      | .INSTRUCTION => l1Itlb = state.l1Itlb ∧
          ClearsEvicted state.l1Dtlb l1Dtlb state.l2Tlb virtPageNumber.toNat
      | .DATA => l1Dtlb = state.l1Dtlb ∧
          ClearsEvicted state.l1Itlb l1Itlb state.l2Tlb virtPageNumber.toNat := by
  have inclusive := inclusive_of_run run
  cases access with
  | INSTRUCTION => exact ⟨_, _, rfl, rfl, inclusive.l1Dtlb.clearsEvicted (by decide) virtPageNumber⟩
  | DATA => exact ⟨_, _, rfl, rfl, inclusive.l1Itlb.clearsEvicted (by decide) virtPageNumber⟩

/-- After a data search of page 0 an instruction search of page 64 clears the data line of page 0. -/
theorem tlbSearchInvalid_exact_of_run_evicts : ∃ state reply l1Itlb l1Dtlb,
    tlbSearch blankState.flushed blankCall = .ok (state, reply) ∧ (state.l1Dtlb 0).v = true ∧
      tlbSearchInvalid state.l1Itlb state.l1Dtlb 64 .INSTRUCTION state.l2Tlb =
        (.errNone, l1Itlb, l1Dtlb) ∧ l1Dtlb 0 = { state.l1Dtlb 0 with v := false } := by
  obtain ⟨state, first, valid, stored, page⟩ : ∃ state,
      tlbSearch blankState.flushed blankCall = .ok (state, ⟨.errNone, 0, ⟨0, 0⟩⟩) ∧
        (state.l1Dtlb 0).v = true ∧ (state.l2Tlb 0).v = true ∧
        (state.l1Dtlb 0).tag.toNat * 16 + 0 = (state.l2Tlb 0).tag.toNat * 64 + 0 :=
    ⟨_, rfl, rfl, rfl, rfl⟩
  have run : Run tlbSearch (fun _ call => call.MallocSucceeds) blankState.flushed
      [(blankCall, ⟨.errNone, 0, ⟨0, 0⟩⟩)] state := .snoc .nil ⟨rfl, rfl⟩ first
  obtain ⟨l1Itlb, l1Dtlb, ran, _, clears⟩ := tlbSearchInvalid_exact_of_run run 64 .INSTRUCTION
  exact ⟨state, _, l1Itlb, l1Dtlb, first, valid, ran, clears.cleared ⟨valid, stored, page⟩⟩

def State.Invalidates (state : State) (call : Call) : Prop :=
  match call.access with
  | .INSTRUCTION => Condemned state.l1Dtlb state.l2Tlb call.page
  | .DATA => Condemned state.l1Itlb state.l2Tlb call.page

/-- The page is in no table that is looked at and its walk succeeds, and then there is no memory for the
L2 entry though a line of the other kind was cleared, or there is none for the L1 entry. -/
def FailsLate (state : State) (call : Call) : Prop :=
  state.first call.access call.page = none ∧ lookup state.l2Tlb call.page = none ∧
    (∃ target, pageWalk call.memSpace call.vaddr call.paddr = .ok (.errNone, target)) ∧
    (call.newTlb = false ∧ state.Invalidates call ∨ call.newTlb = true ∧ call.newL1 = false)

theorem searchInvalid_eq_self_iff (l1 : Lines type) (l2Tlb : Lines .L2_TLB) (level : type ≠ .L2_TLB)
    (virtPageNumber : BitVec 64) :
    searchInvalid l1 virtPageNumber (evictedVaddr l2Tlb virtPageNumber) = l1 ↔
      ¬ Condemned l1 l2Tlb virtPageNumber.toNat := by
  rw [searchInvalid_eq l1 l2Tlb level]
  split
  · next condemned =>
    simp only [condemned, not_true_eq_false, iff_false]
    intro same
    have line := congrFun same (virtPageNumber.toNat % 16)
    rw [Function.update_self] at line
    have valid := congrArg TlbEntry.v line
    rw [condemned.1] at valid
    contradiction
  · next spared => simp [spared]

theorem tlbFill_noL2 {call : Call} (refused : call.newTlb = false) (target : PhyAddr) :
    (tlbFill state call target).2.code ≠ .errNone ∧
      ((tlbFill state call target).1 = state ↔ ¬ state.Invalidates call) := by
  cases access : call.access with
  | INSTRUCTION =>
    have cleared := searchInvalid_eq_self_iff state.l1Dtlb state.l2Tlb (by decide)
      (virtAddrTToVirtualPageNumber call.vaddr)
    simp only [tlbFill, tlbSearchInvalid, access, refused, State.Invalidates, Call.page, ← cleared]
    obtain ⟨l1Itlb, l1Dtlb, l2Tlb⟩ := state
    simp [evictedVaddr]
  | DATA =>
    have cleared := searchInvalid_eq_self_iff state.l1Itlb state.l2Tlb (by decide)
      (virtAddrTToVirtualPageNumber call.vaddr)
    simp only [tlbFill, tlbSearchInvalid, access, refused, State.Invalidates, Call.page, ← cleared]
    obtain ⟨l1Itlb, l1Dtlb, l2Tlb⟩ := state
    simp [evictedVaddr]

/-- Without memory for the L1 entry the miss path has already replaced the L2 line. -/
theorem tlbFill_noL1 {call : Call} (allocated : call.newTlb = true) (refused : call.newL1 = false)
    (target : PhyAddr) :
    (tlbFill state call target).2.code ≠ .errNone ∧
      (tlbFill state call target).1.l2Tlb = install state.l2Tlb call.vaddr target := by
  cases access : call.access with
  | INSTRUCTION => simp [tlbFill, tlbSearchInvalid, access, allocated, refused, tlbInsert_eq]
  | DATA => simp [tlbFill, tlbSearchInvalid, access, allocated, refused, tlbInsert_eq]

private theorem fill_intact_iff {call : Call} {next : State} {reply : Tlb.Reply}
    (absent : lookup state.l2Tlb call.page = none) (target : PhyAddr)
    (filled : tlbFill state call target = (next, reply)) :
    (reply.code ≠ .errNone → next = state) ↔
      ¬ (call.newTlb = false ∧ state.Invalidates call ∨ call.newTlb = true ∧ call.newL1 = false) := by
  cases newTlb : call.newTlb with
  | false =>
    obtain ⟨failure, unchanged⟩ := tlbFill_noL2 newTlb target
    rw [filled] at failure unchanged
    simp [failure, unchanged]
  | true =>
    cases newL1 : call.newL1 with
    | false =>
      obtain ⟨failure, table⟩ := tlbFill_noL1 newTlb newL1 target
      rw [filled] at failure table
      have changed : next ≠ state := by
        rintro rfl
        have present := lookup_install next.l2Tlb call.vaddr target call.page
        rw [← table, absent] at present
        simp [Call.page] at present
      simp [failure, changed]
    | true =>
      rw [tlbFill_success target ⟨newTlb, newL1⟩] at filled
      cases filled
      simp

/-- A search leaves the tables as they were whenever it fails, exactly if it does not fail late. -/
theorem intact_iff {call : Call} {next : State} {reply : Tlb.Reply}
    (stepped : tlbSearch state call = .ok (next, reply)) :
    (reply.code ≠ .errNone → next = state) ↔ ¬ FailsLate state call := by
  cases first : state.first call.access call.page with
  | some frame =>
    obtain ⟨rfl, rfl⟩ := Prod.mk.inj (Except.ok.inj (stepped.symm.trans (tlbSearch_first first)))
    simp [FailsLate, first]
  | none =>
    cases second : lookup state.l2Tlb call.page with
    | some frame =>
      simp only [FailsLate, second, reduceCtorEq, false_and, and_false, not_false_eq_true, iff_true]
      cases allocated : call.newTlb with
      | true =>
        rw [tlbSearch_second first second allocated] at stepped
        cases stepped
        simp
      | false =>
        rw [tlbSearch_second_failure first second allocated] at stepped
        cases stepped
        simp
    | none =>
      rw [tlbSearch_fill first second, bind_eq_ok_iff] at stepped
      obtain ⟨⟨code, target⟩, walked, result⟩ := stepped
      split at result
      · next failure =>
        cases result
        simp [FailsLate, walked, failure]
      · next done =>
        rw [not_not] at done
        subst done
        have late : FailsLate state call ↔ call.newTlb = false ∧ state.Invalidates call ∨
            call.newTlb = true ∧ call.newL1 = false := by
          simp [FailsLate, first, second, walked]
        rw [late]
        exact fill_intact_iff second target (Except.ok.inj result)

/-- The last search of a run, if it fails, leaves all three tables as they were exactly if it does not
fail late. Any allocation of the run may fail. -/
theorem intact_iff_of_run {call : Call} {reply : Tlb.Reply} {next : State}
    (run : Run tlbSearch (fun _ _ => True) start.flushed ((call, reply) :: history) next) :
    ∃ state, Run tlbSearch (fun _ _ => True) start.flushed history state ∧
      tlbSearch state call = .ok (next, reply) ∧
      ((reply.code ≠ .errNone → next = state) ↔ ¬ FailsLate state call) := by
  cases run with
  | snoc before _ stepped => exact ⟨_, before, stepped, intact_iff stepped⟩

theorem intact_iff_of_run_first : ∃ next reply,
    tlbSearch blankState.flushed { blankCall with newTlb := false } = .ok (next, reply) ∧
      reply.code ≠ .errNone ∧ next = blankState.flushed := by
  obtain ⟨next, stepped⟩ : ∃ next, tlbSearch blankState.flushed { blankCall with newTlb := false } =
      .ok (next, ⟨.errBadParameter, 0, ⟨0, 0⟩⟩) := ⟨_, rfl⟩
  have run : Run tlbSearch (fun _ _ => True) blankState.flushed
      [({ blankCall with newTlb := false }, ⟨.errBadParameter, 0, ⟨0, 0⟩⟩)] next :=
    .snoc .nil trivial stepped
  obtain ⟨state, before, _, intact⟩ := intact_iff_of_run run
  cases before
  have early : ¬ FailsLate blankState.flushed { blankCall with newTlb := false } := by
    rintro ⟨_, _, _, late⟩
    rcases late with ⟨_, valid, _⟩ | ⟨allocated, _⟩
    · contradiction
    · contradiction
  exact ⟨next, _, stepped, by decide, intact.mpr early (by decide)⟩

/-- The first search of a page without memory for the L1 entry fails, and the page is in L2 after it. -/
theorem failed_search_fills : ∃ next reply,
    tlbSearch blankState.flushed { blankCall with newL1 := false } = .ok (next, reply) ∧
      reply.code ≠ .errNone ∧ next ≠ blankState.flushed := by
  refine ⟨_, _, rfl, by decide, fun same => ?_⟩
  have valid := congrArg (fun state : State => (state.l2Tlb 0).v) same
  contradiction

end KabyLake.TlbHrchy
