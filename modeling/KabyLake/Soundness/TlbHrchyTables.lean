import KabyLake.Machine.History
import KabyLake.Soundness.TlbInvalidation

/-! # The tables of the two-level TLB as functions of the history

What each of the three tables holds after a run can be read off the calls and replies. The L2 table
holds the last page that was entered in a line; the data table changes with misses only, since the
refill after an L2 hit goes to the instruction table. When memory runs out the L1 tables are no longer
included in the L2 table, but every entry still is a translation that some page walk found.
-/

namespace KabyLake.TlbHrchy

open Machine

variable {type : TlbT} {start state next : State} {history : List (Call × Tlb.Reply)} {call : Call}
  {reply : Tlb.Reply}

inductive Search (state : State) (call : Call) : State → Tlb.Reply → Prop
  | first {frame : BitVec 20} : state.first call.access call.page = some frame →
      Search state call state ⟨.errNone, 1, ⟨frame, call.vaddr.pageOffset⟩⟩
  | second {frame : BitVec 20} : state.first call.access call.page = none →
      lookup state.l2Tlb call.page = some frame → call.newTlb = true →
      Search state call
        { state with l1Itlb := install state.l1Itlb call.vaddr ⟨frame, call.vaddr.pageOffset⟩ }
        ⟨.errNone, 1, ⟨frame, call.vaddr.pageOffset⟩⟩
  | refused {frame : BitVec 20} : state.first call.access call.page = none →
      lookup state.l2Tlb call.page = some frame → call.newTlb = false →
      Search state call state ⟨.errBadParameter, 1, ⟨frame, call.vaddr.pageOffset⟩⟩
  | unmapped {code : ErrorCode} {target : PhyAddr} : state.first call.access call.page = none →
      lookup state.l2Tlb call.page = none →
      pageWalk call.memSpace call.vaddr call.paddr = .ok (code, target) → code ≠ .errNone →
      Search state call state ⟨.errBadParameter, 0, target⟩
  | mapped {target : PhyAddr} : state.first call.access call.page = none →
      lookup state.l2Tlb call.page = none →
      pageWalk call.memSpace call.vaddr call.paddr = .ok (.errNone, target) →
      Search state call (tlbFill state call target).1 (tlbFill state call target).2

theorem tlbSearch_cases (state : State) (call : Call) :
    (∃ next reply, tlbSearch state call = .ok (next, reply) ∧ Search state call next reply) ∨
      ∃ fault, tlbSearch state call = .error fault ∧ state.first call.access call.page = none ∧
        lookup state.l2Tlb call.page = none ∧
        pageWalk call.memSpace call.vaddr call.paddr = .error fault := by
  cases first : state.first call.access call.page with
  | some frame => exact .inl ⟨_, _, tlbSearch_first first, .first first⟩
  | none =>
    cases second : lookup state.l2Tlb call.page with
    | some frame =>
      cases allocated : call.newTlb with
      | true => exact .inl ⟨_, _, tlbSearch_second first second allocated, .second first second allocated⟩
      | false =>
        exact .inl ⟨_, _, tlbSearch_second_failure first second allocated,
          .refused first second allocated⟩
    | none =>
      have searched := tlbSearch_fill first second
      cases walked : pageWalk call.memSpace call.vaddr call.paddr with
      | error fault =>
        rw [walked, error_bind] at searched
        exact .inr ⟨fault, searched, rfl, rfl, rfl⟩
      | ok result =>
        obtain ⟨code, target⟩ := result
        rw [walked, ok_bind] at searched
        rcases eq_or_ne code .errNone with rfl | failure
        · rw [if_neg (by simp)] at searched
          exact .inl ⟨_, _, searched, .mapped first second walked⟩
        · rw [if_pos failure] at searched
          exact .inl ⟨_, _, searched, .unmapped first second walked failure⟩

theorem search_of_step (stepped : tlbSearch state call = .ok (next, reply)) :
    Search state call next reply := by
  rcases tlbSearch_cases state call with ⟨after, answer, searched, step⟩ | ⟨fault, stopped, _⟩
  · obtain ⟨rfl, rfl⟩ := Prod.mk.inj (Except.ok.inj (stepped.symm.trans searched))
    exact step
  · rw [stopped] at stepped
    contradiction

section Contents

def Entered (event : Call × Tlb.Reply) : Prop := event.2.code = .errNone ∧ event.2.hitOrMiss = 0

instance : DecidablePred Entered := fun _ => inferInstanceAs (Decidable (_ ∧ _))

/-- What a line answers for `page` once the page of a search was put into it. -/
def put (event : Call × Tlb.Reply) (page : ℕ) : Option (BitVec 20) :=
  if event.1.page = page then some event.2.paddr.phyPageNum else none

/-- What a search does to what the L2 table answers for a page: a miss replaces the L2 line. -/
def l2Effect (page : ℕ) : Effect (Call × Tlb.Reply) (BitVec 20) := fun _ event =>
  if Entered event ∧ event.1.page % 64 = page % 64 then some (put event page) else none

/-- What a search does to what the data table answers for a page: a data miss replaces the line, and an
instruction miss removes the page if it needs its L2 line. Hits do nothing. -/
def dataEffect (page : ℕ) : Effect (Call × Tlb.Reply) (BitVec 20) := fun _ event =>
  if Entered event ∧ event.1.access = .DATA ∧ event.1.page % 16 = page % 16 then some (put event page)
  else if Entered event ∧ event.1.page % 64 = page % 64 then some none
  else none

/-- The search leaves its page in the instruction table: it was an instruction access, or a data access
that hit without finding the page in the data table. -/
def FillsInstruction (older : List (Call × Tlb.Reply)) (event : Call × Tlb.Reply) : Prop :=
  event.2.code = .errNone ∧ (event.1.access = .INSTRUCTION ∨
    event.2.hitOrMiss = 1 ∧ cellAfter (dataEffect event.1.page) older = none)

instance (older : List (Call × Tlb.Reply)) : DecidablePred (FillsInstruction older) :=
  fun _ => inferInstanceAs (Decidable (_ ∧ _))

/-- What a search does to what the instruction table answers for a page. -/
def instructionEffect (page : ℕ) : Effect (Call × Tlb.Reply) (BitVec 20) := fun older event =>
  if FillsInstruction older event ∧ event.1.page % 16 = page % 16 then some (put event page)
  else if Entered event ∧ event.1.page % 64 = page % 64 then some none
  else none

structure Recorded (history : List (Call × Tlb.Reply)) (state : State) : Prop where
  l2Tlb : ∀ page, lookup state.l2Tlb page = cellAfter (l2Effect page) history
  l1Dtlb : ∀ page, lookup state.l1Dtlb page = cellAfter (dataEffect page) history
  l1Itlb : ∀ page, lookup state.l1Itlb page = cellAfter (instructionEffect page) history

theorem lookup_shared {tlb : Lines type} {page other : ℕ} {frame : BitVec 20}
    (found : lookup tlb page = some frame) (line : page % type.lines = other % type.lines)
    (apart : page ≠ other) : lookup tlb other = none := by
  rw [← Option.not_isSome_iff_eq_none, Option.isSome_iff_exists]
  rintro ⟨held, present⟩
  rw [lookup_eq_some_iff] at found present
  rw [line] at found
  apply apart
  rw [← Nat.div_add_mod page type.lines, ← Nat.div_add_mod other type.lines, line, ← found.2.1,
    present.2.1]

/-- In an included L1 table the cross-invalidation removes the page of the L2 line and no other. -/
theorem Included.lookup_invalidated {l1 : Lines type} {l2Tlb : Lines .L2_TLB}
    (included : Included l1 l2Tlb) (level : type ≠ .L2_TLB) (virtPageNumber : BitVec 64) (page : ℕ) :
    lookup (searchInvalid l1 virtPageNumber (evictedVaddr l2Tlb virtPageNumber)) page =
      if virtPageNumber.toNat % 64 = page % 64 then none else lookup l1 page := by
  have lines : type.lines = 16 := by cases type <;> first | rfl | exact (level rfl).elim
  have clears := included.clearsEvicted level virtPageNumber
  split
  · next evicted =>
    cases found : lookup (searchInvalid l1 virtPageNumber (evictedVaddr l2Tlb virtPageNumber)) page with
    | none => rfl
    | some frame =>
      have before := lookup_searchInvalid found
      have resident := lookup_eq_some_iff.mp (included page frame before)
      rw [lookup_eq_some_iff, lines, show page % 16 = virtPageNumber.toNat % 16 by omega] at found before
      rw [show TlbT.L2_TLB.lines = 64 from rfl, ← evicted] at resident
      have names : NamesEvicted l1 l2Tlb virtPageNumber.toNat :=
        ⟨before.1, resident.1, by rw [before.2.1, resident.2.1]; omega⟩
      have valid := found.1
      rw [clears.cleared names] at valid
      contradiction
  · next apart =>
    rcases eq_or_ne (page % 16) (virtPageNumber.toNat % 16) with line | other
    · by_cases names : NamesEvicted l1 l2Tlb virtPageNumber.toNat
      · -- the cleared line names a page of the L2 line, so it did not answer for this one
        have gone : (l1 (page % 16)).tag.toNat ≠ page / 16 := by
          intro tag
          have named := names.2.2
          rw [← line, tag] at named
          omega
        simp only [lookup, lines, line, clears.cleared names]
        rw [← line]
        simp [gone]
      · simp only [lookup, lines, line, clears.kept names]
    · simp only [lookup, lines, clears.others _ other]

private theorem lookup_kept {tlb : Lines type} {frame : BitVec 20} {page : ℕ}
    (found : lookup tlb call.page = some frame) (line : call.page % type.lines = page % type.lines)
    {paddr : PhyAddr} (same : paddr.phyPageNum = frame) :
    lookup tlb page = if call.page = page then some paddr.phyPageNum else none := by
  split
  · next own => rw [← own, found, same]
  · next other => exact lookup_shared found line other

private theorem lookup_filled (tlb : Lines type) (paddr : PhyAddr) (page : ℕ) :
    lookup (install tlb call.vaddr paddr) page =
      if call.page % type.lines = page % type.lines then
        if call.page = page then some paddr.phyPageNum else none
      else lookup tlb page := by
  have own : (virtAddrTToVirtualPageNumber call.vaddr).toNat = call.page := rfl
  simp only [lookup_install, own, eq_comm]

/-- A search that neither entered its page nor left it in the instruction table changes no cell. -/
theorem Recorded.idle (recorded : Recorded history state)
    (missed : ¬ Entered (call, reply)) (unfilled : ¬ FillsInstruction history (call, reply)) :
    Recorded ((call, reply) :: history) state where
  l2Tlb page := by simp [cellAfter, l2Effect, missed, recorded.l2Tlb page]
  l1Dtlb page := by simp [cellAfter, dataEffect, missed, recorded.l1Dtlb page]
  l1Itlb page := by simp [cellAfter, instructionEffect, missed, unfilled, recorded.l1Itlb page]

/-- A hit that leaves the page in the instruction table changes only the cells of that table. -/
theorem Recorded.filled (recorded : Recorded history state)
    (missed : ¬ Entered (call, reply)) (filled : FillsInstruction history (call, reply))
    {l1Itlb : Lines .L1_ITLB} (table : ∀ page, lookup l1Itlb page =
      if call.page % 16 = page % 16 then put (call, reply) page else lookup state.l1Itlb page) :
    Recorded ((call, reply) :: history) { state with l1Itlb } where
  l2Tlb page := by simp [cellAfter, l2Effect, missed, recorded.l2Tlb page]
  l1Dtlb page := by simp [cellAfter, dataEffect, missed, recorded.l1Dtlb page]
  l1Itlb page := by
    rw [table, cellAfter, instructionEffect]
    simp only [missed, filled, true_and, false_and, ↓reduceIte]
    split
    · rfl
    · exact recorded.l1Itlb page

private theorem getD_ite {β : Type} (written : Prop) [Decidable written] (content before : Option β)
    (otherwise : Option (Option β)) :
    (if written then some content else otherwise).getD before =
      if written then content else otherwise.getD before := by
  split <;> rfl

/-- A page that shares an L2 line shares the L1 line. -/
private theorem ite_l2Line {β : Type} (a b : ℕ) (content evicted before : β) :
    (if a % 16 = b % 16 then content else if a % 64 = b % 64 then evicted else before) =
      if a % 16 = b % 16 then content else before := by
  split
  · rfl
  · next apart => rw [if_neg (by omega)]

/-- A miss replaces the lines of its own tables and invalidates in the other L1 table. -/
theorem Recorded.entered (recorded : Recorded history state) (inclusive : state.Inclusive)
    (target : PhyAddr) :
    Recorded ((call, ⟨.errNone, 0, target⟩) :: history) (state.filled call target) := by
  have entered : Entered (call, (⟨.errNone, 0, target⟩ : Tlb.Reply)) := ⟨rfl, rfl⟩
  have l2Table : (state.filled call target).l2Tlb = install state.l2Tlb call.vaddr target := by
    cases access : call.access <;> simp only [State.filled, access]
  have l2Cells (page : ℕ) : lookup (state.filled call target).l2Tlb page =
      cellAfter (l2Effect page) ((call, ⟨.errNone, 0, target⟩) :: history) := by
    rw [l2Table, lookup_filled, cellAfter, l2Effect, recorded.l2Tlb page, getD_ite]
    simp only [entered, true_and]
    rfl
  cases access : call.access with
  | INSTRUCTION =>
    have filled : FillsInstruction history (call, (⟨.errNone, 0, target⟩ : Tlb.Reply)) :=
      ⟨rfl, .inl access⟩
    refine ⟨l2Cells, fun page => ?_, fun page => ?_⟩
    · have other : (state.filled call target).l1Dtlb =
          searchInvalid state.l1Dtlb (virtAddrTToVirtualPageNumber call.vaddr)
            (evictedVaddr state.l2Tlb (virtAddrTToVirtualPageNumber call.vaddr)) := by
        simp only [State.filled, access]
      rw [other, inclusive.l1Dtlb.lookup_invalidated (by decide), cellAfter, dataEffect,
        recorded.l1Dtlb page, getD_ite, getD_ite]
      simp only [entered, access, reduceCtorEq, false_and, and_false, true_and, ↓reduceIte]
      rfl
    · have own : (state.filled call target).l1Itlb = install state.l1Itlb call.vaddr target := by
        simp only [State.filled, access]
      rw [own, lookup_filled, cellAfter, instructionEffect, recorded.l1Itlb page, getD_ite, getD_ite]
      simp only [filled, entered, true_and]
      rw [ite_l2Line]
      rfl
  | DATA =>
    have unfilled : ¬ FillsInstruction history (call, (⟨.errNone, 0, target⟩ : Tlb.Reply)) := by
      rintro ⟨_, instruction | ⟨hit, _⟩⟩
      · rw [access] at instruction
        contradiction
      · exact Nat.zero_ne_one hit
    refine ⟨l2Cells, fun page => ?_, fun page => ?_⟩
    · have own : (state.filled call target).l1Dtlb = install state.l1Dtlb call.vaddr target := by
        simp only [State.filled, access]
      rw [own, lookup_filled, cellAfter, dataEffect, recorded.l1Dtlb page, getD_ite, getD_ite]
      simp only [entered, access, true_and]
      rw [ite_l2Line]
      rfl
    · have other : (state.filled call target).l1Itlb =
          searchInvalid state.l1Itlb (virtAddrTToVirtualPageNumber call.vaddr)
            (evictedVaddr state.l2Tlb (virtAddrTToVirtualPageNumber call.vaddr)) := by
        simp only [State.filled, access]
      rw [other, inclusive.l1Itlb.lookup_invalidated (by decide), cellAfter, instructionEffect,
        recorded.l1Itlb page, getD_ite, getD_ite]
      simp only [unfilled, entered, false_and, true_and, ↓reduceIte]
      rfl

/-- One search writes the cells as the history says. -/
theorem Recorded.step (recorded : Recorded history state) (inclusive : state.Inclusive)
    (allocated : call.MallocSucceeds) (search : Search state call next reply) :
    Recorded ((call, reply) :: history) next := by
  have hit (frame : BitVec 20) :
      ¬ Entered (call, (⟨.errNone, 1, ⟨frame, call.vaddr.pageOffset⟩⟩ : Tlb.Reply)) :=
    fun entered => absurd entered.2 Nat.one_ne_zero
  cases search with
  | @first frame found =>
    cases access : call.access with
    | INSTRUCTION =>
      rw [access] at found
      refine recorded.filled (hit frame) ⟨rfl, .inl access⟩ fun page => ?_
      split
      · next line => exact lookup_kept found line rfl
      · rfl
    | DATA =>
      rw [access] at found
      refine recorded.idle (hit frame) ?_
      rintro ⟨_, instruction | ⟨_, empty⟩⟩
      · rw [access] at instruction
        contradiction
      · rw [← recorded.l1Dtlb] at empty
        rw [State.first, empty] at found
        contradiction
  | @second frame absent found =>
    refine recorded.filled (hit frame) ?_ fun page => lookup_filled state.l1Itlb _ page
    cases access : call.access with
    | INSTRUCTION => exact ⟨rfl, .inl access⟩
    | DATA =>
      rw [access] at absent
      exact ⟨rfl, .inr ⟨rfl, (recorded.l1Dtlb _).symm.trans absent⟩⟩
  | refused _ _ refused =>
    rw [allocated.1] at refused
    contradiction
  | unmapped _ _ _ failure =>
    exact recorded.idle (fun entered => absurd entered.1 (by simp)) fun filled => absurd filled.1 (by simp)
  | @mapped target =>
    rw [tlbFill_success target allocated]
    exact recorded.entered inclusive target

theorem recorded_of_run
    (run : Run tlbSearch (fun _ call => call.MallocSucceeds) start.flushed history state) :
    Recorded history state := by
  have both : state.Inclusive ∧ Recorded history state := by
    refine run.invariant_history (fun history state => state.Inclusive ∧ Recorded history state) ?_ ?_
    · refine ⟨start.flushed_inclusive, fun page => ?_, fun page => ?_, fun page => ?_⟩
      · exact lookup_tlbFlush start.l2Tlb page
      · exact lookup_tlbFlush start.l1Dtlb page
      · exact lookup_tlbFlush start.l1Itlb page
    · rintro history state call next reply ⟨inclusive, recorded⟩ allocated stepped
      have searched := inclusive.searched allocated stepped
      exact ⟨searched.inclusive inclusive, recorded.step inclusive allocated (search_of_step stepped)⟩
  exact both.2

/-- After every run each table answers, for every page, what the history of calls and replies says: the
L2 table and the data table follow the misses, and the instruction table also the hits. -/
theorem tables_of_run
    (run : Run tlbSearch (fun _ call => call.MallocSucceeds) start.flushed history state) :
    Recorded history state := recorded_of_run run

theorem dataEffect_eq_some_some_iff {page : ℕ} {frame : BitVec 20} {older : List (Call × Tlb.Reply)}
    {event : Call × Tlb.Reply} :
    dataEffect page older event = some (some frame) ↔ Entered event ∧ event.1.access = .DATA ∧
      event.1.page = page ∧ event.2.paddr.phyPageNum = frame := by
  simp only [dataEffect, put]
  split
  · next written =>
    obtain ⟨entered, access, line⟩ := written
    simp only [entered, access, true_and, Option.some.injEq, Option.ite_none_right_eq_some]
  · next unwritten =>
    have apart : ¬ (Entered event ∧ event.1.access = .DATA ∧ event.1.page = page ∧
        event.2.paddr.phyPageNum = frame) := by
      rintro ⟨entered, access, rfl, _⟩
      exact unwritten ⟨entered, access, rfl⟩
    simp only [apart, iff_false]
    split <;> simp

theorem dataEffect_eq_none_iff {page : ℕ} {older : List (Call × Tlb.Reply)} {event : Call × Tlb.Reply} :
    dataEffect page older event = none ↔ (Entered event → event.1.page % 64 ≠ page % 64 ∧
      (event.1.access = .DATA → event.1.page % 16 ≠ page % 16)) := by
  simp only [dataEffect]
  split
  · next written =>
    obtain ⟨entered, access, line⟩ := written
    simp [entered, access, line]
  · next unwritten =>
    split
    · next evicted => simp [evicted.1, evicted.2]
    · next spared =>
      simp only [true_iff]
      intro entered
      exact ⟨fun line => spared ⟨entered, line⟩, fun access line => unwritten ⟨entered, access, line⟩⟩

/-- The data table holds a page exactly when a data access entered it on a miss, and no later miss needed
its L2 line and no later data miss its own line. Data accesses that hit in the L2 table never enter their
page. -/
theorem dataTable_iff
    (run : Run tlbSearch (fun _ call => call.MallocSucceeds) start.flushed history state)
    (page : ℕ) (frame : BitVec 20) :
    lookup state.l1Dtlb page = some frame ↔ ∃ newer call reply older,
      history = newer ++ (call, reply) :: older ∧ Entered (call, reply) ∧ call.access = .DATA ∧
      call.page = page ∧ reply.paddr.phyPageNum = frame ∧
      ∀ later ∈ newer, Entered later → later.1.page % 64 ≠ page % 64 ∧
        (later.1.access = .DATA → later.1.page % 16 ≠ page % 16) := by
  have untouched (older newer : List (Call × Tlb.Reply)) :
      Untouched (dataEffect page) older newer ↔ ∀ later ∈ newer, Entered later →
        later.1.page % 64 ≠ page % 64 ∧ (later.1.access = .DATA → later.1.page % 16 ≠ page % 16) :=
    untouched_iff.trans (forall₂_congr fun _ _ => @dataEffect_eq_none_iff page [] _)
  rw [(recorded_of_run run).l1Dtlb, cellAfter_eq_some_iff]
  simp only [Prod.exists, dataEffect_eq_some_some_iff, untouched, and_assoc]

private theorem blankCall_run : ∃ state,
    tlbSearch blankState.flushed blankCall = .ok (state, ⟨.errNone, 0, ⟨0, 0⟩⟩) ∧
      Run tlbSearch (fun _ call => call.MallocSucceeds) blankState.flushed
        [(blankCall, ⟨.errNone, 0, ⟨0, 0⟩⟩)] state := by
  obtain ⟨state, first⟩ : ∃ state, tlbSearch blankState.flushed blankCall =
      .ok (state, ⟨.errNone, 0, ⟨0, 0⟩⟩) := ⟨_, rfl⟩
  exact ⟨state, first, .snoc .nil ⟨rfl, rfl⟩ first⟩

theorem tables_of_run_search : ∃ state,
    tlbSearch blankState.flushed blankCall = .ok (state, ⟨.errNone, 0, ⟨0, 0⟩⟩) ∧
      Recorded [(blankCall, ⟨.errNone, 0, ⟨0, 0⟩⟩)] state := by
  obtain ⟨state, first, run⟩ := blankCall_run
  exact ⟨state, first, tables_of_run run⟩

theorem dataTable_iff_search : ∃ state,
    tlbSearch blankState.flushed blankCall = .ok (state, ⟨.errNone, 0, ⟨0, 0⟩⟩) ∧
      lookup state.l1Dtlb 0 = some 0 := by
  obtain ⟨state, first, run⟩ := blankCall_run
  have entered : Entered (blankCall, (⟨.errNone, 0, ⟨0, 0⟩⟩ : Tlb.Reply)) := ⟨rfl, rfl⟩
  exact ⟨state, first, (dataTable_iff run 0 0).mpr
    ⟨[], blankCall, _, [], rfl, entered, rfl, by decide, rfl, by simp⟩⟩

end Contents

section Translation

variable {memSpace : MemSpace}

/-- A table answers only what a page walk of the memory finds. -/
def Answers (memSpace : MemSpace) (tlb : Lines type) : Prop :=
  ∀ (page : BitVec 64) (frame : BitVec 20), lookup tlb page.toNat = some frame →
    Walks memSpace page frame

structure State.Answers (memSpace : MemSpace) (state : State) : Prop where
  l1Itlb : TlbHrchy.Answers memSpace state.l1Itlb
  l1Dtlb : TlbHrchy.Answers memSpace state.l1Dtlb
  l2Tlb : TlbHrchy.Answers memSpace state.l2Tlb

theorem Answers.install {tlb : Lines type} (answers : Answers memSpace tlb) {target : PhyAddr}
    (walks : Walks memSpace (virtAddrTToVirtualPageNumber call.vaddr) target.phyPageNum) :
    Answers memSpace (install tlb call.vaddr target) := by
  intro page frame found
  rw [lookup_install] at found
  split at found
  · split at found
    · next own =>
      obtain rfl := BitVec.eq_of_toNat_eq own
      obtain rfl := Option.some.inj found
      exact walks
    · contradiction
  · exact answers page frame found

theorem Answers.searchInvalid {tlb : Lines type} (answers : Answers memSpace tlb)
    (virtPageNumber : BitVec 64) (tl2Vaddr : BitVec 32) :
    Answers memSpace (searchInvalid tlb virtPageNumber tl2Vaddr) :=
  fun page frame found => answers page frame (lookup_searchInvalid found)

theorem State.Answers.first (answers : state.Answers memSpace) {frame : BitVec 20}
    (found : state.first call.access call.page = some frame) :
    Walks memSpace (virtAddrTToVirtualPageNumber call.vaddr) frame := by
  cases access : call.access with
  | INSTRUCTION =>
    rw [access] at found
    exact answers.l1Itlb _ frame found
  | DATA =>
    rw [access] at found
    exact answers.l1Dtlb _ frame found

/-- Wherever the miss path stops, it has only removed entries and put the new translation. -/
theorem State.Answers.tlbFill (answers : state.Answers memSpace) {target : PhyAddr}
    (walks : Walks memSpace (virtAddrTToVirtualPageNumber call.vaddr) target.phyPageNum) :
    (tlbFill state call target).1.Answers memSpace ∧ (tlbFill state call target).2.paddr = target ∧
      ((tlbFill state call target).2.code = .errNone ↔ call.MallocSucceeds) := by
  have l2Tlb : TlbHrchy.Answers memSpace (install state.l2Tlb call.vaddr target) :=
    answers.l2Tlb.install walks
  cases access : call.access with
  | INSTRUCTION =>
    have invalidated := answers.l1Dtlb.searchInvalid (virtAddrTToVirtualPageNumber call.vaddr)
      (evictedVaddr state.l2Tlb (virtAddrTToVirtualPageNumber call.vaddr))
    cases newTlb : call.newTlb with
    | false =>
      simp only [TlbHrchy.tlbFill, tlbSearchInvalid, access, newTlb, Call.MallocSucceeds]
      exact ⟨⟨answers.l1Itlb, invalidated, answers.l2Tlb⟩, by simp⟩
    | true =>
      cases newL1 : call.newL1 with
      | false =>
        simp only [TlbHrchy.tlbFill, tlbSearchInvalid, access, newTlb, newL1, Call.MallocSucceeds,
          tlbInsert_eq]
        exact ⟨⟨answers.l1Itlb, invalidated, l2Tlb⟩, by simp⟩
      | true =>
        rw [tlbFill_success target ⟨newTlb, newL1⟩, State.filled, access]
        exact ⟨⟨answers.l1Itlb.install walks, invalidated, l2Tlb⟩, rfl,
          by simp [newTlb, newL1, Call.MallocSucceeds]⟩
  | DATA =>
    have invalidated := answers.l1Itlb.searchInvalid (virtAddrTToVirtualPageNumber call.vaddr)
      (evictedVaddr state.l2Tlb (virtAddrTToVirtualPageNumber call.vaddr))
    cases newTlb : call.newTlb with
    | false =>
      simp only [TlbHrchy.tlbFill, tlbSearchInvalid, access, newTlb, Call.MallocSucceeds]
      exact ⟨⟨invalidated, answers.l1Dtlb, answers.l2Tlb⟩, by simp⟩
    | true =>
      cases newL1 : call.newL1 with
      | false =>
        simp only [TlbHrchy.tlbFill, tlbSearchInvalid, access, newTlb, newL1, Call.MallocSucceeds,
          tlbInsert_eq]
        exact ⟨⟨invalidated, answers.l1Dtlb, l2Tlb⟩, by simp⟩
      | true =>
        rw [tlbFill_success target ⟨newTlb, newL1⟩, State.filled, access]
        exact ⟨⟨invalidated, answers.l1Dtlb.install walks, l2Tlb⟩, rfl,
          by simp [newTlb, newL1, Call.MallocSucceeds]⟩

/-- No search puts a wrong translation into a table. -/
theorem State.Answers.step (answers : state.Answers memSpace) (fixed : call.memSpace = memSpace)
    (search : Search state call next reply) : next.Answers memSpace := by
  cases search with
  | first | refused | unmapped => exact answers
  | second _ found _ =>
    exact ⟨answers.l1Itlb.install (answers.l2Tlb _ _ found), answers.l1Dtlb, answers.l2Tlb⟩
  | mapped _ _ walked =>
    rw [fixed] at walked
    exact (answers.tlbFill ⟨call.vaddr, call.paddr, _, rfl, walked, rfl⟩).1

theorem answers_of_run
    (run : Run tlbSearch (fun _ call => call.memSpace = memSpace) start.flushed history state) :
    state.Answers memSpace := by
  refine run.invariant (State.Answers memSpace) ?_ ?_
  · refine ⟨fun page frame found => ?_, fun page frame found => ?_, fun page frame found => ?_⟩
    · exact absurd found (by simp [State.flushed, lookup_tlbFlush])
    · exact absurd found (by simp [State.flushed, lookup_tlbFlush])
    · exact absurd found (by simp [State.flushed, lookup_tlbFlush])
  · intro state call next reply answers fixed stepped
    exact answers.step fixed (search_of_step stepped)

/-- Over one memory a search leaves in `*paddr` what the page walk of its address leaves there, whatever
the allocations of it and of the searches before returned. It succeeds only if the walk does, and then it
fails only for want of memory. -/
theorem hierarchy_anyMalloc
    (run : Run tlbSearch (fun _ call => call.memSpace = memSpace) start.flushed history state)
    {call : Call} (fixed : call.memSpace = memSpace) :
    match pageWalk memSpace call.vaddr call.paddr with
    | .error fault => tlbSearch state call = .error fault
    | .ok (code, target) => ∃ next reply, tlbSearch state call = .ok (next, reply) ∧
        reply.paddr = target ∧ (reply.code = .errNone → code = .errNone) ∧
        (code = .errNone → call.MallocSucceeds → reply.code = .errNone) := by
  have answers := answers_of_run run
  rcases tlbSearch_cases state call with ⟨next, reply, searched, step⟩ | ⟨fault, stopped, _, _, walked⟩
  · cases step with
    | first found =>
      rw [(answers.first found).pageWalk call.paddr]
      exact ⟨_, _, searched, rfl, fun _ => rfl, fun _ _ => rfl⟩
    | second _ found _ =>
      rw [Walks.pageWalk (answers.l2Tlb _ _ found) call.paddr]
      exact ⟨_, _, searched, rfl, fun _ => rfl, fun _ _ => rfl⟩
    | refused _ found lacks =>
      rw [Walks.pageWalk (answers.l2Tlb _ _ found) call.paddr]
      refine ⟨_, _, searched, rfl, fun _ => rfl, fun _ allocated => ?_⟩
      rw [allocated.1] at lacks
      contradiction
    | unmapped _ _ walked failure =>
      rw [fixed] at walked
      rw [walked]
      exact ⟨_, _, searched, rfl, fun success => by contradiction, fun success => (failure success).elim⟩
    | mapped _ _ walked =>
      rw [fixed] at walked
      rw [walked]
      obtain ⟨_, paddr, code⟩ := answers.tlbFill ⟨call.vaddr, call.paddr, _, rfl, walked, rfl⟩
      exact ⟨_, _, searched, paddr, fun _ => rfl, fun _ allocated => code.mpr allocated⟩
  · rw [fixed] at walked
    rw [walked]
    exact stopped

/-- After a search that got no memory for its L1 entry the page is found, in the L2 table. -/
theorem hierarchy_anyMalloc_starved : ∃ state next reply,
    tlbSearch blankState.flushed { blankCall with newL1 := false } =
      .ok (state, ⟨.errBadParameter, 0, ⟨0, 0⟩⟩) ∧
    tlbSearch state blankCall = .ok (next, reply) ∧ reply.code = .errNone ∧ reply.paddr = ⟨0, 0⟩ := by
  obtain ⟨state, first⟩ : ∃ state, tlbSearch blankState.flushed { blankCall with newL1 := false } =
      .ok (state, ⟨.errBadParameter, 0, ⟨0, 0⟩⟩) := ⟨_, rfl⟩
  have run : Run tlbSearch (fun _ call => call.memSpace = blankCall.memSpace) blankState.flushed
      [({ blankCall with newL1 := false }, ⟨.errBadParameter, 0, ⟨0, 0⟩⟩)] state := .snoc .nil rfl first
  have walked : pageWalk blankCall.memSpace blankCall.vaddr blankCall.paddr =
      .ok (.errNone, ⟨0, 0⟩) := by rfl
  have answered := hierarchy_anyMalloc run (show blankCall.memSpace = blankCall.memSpace from rfl)
  rw [walked] at answered
  obtain ⟨next, reply, second, paddr, _, success⟩ := answered
  exact ⟨state, next, reply, first, second, success rfl ⟨rfl, rfl⟩, paddr⟩

end Translation

end KabyLake.TlbHrchy
