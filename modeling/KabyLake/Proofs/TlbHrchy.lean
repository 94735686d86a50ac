import KabyLake.Model.TlbHrchy

/-! # The tables of the two-level TLB as maps from pages to frames

A direct-mapped table is the partial map `lookup` from page numbers to frames: index and tag
together determine the page. Inserting an entry replaces the pages that share its line, and the
cross-invalidation removes from the other L1 table exactly what the L2 table is about to lose, as
long as both L1 tables are included in the L2 table.
-/

namespace KabyLake.TlbHrchy

variable {type : TlbT}

/-- The frame that a table holds for a page. -/
def lookup (tlb : Lines type) (page : ℕ) : Option (BitVec 20) :=
  if (tlb (page % type.lines)).v = true ∧ (tlb (page % type.lines)).tag.toNat = page / type.lines then
    some (tlb (page % type.lines)).phyPageNum
  else none

/-- The table after the entry for `vaddr` and `paddr` was inserted at its line. -/
def install (tlb : Lines type) (vaddr : VirtAddr) (paddr : PhyAddr) : Lines type :=
  Function.update tlb ((virtAddrTToVirtualPageNumber vaddr).toNat % type.lines)
    (tlbEntryInit type vaddr paddr)

theorem TlbT.lines_pos (type : TlbT) : 0 < type.lines := by cases type <;> decide

theorem TlbT.lines_eq : type.lines = 2 ^ type.linesBits := by cases type <;> rfl

theorem TlbT.tagBits_add : type.linesBits + type.tagBits = 36 := by cases type <;> rfl

theorem tlbInsert_eq (tlb : Lines type) (vaddr : VirtAddr) (paddr : PhyAddr) :
    tlbInsert ((virtAddrTToVirtualPageNumber vaddr).toNat % type.lines)
      (tlbEntryInit type vaddr paddr) tlb = (.errNone, install tlb vaddr paddr) := by
  have bound := Nat.mod_lt (virtAddrTToVirtualPageNumber vaddr).toNat (TlbT.lines_pos type)
  simp only [tlbInsert, install, ge_iff_le, Nat.not_le.mpr bound, ↓reduceIte]

/-- The shift that makes a tag is a division by the number of lines. -/
private theorem shift_toNat (vaddr : VirtAddr) :
    (virtAddrTToVirtualPageNumber vaddr >>> type.linesBits).toNat =
      (virtAddrTToVirtualPageNumber vaddr).toNat / type.lines := by
  rw [BitVec.toNat_ushiftRight, Nat.shiftRight_eq_div_pow, TlbT.lines_eq]

private theorem tag_lt (vaddr : VirtAddr) :
    (virtAddrTToVirtualPageNumber vaddr).toNat / type.lines < 2 ^ type.tagBits := by
  rw [Nat.div_lt_iff_lt_mul (TlbT.lines_pos type), TlbT.lines_eq, ← Nat.pow_add, Nat.add_comm,
    TlbT.tagBits_add]
  exact virtAddrTToVirtualPageNumber_lt vaddr

/-- The tag field is wide enough for every page number. -/
theorem tag_toNat (vaddr : VirtAddr) (paddr : PhyAddr) :
    (tlbEntryInit type vaddr paddr).tag.toNat =
      (virtAddrTToVirtualPageNumber vaddr).toNat / type.lines := by
  rw [tlbEntryInit, BitVec.toNat_setWidth, shift_toNat, Nat.mod_eq_of_lt (tag_lt vaddr)]

/-- `tlb_hit` is `lookup` at the page of the address. -/
theorem tlbHit_eq (vaddr : VirtAddr) (paddr : PhyAddr) (tlb : Lines type) :
    tlbHit vaddr paddr tlb = match lookup tlb (virtAddrTToVirtualPageNumber vaddr).toNat with
      | some frame => (1, ⟨frame, vaddr.pageOffset⟩)
      | none => (0, paddr) := by
  have narrow : type.tagBits ≤ 64 := by cases type <;> decide
  have same : (virtAddrTToVirtualPageNumber vaddr >>> type.linesBits ==
      (tlb ((virtAddrTToVirtualPageNumber vaddr).toNat % type.lines)).tag.setWidth 64) = true ↔
      (tlb ((virtAddrTToVirtualPageNumber vaddr).toNat % type.lines)).tag.toNat =
        (virtAddrTToVirtualPageNumber vaddr).toNat / type.lines := by
    rw [beq_iff_eq, ← BitVec.toNat_inj, shift_toNat, BitVec.toNat_setWidth_of_le narrow, eq_comm]
  simp only [tlbHit, lookup, Bool.and_eq_true, same]
  split <;> rfl

/-- An inserted entry answers for its own page, and no other page of its line is left. -/
theorem lookup_install (tlb : Lines type) (vaddr : VirtAddr) (paddr : PhyAddr) (page : ℕ) :
    lookup (install tlb vaddr paddr) page =
      if page % type.lines = (virtAddrTToVirtualPageNumber vaddr).toNat % type.lines then
        if page = (virtAddrTToVirtualPageNumber vaddr).toNat then some paddr.phyPageNum else none
      else lookup tlb page := by
  by_cases line : page % type.lines = (virtAddrTToVirtualPageNumber vaddr).toNat % type.lines
  · have same : (virtAddrTToVirtualPageNumber vaddr).toNat / type.lines = page / type.lines ↔
        page = (virtAddrTToVirtualPageNumber vaddr).toNat := by
      constructor
      · intro tags
        rw [← Nat.div_add_mod page type.lines, line, ← tags, Nat.div_add_mod]
      · rintro rfl
        rfl
    have valid : (tlbEntryInit type vaddr paddr).v = true := rfl
    have frame : (tlbEntryInit type vaddr paddr).phyPageNum = paddr.phyPageNum := rfl
    simp only [lookup, install, line, Function.update_self, tag_toNat, valid, frame, true_and, same,
      ↓reduceIte]
  · simp only [lookup, install, Function.update_of_ne line, line, ↓reduceIte]

/-- What a table answers is stored in the line of the page. -/
theorem lookup_eq_some_iff {tlb : Lines type} {page : ℕ} {frame : BitVec 20} :
    lookup tlb page = some frame ↔ (tlb (page % type.lines)).v = true ∧
      (tlb (page % type.lines)).tag.toNat = page / type.lines ∧
      (tlb (page % type.lines)).phyPageNum = frame := by
  simp only [lookup, Option.ite_none_right_eq_some, and_assoc, Option.some.injEq]

/-- A valid line answers for the page that its tag and index name. -/
theorem lookup_line {tlb : Lines type} {i : ℕ} (valid : (tlb i).v = true) (bound : i < type.lines) :
    lookup tlb ((tlb i).tag.toNat * type.lines + i) = some (tlb i).phyPageNum := by
  have index : ((tlb i).tag.toNat * type.lines + i) % type.lines = i := by
    rw [Nat.mul_comm, Nat.mul_add_mod, Nat.mod_eq_of_lt bound]
  have tag : ((tlb i).tag.toNat * type.lines + i) / type.lines = (tlb i).tag.toNat := by
    rw [Nat.mul_comm, Nat.mul_add_div (TlbT.lines_pos type), Nat.div_eq_of_lt bound, Nat.add_zero]
  rw [lookup_eq_some_iff, index, tag]
  exact ⟨valid, rfl, rfl⟩

/-- A shifted tag with a line index below it, computed in 32 bits. -/
private theorem concat_toNat (tag : BitVec 32) (shift index : ℕ) (bound : index < 2 ^ shift)
    (narrow : shift ≤ 32) :
    (tag <<< shift ||| BitVec.ofNat 32 index).toNat = (tag.toNat * 2 ^ shift + index) % 2 ^ 32 := by
  have split : 2 ^ 32 = 2 ^ shift * 2 ^ (32 - shift) := by
    rw [← Nat.pow_add, Nat.add_sub_cancel' narrow]
  have small : index < 2 ^ 32 := lt_of_lt_of_le bound (Nat.pow_le_pow_right (by decide) narrow)
  have wrapped : tag.toNat * 2 ^ shift % 2 ^ 32 = (tag.toNat % 2 ^ (32 - shift)) * 2 ^ shift := by
    rw [split, Nat.mul_comm, Nat.mul_mod_mul_left, Nat.mul_comm]
  have total : (tag.toNat * 2 ^ shift + index) % 2 ^ 32 =
      (tag.toNat % 2 ^ (32 - shift)) * 2 ^ shift + index := by
    rw [Nat.add_mod, wrapped, Nat.mod_eq_of_lt small]
    apply Nat.mod_eq_of_lt
    have high := Nat.mod_lt tag.toNat (Nat.two_pow_pos (32 - shift))
    calc (tag.toNat % 2 ^ (32 - shift)) * 2 ^ shift + index
        < (tag.toNat % 2 ^ (32 - shift)) * 2 ^ shift + 2 ^ shift := by omega
      _ = (tag.toNat % 2 ^ (32 - shift) + 1) * 2 ^ shift := by rw [Nat.add_mul, Nat.one_mul]
      _ ≤ 2 ^ (32 - shift) * 2 ^ shift := Nat.mul_le_mul_right _ high
      _ = 2 ^ 32 := by rw [Nat.mul_comm, ← split]
  rw [BitVec.toNat_or, BitVec.toNat_shiftLeft, BitVec.toNat_ofNat, Nat.mod_eq_of_lt small,
    Nat.shiftLeft_eq, wrapped, ← Nat.shiftLeft_eq, ← Nat.shiftLeft_add_eq_or_of_lt bound,
    Nat.shiftLeft_eq, total]

/-- The low 32 bits of the page that the L2 line at the index of `virtPageNumber` names. -/
def evictedVaddr (l2Tlb : Lines .L2_TLB) (virtPageNumber : BitVec 64) : BitVec 32 :=
  (l2Tlb (virtPageNumber &&& 0b111111#64).toNat).tag.setWidth 32 <<< TlbT.L2_TLB.linesBits |||
    BitVec.ofNat 32 (virtPageNumber &&& 0b111111#64).toNat

private theorem mask_toNat (virtPageNumber : BitVec 64) :
    (virtPageNumber &&& 0b111111#64).toNat = virtPageNumber.toNat % TlbT.L2_TLB.lines := by
  rw [BitVec.toNat_and]
  exact Nat.and_two_pow_sub_one_eq_mod _ 6

theorem evictedVaddr_toNat (l2Tlb : Lines .L2_TLB) (virtPageNumber : BitVec 64) :
    (evictedVaddr l2Tlb virtPageNumber).toNat =
      ((l2Tlb (virtPageNumber.toNat % 64)).tag.toNat * 64 + virtPageNumber.toNat % 64) % 2 ^ 32 := by
  have bound : virtPageNumber.toNat % TlbT.L2_TLB.lines < 2 ^ TlbT.L2_TLB.linesBits :=
    Nat.mod_lt _ (by decide)
  rw [evictedVaddr, mask_toNat, concat_toNat _ _ _ bound (by decide),
    BitVec.toNat_setWidth_of_le (by decide)]
  rfl

/-- The lines of the two L1 tables have the same shape. -/
private theorem l1_shape (level : type ≠ .L2_TLB) :
    type.lines = 16 ∧ type.linesBits = 4 ∧ type.tagBits = 32 := by
  cases type with
  | L1_ITLB => exact ⟨rfl, rfl, rfl⟩
  | L1_DTLB => exact ⟨rfl, rfl, rfl⟩
  | L2_TLB => exact (level rfl).elim

/-- The low 32 bits of the page that an L1 line names. -/
private theorem l1Vaddr_toNat (l1 : Lines type) (level : type ≠ .L2_TLB) {i : ℕ} (bound : i < 16) :
    ((l1 i).tag.setWidth 32 <<< type.linesBits ||| BitVec.ofNat 32 i).toNat =
      ((l1 i).tag.toNat * 16 + i) % 2 ^ 32 := by
  obtain ⟨_, bits, width⟩ := l1_shape level
  have small : i < 2 ^ 4 := bound
  rw [bits, concat_toNat _ _ _ small (by decide), BitVec.toNat_setWidth_of_le (by omega)]
  rfl

/-- The line of an L1 table that shares its index with `page` is valid and names, in 32 bits, the page
of the L2 line at the index of `page`, valid or not. -/
def Condemned (l1 : Lines type) (l2Tlb : Lines .L2_TLB) (page : ℕ) : Prop :=
  (l1 (page % 16)).v = true ∧ ((l1 (page % 16)).tag.toNat * 16 + page % 16) % 2 ^ 32 =
    ((l2Tlb (page % 64)).tag.toNat * 64 + page % 64) % 2 ^ 32

instance (l1 : Lines type) (l2Tlb : Lines .L2_TLB) (page : ℕ) :
    Decidable (Condemned l1 l2Tlb page) := inferInstanceAs (Decidable (_ ∧ _))

/-- Cross-invalidation clears the valid bit of the condemned line and changes nothing else. -/
theorem searchInvalid_eq (l1 : Lines type) (l2Tlb : Lines .L2_TLB) (level : type ≠ .L2_TLB)
    (virtPageNumber : BitVec 64) :
    searchInvalid l1 virtPageNumber (evictedVaddr l2Tlb virtPageNumber) =
      if Condemned l1 l2Tlb virtPageNumber.toNat then
        Function.update l1 (virtPageNumber.toNat % 16)
          { l1 (virtPageNumber.toNat % 16) with v := false }
      else l1 := by
  have bound : virtPageNumber.toNat % 16 < 16 := Nat.mod_lt _ (by decide)
  have shape : TlbT.L1_ITLB.lines = 16 := rfl
  simp only [searchInvalid, shape, Bool.and_eq_true, beq_iff_eq, ← BitVec.toNat_inj,
    l1Vaddr_toNat l1 level bound, evictedVaddr_toNat]
  rfl

/-- Cross-invalidation only removes. -/
theorem lookup_searchInvalid {l1 : Lines type} {virtPageNumber : BitVec 64} {tl2Vaddr : BitVec 32}
    {page : ℕ} {frame : BitVec 20}
    (found : lookup (searchInvalid l1 virtPageNumber tl2Vaddr) page = some frame) :
    lookup l1 page = some frame := by
  simp only [searchInvalid] at found
  split at found
  · rw [lookup_eq_some_iff] at found
    rcases eq_or_ne (page % type.lines) (virtPageNumber.toNat % TlbT.L1_ITLB.lines)
      with cleared | kept
    · simp [cleared] at found
    · rw [Function.update_of_ne kept] at found
      exact lookup_eq_some_iff.mpr found
  · exact found

/-- Cross-invalidation removes the page that the L2 line names, although page numbers are compared
in 32 bits only. -/
theorem lookup_searchInvalid_evicted {l1 : Lines type} {virtPageNumber : BitVec 64}
    {tl2Vaddr : BitVec 32} {page : ℕ} (level : type ≠ .L2_TLB)
    (line : page % 16 = virtPageNumber.toNat % 16) (named : tl2Vaddr.toNat = page % 2 ^ 32) :
    lookup (searchInvalid l1 virtPageNumber tl2Vaddr) page = none := by
  obtain ⟨lines, _⟩ := l1_shape level
  cases found : lookup (searchInvalid l1 virtPageNumber tl2Vaddr) page with
  | none => rfl
  | some frame =>
    have before := lookup_searchInvalid found
    rw [lookup_eq_some_iff, lines, line] at before
    obtain ⟨valid, tag, _⟩ := before
    have named' : (l1 (virtPageNumber.toNat % 16)).tag.setWidth 32 <<< type.linesBits |||
        BitVec.ofNat 32 (virtPageNumber.toNat % 16) = tl2Vaddr := by
      apply BitVec.eq_of_toNat_eq
      rw [l1Vaddr_toNat l1 level (Nat.mod_lt _ (by decide)), tag, named]
      omega
    have shape : TlbT.L1_ITLB.lines = 16 := rfl
    simp only [searchInvalid, shape, valid, named', beq_self_eq_true, Bool.and_self,
      ↓reduceIte] at found
    rw [lookup_eq_some_iff, lines, line, Function.update_self] at found
    exact absurd found.1 (by simp)

/-- Every page of an L1 table is in the L2 table with the same frame. -/
def Included (l1 : Lines type) (l2 : Lines .L2_TLB) : Prop :=
  ∀ page frame, lookup l1 page = some frame → lookup l2 page = some frame

namespace Included

variable {l1 : Lines type} {l2 : Lines .L2_TLB} {vaddr : VirtAddr} {paddr : PhyAddr}

/-- Refilling an L1 table from the L2 table keeps it included. -/
theorem refill (included : Included l1 l2)
    (resident : lookup l2 (virtAddrTToVirtualPageNumber vaddr).toNat = some paddr.phyPageNum) :
    Included (install l1 vaddr paddr) l2 := by
  intro page frame found
  rw [lookup_install] at found
  split at found
  · split at found
    · next own =>
      rw [own, resident, found]
    · contradiction
  · exact included page frame found

/-- Entering a translation in both levels keeps the L1 table included: the pages that the L2 line
loses share the L1 line too. -/
theorem fill (included : Included l1 l2) (level : type ≠ .L2_TLB) :
    Included (install l1 vaddr paddr) (install l2 vaddr paddr) := by
  obtain ⟨lines, _⟩ := l1_shape level
  intro page frame found
  rw [lookup_install, lines] at found
  rw [lookup_install, show TlbT.L2_TLB.lines = 64 from rfl]
  split at found
  · split at found
    · next own =>
      rw [if_pos (by rw [own]), if_pos own, found]
    · contradiction
  · rw [if_neg (by omega)]
    exact included page frame found

/-- The other L1 table stays included by cross-invalidation. -/
theorem invalidate (included : Included l1 l2) (level : type ≠ .L2_TLB) :
    Included (searchInvalid l1 (virtAddrTToVirtualPageNumber vaddr)
      (evictedVaddr l2 (virtAddrTToVirtualPageNumber vaddr))) (install l2 vaddr paddr) := by
  intro page frame found
  have resident := included page frame (lookup_searchInvalid found)
  rw [lookup_install, show TlbT.L2_TLB.lines = 64 from rfl]
  rcases eq_or_ne (page % 64) ((virtAddrTToVirtualPageNumber vaddr).toNat % 64) with line | apart
  · -- the L2 line holds this very page, so the comparison clears it
    have evicted := lookup_eq_some_iff.mp resident
    rw [show TlbT.L2_TLB.lines = 64 from rfl, line] at evicted
    have named : (evictedVaddr l2 (virtAddrTToVirtualPageNumber vaddr)).toNat = page % 2 ^ 32 := by
      rw [evictedVaddr_toNat, evicted.2.1]
      omega
    rw [lookup_searchInvalid_evicted level (by omega) named] at found
    contradiction
  · rw [if_neg apart]
    exact resident

end Included

/-- Both L1 tables are included in the L2 table. -/
structure State.Inclusive (state : State) : Prop where
  l1Itlb : Included state.l1Itlb state.l2Tlb
  l1Dtlb : Included state.l1Dtlb state.l2Tlb

/-- Every line is unchanged or has only lost its valid bit. -/
def OnlyCleared (before after : Lines type) : Prop :=
  ∀ i, after i = before i ∨ after i = { before i with v := false }

theorem OnlyCleared.refl (tlb : Lines type) : OnlyCleared tlb tlb := fun _ => .inl rfl

/-- Cross-invalidation clears at most one valid bit. -/
theorem searchInvalid_onlyCleared (l1 : Lines type) (virtPageNumber : BitVec 64)
    (tl2Vaddr : BitVec 32) : OnlyCleared l1 (searchInvalid l1 virtPageNumber tl2Vaddr) := by
  intro i
  simp only [searchInvalid]
  split
  · rcases eq_or_ne i (virtPageNumber.toNat % TlbT.L1_ITLB.lines) with rfl | other
    · exact .inr (Function.update_self ..)
    · exact .inl (Function.update_of_ne other ..)
  · exact .inl rfl

/-- What the L1 table of a kind of access answers for a page. -/
def State.first (state : State) (access : MemAccess) (page : ℕ) : Option (BitVec 20) :=
  match access with
  | .INSTRUCTION => lookup state.l1Itlb page
  | .DATA => lookup state.l1Dtlb page

/-- The tables after a miss in both levels whose page walk found `target`. -/
def State.filled (state : State) (call : Call) (target : PhyAddr) : State :=
  let evicted := evictedVaddr state.l2Tlb (virtAddrTToVirtualPageNumber call.vaddr)
  match call.access with
  | .INSTRUCTION => ⟨install state.l1Itlb call.vaddr target,
      searchInvalid state.l1Dtlb (virtAddrTToVirtualPageNumber call.vaddr) evicted,
      install state.l2Tlb call.vaddr target⟩
  | .DATA => ⟨searchInvalid state.l1Itlb (virtAddrTToVirtualPageNumber call.vaddr) evicted,
      install state.l1Dtlb call.vaddr target, install state.l2Tlb call.vaddr target⟩

variable {state : State} {call : Call} {frame : BitVec 20}

/-- A hit in the L1 table of the access changes nothing. -/
theorem tlbSearch_first (found : state.first call.access call.page = some frame) :
    tlbSearch state call = .ok (state, ⟨.errNone, 1, ⟨frame, call.vaddr.pageOffset⟩⟩) := by
  simp only [Call.page] at found
  cases access : call.access with
  | INSTRUCTION =>
    simp only [State.first, access] at found
    simp [tlbSearch, access, tlbHit_eq, found]
  | DATA =>
    simp only [State.first, access] at found
    simp [tlbSearch, access, tlbHit_eq, found]

/-- A hit in the L2 table refills the instruction table, also for a data access. -/
theorem tlbSearch_second (absent : state.first call.access call.page = none)
    (resident : lookup state.l2Tlb call.page = some frame) (allocated : call.newTlb = true) :
    tlbSearch state call =
      .ok ({ state with l1Itlb := install state.l1Itlb call.vaddr ⟨frame, call.vaddr.pageOffset⟩ },
        ⟨.errNone, 1, ⟨frame, call.vaddr.pageOffset⟩⟩) := by
  have insertion (tlb : Lines .L1_ITLB) := tlbInsert_eq tlb call.vaddr ⟨frame, call.vaddr.pageOffset⟩
  have sameLines : TlbT.L1_DTLB.lines = TlbT.L1_ITLB.lines := rfl
  simp only [Call.page] at absent resident
  cases access : call.access with
  | INSTRUCTION =>
    simp only [State.first, access] at absent
    simp [tlbSearch, access, tlbHit_eq, absent, resident, allocated, insertion]
  | DATA =>
    simp only [State.first, access] at absent
    simp [tlbSearch, access, tlbHit_eq, absent, resident, allocated, sameLines, insertion]

/-- Without memory for the refill nothing changes. -/
theorem tlbSearch_second_failure (absent : state.first call.access call.page = none)
    (resident : lookup state.l2Tlb call.page = some frame) (refused : call.newTlb = false) :
    tlbSearch state call = .ok (state, ⟨.errBadParameter, 1, ⟨frame, call.vaddr.pageOffset⟩⟩) := by
  simp only [Call.page] at absent resident
  cases access : call.access with
  | INSTRUCTION =>
    simp only [State.first, access] at absent
    simp [tlbSearch, access, tlbHit_eq, absent, resident, refused]
  | DATA =>
    simp only [State.first, access] at absent
    simp [tlbSearch, access, tlbHit_eq, absent, resident, refused]

/-- A miss in both levels walks the tables and then fills them. -/
theorem tlbSearch_fill (absent : state.first call.access call.page = none)
    (absent₂ : lookup state.l2Tlb call.page = none) :
    tlbSearch state call = pageWalk call.memSpace call.vaddr call.paddr >>= fun walk =>
      if walk.1 ≠ .errNone then .ok (state, ⟨.errBadParameter, 0, walk.2⟩)
      else .ok (tlbFill state call walk.2) := by
  simp only [Call.page] at absent absent₂
  cases access : call.access with
  | INSTRUCTION =>
    simp only [State.first, access] at absent
    simp [tlbSearch, access, tlbHit_eq, absent, absent₂]
  | DATA =>
    simp only [State.first, access] at absent
    simp [tlbSearch, access, tlbHit_eq, absent, absent₂]

/-- With memory for both entries the miss path leaves the filled tables. -/
theorem tlbFill_success (target : PhyAddr) (allocated : call.MallocSucceeds) :
    tlbFill state call target = (state.filled call target, ⟨.errNone, 0, target⟩) := by
  have insertion {type : TlbT} (tlb : Lines type) := tlbInsert_eq tlb call.vaddr target
  cases access : call.access with
  | INSTRUCTION =>
    simp [access, tlbFill, tlbSearchInvalid, State.filled, allocated.1, allocated.2, insertion,
      evictedVaddr]
  | DATA =>
    simp [access, tlbFill, tlbSearchInvalid, State.filled, allocated.1, allocated.2, insertion,
      evictedVaddr]

/-- A miss in both levels does what the page walk does. -/
theorem tlbSearch_walk (absent : state.first call.access call.page = none)
    (absent₂ : lookup state.l2Tlb call.page = none) (allocated : call.MallocSucceeds) :
    tlbSearch state call = pageWalk call.memSpace call.vaddr call.paddr >>= fun walk =>
      if walk.1 ≠ .errNone then .ok (state, ⟨.errBadParameter, 0, walk.2⟩)
      else .ok (state.filled call walk.2, ⟨.errNone, 0, walk.2⟩) := by
  simp only [tlbSearch_fill absent absent₂, tlbFill_success _ allocated]

/-- Inclusion, seen from the L1 table of one kind of access. -/
theorem State.Inclusive.first (inclusive : state.Inclusive) {access : MemAccess} {page : ℕ}
    (found : state.first access page = some frame) : lookup state.l2Tlb page = some frame := by
  cases access with
  | INSTRUCTION => exact inclusive.l1Itlb page frame found
  | DATA => exact inclusive.l1Dtlb page frame found

theorem State.Inclusive.filled (inclusive : state.Inclusive) (target : PhyAddr) :
    (state.filled call target).Inclusive ∧
      (state.filled call target).l2Tlb = install state.l2Tlb call.vaddr target := by
  cases access : call.access with
  | INSTRUCTION =>
    simp only [State.filled, access, and_true]
    exact ⟨inclusive.l1Itlb.fill (by decide), inclusive.l1Dtlb.invalidate (by decide)⟩
  | DATA =>
    simp only [State.filled, access, and_true]
    exact ⟨inclusive.l1Itlb.invalidate (by decide), inclusive.l1Dtlb.fill (by decide)⟩

/-- A search of a page in the L2 table hits, in the first or in the second level. -/
theorem tlbSearch_hit (inclusive : state.Inclusive) (allocated : call.MallocSucceeds)
    (resident : lookup state.l2Tlb call.page = some frame) :
    ∃ next, tlbSearch state call = .ok (next, ⟨.errNone, 1, ⟨frame, call.vaddr.pageOffset⟩⟩) ∧
      next.l2Tlb = state.l2Tlb ∧ next.Inclusive := by
  cases first : state.first call.access call.page with
  | some other =>
    obtain rfl : other = frame := Option.some.inj ((inclusive.first first).symm.trans resident)
    exact ⟨state, tlbSearch_first first, rfl, inclusive⟩
  | none =>
    exact ⟨_, tlbSearch_second first resident allocated.1, rfl,
      inclusive.l1Itlb.refill resident, inclusive.l1Dtlb⟩

/-- A search of any other page does what its page walk does. -/
theorem tlbSearch_miss (inclusive : state.Inclusive) (allocated : call.MallocSucceeds)
    (absent : lookup state.l2Tlb call.page = none) :
    match pageWalk call.memSpace call.vaddr call.paddr with
    | .error fault => tlbSearch state call = .error fault
    | .ok (code, target) =>
      if code ≠ .errNone then tlbSearch state call = .ok (state, ⟨.errBadParameter, 0, target⟩)
      else ∃ next, tlbSearch state call = .ok (next, ⟨.errNone, 0, target⟩) ∧
        next.l2Tlb = install state.l2Tlb call.vaddr target ∧ next.Inclusive := by
  have absentFirst : state.first call.access call.page = none := by
    cases found : state.first call.access call.page with
    | none => rfl
    | some frame =>
      rw [inclusive.first found] at absent
      contradiction
  have search := tlbSearch_walk absentFirst absent allocated
  cases walked : pageWalk call.memSpace call.vaddr call.paddr with
  | error fault => simp [search, walked]
  | ok result =>
    obtain ⟨code, target⟩ := result
    rcases eq_or_ne code .errNone with rfl | failure
    · simp only [ne_eq, not_true_eq_false, ↓reduceIte]
      exact ⟨_, by simp [search, walked], (inclusive.filled target).2, (inclusive.filled target).1⟩
    · simp [search, walked, failure]

end KabyLake.TlbHrchy
