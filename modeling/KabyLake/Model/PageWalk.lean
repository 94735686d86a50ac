import KabyLake.Model.Addr
import KabyLake.Model.Memory

/-! # The page walk

`page_walk` follows four table entries from the top-level table at offset zero. The walk succeeds
when the last entry is page aligned, and the tables it reads only depend on the page number: all
addresses of one page have the same outcome and the same frame.
-/

namespace KabyLake

/-- `read_page_entry`: the byte offset of a table is scaled to an index of `pte_t`. -/
def readPageEntry (start : MemSpace) (pageStart : BitVec 32) (index : BitVec 9) :
    Exec (BitVec 32) :=
  start.readWord ((pageStart.toNat / 4 + index.toNat) * 4)

/-- `page_walk`. -/
def pageWalk (memSpace : MemSpace) (vaddr : VirtAddr) (paddr : PhyAddr) :
    Exec (ErrorCode × PhyAddr) := do
  let pudStart ← readPageEntry memSpace 0 vaddr.pgdEntry
  let pmdStart ← readPageEntry memSpace pudStart vaddr.pudEntry
  let ptStart ← readPageEntry memSpace pmdStart vaddr.pmdEntry
  let physPageNumber ← readPageEntry memSpace ptStart vaddr.pteEntry
  return initPhyAddr paddr physPageNumber (vaddr.pageOffset.setWidth 32)

/-- A failed walk does not write to `*paddr`, and a successful one sets both of its fields. -/
theorem pageWalk_result {memSpace : MemSpace} {vaddr : VirtAddr} {paddr target : PhyAddr}
    {code : ErrorCode} (walked : pageWalk memSpace vaddr paddr = .ok (code, target)) :
    (code = .errNone ∧ target.pageOffset = vaddr.pageOffset) ∨
      (code = .errBadParameter ∧ target = paddr) := by
  simp only [pageWalk, Machine.bind_eq_ok_iff] at walked
  obtain ⟨_, _, _, _, _, _, physPageNumber, _, last⟩ := walked
  rw [initPhyAddr_offset, Machine.pure_eq_ok] at last
  split at last
  · cases last
    exact .inr ⟨rfl, rfl⟩
  · cases last
    exact .inl ⟨rfl, rfl⟩

theorem pageWalk_failure {memSpace : MemSpace} {vaddr : VirtAddr} {paddr target : PhyAddr}
    {code : ErrorCode} (walked : pageWalk memSpace vaddr paddr = .ok (code, target))
    (failure : code ≠ .errNone) : target = paddr := by
  rcases pageWalk_result walked with ⟨success, _⟩ | ⟨_, kept⟩
  · exact (failure success).elim
  · exact kept

/-- One page has one walk: a second address of the page ends with the same code, and on success
in the same frame, whatever `*paddr` held before. -/
theorem pageWalk_samePage {memSpace : MemSpace} {vaddr other : VirtAddr} {paddr target : PhyAddr}
    {code : ErrorCode}
    (same : virtAddrTToVirtualPageNumber vaddr = virtAddrTToVirtualPageNumber other)
    (walked : pageWalk memSpace vaddr paddr = .ok (code, target)) (prior : PhyAddr) :
    pageWalk memSpace other prior =
      .ok (code, if code = .errNone then ⟨target.phyPageNum, other.pageOffset⟩ else prior) := by
  obtain ⟨pgd, pud, pmd, pte⟩ := virtAddr_entries_eq same
  simp only [pageWalk, Machine.bind_eq_ok_iff] at walked ⊢
  obtain ⟨pudStart, first, pmdStart, second, ptStart, third, physPageNumber, fourth, last⟩ := walked
  refine ⟨pudStart, pgd ▸ first, pmdStart, pud ▸ second, ptStart, pmd ▸ third, physPageNumber,
    pte ▸ fourth, ?_⟩
  rw [initPhyAddr_offset, Machine.pure_eq_ok] at last ⊢
  split at last
  · next unaligned =>
    cases last
    rw [if_pos unaligned]
    rfl
  · next aligned =>
    cases last
    rw [if_neg aligned]
    rfl

/-- The page table maps a virtual page number to a frame. -/
def Walks (memSpace : MemSpace) (page : BitVec 64) (frame : BitVec 20) : Prop :=
  ∃ vaddr prior target, virtAddrTToVirtualPageNumber vaddr = page ∧
    pageWalk memSpace vaddr prior = .ok (.errNone, target) ∧ target.phyPageNum = frame

/-- A mapped page gives every one of its addresses the frame and the address's own offset. -/
theorem Walks.pageWalk {memSpace : MemSpace} {vaddr : VirtAddr} {frame : BitVec 20}
    (walks : Walks memSpace (virtAddrTToVirtualPageNumber vaddr) frame) (prior : PhyAddr) :
    pageWalk memSpace vaddr prior = .ok (.errNone, ⟨frame, vaddr.pageOffset⟩) := by
  obtain ⟨other, _, target, same, walked, rfl⟩ := walks
  simpa using pageWalk_samePage same walked prior

end KabyLake
