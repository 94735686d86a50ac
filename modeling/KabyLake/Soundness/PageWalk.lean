import KabyLake.Model.PageWalk
import KabyLake.Soundness.Addr

/-! # The page walk stays inside the memory

When the tables that can be reached from the top-level table point to pages of the memory only,
every walk reads four words inside the memory and ends in a byte of the memory, and two addresses
of one page end in the same frame.
-/

namespace KabyLake

open Machine

def tableEntry (memSpace : MemSpace) (table : BitVec 32) (index : BitVec 9) : BitVec 32 :=
  memSpace.word (table.toNat + 4 * index.toNat)

/-- The tables that a walk can reach at each of its four levels, from the top-level one at zero. -/
inductive TableAt (memSpace : MemSpace) : ℕ → BitVec 32 → Prop
  | top : TableAt memSpace 0 0
  | lower {level : ℕ} {table : BitVec 32} (index : BitVec 9) : TableAt memSpace level table →
      level < 3 → TableAt memSpace (level + 1) (tableEntry memSpace table index)

/-- Every entry of a reachable table is the offset of a whole page of the memory. -/
def PagesMapped (memSpace : MemSpace) : Prop :=
  ∀ level table, TableAt memSpace level table → ∀ index,
    (tableEntry memSpace table index).toNat % 4096 = 0 ∧
      (tableEntry memSpace table index).toNat + 4096 ≤ memSpace.size

def ReadsInside (memSpace : MemSpace) (table : BitVec 32) (index : BitVec 9)
    (entry : BitVec 32) : Prop :=
  (table.toNat / 4 + index.toNat) * 4 + 4 ≤ memSpace.size ∧
    readPageEntry memSpace table index = .ok entry

/-- The physical address in a page is the start of the page plus the offset. -/
theorem phyAddrTToUint32T_aligned {entry : BitVec 32} (aligned : entry.toNat % 4096 = 0)
    (offset : BitVec 12) :
    (phyAddrTToUint32T ⟨(entry >>> 12).setWidth 20, offset⟩).toNat = entry.toNat + offset.toNat := by
  have small := entry.isLt
  rw [phyAddrTToUint32T_toNat]
  simp only [BitVec.toNat_setWidth, BitVec.toNat_ushiftRight, Nat.shiftRight_eq_div_pow]
  omega

section Mapped

variable {memSpace : MemSpace} (mapped : PagesMapped memSpace)

include mapped

/-- A reachable table is a whole page of the memory, also the top-level one. -/
theorem PagesMapped.table_inside {level : ℕ} {table : BitVec 32}
    (reached : TableAt memSpace level table) :
    table.toNat % 4096 = 0 ∧ table.toNat + 4096 ≤ memSpace.size := by
  cases reached with
  | top =>
    have entry := mapped 0 0 .top 0
    exact ⟨rfl, by simp only [BitVec.ofNat_eq_ofNat, BitVec.toNat_ofNat] at entry ⊢; omega⟩
  | lower index above _ => exact mapped _ _ above index

theorem PagesMapped.readsInside {level : ℕ} {table : BitVec 32}
    (reached : TableAt memSpace level table) (index : BitVec 9) :
    ReadsInside memSpace table index (tableEntry memSpace table index) := by
  obtain ⟨aligned, inside⟩ := mapped.table_inside reached
  have small := index.isLt
  have scaled : (table.toNat / 4 + index.toNat) * 4 = table.toNat + 4 * index.toNat := by omega
  rw [ReadsInside, readPageEntry, MemSpace.readWord, scaled, if_pos (by omega)]
  exact ⟨by omega, rfl⟩

/-- The four reads of a walk and the frame it ends in. -/
theorem PagesMapped.walk (vaddr : VirtAddr) (prior : PhyAddr) :
    ∃ pudStart pmdStart ptStart physPageNumber : BitVec 32,
      ReadsInside memSpace 0 vaddr.pgdEntry pudStart ∧
      ReadsInside memSpace pudStart vaddr.pudEntry pmdStart ∧
      ReadsInside memSpace pmdStart vaddr.pmdEntry ptStart ∧
      ReadsInside memSpace ptStart vaddr.pteEntry physPageNumber ∧
      physPageNumber.toNat % 4096 = 0 ∧ physPageNumber.toNat + 4096 ≤ memSpace.size ∧
      pageWalk memSpace vaddr prior =
        .ok (.errNone, ⟨(physPageNumber >>> 12).setWidth 20, vaddr.pageOffset⟩) := by
  have pud := (TableAt.top : TableAt memSpace 0 0).lower vaddr.pgdEntry (by omega)
  have pmd := pud.lower vaddr.pudEntry (by omega)
  have pt := pmd.lower vaddr.pmdEntry (by omega)
  have first := mapped.readsInside .top vaddr.pgdEntry
  have second := mapped.readsInside pud vaddr.pudEntry
  have third := mapped.readsInside pmd vaddr.pmdEntry
  have fourth := mapped.readsInside pt vaddr.pteEntry
  obtain ⟨aligned, inside⟩ := mapped _ _ pt vaddr.pteEntry
  refine ⟨_, _, _, _, first, second, third, fourth, aligned, inside, ?_⟩
  have divides : tableEntry memSpace _ vaddr.pteEntry % 4096#32 = 0#32 :=
    BitVec.eq_of_toNat_eq aligned
  rw [pageWalk, first.2, Machine.ok_bind, second.2, Machine.ok_bind, third.2,
    Machine.ok_bind, fourth.2, Machine.ok_bind, initPhyAddr_offset, if_neg (not_not.mpr divides)]
  rfl

/-- The walk of the address with the number `vaddr64`: four reads inside the memory, and a physical
address inside the memory, which is the last table entry plus the offset in the page. Every number
that agrees with it in bits 12 to 47 is mapped to the same frame. -/
theorem PagesMapped.confined (vaddr64 : BitVec 64) (prior : PhyAddr) :
    ∃ pudStart pmdStart ptStart physPageNumber : BitVec 32, ∃ target : PhyAddr,
      ReadsInside memSpace 0 (initVirtAddr64 vaddr64).pgdEntry pudStart ∧
      ReadsInside memSpace pudStart (initVirtAddr64 vaddr64).pudEntry pmdStart ∧
      ReadsInside memSpace pmdStart (initVirtAddr64 vaddr64).pmdEntry ptStart ∧
      ReadsInside memSpace ptStart (initVirtAddr64 vaddr64).pteEntry physPageNumber ∧
      pageWalk memSpace (initVirtAddr64 vaddr64) prior = .ok (.errNone, target) ∧
      (phyAddrTToUint32T target).toNat < memSpace.size ∧
      (phyAddrTToUint32T target).toNat = physPageNumber.toNat + vaddr64.toNat % 4096 ∧
      ∀ (other : BitVec 64) (before : PhyAddr),
        other.extractLsb' 12 36 = vaddr64.extractLsb' 12 36 →
        ∃ result, pageWalk memSpace (initVirtAddr64 other) before = .ok (.errNone, result) ∧
          result.phyPageNum = target.phyPageNum := by
  obtain ⟨pudStart, pmdStart, ptStart, physPageNumber, first, second, third, fourth, aligned,
    inside, walked⟩ := mapped.walk (initVirtAddr64 vaddr64) prior
  obtain ⟨-, -, -, -, offset⟩ := initVirtAddr64_fields vaddr64
  have sum : (phyAddrTToUint32T ⟨(physPageNumber >>> 12).setWidth 20,
      (initVirtAddr64 vaddr64).pageOffset⟩).toNat = physPageNumber.toNat + vaddr64.toNat % 4096 := by
    rw [phyAddrTToUint32T_aligned aligned]
    omega
  refine ⟨pudStart, pmdStart, ptStart, physPageNumber, _, first, second, third, fourth, walked,
    by omega, sum, ?_⟩
  intro other before agree
  have same : virtAddrTToVirtualPageNumber (initVirtAddr64 vaddr64) =
      virtAddrTToVirtualPageNumber (initVirtAddr64 other) := by
    apply BitVec.eq_of_toNat_eq
    have bits := congrArg BitVec.toNat agree
    simp only [BitVec.extractLsb'_toNat, Nat.shiftRight_eq_div_pow] at bits
    rw [virtAddrTToVirtualPageNumber_initVirtAddr64, virtAddrTToVirtualPageNumber_initVirtAddr64]
    exact bits.symm
  exact ⟨_, pageWalk_samePage same walked before, by simp⟩

end Mapped

/-- A memory whose first page is zeroed maps every address to that page. -/
theorem zeroed_walks {memSpace : MemSpace} (size : 4096 ≤ memSpace.size)
    (zero : ∀ a < 4096, memSpace.byte a = 0) (vaddr : VirtAddr) :
    Walks memSpace (virtAddrTToVirtualPageNumber vaddr) 0 := by
  have entry (index : BitVec 9) : readPageEntry memSpace 0 index = .ok 0 := by
    have small := index.isLt
    have inside : (BitVec.toNat (0 : BitVec 32) / 4 + index.toNat) * 4 + 4 ≤ memSpace.size := by
      simp only [BitVec.ofNat_eq_ofNat, BitVec.toNat_ofNat]
      omega
    have bytes : ∀ k < 4, memSpace.byte ((BitVec.toNat (0 : BitVec 32) / 4 + index.toNat) * 4 + k) =
        LittleEndian.byte 0 k := by
      intro k bound
      rw [zero _ (by simp only [BitVec.ofNat_eq_ofNat, BitVec.toNat_ofNat]; omega)]
      exact (by decide : ∀ k < 4, 0#8 = LittleEndian.byte 0 k) k bound
    rw [readPageEntry, MemSpace.readWord, if_pos inside]
    exact congrArg Except.ok (LittleEndian.word_eq_of_bytes bytes)
  refine ⟨vaddr, ⟨0, 0⟩, ⟨0, vaddr.pageOffset⟩, rfl, ?_, rfl⟩
  rw [pageWalk, entry, ok_bind, entry, ok_bind, entry, ok_bind, entry, ok_bind, initPhyAddr_offset]
  rfl

def blankMemory : MemSpace := ⟨8192, fun _ => 0⟩

theorem blankMemory_walks (vaddr : VirtAddr) : Walks blankMemory (virtAddrTToVirtualPageNumber vaddr) 0 :=
  zeroed_walks (by decide) (fun _ _ => rfl) vaddr

/-- A memory whose page one is mapped to frame one. -/
def onePage : MemSpace := ⟨8192, fun x => if x = 5 then 0x10 else 0⟩

def selfMapped : MemSpace := ⟨8192, fun x => if x % 4 = 1 then 0x10 else 0⟩

theorem selfMapped_entry {table : BitVec 32} (aligned : table.toNat % 4 = 0) (index : BitVec 9) :
    tableEntry selfMapped table index = 4096 := by
  have bytes : ∀ k < 4, (if k = 1 then 0x10#8 else 0) = LittleEndian.byte 4096 k := by decide
  apply LittleEndian.word_eq_of_bytes
  intro j small
  have digit : (table.toNat + 4 * index.toNat + j) % 4 = j := by omega
  simp only [selfMapped, digit]
  exact bytes j small

theorem selfMapped_pagesMapped : PagesMapped selfMapped := by
  have aligned {level : ℕ} {table : BitVec 32} (reached : TableAt selfMapped level table) :
      table.toNat % 4 = 0 := by
    induction reached with
    | top => rfl
    | lower index _ _ ih => rw [selfMapped_entry ih]; rfl
  intro level table reached index
  rw [selfMapped_entry (aligned reached)]
  exact ⟨rfl, le_rfl⟩

theorem PagesMapped.confined_selfMapped :
    ∃ target, pageWalk selfMapped (initVirtAddr64 0x3001) ⟨0, 0⟩ = .ok (.errNone, target) ∧
      (phyAddrTToUint32T target).toNat < selfMapped.size := by
  obtain ⟨_, _, _, _, target, _, _, _, _, walked, inside, _⟩ :=
    PagesMapped.confined selfMapped_pagesMapped 0x3001 ⟨0, 0⟩
  exact ⟨target, walked, inside⟩

end KabyLake
