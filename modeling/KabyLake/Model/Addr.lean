import Mathlib.Data.BitVec
import KabyLake.Model.Error

/-! # Virtual and physical addresses

The structures of `addr.h` and the functions of `addr_mng.c` that the TLBs and the caches use.
Every bit-field has its declared width, so an out-of-range field cannot be built.
-/

namespace KabyLake

/-- `virt_addr_t`: four table indices and the offset inside the page. -/
structure VirtAddr where
  reserved : BitVec 16
  pgdEntry : BitVec 9
  pudEntry : BitVec 9
  pmdEntry : BitVec 9
  pteEntry : BitVec 9
  pageOffset : BitVec 12
deriving DecidableEq, Repr

/-- Addresses are equal when their fields are equal as numbers. -/
theorem VirtAddr.eq_of_toNat_eq {vaddr other : VirtAddr} (reserved : vaddr.reserved = other.reserved)
    (pgd : vaddr.pgdEntry.toNat = other.pgdEntry.toNat)
    (pud : vaddr.pudEntry.toNat = other.pudEntry.toNat)
    (pmd : vaddr.pmdEntry.toNat = other.pmdEntry.toNat)
    (pte : vaddr.pteEntry.toNat = other.pteEntry.toNat)
    (offset : vaddr.pageOffset.toNat = other.pageOffset.toNat) : vaddr = other := by
  cases vaddr
  cases other
  simp only [VirtAddr.mk.injEq]
  exact ⟨reserved, BitVec.eq_of_toNat_eq pgd, BitVec.eq_of_toNat_eq pud, BitVec.eq_of_toNat_eq pmd,
    BitVec.eq_of_toNat_eq pte, BitVec.eq_of_toNat_eq offset⟩

/-- `phy_addr_t`: a frame number and the offset inside the frame. -/
structure PhyAddr where
  phyPageNum : BitVec 20
  pageOffset : BitVec 12
deriving DecidableEq, Repr

/-- `mem_access_t` of `mem_access.h`. -/
inductive MemAccess where
  | INSTRUCTION | DATA
deriving DecidableEq, Repr

/-- `init_phy_addr`: both checks come before the first assignment. -/
def initPhyAddr (paddr : PhyAddr) (pageBegin pageOffset : BitVec 32) : ErrorCode × PhyAddr :=
  if pageOffset >>> 12 ≠ 0#32 then (.errBadParameter, paddr)
  else if pageBegin % 4096#32 ≠ 0#32 then (.errBadParameter, paddr)
  else (.errNone, ⟨(pageBegin >>> 12).setWidth 20, pageOffset.setWidth 12⟩)

/-- `virt_addr_t_to_virtual_page_number`. -/
def virtAddrTToVirtualPageNumber (vaddr : VirtAddr) : BitVec 64 :=
  let pte := vaddr.pteEntry.setWidth 64
  let pmd := vaddr.pmdEntry.setWidth 64 <<< 9
  let pud := vaddr.pudEntry.setWidth 64 <<< (9 * 2)
  let pgd := vaddr.pgdEntry.setWidth 64 <<< (9 * 3)
  pte ||| pmd ||| pud ||| pgd

/-- `init_virt_addr`: the five checks come before the first assignment. -/
def initVirtAddr (vaddr : VirtAddr) (pgdEntry pudEntry pmdEntry pteEntry pageOffset : BitVec 16) :
    ErrorCode × VirtAddr :=
  if pgdEntry >>> 9 ≠ 0#16 then (.errBadParameter, vaddr)
  else if pudEntry >>> 9 ≠ 0#16 then (.errBadParameter, vaddr)
  else if pteEntry >>> 9 ≠ 0#16 then (.errBadParameter, vaddr)
  else if pmdEntry >>> 9 ≠ 0#16 then (.errBadParameter, vaddr)
  else if pageOffset >>> 12 ≠ 0#16 then (.errBadParameter, vaddr)
  else (.errNone, ⟨0, pgdEntry.setWidth 9, pudEntry.setWidth 9, pmdEntry.setWidth 9,
    pteEntry.setWidth 9, pageOffset.setWidth 12⟩)

/-- `init_virt_addr64`: every field is assigned, and the top sixteen bits of the number are lost. -/
def initVirtAddr64 (vaddr64 : BitVec 64) : VirtAddr where
  reserved := 0
  pgdEntry := (vaddr64 >>> (12 + 3 * 9) &&& 0b111111111#64).setWidth 9
  pudEntry := (vaddr64 >>> (12 + 2 * 9) &&& 0b111111111#64).setWidth 9
  pmdEntry := (vaddr64 >>> (12 + 9) &&& 0b111111111#64).setWidth 9
  pteEntry := (vaddr64 >>> 12 &&& 0b111111111#64).setWidth 9
  pageOffset := (vaddr64 &&& 0b111111111111#64).setWidth 12

/-- `virt_addr_t_to_uint64_t`. -/
def virtAddrTToUint64T (vaddr : VirtAddr) : BitVec 64 :=
  virtAddrTToVirtualPageNumber vaddr <<< 12 ||| vaddr.pageOffset.setWidth 64

/-- `phy_addr_t_to_uint32_t`; the shift of the 20-bit frame number wraps in 32 bits. -/
def phyAddrTToUint32T (paddr : PhyAddr) : BitVec 32 :=
  let phyPageNum := paddr.phyPageNum.setWidth 32 <<< 12
  phyPageNum ||| paddr.pageOffset.setWidth 32

/-- The offset of a virtual address always passes the check of `init_phy_addr`. -/
theorem initPhyAddr_offset (paddr : PhyAddr) (pageBegin : BitVec 32) (pageOffset : BitVec 12) :
    initPhyAddr paddr pageBegin (pageOffset.setWidth 32) =
      if pageBegin % 4096#32 ≠ 0#32 then (.errBadParameter, paddr)
      else (.errNone, ⟨(pageBegin >>> 12).setWidth 20, pageOffset⟩) := by
  have small : pageOffset.setWidth 32 >>> 12 = 0#32 := by
    apply BitVec.eq_of_toNat_eq
    have := pageOffset.isLt
    simp only [BitVec.toNat_ushiftRight, BitVec.toNat_setWidth, Nat.shiftRight_eq_div_pow,
      BitVec.toNat_zero]
    omega
  have kept : (pageOffset.setWidth 32).setWidth 12 = pageOffset := by
    apply BitVec.eq_of_toNat_eq
    have := pageOffset.isLt
    simp only [BitVec.toNat_setWidth]
    omega
  simp only [initPhyAddr, small, kept, ne_eq, not_true_eq_false, ↓reduceIte]

/-- The page number is the concatenation of the four table indices. -/
theorem virtAddrTToVirtualPageNumber_toNat (vaddr : VirtAddr) :
    (virtAddrTToVirtualPageNumber vaddr).toNat = vaddr.pgdEntry.toNat * 2 ^ 27 +
      vaddr.pudEntry.toNat * 2 ^ 18 + vaddr.pmdEntry.toNat * 2 ^ 9 + vaddr.pteEntry.toNat := by
  have pgd := vaddr.pgdEntry.isLt
  have pud := vaddr.pudEntry.isLt
  have pmd := vaddr.pmdEntry.isLt
  have pte := vaddr.pteEntry.isLt
  simp only [virtAddrTToVirtualPageNumber, BitVec.toNat_or, BitVec.toNat_shiftLeft,
    BitVec.toNat_setWidth, Nat.shiftLeft_eq]
  rw [Nat.mod_eq_of_lt (by omega : vaddr.pteEntry.toNat < 2 ^ 64),
    Nat.mod_eq_of_lt (by omega : vaddr.pmdEntry.toNat < 2 ^ 64),
    Nat.mod_eq_of_lt (by omega : vaddr.pudEntry.toNat < 2 ^ 64),
    Nat.mod_eq_of_lt (by omega : vaddr.pgdEntry.toNat < 2 ^ 64),
    Nat.mod_eq_of_lt (by omega), Nat.mod_eq_of_lt (by omega), Nat.mod_eq_of_lt (by omega)]
  have low : vaddr.pteEntry.toNat ||| vaddr.pmdEntry.toNat * 2 ^ 9 =
      vaddr.pmdEntry.toNat * 2 ^ 9 + vaddr.pteEntry.toNat := by
    rw [Nat.or_comm, ← Nat.shiftLeft_eq, ← Nat.shiftLeft_add_eq_or_of_lt (by omega)]
  have middle : vaddr.pmdEntry.toNat * 2 ^ 9 + vaddr.pteEntry.toNat |||
      vaddr.pudEntry.toNat * 2 ^ (9 * 2) = vaddr.pudEntry.toNat * 2 ^ (9 * 2) +
        (vaddr.pmdEntry.toNat * 2 ^ 9 + vaddr.pteEntry.toNat) := by
    rw [Nat.or_comm, ← Nat.shiftLeft_eq, ← Nat.shiftLeft_eq,
      ← Nat.shiftLeft_add_eq_or_of_lt (by rw [Nat.shiftLeft_eq]; omega)]
  have high : vaddr.pudEntry.toNat * 2 ^ (9 * 2) +
      (vaddr.pmdEntry.toNat * 2 ^ 9 + vaddr.pteEntry.toNat) ||| vaddr.pgdEntry.toNat * 2 ^ (9 * 3) =
        vaddr.pgdEntry.toNat * 2 ^ (9 * 3) + (vaddr.pudEntry.toNat * 2 ^ (9 * 2) +
          (vaddr.pmdEntry.toNat * 2 ^ 9 + vaddr.pteEntry.toNat)) := by
    rw [Nat.or_comm, ← Nat.shiftLeft_eq vaddr.pgdEntry.toNat,
      ← Nat.shiftLeft_add_eq_or_of_lt (by omega)]
  rw [low, middle, high]
  omega

/-- Page numbers have 36 bits. -/
theorem virtAddrTToVirtualPageNumber_lt (vaddr : VirtAddr) :
    (virtAddrTToVirtualPageNumber vaddr).toNat < 2 ^ 36 := by
  have pgd := vaddr.pgdEntry.isLt
  have pud := vaddr.pudEntry.isLt
  have pmd := vaddr.pmdEntry.isLt
  have pte := vaddr.pteEntry.isLt
  rw [virtAddrTToVirtualPageNumber_toNat]
  omega

/-- The 64-bit number of an address is its page number followed by its offset. -/
theorem virtAddrTToUint64T_toNat (vaddr : VirtAddr) :
    (virtAddrTToUint64T vaddr).toNat =
      (virtAddrTToVirtualPageNumber vaddr).toNat * 4096 + vaddr.pageOffset.toNat := by
  have page := virtAddrTToVirtualPageNumber_lt vaddr
  have offset := vaddr.pageOffset.isLt
  simp only [virtAddrTToUint64T, BitVec.toNat_or, BitVec.toNat_shiftLeft, BitVec.toNat_setWidth]
  rw [Nat.mod_eq_of_lt (by omega : vaddr.pageOffset.toNat < 2 ^ 64), Nat.shiftLeft_eq,
    Nat.mod_eq_of_lt (by omega), ← Nat.shiftLeft_eq, ← Nat.shiftLeft_add_eq_or_of_lt (by omega),
    Nat.shiftLeft_eq]

/-- A field cut out of the number by a shift and a mask of ones. -/
private theorem field_toNat (vaddr64 : BitVec 64) (shift width : ℕ) (mask : BitVec 64)
    (ones : mask.toNat = 2 ^ width - 1) :
    ((vaddr64 >>> shift &&& mask).setWidth width).toNat = vaddr64.toNat / 2 ^ shift % 2 ^ width := by
  rw [BitVec.toNat_setWidth, BitVec.toNat_and, ones, Nat.and_two_pow_sub_one_eq_mod,
    BitVec.toNat_ushiftRight, Nat.shiftRight_eq_div_pow, Nat.mod_mod]

/-- The fields are the digits of the number: the offset in its low twelve bits, and nine bits for
each table index above them. -/
theorem initVirtAddr64_fields (vaddr64 : BitVec 64) :
    (initVirtAddr64 vaddr64).pgdEntry.toNat = vaddr64.toNat / 2 ^ 39 % 2 ^ 9 ∧
      (initVirtAddr64 vaddr64).pudEntry.toNat = vaddr64.toNat / 2 ^ 30 % 2 ^ 9 ∧
      (initVirtAddr64 vaddr64).pmdEntry.toNat = vaddr64.toNat / 2 ^ 21 % 2 ^ 9 ∧
      (initVirtAddr64 vaddr64).pteEntry.toNat = vaddr64.toNat / 2 ^ 12 % 2 ^ 9 ∧
      (initVirtAddr64 vaddr64).pageOffset.toNat = vaddr64.toNat % 2 ^ 12 := by
  have low := field_toNat vaddr64 0 12 0b111111111111#64 rfl
  rw [BitVec.ushiftRight_zero, pow_zero, Nat.div_one] at low
  have entry (shift : ℕ) := field_toNat vaddr64 shift 9 0b111111111#64 rfl
  exact ⟨entry 39, entry 30, entry 21, entry 12, low⟩

/-- The number of an address gives the address back, with the reserved bits cleared. -/
theorem initVirtAddr64_virtAddrTToUint64T (vaddr : VirtAddr) :
    initVirtAddr64 (virtAddrTToUint64T vaddr) = { vaddr with reserved := 0 } := by
  have number := virtAddrTToUint64T_toNat vaddr
  rw [virtAddrTToVirtualPageNumber_toNat] at number
  have pgd := vaddr.pgdEntry.isLt
  have pud := vaddr.pudEntry.isLt
  have pmd := vaddr.pmdEntry.isLt
  have pte := vaddr.pteEntry.isLt
  have offset := vaddr.pageOffset.isLt
  obtain ⟨pgdDigit, pudDigit, pmdDigit, pteDigit, offsetDigit⟩ :=
    initVirtAddr64_fields (virtAddrTToUint64T vaddr)
  apply VirtAddr.eq_of_toNat_eq <;> dsimp only
  · rfl
  · rw [pgdDigit]
    omega
  · rw [pudDigit]
    omega
  · rw [pmdDigit]
    omega
  · rw [pteDigit]
    omega
  · rw [offsetDigit]
    omega

/-- Addresses of one virtual page have the same four table indices. -/
theorem virtAddr_entries_eq {vaddr other : VirtAddr}
    (same : virtAddrTToVirtualPageNumber vaddr = virtAddrTToVirtualPageNumber other) :
    vaddr.pgdEntry = other.pgdEntry ∧ vaddr.pudEntry = other.pudEntry ∧
      vaddr.pmdEntry = other.pmdEntry ∧ vaddr.pteEntry = other.pteEntry := by
  have numbers := congrArg BitVec.toNat same
  rw [virtAddrTToVirtualPageNumber_toNat, virtAddrTToVirtualPageNumber_toNat] at numbers
  have := vaddr.pudEntry.isLt
  have := vaddr.pmdEntry.isLt
  have := vaddr.pteEntry.isLt
  have := other.pudEntry.isLt
  have := other.pmdEntry.isLt
  have := other.pteEntry.isLt
  refine ⟨?_, ?_, ?_, ?_⟩ <;> apply BitVec.eq_of_toNat_eq <;> omega

/-- The 32-bit physical address is the frame start plus the offset. -/
theorem phyAddrTToUint32T_toNat (paddr : PhyAddr) :
    (phyAddrTToUint32T paddr).toNat = paddr.phyPageNum.toNat * 4096 + paddr.pageOffset.toNat := by
  have page := paddr.phyPageNum.isLt
  have offset := paddr.pageOffset.isLt
  simp only [phyAddrTToUint32T, BitVec.toNat_or, BitVec.toNat_shiftLeft, BitVec.toNat_setWidth]
  rw [Nat.mod_eq_of_lt (by omega : paddr.phyPageNum.toNat < 2 ^ 32),
    Nat.mod_eq_of_lt (by omega : paddr.pageOffset.toNat < 2 ^ 32), Nat.shiftLeft_eq,
    Nat.mod_eq_of_lt (by omega), ← Nat.shiftLeft_eq,
    ← Nat.shiftLeft_add_eq_or_of_lt (by omega), Nat.shiftLeft_eq]

end KabyLake
