import KabyLake.Model.Addr

/-! # Virtual addresses and 64-bit numbers

`init_virt_addr64` and `virt_addr_t_to_uint64_t` are inverse to each other on the low 48 bits, and
`init_virt_addr` is the same construction from separate fields: it accepts exactly the fields that
are in range.
-/

namespace KabyLake

/-- The digits of an address put together again are the low 48 bits of its number. -/
theorem virtAddrTToUint64T_initVirtAddr64 (vaddr64 : BitVec 64) :
    (virtAddrTToUint64T (initVirtAddr64 vaddr64)).toNat = vaddr64.toNat % 2 ^ 48 := by
  obtain ⟨pgd, pud, pmd, pte, offset⟩ := initVirtAddr64_fields vaddr64
  rw [virtAddrTToUint64T_toNat, virtAddrTToVirtualPageNumber_toNat, pgd, pud, pmd, pte, offset]
  omega

theorem virtAddrTToVirtualPageNumber_initVirtAddr64 (vaddr64 : BitVec 64) :
    (virtAddrTToVirtualPageNumber (initVirtAddr64 vaddr64)).toNat =
      vaddr64.toNat / 4096 % 2 ^ 36 := by
  obtain ⟨pgd, pud, pmd, pte, -⟩ := initVirtAddr64_fields vaddr64
  rw [virtAddrTToVirtualPageNumber_toNat, pgd, pud, pmd, pte]
  omega

def concatenation (pgdEntry pudEntry pmdEntry pteEntry pageOffset : BitVec 16) : BitVec 64 :=
  BitVec.ofNat 64 (pgdEntry.toNat * 2 ^ 39 + pudEntry.toNat * 2 ^ 30 + pmdEntry.toNat * 2 ^ 21 +
    pteEntry.toNat * 2 ^ 12 + pageOffset.toNat)

private theorem shiftRight_eq_zero_iff (entry : BitVec 16) (width : ℕ) :
    entry >>> width = 0#16 ↔ entry.toNat < 2 ^ width := by
  rw [← BitVec.toNat_inj, BitVec.toNat_ushiftRight, Nat.shiftRight_eq_div_pow, BitVec.toNat_zero,
    Nat.div_eq_zero_iff_lt (Nat.two_pow_pos width)]

section Fields

variable (vaddr : VirtAddr) (pgdEntry pudEntry pmdEntry pteEntry pageOffset : BitVec 16)

/-- The fields that `init_virt_addr` accepts. -/
def FieldsInRange : Prop :=
  pgdEntry.toNat < 512 ∧ pudEntry.toNat < 512 ∧ pmdEntry.toNat < 512 ∧ pteEntry.toNat < 512 ∧
    pageOffset.toNat < 4096

instance : Decidable (FieldsInRange pgdEntry pudEntry pmdEntry pteEntry pageOffset) :=
  inferInstanceAs (Decidable (_ ∧ _))

/-- A field out of range is refused before the first assignment. -/
theorem initVirtAddr_eq :
    initVirtAddr vaddr pgdEntry pudEntry pmdEntry pteEntry pageOffset =
      if FieldsInRange pgdEntry pudEntry pmdEntry pteEntry pageOffset then
        (.errNone, ⟨0, pgdEntry.setWidth 9, pudEntry.setWidth 9, pmdEntry.setWidth 9,
          pteEntry.setWidth 9, pageOffset.setWidth 12⟩)
      else (.errBadParameter, vaddr) := by
  have decided : FieldsInRange pgdEntry pudEntry pmdEntry pteEntry pageOffset ↔
      pgdEntry >>> 9 = 0#16 ∧ pudEntry >>> 9 = 0#16 ∧ pteEntry >>> 9 = 0#16 ∧
        pmdEntry >>> 9 = 0#16 ∧ pageOffset >>> 12 = 0#16 := by
    simp only [FieldsInRange, shiftRight_eq_zero_iff]
    omega
  simp only [initVirtAddr, decided, ne_eq, ite_not, ite_and]

/-- Fields in range are the digits of their concatenation. -/
theorem initVirtAddr64_concatenation
    (inRange : FieldsInRange pgdEntry pudEntry pmdEntry pteEntry pageOffset) :
    initVirtAddr64 (concatenation pgdEntry pudEntry pmdEntry pteEntry pageOffset) =
      ⟨0, pgdEntry.setWidth 9, pudEntry.setWidth 9, pmdEntry.setWidth 9, pteEntry.setWidth 9,
        pageOffset.setWidth 12⟩ := by
  obtain ⟨pgd, pud, pmd, pte, offset⟩ := inRange
  have number : (concatenation pgdEntry pudEntry pmdEntry pteEntry pageOffset).toNat =
      pgdEntry.toNat * 2 ^ 39 + pudEntry.toNat * 2 ^ 30 + pmdEntry.toNat * 2 ^ 21 +
        pteEntry.toNat * 2 ^ 12 + pageOffset.toNat := by
    rw [concatenation, BitVec.toNat_ofNat, Nat.mod_eq_of_lt (by omega)]
  obtain ⟨pgdDigit, pudDigit, pmdDigit, pteDigit, offsetDigit⟩ :=
    initVirtAddr64_fields (concatenation pgdEntry pudEntry pmdEntry pteEntry pageOffset)
  apply VirtAddr.eq_of_toNat_eq <;> dsimp only
  · rfl
  · rw [pgdDigit, BitVec.toNat_setWidth]
    omega
  · rw [pudDigit, BitVec.toNat_setWidth]
    omega
  · rw [pmdDigit, BitVec.toNat_setWidth]
    omega
  · rw [pteDigit, BitVec.toNat_setWidth]
    omega
  · rw [offsetDigit, BitVec.toNat_setWidth]
    omega

end Fields

/-- Virtual addresses are coded by the low 48 bits of a 64-bit number: both directions of the
coding are inverse to each other, and `init_virt_addr` builds from fields in range what
`init_virt_addr64` builds from their concatenation. -/
theorem virtAddr_coding :
    (∀ vaddr64 : BitVec 64,
      (virtAddrTToUint64T (initVirtAddr64 vaddr64)).toNat = vaddr64.toNat % 2 ^ 48 ∧
        (virtAddrTToVirtualPageNumber (initVirtAddr64 vaddr64)).toNat =
          vaddr64.toNat / 4096 % 2 ^ 36) ∧
    (∀ vaddr : VirtAddr, vaddr.reserved = 0 → initVirtAddr64 (virtAddrTToUint64T vaddr) = vaddr) ∧
    (∀ (vaddr : VirtAddr) (pgdEntry pudEntry pmdEntry pteEntry pageOffset : BitVec 16),
      let (code, next) := initVirtAddr vaddr pgdEntry pudEntry pmdEntry pteEntry pageOffset
      (code = .errNone ↔ FieldsInRange pgdEntry pudEntry pmdEntry pteEntry pageOffset) ∧
        next = if code = .errNone then
          initVirtAddr64 (concatenation pgdEntry pudEntry pmdEntry pteEntry pageOffset)
        else vaddr) := by
  refine ⟨?numbers, ?addresses, ?fields⟩
  case numbers =>
    intro vaddr64
    exact ⟨virtAddrTToUint64T_initVirtAddr64 vaddr64,
      virtAddrTToVirtualPageNumber_initVirtAddr64 vaddr64⟩
  case addresses =>
    intro vaddr reserved
    rw [initVirtAddr64_virtAddrTToUint64T, ← reserved]
  case fields =>
    intro vaddr pgdEntry pudEntry pmdEntry pteEntry pageOffset
    by_cases inRange : FieldsInRange pgdEntry pudEntry pmdEntry pteEntry pageOffset
    · rw [initVirtAddr_eq, if_pos inRange]
      simp [inRange, initVirtAddr64_concatenation _ _ _ _ _ inRange]
    · rw [initVirtAddr_eq, if_neg inRange]
      simp [inRange]

theorem virtAddr_coding_sample :
    initVirtAddr64 (virtAddrTToUint64T ⟨0, 1, 2, 3, 4, 5⟩) = ⟨0, 1, 2, 3, 4, 5⟩ :=
  virtAddr_coding.2.1 ⟨0, 1, 2, 3, 4, 5⟩ rfl

end KabyLake
