import Mathlib.Logic.Function.Basic
import KabyLake.Model.Tlb

/-! # The two-level hierarchy of TLBs

The functions of `tlb_hrchy_mng.c`. All three tables are direct mapped: the low bits of a page
number select the line and the remaining bits are the tag. The macros `init`, `insert` and `hit`
are written once for a table kind, whose number of lines and tag width are those of the
corresponding C type.
-/

namespace KabyLake.TlbHrchy

/-- `tlb_t`. -/
inductive TlbT where
  | L1_ITLB | L1_DTLB | L2_TLB
deriving DecidableEq, Repr

/-- `L1_ITLB_LINES`, `L1_DTLB_LINES`, `L2_TLB_LINES`. -/
def TlbT.lines : TlbT → ℕ
  | L1_ITLB => 16
  | L1_DTLB => 16
  | L2_TLB => 64

/-- `L1_ITLB_LINES_BITS`, `L1_DTLB_LINES_BITS`, `L2_TLB_LINES_BITS`. -/
def TlbT.linesBits : TlbT → ℕ
  | L1_ITLB => 4
  | L1_DTLB => 4
  | L2_TLB => 6

/-- The declared widths of the `tag` bit-fields. -/
def TlbT.tagBits : TlbT → ℕ
  | L1_ITLB => 32
  | L1_DTLB => 32
  | L2_TLB => 30

/-- The array behind a pointer to the lines of one table. -/
abbrev Lines (type : TlbT) := ℕ → TlbEntry type.tagBits

variable {type : TlbT}

/-- `tlb_flush`. -/
def tlbFlush (tlb : Lines type) : Lines type := fun i => if i < type.lines then ⟨0, 0, false⟩ else tlb i

/-- `tlb_entry_init`: all three fields of the new entry are assigned. -/
def tlbEntryInit (type : TlbT) (vaddr : VirtAddr) (paddr : PhyAddr) : TlbEntry type.tagBits :=
  ⟨(virtAddrTToVirtualPageNumber vaddr >>> type.linesBits).setWidth type.tagBits,
    paddr.phyPageNum, true⟩

/-- `tlb_insert`. -/
def tlbInsert (lineIndex : ℕ) (entry : TlbEntry type.tagBits) (tlb : Lines type) :
    ErrorCode × Lines type :=
  if lineIndex ≥ type.lines then (.errBadParameter, tlb)
  else (.errNone, Function.update tlb lineIndex entry)

/-- `tlb_hit`; the line index is a remainder, so the line always exists. -/
def tlbHit (vaddr : VirtAddr) (paddr : PhyAddr) (tlb : Lines type) : ℕ × PhyAddr :=
  let virtPageNum := virtAddrTToVirtualPageNumber vaddr
  let lineIndex := virtPageNum.toNat % type.lines
  let tag := virtPageNum >>> type.linesBits
  if (tlb lineIndex).v && tag == (tlb lineIndex).tag.setWidth 64 then
    (1, ⟨(tlb lineIndex).phyPageNum, vaddr.pageOffset⟩)
  else (0, paddr)

/-- `search_invalid`: clear the line of the other L1 table if it names the page of the L2 line.
Both page numbers are computed in 32 bits, and the L2 valid bit is not looked at. -/
def searchInvalid (l1 : Lines type) (virtPageNumber : BitVec 64) (tl2Vaddr : BitVec 32) :
    Lines type :=
  let tl1Index := virtPageNumber.toNat % TlbT.L1_ITLB.lines
  let tl1Vaddr := (l1 tl1Index).tag.setWidth 32 <<< type.linesBits ||| BitVec.ofNat 32 tl1Index
  if (l1 tl1Index).v && tl1Vaddr == tl2Vaddr then
    Function.update l1 tl1Index { l1 tl1Index with v := false }
  else l1

/-- `tlb_search_invalid`. -/
def tlbSearchInvalid (l1Itlb : Lines .L1_ITLB) (l1Dtlb : Lines .L1_DTLB)
    (virtPageNumber : BitVec 64) (access : MemAccess) (l2Tlb : Lines .L2_TLB) :
    ErrorCode × Lines .L1_ITLB × Lines .L1_DTLB :=
  let tl2Index := (virtPageNumber &&& 0b111111#64).toNat
  let tl2Vaddr := (l2Tlb tl2Index).tag.setWidth 32 <<< TlbT.L2_TLB.linesBits |||
    BitVec.ofNat 32 tl2Index
  match access with
  | .INSTRUCTION => (.errNone, l1Itlb, searchInvalid l1Dtlb virtPageNumber tl2Vaddr)
  | .DATA => (.errNone, searchInvalid l1Itlb virtPageNumber tl2Vaddr, l1Dtlb)

/-- What a caller passes to `tlb_search` besides the tables, with the outcomes of the two `malloc`
calls; whatever bytes they hand out are overwritten field by field. -/
structure Call where
  memSpace : MemSpace
  vaddr : VirtAddr
  /-- what `*paddr` holds before the call -/
  paddr : PhyAddr
  access : MemAccess
  newTlb : Bool
  newL1 : Bool

/-- `malloc` does not return `NULL`. -/
def Call.MallocSucceeds (call : Call) : Prop := call.newTlb = true ∧ call.newL1 = true

/-- The virtual page number of the call. -/
def Call.page (call : Call) : ℕ := (virtAddrTToVirtualPageNumber call.vaddr).toNat

/-- The three tables. -/
structure State where
  l1Itlb : Lines .L1_ITLB
  l1Dtlb : Lines .L1_DTLB
  l2Tlb : Lines .L2_TLB

/-- The miss path after the page walk: cross-invalidation, the L2 line, then the L1 line. -/
def tlbFill (state : State) (call : Call) (paddr : PhyAddr) : State × Tlb.Reply :=
  let virtPageNum := virtAddrTToVirtualPageNumber call.vaddr
  let (code, l1Itlb, l1Dtlb) :=
    tlbSearchInvalid state.l1Itlb state.l1Dtlb virtPageNum call.access state.l2Tlb
  let state := { state with l1Itlb, l1Dtlb }
  if code ≠ .errNone then (state, ⟨.errBadParameter, 0, paddr⟩)
  else if !call.newTlb then (state, ⟨.errBadParameter, 0, paddr⟩)
  else
    let (_, l2Tlb) := tlbInsert (virtPageNum.toNat % TlbT.L2_TLB.lines)
      (tlbEntryInit .L2_TLB call.vaddr paddr) state.l2Tlb
    let state := { state with l2Tlb }
    if !call.newL1 then (state, ⟨.errBadParameter, 0, paddr⟩)
    else match call.access with
      | .INSTRUCTION =>
        let (_, l1Itlb) := tlbInsert (virtPageNum.toNat % TlbT.L1_ITLB.lines)
          (tlbEntryInit .L1_ITLB call.vaddr paddr) state.l1Itlb
        ({ state with l1Itlb }, ⟨.errNone, 0, paddr⟩)
      | .DATA =>
        let (_, l1Dtlb) := tlbInsert (virtPageNum.toNat % TlbT.L1_DTLB.lines)
          (tlbEntryInit .L1_DTLB call.vaddr paddr) state.l1Dtlb
        ({ state with l1Dtlb }, ⟨.errNone, 0, paddr⟩)

/-- `tlb_search`. The refill after an L2 hit goes to the instruction table for both kinds of
access: the branch for `DATA` names `l1_itlb` as well. -/
def tlbSearch (state : State) (call : Call) : Exec (State × Tlb.Reply) := do
  let (hitOrMiss, paddr) := match call.access with
    | .INSTRUCTION => tlbHit call.vaddr call.paddr state.l1Itlb
    | .DATA => tlbHit call.vaddr call.paddr state.l1Dtlb
  if hitOrMiss ≠ 0 then return (state, ⟨.errNone, hitOrMiss, paddr⟩)
  else
    let (hitOrMiss, paddr) := tlbHit call.vaddr paddr state.l2Tlb
    let virtPageNum := virtAddrTToVirtualPageNumber call.vaddr
    if hitOrMiss ≠ 0 then
      if !call.newTlb then return (state, ⟨.errBadParameter, hitOrMiss, paddr⟩)
      else match call.access with
        | .INSTRUCTION =>
          let (_, l1Itlb) := tlbInsert (virtPageNum.toNat % TlbT.L1_ITLB.lines)
            (tlbEntryInit .L1_ITLB call.vaddr paddr) state.l1Itlb
          return ({ state with l1Itlb }, ⟨.errNone, hitOrMiss, paddr⟩)
        | .DATA =>
          let (_, l1Itlb) := tlbInsert (virtPageNum.toNat % TlbT.L1_DTLB.lines)
            (tlbEntryInit .L1_ITLB call.vaddr paddr) state.l1Itlb
          return ({ state with l1Itlb }, ⟨.errNone, hitOrMiss, paddr⟩)
    else
      let (code, paddr) ← pageWalk call.memSpace call.vaddr paddr
      if code ≠ .errNone then return (state, ⟨.errBadParameter, 0, paddr⟩)
      else return tlbFill state call paddr

/-- Three flushed tables, whatever they held before. -/
def State.flushed (state : State) : State where
  l1Itlb := tlbFlush state.l1Itlb
  l1Dtlb := tlbFlush state.l1Dtlb
  l2Tlb := tlbFlush state.l2Tlb

end KabyLake.TlbHrchy
