import KabyLake.Model.LinkedList
import KabyLake.Model.PageWalk

/-! # The fully associative TLB

The functions of `tlb_mng.c`. The 128 lines are reached through a list of line numbers: a lookup
scans it from the back, a used line moves to the back, and a miss overwrites the line at the
front. Every call allocates at most one list node and one entry; both outcomes of each allocation
are part of the call.
-/

namespace KabyLake

/-- A TLB line whose tag has the declared number of bits. -/
structure TlbEntry (tagBits : ℕ) where
  tag : BitVec tagBits
  phyPageNum : BitVec 20
  v : Bool
deriving DecidableEq, Repr

namespace Tlb

/-- `TLB_LINES`. -/
def tlbLines : ℕ := 128

/-- `tlb_entry_t`: the tag is a whole virtual page number. -/
abbrev Entry := TlbEntry 36

/-- The array behind a `tlb_entry_t *`. -/
abbrev Lines := ℕ → Entry

/-- `tlb[i]`. -/
def readLine (tlb : Lines) (i : ℕ) : Exec Entry :=
  if i < tlbLines then .ok (tlb i) else .error .arrayBounds

/-- `tlb_flush`. -/
def tlbFlush (tlb : Lines) : Lines := fun i => if i < tlbLines then ⟨0, 0, false⟩ else tlb i

/-- `tlb_entry_init`: all three fields of the new entry are assigned. -/
def tlbEntryInit (vaddr : VirtAddr) (paddr : PhyAddr) (_entry : Entry) : ErrorCode × Entry :=
  (.errNone, ⟨(virtAddrTToVirtualPageNumber vaddr).setWidth 36, paddr.phyPageNum, true⟩)

/-- `tlb_insert`. -/
def tlbInsert (lineIndex : ℕ) (entry : Entry) (tlb : Lines) : ErrorCode × Lines :=
  if lineIndex < tlbLines then (.errNone, Function.update tlb lineIndex entry)
  else (.errBadParameter, tlb)

/-- The test of the lookup loop: same tag, and valid. -/
def lineMatches (tlb : Lines) (pageNumber : BitVec 64) (i : ℕ) : Exec Bool := do
  let entry ← readLine tlb i
  return entry.tag.setWidth 64 == pageNumber && entry.v

/-- What a caller passes to `tlb_search` besides the TLB, with the outcomes of `malloc`. -/
structure Call where
  memSpace : MemSpace
  vaddr : VirtAddr
  /-- what `*paddr` holds before the call -/
  paddr : PhyAddr
  newNode : Option ListNode
  newEntry : Option Entry

/-- `malloc` does not return `NULL`. -/
def Call.MallocSucceeds (call : Call) : Prop := call.newNode.isSome ∧ call.newEntry.isSome

/-- What a caller of `tlb_search` sees. -/
structure Reply where
  code : ErrorCode
  hitOrMiss : ℕ
  paddr : PhyAddr
deriving DecidableEq, Repr

/-- The TLB lines and the replacement policy's list. -/
structure State where
  tlb : Lines
  heap : Heap
  ll : ListT

/-- `tlb_hit`. -/
def tlbHit (vaddr : VirtAddr) (paddr : PhyAddr) (state : State) (newNode : Option ListNode) :
    Exec (ℕ × PhyAddr × State) := do
  let pageNumber := virtAddrTToVirtualPageNumber vaddr
  let node ← findReverse state.heap (lineMatches state.tlb pageNumber) state.heap.top state.ll.back
  if node = none then return (0, paddr, state)
  else
    let contents ← state.heap.load node
    let entry ← readLine state.tlb contents.value
    let (heap, ll) ← moveBack state.heap state.ll node newNode
    return (1, ⟨entry.phyPageNum, vaddr.pageOffset⟩, { state with heap, ll })

/-- `tlb_search`. -/
def tlbSearch (state : State) (call : Call) : Exec (State × Reply) := do
  let (hitOrMiss, paddr, state) ← tlbHit call.vaddr call.paddr state call.newNode
  if hitOrMiss = 0 then
    let (code, paddr) ← pageWalk call.memSpace call.vaddr paddr
    if code ≠ .errNone then return (state, ⟨.errMem, hitOrMiss, paddr⟩)
    else match call.newEntry with
      | none => return (state, ⟨.errBadParameter, hitOrMiss, paddr⟩)
      | some garbage =>
        let (code, entry) := tlbEntryInit call.vaddr paddr garbage
        if code ≠ .errNone then return (state, ⟨.errMem, hitOrMiss, paddr⟩)
        else
          let front ← state.heap.load state.ll.front
          let (code, tlb) := tlbInsert front.value entry state.tlb
          if code ≠ .errNone then return (state, ⟨.errMem, hitOrMiss, paddr⟩)
          else
            let (heap, ll) ← moveBack state.heap state.ll state.ll.front call.newNode
            return (⟨tlb, heap, ll⟩, ⟨.errNone, hitOrMiss, paddr⟩)
  else return (state, ⟨.errNone, hitOrMiss, paddr⟩)

/-- The loop of `test-tlb_simple.c` that appends the line numbers from `next` on to the list. -/
def fillList (garbage : ListNode) : (count next : ℕ) → Heap → ListT → Exec (Heap × ListT)
  | 0, _, heap, ll => .ok (heap, ll)
  | count + 1, next, heap, ll => do
    let (_, heap, ll) ← pushBack heap ll next (some garbage)
    fillList garbage count (next + 1) heap ll

/-- What `test-tlb_simple.c` sets up before its first search: a flushed TLB, and a list of all
line numbers in order. -/
def setUp (tlb : Lines) (garbage : ListNode) : Exec State := do
  let (heap, ll) ← fillList garbage tlbLines 0 Heap.empty initList
  return ⟨tlbFlush tlb, heap, ll⟩

end Tlb

end KabyLake
