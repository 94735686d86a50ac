import KabyLake.Proofs.MemoryDescription
import KabyLake.Soundness.PageWalk

/-! # The loader of a description and the end of the memory

No line of a description is compared with the size in its first line. What keeps the loader inside
the memory is said line by line, in the state in which the line is read: the page of the line ends
inside the memory, and so does every table entry on the way to it.
-/

namespace KabyLake

open Machine Stdio

/-- A `page_file_read` that copies the 4096 bytes of the file to the address. A call for a page that
does not end inside the memory faults, whether or not there is a file. -/
def boundedPageFileRead (files : Text → Option Page) : PageFileRead
  | _, none, _ => .error .nullPointer
  | name, some memory, address =>
    if address.toNat + 4096 ≤ memory.size then
      match name.bind files with
      | none => .ok (.errBadParameter, some memory)
      | some page => .ok (.errNone, some (memory.putPage address.toNat page))
    else .error .memoryBounds

def entryAt (memory : MemSpace) (table : BitVec 32) (index : BitVec 9) : BitVec 32 :=
  memory.word ((table.toNat / 4 + index.toNat) * 4)

def EntryInside (memory : MemSpace) (table : BitVec 32) (index : BitVec 9) : Prop :=
  (table.toNat / 4 + index.toNat) * 4 + 4 ≤ memory.size

section Walk

variable (memory : MemSpace) (vaddr : VirtAddr)

def pudStart : BitVec 32 := entryAt memory 0 vaddr.pgdEntry

def pmdStart : BitVec 32 := entryAt memory (pudStart memory vaddr) vaddr.pudEntry

def ptStart : BitVec 32 := entryAt memory (pmdStart memory vaddr) vaddr.pmdEntry

def physPage : BitVec 32 := entryAt memory (ptStart memory vaddr) vaddr.pteEntry

/-- The four entries on the way to the address are inside the memory. -/
structure WalkInside : Prop where
  pgd : EntryInside memory 0 vaddr.pgdEntry
  pud : EntryInside memory (pudStart memory vaddr) vaddr.pudEntry
  pmd : EntryInside memory (pmdStart memory vaddr) vaddr.pmdEntry
  pte : EntryInside memory (ptStart memory vaddr) vaddr.pteEntry

/-- The entries are inside the memory, and if the address is mapped, so are the 4096 bytes from it on. -/
def DataInside : Prop :=
  WalkInside memory vaddr ∧ ((physPage memory vaddr).toNat % 4096 = 0 →
    (physPage memory vaddr).toNat + vaddr.pageOffset.toNat + 4096 ≤ memory.size)

variable {memory vaddr}

theorem readPageEntry_inside {table : BitVec 32} {index : BitVec 9}
    (inside : EntryInside memory table index) :
    readPageEntry memory table index = .ok (entryAt memory table index) := if_pos inside

theorem readPageEntry_outside {table : BitVec 32} {index : BitVec 9}
    (outside : ¬ EntryInside memory table index) :
    readPageEntry memory table index = .error .memoryBounds := if_neg outside

/-- A walk that stays in the memory ends in the frame if the frame is a page. -/
theorem pageWalk_inside (inside : WalkInside memory vaddr) (prior : PhyAddr) :
    pageWalk memory vaddr prior = .ok (if (physPage memory vaddr).toNat % 4096 = 0 then
      (.errNone, ⟨(physPage memory vaddr >>> 12).setWidth 20, vaddr.pageOffset⟩)
    else (.errBadParameter, prior)) := by
  have walked : pageWalk memory vaddr prior =
      .ok (initPhyAddr prior (physPage memory vaddr) (vaddr.pageOffset.setWidth 32)) := by
    rw [pageWalk, readPageEntry_inside inside.pgd, ok_bind]
    rw [show entryAt memory 0 vaddr.pgdEntry = pudStart memory vaddr from rfl,
      readPageEntry_inside inside.pud, ok_bind]
    rw [show entryAt memory (pudStart memory vaddr) vaddr.pudEntry = pmdStart memory vaddr from rfl,
      readPageEntry_inside inside.pmd, ok_bind]
    rw [show entryAt memory (pmdStart memory vaddr) vaddr.pmdEntry = ptStart memory vaddr from rfl,
      readPageEntry_inside inside.pte]
    rfl
  have divides : physPage memory vaddr % 4096#32 = 0#32 ↔ (physPage memory vaddr).toNat % 4096 = 0 := by
    rw [← BitVec.toNat_inj, BitVec.toNat_umod]
    rfl
  rw [walked, initPhyAddr_offset]
  simp only [ne_eq, ite_not, divides]

/-- A walk that leaves the memory faults there. -/
theorem pageWalk_outside (outside : ¬ WalkInside memory vaddr) (prior : PhyAddr) :
    pageWalk memory vaddr prior = .error .memoryBounds := by
  by_cases pgd : EntryInside memory 0 vaddr.pgdEntry
  case neg => rw [pageWalk, readPageEntry_outside pgd, error_bind]
  rw [pageWalk, readPageEntry_inside pgd, ok_bind]
  by_cases pud : EntryInside memory (entryAt memory 0 vaddr.pgdEntry) vaddr.pudEntry
  case neg => rw [readPageEntry_outside pud, error_bind]
  rw [readPageEntry_inside pud, ok_bind]
  by_cases pmd : EntryInside memory
      (entryAt memory (entryAt memory 0 vaddr.pgdEntry) vaddr.pudEntry) vaddr.pmdEntry
  case neg => rw [readPageEntry_outside pmd, error_bind]
  rw [readPageEntry_inside pmd, ok_bind]
  -- The last entry is all that is left to be outside.
  have pte : ¬ EntryInside memory (ptStart memory vaddr) vaddr.pteEntry :=
    fun pte => outside ⟨pgd, pud, pmd, pte⟩
  exact congrArg (· >>= _) (readPageEntry_outside pte)

end Walk

/-- A call of `page_file_read` leaves the memory exactly if its page does not end there. -/
theorem boundedPageFileRead_memoryBounds {files : Text → Option Page} {name : Option Text}
    {memory : Option MemSpace} {address : BitVec 32} :
    boundedPageFileRead files name memory address = .error .memoryBounds ↔
      ∃ block, memory = some block ∧ ¬ address.toNat + 4096 ≤ block.size := by
  cases memory with
  | none => simp [boundedPageFileRead]
  | some memory =>
    by_cases inside : address.toNat + 4096 ≤ memory.size
    · cases page : name.bind files <;> simp [boundedPageFileRead, inside, page]
    · simp [boundedPageFileRead, inside, Nat.not_le.mp inside]

/-- The store of a name may fault, but not in the memory. -/
theorem storeWord_ne_memoryBounds (buffer : Option Text) (word : Text) :
    storeWord buffer word ≠ .error .memoryBounds := by
  cases buffer with
  | none => simp [storeWord]
  | some old =>
    rw [storeWord]
    split <;> simp

theorem scanPageLine_ne_memoryBounds (base : ℕ) (line : Text) (fileName2 : Option Text) :
    scanPageLine base line fileName2 ≠ .error .memoryBounds := by
  rw [scanPageLine]
  split
  · simp
  · split
    · simp
    · rw [Ne, bind_eq_error_iff]
      simp [storeWord_ne_memoryBounds]

/-- The walk of a data page and the call that follows it. -/
theorem dataPage_memoryBounds {β : Type} {files : Text → Option Page} {memory : MemSpace}
    {vaddr : VirtAddr} {name : Option Text} (prior : PhyAddr) (unmapped : β)
    (reply : ErrorCode → Option MemSpace → β) :
    ((do
      let (code, paddr) ← pageWalk memory vaddr prior
      if code ≠ .errNone then return unmapped
      else
        let (code, memory) ← boundedPageFileRead files name (some memory) (phyAddrTToUint32T paddr)
        return reply code memory) : Exec β) = .error .memoryBounds ↔ ¬ DataInside memory vaddr := by
  by_cases walk : WalkInside memory vaddr
  · rw [pageWalk_inside walk, ok_bind]
    by_cases aligned : (physPage memory vaddr).toNat % 4096 = 0
    · simp [aligned, bind_eq_error_iff, boundedPageFileRead_memoryBounds, DataInside, walk,
        phyAddrTToUint32T_aligned aligned]
    · simp [aligned, DataInside, walk]
  · simp [pageWalk_outside walk, DataInside, walk]

namespace LoadContext

variable (context : LoadContext) (counter : BitVec 32) (line : Text) (loader : Loader)

def PgdInside : Prop :=
  ∀ memory word, loader.memory = some memory → (fscanfString (.opened line)).1 = some word →
    context.fileName = true → word.length < 128 → 4096 ≤ memory.size

/-- The translation page of the line is inside the memory; its number is the `uint32_t` that the `%d`
of the loader becomes. -/
def TranslationInside : Prop :=
  ∀ memory number fileName2, loader.memory = some memory →
    scanPageLine 10 line loader.fileName2 = .ok (some number, fileName2) →
    (convertSigned context.overflow 32 number.1 number.2).toNat + 4096 ≤ memory.size

/-- The walk to the data page of the line and the page that it finds are inside the memory. -/
def DataLineInside : Prop :=
  ∀ memory number fileName2, loader.memory = some memory →
    scanPageLine 16 line loader.fileName2 = .ok (some number, fileName2) →
    DataInside memory (initVirtAddr64 (convert context.overflow 64 number.1 number.2))

/-- What keeps the loader inside the memory at one line, in the state in which the line is read. -/
def LineInside : Prop :=
  if counter = 0 then True
  else if counter = 1 then context.PgdInside line loader
  else if counter = 2 then True
  else if counter.slt (loader.nTranslationPages + 3) then context.TranslationInside line loader
  else context.DataLineInside line loader

def LinesInside : BitVec 32 → List Text → Loader → Prop
  | _, [], _ => True
  | counter, line :: rest, loader => context.LineInside counter (cString line) loader ∧
      ∀ next, context.lineRead counter (cString line) loader = .ok (.errNone, next) →
        LinesInside (counter + 1) rest next

section Bounded

variable {context counter line loader}

/-- The condition on a data line whose number and name are read. -/
theorem dataLineInside_iff {memory : MemSpace} {number : Bool × ℕ} {fileName2 : Option Text}
    (present : loader.memory = some memory)
    (scanned : scanPageLine 16 line loader.fileName2 = .ok (some number, fileName2)) :
    context.DataLineInside line loader ↔
      DataInside memory (initVirtAddr64 (convert context.overflow 64 number.1 number.2)) := by
  constructor
  · intro inside
    exact inside memory number fileName2 present scanned
  · intro inside memory' number' fileName2' present' scanned'
    obtain rfl := Option.some.inj (present.symm.trans present')
    obtain ⟨same, _⟩ := Prod.mk.inj (Except.ok.inj (scanned.symm.trans scanned'))
    obtain rfl := Option.some.inj same
    exact inside

variable {files : Text → Option Page}
  (bounded : context.pageFileRead = boundedPageFileRead files)

include bounded

theorem pgdLine_memoryBounds :
    context.pgdLine line loader = .error .memoryBounds ↔ ¬ context.PgdInside line loader := by
  rw [pgdLine, PgdInside, bounded]
  cases named : (fscanfString (.opened line)).1 with
  | none => simp
  | some word =>
    cases granted : context.fileName with
    | false => simp [nameBuffer, storeWord]
    | true =>
      by_cases short : word.length < 128
      · simp [nameBuffer, storeWord, short, bind_eq_error_iff, boundedPageFileRead_memoryBounds]
      · simp [nameBuffer, storeWord, short]

theorem translationLine_memoryBounds :
    context.translationLine line loader = .error .memoryBounds ↔
      ¬ context.TranslationInside line loader := by
  rw [translationLine, TranslationInside, bounded]
  cases scanned : scanPageLine 10 line loader.fileName2 with
  | error fault =>
    have other := scanPageLine_ne_memoryBounds 10 line loader.fileName2
    rw [scanned] at other
    simpa using other
  | ok result =>
    obtain ⟨number, fileName2⟩ := result
    cases number with
    | none => simp
    | some number =>
      cases present : loader.memory with
      | none => simp [bind_eq_error_iff, boundedPageFileRead_memoryBounds]
      | some memory => simp [bind_eq_error_iff, boundedPageFileRead_memoryBounds]

theorem dataLine_memoryBounds :
    context.dataLine line loader = .error .memoryBounds ↔
      ¬ context.DataLineInside line loader := by
  rw [dataLine, bounded]
  cases scanned : scanPageLine 16 line loader.fileName2 with
  | error fault =>
    have other := scanPageLine_ne_memoryBounds 16 line loader.fileName2
    rw [scanned] at other
    simpa [DataLineInside, scanned] using other
  | ok result =>
    obtain ⟨number, fileName2⟩ := result
    cases number with
    | none => simp [DataLineInside, scanned]
    | some number =>
      cases present : loader.memory with
      | none => simp [DataLineInside, present]
      | some memory =>
        rw [dataLineInside_iff present scanned]
        let unmapped : ErrorCode × Loader :=
          (.errBadParameter, ⟨some memory, loader.nTranslationPages, fileName2⟩)
        let reply (code : ErrorCode) (after : Option MemSpace) : ErrorCode × Loader :=
          (if code = .errNone then .errNone else .errBadParameter,
            ⟨after, loader.nTranslationPages, fileName2⟩)
        exact dataPage_memoryBounds context.paddr unmapped reply

/-- A line leaves the memory exactly if it does not meet its condition. -/
theorem lineRead_memoryBounds :
    context.lineRead counter line loader = .error .memoryBounds ↔
      ¬ context.LineInside counter line loader := by
  have size (fault : Fault) : context.sizeLine line loader ≠ .error fault := by
    rw [sizeLine]
    split <;> simp
  have count (fault : Fault) : context.countLine line loader ≠ .error fault := by
    rw [countLine]
    split <;> simp
  rw [lineRead, LineInside]
  split_ifs
  · simp [size]
  · exact pgdLine_memoryBounds bounded
  · simp [count]
  · exact translationLine_memoryBounds bounded
  · exact dataLine_memoryBounds bounded

theorem linesRead_memoryBounds {lines : List Text} :
    context.linesRead counter lines loader = .error .memoryBounds ↔
      ¬ context.LinesInside counter lines loader := by
  induction lines generalizing counter loader with
  | nil => simp [linesRead, LinesInside]
  | cons line rest ih =>
    rw [linesRead, LinesInside, bind_eq_error_iff, lineRead_memoryBounds bounded, not_and_or]
    apply or_congr Iff.rfl
    constructor
    · rintro ⟨⟨code, next⟩, read, last⟩ inside
      dsimp only at last
      split_ifs at last with failed
      · cases last
      · rw [not_not] at failed
        subst failed
        exact ih.mp last (inside next read)
    · intro outside
      simp only [not_forall] at outside
      obtain ⟨next, read, outside⟩ := outside
      exact ⟨(.errNone, next), read, ih.mpr outside⟩

end Bounded

def bounded (context : LoadContext) (files : Text → Option Page) : LoadContext :=
  { context with pageFileRead := boundedPageFileRead files }

end LoadContext

/-- Every call of `page_file_read` that the loader makes has a page inside the memory that the loader
has allocated, and every word of a walk is there too. -/
def StaysInside (context : LoadContext) (files : Text → Option Page) (text : Text)
    (memory : Option MemSpace) (memCapacityInBytes : BitVec 64) : Prop :=
  (context.bounded files).memInitFromDescription (some text) memory memCapacityInBytes ≠
    .error .memoryBounds

/-- The loader stays inside the memory exactly if every line that it reads keeps it there: nothing is
checked before an access. -/
theorem staysInside_iff (context : LoadContext) (files : Text → Option Page) (text : Text)
    (memory : Option MemSpace) (memCapacityInBytes : BitVec 64) :
    StaysInside context files text memory memCapacityInBytes ↔
      (context.bounded files).LinesInside 0 (lines text)
        ⟨memory, 0, nameBuffer (context.bounded files).fileName2⟩ := by
  rw [StaysInside, LoadContext.memInitFromDescription, Ne, bind_eq_error_iff,
    LoadContext.linesRead_memoryBounds rfl]
  constructor
  · intro stays
    by_contra outside
    exact stays (.inl outside)
  · rintro inside (outside | ⟨⟨code, loader⟩, _, last⟩)
    · exact outside inside
    · dsimp only at last
      split_ifs at last
      · cases last
      · cases last
      · cases last

private def nextPage : Page := fun i => if i.val % 4 = 1 then 0x10 else 0

/-- The table of a memory of one byte, a translation page behind the end of a memory of one page, and
a data page whose table is behind the end. The last description counts so many translation pages that
the sum wraps, and its line for the page at 0 is read as that data page. -/
theorem loader_strays :
    ¬ StaysInside (grantedLoad (boundedPageFileRead fun _ => some nextPage)) (fun _ => some nextPage)
        (literal ['1', '\n', 'p', '\n']) none 0 ∧
    ¬ StaysInside (grantedLoad (boundedPageFileRead fun _ => some nextPage)) (fun _ => some nextPage)
        (literal ['4', '0', '9', '6', '\n', 'p', '\n', '1', '\n', '1', ' ', 't', '\n']) none 0 ∧
    ¬ StaysInside (grantedLoad (boundedPageFileRead fun _ => some nextPage)) (fun _ => some nextPage)
        (literal ['4', '0', '9', '6', '\n', 'p', '\n', '0', '\n', '0', ' ', 'd', '\n']) none 0 ∧
    ¬ StaysInside (grantedLoad (boundedPageFileRead fun _ => some nextPage)) (fun _ => some nextPage)
        (literal ['4', '0', '9', '6', '\n', 'p', '\n', '2', '1', '4', '7', '4', '8', '3', '6', '4', '7',
          '\n', '0', ' ', 'd', '\n']) none 0 := by
  refine ⟨not_not.mpr rfl, not_not.mpr rfl, not_not.mpr rfl, not_not.mpr rfl⟩

end KabyLake
