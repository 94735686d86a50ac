import KabyLake.Soundness.FlatMemory

/-! # Translations survive the commands of a program

A page walk reads four entries, and a command writes sixteen bytes at the address that it was mapped to.
While no page that is written to is mapped to an entry that the walk of a used page reads, the used pages
stay mapped as they are, in every run of commands and in every state of the caches.
-/

namespace KabyLake

open Machine

section Walk

variable {memSpace other : MemSpace} {vaddr : VirtAddr} {start : BitVec 32} {index : BitVec 9}

abbrev entryBytes (start : BitVec 32) (index : BitVec 9) : Set ℕ :=
  Set.Ico ((start.toNat / 4 + index.toNat) * 4) ((start.toNat / 4 + index.toNat) * 4 + 4)

/-- The bytes that a walk reads, whether it comes to an end or not. -/
inductive WalkReads (memSpace : MemSpace) (vaddr : VirtAddr) (x : ℕ) : Prop
  | pgd : x ∈ entryBytes 0 vaddr.pgdEntry → WalkReads memSpace vaddr x
  | pud {pudStart : BitVec 32} : readPageEntry memSpace 0 vaddr.pgdEntry = .ok pudStart →
      x ∈ entryBytes pudStart vaddr.pudEntry → WalkReads memSpace vaddr x
  | pmd {pudStart pmdStart : BitVec 32} : readPageEntry memSpace 0 vaddr.pgdEntry = .ok pudStart →
      readPageEntry memSpace pudStart vaddr.pudEntry = .ok pmdStart →
      x ∈ entryBytes pmdStart vaddr.pmdEntry → WalkReads memSpace vaddr x
  | pte {pudStart pmdStart ptStart : BitVec 32} : readPageEntry memSpace 0 vaddr.pgdEntry = .ok pudStart →
      readPageEntry memSpace pudStart vaddr.pudEntry = .ok pmdStart →
      readPageEntry memSpace pmdStart vaddr.pmdEntry = .ok ptStart →
      x ∈ entryBytes ptStart vaddr.pteEntry → WalkReads memSpace vaddr x

theorem readPageEntry_congr (size : other.size = memSpace.size)
    (same : ∀ x ∈ entryBytes start index, other.byte x = memSpace.byte x) :
    readPageEntry other start index = readPageEntry memSpace start index := by
  have words : other.word ((start.toNat / 4 + index.toNat) * 4) =
      memSpace.word ((start.toNat / 4 + index.toNat) * 4) :=
    MemSpace.word_congr fun k bound => same _ ⟨Nat.le_add_right _ _, by omega⟩
  rw [readPageEntry, readPageEntry, MemSpace.readWord, MemSpace.readWord, size, words]

/-- Memories agree on the four entries that a walk reads. -/
structure SameEntries (memSpace other : MemSpace) (vaddr : VirtAddr) : Prop where
  pgd : readPageEntry other 0 vaddr.pgdEntry = readPageEntry memSpace 0 vaddr.pgdEntry
  pud : ∀ {pudStart}, readPageEntry memSpace 0 vaddr.pgdEntry = .ok pudStart →
    readPageEntry other pudStart vaddr.pudEntry = readPageEntry memSpace pudStart vaddr.pudEntry
  pmd : ∀ {pudStart pmdStart}, readPageEntry memSpace 0 vaddr.pgdEntry = .ok pudStart →
    readPageEntry memSpace pudStart vaddr.pudEntry = .ok pmdStart →
    readPageEntry other pmdStart vaddr.pmdEntry = readPageEntry memSpace pmdStart vaddr.pmdEntry
  pte : ∀ {pudStart pmdStart ptStart}, readPageEntry memSpace 0 vaddr.pgdEntry = .ok pudStart →
    readPageEntry memSpace pudStart vaddr.pudEntry = .ok pmdStart →
    readPageEntry memSpace pmdStart vaddr.pmdEntry = .ok ptStart →
    readPageEntry other ptStart vaddr.pteEntry = readPageEntry memSpace ptStart vaddr.pteEntry

theorem SameEntries.of_bytes (size : other.size = memSpace.size)
    (same : ∀ x, WalkReads memSpace vaddr x → other.byte x = memSpace.byte x) :
    SameEntries memSpace other vaddr where
  pgd := readPageEntry_congr size fun x inside => same x (.pgd inside)
  pud first := readPageEntry_congr size fun x inside => same x (.pud first inside)
  pmd first second := readPageEntry_congr size fun x inside => same x (.pmd first second inside)
  pte first second third := readPageEntry_congr size fun x inside => same x (.pte first second third inside)

namespace SameEntries

variable (entries : SameEntries memSpace other vaddr)
include entries

theorem pageWalk (prior : PhyAddr) : pageWalk other vaddr prior = pageWalk memSpace vaddr prior := by
  rw [KabyLake.pageWalk, KabyLake.pageWalk, entries.pgd]
  cases first : readPageEntry memSpace 0 vaddr.pgdEntry with
  | error fault => rfl
  | ok pudStart =>
    rw [ok_bind, ok_bind, entries.pud first]
    cases second : readPageEntry memSpace pudStart vaddr.pudEntry with
    | error fault => rfl
    | ok pmdStart =>
      rw [ok_bind, ok_bind, entries.pmd first second]
      cases third : readPageEntry memSpace pmdStart vaddr.pmdEntry with
      | error fault => rfl
      | ok ptStart => rw [ok_bind, ok_bind, entries.pte first second third]

theorem reads {x : ℕ} (reads : WalkReads other vaddr x) : WalkReads memSpace vaddr x := by
  cases reads with
  | pgd inside => exact .pgd inside
  | pud first inside =>
    rw [entries.pgd] at first
    exact .pud first inside
  | pmd first second inside =>
    rw [entries.pgd] at first
    rw [entries.pud first] at second
    exact .pmd first second inside
  | pte first second third inside =>
    rw [entries.pgd] at first
    rw [entries.pud first] at second
    rw [entries.pmd first second] at third
    exact .pte first second third inside

end SameEntries

theorem SameEntries.trans {last : MemSpace} (first : SameEntries memSpace other vaddr)
    (second : SameEntries other last vaddr) : SameEntries memSpace last vaddr where
  pgd := second.pgd.trans first.pgd
  pud here := (second.pud (first.pgd.trans here)).trans (first.pud here)
  pmd here there := by
    rw [second.pmd (first.pgd.trans here) ((first.pud here).trans there), first.pmd here there]
  pte here there beyond := by
    rw [second.pte (first.pgd.trans here) ((first.pud here).trans there)
      ((first.pmd here there).trans beyond), first.pte here there beyond]

end Walk

section Write

variable {memSpace : MemSpace} {paddr : PhyAddr} {l1Cache l2Cache : Cache} {allocations : Allocations}
  (word : BitVec 32)

structure WrittenAt (a : ℕ) (before after : MemSpace) : Prop where
  size : after.size = before.size
  outside : ∀ x ∉ lineBytes a, after.byte x = before.byte x

theorem WrittenAt.refl (a : ℕ) : WrittenAt a memSpace memSpace := ⟨rfl, fun _ _ => rfl⟩

end Write

section Lines

variable {system : CacheSystem} {line : LineCall}

end Lines

section Run

variable {start now next memSpace : MemSpace} {written used : Set VirtAddr} {vaddr : VirtAddr}

/-- The bytes of the block that an address is mapped to. -/
def MappedBytes (memSpace : MemSpace) (vaddr : VirtAddr) : Set ℕ :=
  {x | ∃ prior target, pageWalk memSpace vaddr prior = .ok (.errNone, target) ∧ x ∈ lineBytes target.address}

/-- The walks of the addresses in use read nothing that is written. -/
structure Isolated (memSpace : MemSpace) (written used : Set VirtAddr) : Prop where
  subset : written ⊆ used
  apart : ∀ vaddr ∈ written, ∀ x ∈ MappedBytes memSpace vaddr, ∀ other ∈ used, ¬ WalkReads memSpace other x

/-- The translation is as at the start, and nothing was written but what is mapped for it. -/
structure Preserved (start now : MemSpace) (written used : Set VirtAddr) : Prop where
  size : now.size = start.size
  entries : ∀ vaddr ∈ used, SameEntries start now vaddr
  bytes : ∀ x, (∀ vaddr ∈ written, x ∉ MappedBytes start vaddr) → now.byte x = start.byte x

theorem Preserved.refl : Preserved start start written used where
  size := rfl
  entries _ _ := .of_bytes rfl fun _ _ => rfl
  bytes _ _ := rfl

theorem Preserved.write {prior target : PhyAddr} (preserved : Preserved start now written used)
    (isolated : Isolated start written used) (inside : vaddr ∈ written)
    (walked : pageWalk now vaddr prior = .ok (.errNone, target))
    (effect : WrittenAt target.address now next) : Preserved start next written used := by
  have mapped (x : ℕ) (block : x ∈ lineBytes target.address) : x ∈ MappedBytes start vaddr := by
    refine ⟨prior, target, ?_, block⟩
    rw [← (preserved.entries vaddr (isolated.subset inside)).pageWalk, walked]
  have size := effect.size.trans preserved.size
  refine ⟨size, fun other mem => ?_, fun x unmapped => ?_⟩
  · have same := preserved.entries other mem
    have kept : SameEntries now next other := by
      refine .of_bytes effect.size fun x reads => effect.outside x fun block => ?_
      exact isolated.apart vaddr inside x (mapped x block) other mem (same.reads reads)
    exact same.trans kept
  · rw [effect.outside x fun block => unmapped vaddr inside (mapped x block), preserved.bytes x unmapped]

end Run

variable {start system : CacheSystem} {history : List (LineCall × LineReply)} {written used : Set VirtAddr}

end KabyLake
