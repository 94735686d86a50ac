import KabyLake.Proofs.CacheLink

/-! # Which entries a call touches

The functions on one cache read and write the ways of one line. Run side by side on two arrays of
the same size whose entries agree in that line, they fault alike or return the same values, and they
leave arrays that agree in the line and are unchanged everywhere else.
-/

namespace KabyLake

open Machine

variable {type : CacheType} {s w : ℕ}

/-- The entries of a line. -/
def lineCells (type : CacheType) (s : ℕ) : Set ℕ := {k | ∃ i < type.ways, k = cacheEntry type.ways s i}

theorem cacheEntry_mem {i : ℕ} (hi : i < type.ways) : cacheEntry type.ways s i ∈ lineCells type s :=
  ⟨i, hi, rfl⟩

/-- Two arrays of one size that are followed side by side. -/
structure Cache.Twin (cells : Set ℕ) (start start' now now' : Cache) : Prop where
  size : now.size = start.size
  size' : now'.size = start.size
  entry : Machine.Twin cells start.entry start'.entry now.entry now'.entry

namespace Cache.Twin

variable {cells : Set ℕ} {start start' now now' : Cache}

theorem initial (size : start'.size = start.size)
    (agree : ∀ k ∈ cells, start.entry k = start'.entry k) : Twin cells start start' start start' :=
  ⟨rfl, size, .initial agree⟩

theorem load (twin : Twin cells start start' now now') {k : ℕ} (member : k ∈ cells) :
    now.load k = now'.load k := by
  rw [Cache.load, Cache.load, twin.size, twin.size', twin.entry.inside k member]

theorem store (twin : Twin cells start start' now now') {k : ℕ} (member : k ∈ cells) (entry : Entry) :
    Related (Twin cells start start') (now.store k entry) (now'.store k entry) := by
  rw [Cache.store, Cache.store, twin.size, twin.size']
  refine .ite (fun _ => .ok ⟨rfl, rfl, ?_⟩) fun _ => .error _
  exact twin.entry.update member entry

theorem room (twin : Twin cells start start' now now') (room : start.Room type) : now.Room type := by
  rw [Cache.Room, twin.size]
  exact room

theorem room' (twin : Twin cells start start' now now') (room : start.Room type) : now'.Room type := by
  rw [Cache.Room, twin.size']
  exact room

end Cache.Twin

section Line

variable {start start' now now' : Cache}

private theorem lruAgeStep_twin (bound : ℕ) {i : ℕ} (hi : i < type.ways)
    (twin : Cache.Twin (lineCells type s) start start' now now') :
    Related (Cache.Twin (lineCells type s) start start')
      (lruAgeStep bound type type.ways s i now) (lruAgeStep bound type type.ways s i now') := by
  have member := cacheEntry_mem (s := s) hi
  refine .bind_same (twin.load member) fun entry _ => ?_
  exact .ite (fun _ => twin.store member _) fun _ => .ok twin

theorem lruAge_twin (bound : ℕ) (hw : w < type.ways)
    (twin : Cache.Twin (lineCells type s) start start' now now') :
    Related (Cache.Twin (lineCells type s) start start')
      (lruAge bound type type.ways w s now) (lruAge bound type type.ways w s now') := by
  have looped : Related (Cache.Twin (lineCells type s) start start')
      (forLoop (lruAgeStep bound type type.ways s) type.ways now)
      (forLoop (lruAgeStep bound type type.ways s) type.ways now') :=
    forLoop_related twin fun i hi _ _ twin => lruAgeStep_twin bound hi twin
  refine looped.bind fun now now' twin => ?_
  refine .bind_same (twin.load (cacheEntry_mem hw)) fun entry _ => ?_
  exact twin.store (cacheEntry_mem hw) _

/-- Arrays that are followed side by side agree in the entries of the line. -/
theorem Cache.Twin.slot (twin : Cache.Twin (lineCells type s) start start' now now') {i : ℕ}
    (hi : i < type.ways) : now.slot type s i = now'.slot type s i :=
  twin.entry.inside _ (cacheEntry_mem hi)

theorem Cache.Twin.lineLink (room : start.Room type) (hs : s < type.lines) :
    LineLink type s (Cache.Twin (lineCells type s) start start') (· = ·) where
  line := hs
  room := fun twin => ⟨twin.room room, twin.room' room⟩
  v := fun twin hi => by rw [twin.slot hi]
  valid := fun twin hi _ => twin.slot hi
  fields := fun same => same ▸ .refl _
  setLine := fun same _ => by rw [same]
  overwrite := fun twin hi same => by rw [twin.slot hi, same]
  put := fun twin hi same => ⟨twin.size, twin.size', same ▸ twin.entry.update (cacheEntry_mem hi) _⟩
  lruAge := fun twin hw _ => (lruAge_twin _ hw twin).mono fun _ _ twin => ⟨twin, fun _ => twin.slot hw⟩

end Line

section Memory

/-- The bytes of a block. -/
abbrev lineBytes (a : ℕ) : Set ℕ := Set.Ico a (a + 16)

/-- Two memories of one size that are followed side by side. -/
structure MemSpace.Twin (a : ℕ) (start start' now now' : MemSpace) : Prop where
  size : now.size = start.size
  size' : now'.size = start.size
  byte : Machine.Twin (lineBytes a) start.byte start'.byte now.byte now'.byte

variable {a : ℕ} {start start' now now' : MemSpace}

theorem MemSpace.Twin.initial (size : start'.size = start.size)
    (agree : ∀ x ∈ lineBytes a, start.byte x = start'.byte x) :
    MemSpace.Twin a start start' start start' := ⟨rfl, size, .initial agree⟩

theorem readLine_twin (twin : MemSpace.Twin a start start' now now') :
    now.readLine a = now'.readLine a := by
  have lines : now.line a = now'.line a := by
    apply Line.ext_word
    intro k hk
    rw [MemSpace.word_line k hk, MemSpace.word_line k hk]
    exact MemSpace.word_congr fun j hj => twin.byte.inside _ ⟨by omega, by omega⟩
  rw [MemSpace.readLine, MemSpace.readLine, twin.size, twin.size', lines]

theorem writeLine_twin (line : Line) (twin : MemSpace.Twin a start start' now now') :
    Related (MemSpace.Twin a start start') (now.writeLine a line) (now'.writeLine a line) := by
  rw [MemSpace.writeLine, MemSpace.writeLine, twin.size, twin.size']
  refine .ite (fun _ => .ok ⟨twin.size, twin.size', fun x inside => ?_, fun x outside => ?_,
    fun x outside => ?_⟩) fun _ => .error _
  · exact (if_pos inside).trans (if_pos inside).symm
  · exact (if_neg outside).trans (twin.byte.outside x outside)
  · exact (if_neg outside).trans (twin.byte.outside' x outside)

theorem MemSpace.Twin.blockLink : BlockLink a (MemSpace.Twin a start start') :=
  ⟨readLine_twin, fun twin line => writeLine_twin line twin⟩

theorem MemSpace.Twin.makesRelated {paddr : PhyAddr} (entry : Option Entry)
    (twin : MemSpace.Twin paddr.address start start' now now') :
    MakesRelated type paddr (· = ·) entry entry now now' := by
  apply MakesRelated.of_eq
  cases entry with
  | none => rfl
  | some entry => rw [cacheEntryInit, cacheEntryInit, readLine_twin twin]

end Memory

section Paths

variable {paddr : PhyAddr} {memSpace memSpace' startMem startMem' : MemSpace} {l1 l1' l2 l2' : Cache}
  (word : BitVec 32) {allocations : Allocations} (quiet : Quiet l2) (quiet' : Quiet l2')
  (memory : MemSpace.Twin paddr.address startMem startMem' memSpace memSpace')
include quiet quiet' memory

/-- A read touches a line of L1. -/
theorem cacheRead_twin (access : MemAccess) (room : l1.Room access.cacheType)
    (twin : Cache.Twin (lineCells access.cacheType (access.cacheType.lineOf paddr.address)) l1 l1' l1 l1') :
    Related (ReadReply.Linked
        (Cache.Twin (lineCells access.cacheType (access.cacheType.lineOf paddr.address)) l1 l1') l2 l2' word word)
      (cacheRead memSpace paddr access l1 l2 word allocations)
      (cacheRead memSpace' paddr access l1' l2' word allocations) :=
  cacheRead_linked word word (Cache.Twin.lineLink room (CacheType.lineOf_lt _ _)) twin quiet quiet'
    (.refl _) fun _ => memory.makesRelated _

/-- A write touches a block of memory, a line of L1 and a line of L2. -/
theorem cacheWrite_twin (room : l1.Room .L1_DCACHE)
    (twin : Cache.Twin (lineCells .L1_DCACHE (CacheType.L1_DCACHE.lineOf paddr.address)) l1 l1' l1 l1')
    (twin2 : Cache.Twin (lineCells .L2_CACHE (l2Index paddr)) l2 l2' l2 l2') :
    Related (WriteReply.Linked (MemSpace.Twin paddr.address startMem startMem')
        (Cache.Twin (lineCells .L1_DCACHE (CacheType.L1_DCACHE.lineOf paddr.address)) l1 l1')
        (Cache.Twin (lineCells .L2_CACHE (l2Index paddr)) l2 l2'))
      (cacheWrite memSpace paddr l1 l2 word allocations)
      (cacheWrite memSpace' paddr l1' l2' word allocations) := by
  refine cacheWrite_linked word (Cache.Twin.lineLink room (CacheType.lineOf_lt _ _)) twin
    MemSpace.Twin.blockLink memory twin2 quiet quiet' (.refl _) (fun _ _ _ memory => memory.makesRelated _) ?_
  rintro old available old' available' leaving _ rfl
  obtain rfl := Option.some.inj (available.symm.trans available')
  exact (Cache.Twin.lineLink quiet.room (l2index_lt paddr)).insertIntoL2 twin2 rfl

end Paths

end KabyLake
