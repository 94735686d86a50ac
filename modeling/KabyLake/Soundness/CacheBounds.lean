import KabyLake.Proofs.CacheBounds
import KabyLake.Proofs.CacheSystem
import KabyLake.Soundness.PageWalk

/-! # Which calls stay inside the arrays of the caches

The caches may hold anything here. All strides are numbers of ways except those of `hit_L2` and of
the copies from L2, which are numbers of lines, and a full line is left at the marker of a miss in
one path of `cache_write`. The calls that leave an array are exactly those that take one of these
paths outside the lines where the index happens to be small.
-/

namespace KabyLake

open Machine

variable {memSpace : MemSpace} {paddr : PhyAddr} {access : MemAccess} {l1Cache l2Cache : Cache}
  {word : BitVec 32} {allocations : Allocations} {w : ℕ}

/-- A read that misses L1 and hits a set of L2 other than the first one. -/
structure ReadStrays (access : MemAccess) (paddr : PhyAddr) (l1Cache l2Cache : Cache)
    (allocations : Allocations) : Prop where
  pLine : allocations.pLine = true
  newentry : allocations.newentry ≠ none
  unfound : ¬ ∃ w, Found access.cacheType l1Cache paddr.address w
  found : ∃ w, Found .L2_CACHE l2Cache paddr.address w
  set : paddr.address / 16 % 512 ≠ 0

/-- A write that misses L1 and hits a line of L2, seen as an array of L1 entries: line 8 or a later
one, or a line other than the first one that is full in L1. -/
structure WriteStrays (memSpace : MemSpace) (paddr : PhyAddr) (l1Cache l2Cache : Cache)
    (allocations : Allocations) : Prop where
  pLine : allocations.pLine = true
  pLine2 : allocations.pLine2 = true
  newLine : allocations.newLine = true
  newentry : allocations.newentry ≠ none
  unfound : ¬ ∃ w, Found .L1_DCACHE l1Cache paddr.address w
  found : ∃ w, Found .L1_DCACHE l2Cache paddr.address w
  line : 8 ≤ paddr.address / 16 % 64 ∨ paddr.address / 16 % 64 ≠ 0 ∧
    Full .L1_DCACHE l1Cache (paddr.address / 16 % 64) ∧ paddr.address + 16 ≤ memSpace.size ∧
    allocations.oldEntry ≠ none

theorem cacheRead_inBounds_iff (size1 : l1Cache.size = 256) (size2 : l2Cache.size = 4096) :
    cacheRead memSpace paddr access l1Cache l2Cache word allocations ≠ .error .arrayBounds ↔
      ¬ ReadStrays access paddr l1Cache l2Cache allocations := by
  have room : l1Cache.Room access.cacheType := .of_size size1 (by cases access <;> decide)
  have room2 : l2Cache.Room .L2_CACHE := .of_size size2 (by decide)
  cases pLine : allocations.pLine with
  | false =>
    have refused : cacheRead memSpace paddr access l1Cache l2Cache word allocations =
        .ok ⟨.errBadParameter, l1Cache, l2Cache, word⟩ := by
      simp only [cacheRead, pLine, Bool.not_false, ↓reduceIte, pure_eq_ok]
    rw [refused]
    exact ⟨fun _ strays => by simp [strays.pLine] at pLine, fun _ => by simp⟩
  | true =>
    by_cases first : ∃ w, Found access.cacheType l1Cache paddr.address w
    · obtain ⟨w, found⟩ := first
      obtain ⟨after, ran, _⟩ := cacheRead_first memSpace word l2Cache room pLine found
      rw [ran]
      exact ⟨fun _ strays => strays.unfound ⟨w, found⟩, fun _ => by simp⟩
    · by_cases second : ∃ w, Found .L2_CACHE l2Cache paddr.address w
      · obtain ⟨w, found⟩ := second
        obtain ⟨middle, ran, aged⟩ := cacheRead_second memSpace word room room2 pLine first found
        rw [ran]
        constructor
        · intro inside strays
          exact inside (hitL2_strays size1 (aged.size.trans size2) strays.set strays.newentry)
        · intro stays
          by_cases newentry : allocations.newentry = none
          · rw [newentry]
            simp [hitL2]
          · have set : paddr.address / 16 % 512 = 0 := by
              by_contra set
              exact stays ⟨pLine, newentry, first, ⟨w, found⟩, set⟩
            have line2 : CacheType.L2_CACHE.lineOf paddr.address = 0 := set
            rw [MemAccess.lineOf_eq_zero line2, line2]
            exact (hitL2_yields _ _ _ room (aged.room room2) found.way).avoids (by simp)
      · rw [cacheRead_unfound memSpace word room room2 pLine first second]
        refine ⟨fun _ strays => second strays.found, fun _ => ?_⟩
        exact (notHitL1OrL2_yields _ _ room (CacheType.lineOf_lt _ _)).avoids (by simp)

private theorem writeHitL2_strays {hit : HitReply} (size1 : l1Cache.size = 256)
    (size2 : l2Cache.size = 4096) (newLine : allocations.newLine = true)
    (newentry : allocations.newentry ≠ none) (hs : hit.hitIndex < 64) (hw : hit.hitWay < 4)
    (line : 8 ≤ hit.hitIndex ∨ hit.hitIndex ≠ 0 ∧ Full .L1_DCACHE l1Cache hit.hitIndex ∧
      paddr.address + 16 ≤ memSpace.size ∧ allocations.oldEntry ≠ none) :
    writeHitL2 memSpace paddr l1Cache l2Cache word hit allocations = .error .arrayBounds := by
  have room : l1Cache.Room .L1_DCACHE := .of_size size1 (by decide)
  have room2 : l2Cache.Room .L2_CACHE := .of_size size2 (by decide)
  have hs2 : hit.hitIndex < CacheType.L2_CACHE.lines := hs.trans (by decide)
  have hw2 : hit.hitWay < CacheType.L2_CACHE.ways := hw.trans (by decide)
  obtain ⟨entry, available⟩ := Option.ne_none_iff_exists'.mp newentry
  have wide (patched : Entry) : (l2Cache.put .L2_CACHE hit.hitIndex hit.hitWay patched).Room .L2_CACHE :=
    room2
  obtain ⟨middle, updated, aged⟩ := lruAgeUpdate_ok (wide ((l2Cache.slot .L2_CACHE hit.hitIndex
    hit.hitWay).setLine (hit.pLine.setWord ((phyAddrTToUint32T paddr &&& 0b1111#32) >>> 2).toNat word)))
    hs2 hw2
  have size : middle.size = 4096 := aged.size.trans size2
  by_cases low : hit.hitIndex < 8
  · obtain ⟨positive, full, inside, old⟩ := line.resolve_left (Nat.not_le.mpr low)
    obtain ⟨oldEntry, here⟩ := Option.ne_none_iff_exists'.mp old
    obtain ⟨waydel, chosen, _⟩ := full.applyLru room hs
    have copied : middle.load (cacheEntry CacheType.L2_CACHE.lines hit.hitIndex hit.hitWay) =
        .ok (middle.entry (cacheEntry CacheType.L2_CACHE.lines hit.hitIndex hit.hitWay)) := by
      apply if_pos
      simp only [cacheEntry, CacheType.lines]
      omega
    have marker : l1Cache.load (cacheEntry CacheType.L1_DCACHE.ways hit.hitIndex hitWayMiss) =
        .error .arrayBounds := by
      apply if_neg
      simp only [cacheEntry, CacheType.ways, hitWayMiss]
      omega
    simp only [writeHitL2, newLine, Bool.not_true, Bool.false_eq_true, ↓reduceIte,
      Cache.load_slot room2 hs2 hw2, Cache.store_slot room2 hs2 hw2, ok_bind, updated, available,
      indexFromL2ToL1, copied, pure_eq_ok, findPlace_full room hs full, MemSpace.writeLine_ok inside,
      ne_eq, not_true_eq_false, indexL1_eq hs, chosen, here, marker, error_bind]
  · have outside : middle.load (cacheEntry CacheType.L2_CACHE.lines hit.hitIndex hit.hitWay) =
        .error .arrayBounds := by
      apply if_neg
      simp only [cacheEntry, CacheType.lines]
      omega
    simp only [writeHitL2, newLine, Bool.not_true, Bool.false_eq_true, ↓reduceIte,
      Cache.load_slot room2 hs2 hw2, Cache.store_slot room2 hs2 hw2, ok_bind, updated, available,
      indexFromL2ToL1, outside, error_bind]

theorem cacheWrite_inBounds_iff (size1 : l1Cache.size = 256) (size2 : l2Cache.size = 4096) :
    cacheWrite memSpace paddr l1Cache l2Cache word allocations ≠ .error .arrayBounds ↔
      ¬ WriteStrays memSpace paddr l1Cache l2Cache allocations := by
  have room : l1Cache.Room .L1_DCACHE := .of_size size1 (by decide)
  have room2 : l2Cache.Room .L2_CACHE := .of_size size2 (by decide)
  -- L2 seen as an array of L1 entries is larger than needed
  have room3 : l2Cache.Room .L1_DCACHE := .of_size size2 (by decide)
  cases pLine : allocations.pLine with
  | false =>
    have refused : cacheWrite memSpace paddr l1Cache l2Cache word allocations =
        .ok ⟨.errBadParameter, memSpace, l1Cache, l2Cache⟩ := by
      simp only [cacheWrite, pLine, Bool.not_false, ↓reduceIte, pure_eq_ok]
    rw [refused]
    exact ⟨fun _ strays => by simp [strays.pLine] at pLine, fun _ => by simp⟩
  | true =>
  cases pLine2 : allocations.pLine2 with
  | false =>
    have refused : cacheWrite memSpace paddr l1Cache l2Cache word allocations =
        .ok ⟨.errBadParameter, memSpace, l1Cache, l2Cache⟩ := by
      simp only [cacheWrite, pLine2, Bool.not_false, ↓reduceIte, pure_eq_ok, ite_self]
    rw [refused]
    exact ⟨fun _ strays => by simp [strays.pLine2] at pLine2, fun _ => by simp⟩
  | true =>
  by_cases first : ∃ w, Found .L1_DCACHE l1Cache paddr.address w
  · obtain ⟨w, found⟩ := first
    obtain ⟨after, ran, aged⟩ := cacheWrite_first memSpace word _ room pLine pLine2 found
    rw [ran]
    refine ⟨fun _ strays => strays.unfound ⟨w, found⟩, fun _ => ?_⟩
    exact (writeHitL1_yields _ (aged.room room) (CacheType.lineOf_lt _ _) found.way).avoids (by simp)
  · by_cases second : ∃ w, Found .L1_DCACHE l2Cache paddr.address w
    · obtain ⟨w, found⟩ := second
      obtain ⟨middle, ran, aged⟩ := cacheWrite_second memSpace word room room3 pLine pLine2 first found
      rw [ran]
      constructor
      · intro inside strays
        exact inside (writeHitL2_strays size1 (aged.size.trans size2) strays.newLine strays.newentry
          (CacheType.lineOf_lt _ _) found.way strays.line)
      · intro stays
        have wide : middle.Room .L2_CACHE := .of_size (aged.size.trans size2) (by decide)
        refine (writeHitL2_yields room wide (CacheType.lineOf_lt _ _) found.way ?_).avoids (by simp)
        intro newLine newentry
        by_contra line
        rw [not_and_or, not_or, not_not, Nat.not_lt] at line
        exact stays ⟨pLine, pLine2, newLine, newentry, first, ⟨w, found⟩, line⟩
    · rw [cacheWrite_unfound memSpace word room room3 pLine pLine2 first second]
      exact ⟨fun _ strays => second strays.found, fun _ => (writeMiss_yields room room2).avoids (by simp)⟩

/-- For arrays of 64 lines of 4 ways and 512 lines of 8 ways, a call stays inside them exactly when
it does not take a path with a wrong stride or with the marker of a miss. -/
theorem cacheInBounds_iff (size1 : l1Cache.size = 64 * 4) (size2 : l2Cache.size = 512 * 8)
    (memSpace : MemSpace) (paddr : PhyAddr) (word : BitVec 32) (allocations : Allocations) :
    (∀ access, cacheRead memSpace paddr access l1Cache l2Cache word allocations ≠ .error .arrayBounds ↔
      ¬ ReadStrays access paddr l1Cache l2Cache allocations) ∧
    (cacheWrite memSpace paddr l1Cache l2Cache word allocations ≠ .error .arrayBounds ↔
      ¬ WriteStrays memSpace paddr l1Cache l2Cache allocations) :=
  ⟨fun _ => cacheRead_inBounds_iff size1 size2, cacheWrite_inBounds_iff size1 size2⟩

private def holdingL1 : Cache := (Cache.zero .L1_DCACHE).put .L1_DCACHE 1 0 ⟨1#32, Line.zero⟩

private def holdingL2 : Cache := (Cache.zero .L2_CACHE).put .L2_CACHE 1 0 ⟨1#32, Line.zero⟩

/-- If only L2 holds the block, a read of it strays, and a write, which does not find it there, stays
inside; if L1 holds it too, both stay inside. -/
theorem cacheInBounds_iff_hits :
    cacheRead blankMemory ⟨0, 20⟩ .DATA (.zero .L1_DCACHE) holdingL2 0 granted = .error .arrayBounds ∧
    cacheWrite blankMemory ⟨0, 20⟩ (.zero .L1_DCACHE) holdingL2 7 granted ≠ .error .arrayBounds ∧
    cacheRead blankMemory ⟨0, 20⟩ .DATA holdingL1 holdingL2 0 granted ≠ .error .arrayBounds ∧
    cacheWrite blankMemory ⟨0, 20⟩ holdingL1 holdingL2 7 granted ≠ .error .arrayBounds := by
  have found : Found .L1_DCACHE holdingL1 (PhyAddr.address ⟨0, 20⟩) 0 :=
    ⟨by decide, by simp, by decide, by decide⟩
  have found2 : Found .L2_CACHE holdingL2 (PhyAddr.address ⟨0, 20⟩) 0 :=
    ⟨by decide, by simp, by decide, by decide⟩
  have unfound : ¬ ∃ w, Found .L1_DCACHE (.zero .L1_DCACHE) (PhyAddr.address ⟨0, 20⟩) w := by
    rintro ⟨w, found⟩
    have valid := found.v
    simp [Cache.slot, Cache.zero, Entry.v] at valid
  have unfound2 : ¬ ∃ w, Found .L1_DCACHE holdingL2 (PhyAddr.address ⟨0, 20⟩) w := by
    have invalid : ∀ w < 4, (holdingL2.slot .L1_DCACHE 1 w).v = false := by decide
    rintro ⟨w, found⟩
    exact absurd (found.v.symm.trans (invalid w found.way)) (by decide)
  have alone (word : BitVec 32) :=
    @cacheInBounds_iff (.zero .L1_DCACHE) holdingL2 rfl rfl blankMemory ⟨0, 20⟩ word granted
  have both (word : BitVec 32) :=
    @cacheInBounds_iff holdingL1 holdingL2 rfl rfl blankMemory ⟨0, 20⟩ word granted
  refine ⟨?_, ?_, ?_, ?_⟩
  · by_contra inside
    exact ((alone 0).1 .DATA).mp inside ⟨rfl, by decide, unfound, ⟨0, found2⟩, by decide⟩
  · exact (alone 7).2.mpr fun strays => unfound2 strays.found
  · exact ((both 0).1 .DATA).mpr fun strays => strays.unfound ⟨0, found⟩
  · exact (both 7).2.mpr fun strays => strays.unfound ⟨0, found⟩

private theorem error_of_map {α β : Type} {x : Exec α} {f : α → β} {fault : Fault}
    (stopped : x.map f = .error fault) : x = .error fault := by
  cases x with
  | ok a => contradiction
  | error other => exact congrArg Except.error (Except.error.inj stopped)

/-- A read that hits set 1 of L2, and a write that hits line 8 of L2. -/
theorem l2_hit_strays :
    cacheRead ⟨8192, fun _ => 0⟩ ⟨0, 16⟩ .DATA (.zero .L1_DCACHE)
        ((Cache.zero .L2_CACHE).put .L2_CACHE 1 0 ⟨1#32, Line.zero⟩) 0
        ⟨true, true, true, true, some ⟨0#32, Line.zero⟩, none, none⟩ = .error .arrayBounds ∧
      cacheWrite ⟨8192, fun _ => 0⟩ ⟨0, 128⟩ (.zero .L1_DCACHE)
        ((Cache.zero .L2_CACHE).put .L1_DCACHE 8 0 ⟨1#32, Line.zero⟩) 0
        ⟨true, true, true, true, some ⟨0#32, Line.zero⟩, none, none⟩ = .error .arrayBounds :=
  ⟨error_of_map (f := ReadReply.code) (by decide +kernel),
    error_of_map (f := WriteReply.code) (by decide +kernel)⟩

end KabyLake
