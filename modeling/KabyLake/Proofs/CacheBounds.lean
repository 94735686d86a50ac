import KabyLake.Machine.Faults
import KabyLake.Proofs.CacheMng

/-! # Indices of arbitrary caches

Nothing is assumed about the contents of the caches here, only that the arrays have the entries of
their types. The functions on one cache stay inside the array whatever it holds, and the paths of
`cache_read` and `cache_write` leave it only where they take a wrong stride or way.
-/

namespace KabyLake

open Machine

variable {type : CacheType} {cache : Cache} {s w : ℕ} {paddr : PhyAddr} {allowed : Fault → Prop}

/-- An array of a known size has room for every type that needs no more. -/
theorem Cache.Room.of_size {size : ℕ} (known : cache.size = size)
    (enough : type.lines * type.ways ≤ size) : cache.Room type := by
  rw [Cache.Room, known]
  exact enough

/-- A place is a way of its line or the marker of a full line. -/
theorem findPlace_yields (room : cache.Room type) (hs : s < type.lines) :
    Yields allowed (fun w => w ≠ hitWayMiss → w < type.ways) (findPlace cache type s) := by
  rcases full_or_free type cache s with full | ⟨w, free⟩
  · exact .of_eq (findPlace_full room hs full) fun present => (present rfl).elim
  · exact .of_eq (free.findPlace room hs) fun _ => free.way

theorem applyLru_yields (room : cache.Room type) (hs : s < type.lines) :
    Yields allowed (fun w => w < type.ways) (applyLru cache type s) := by
  obtain ⟨w, inside, chosen, _⟩ := applyLru_ok room hs
  exact .of_eq chosen inside

theorem lruAgeIncrease_yields (room : cache.Room type) (hs : s < type.lines) (hw : w < type.ways) :
    Yields allowed (Cache.Room type) (lruAgeIncrease type type.ways w s cache) := by
  obtain ⟨after, ran, aged⟩ := lruAgeIncrease_ok room hs hw
  exact .of_eq ran (aged.room room)

theorem lruAgeUpdate_yields (room : cache.Room type) (hs : s < type.lines) (hw : w < type.ways) :
    Yields allowed (Cache.Room type) (lruAgeUpdate type type.ways w s cache) := by
  obtain ⟨after, ran, aged⟩ := lruAgeUpdate_ok room hs hw
  exact .of_eq ran (aged.room room)

theorem cacheInsert_yields (entry : Option Entry) (room : cache.Room type) (hs : s < type.lines)
    (hw : w < type.ways) :
    Yields allowed (fun result => result.2.Room type) (cacheInsert s w entry cache type) := by
  cases entry with
  | none => exact .of_eq rfl room
  | some lineIn =>
    obtain ⟨stored, inserted, _⟩ := cacheInsert_some lineIn room hs hw
    exact .of_eq inserted room.put

theorem load_yields {k : ℕ} (inside : k < cache.size) :
    Yields allowed (fun _ => True) (cache.load k) := .of_eq (if_pos inside) trivial

theorem store_yields {k : ℕ} (room : cache.Room type) (inside : k < cache.size) (entry : Entry) :
    Yields allowed (Cache.Room type) (cache.store k entry) := .of_eq (if_pos inside) room

theorem insertIntoL2_yields (entry : Option Entry) (room : cache.Room .L2_CACHE)
    (hs : s < CacheType.L2_CACHE.lines) :
    Yields allowed (Cache.Room .L2_CACHE) (insertIntoL2 entry cache s) := by
  refine (findPlace_yields room hs).bind fun place inside => .ite (fun present => ?_) fun _ => ?_
  · refine (cacheInsert_yields entry room hs (inside present)).bind fun _ room => ?_
    exact lruAgeIncrease_yields room hs (inside present)
  · refine (applyLru_yields room hs).bind fun waydel hw => ?_
    refine (cacheInsert_yields entry room hs hw).bind fun _ room => ?_
    exact lruAgeUpdate_yields room hs hw

/-- The addresses of set 0 of L2 are those of line 0 of L1. -/
theorem MemAccess.lineOf_eq_zero {access : MemAccess} {a : ℕ} (set : CacheType.L2_CACHE.lineOf a = 0) :
    access.cacheType.lineOf a = 0 := by
  have zero : a / 16 % 512 = 0 := set
  rw [MemAccess.lineOf_cacheType]
  omega

section Paths

variable {memSpace : MemSpace} {access : MemAccess} {l1Cache l2Cache : Cache} {word : BitVec 32}
  {allocations : Allocations}

theorem cacheEntryInit_yields (entry : Option Entry) :
    Yields (· ≠ .arrayBounds) (fun _ => True) (cacheEntryInit memSpace paddr entry type) := by
  cases entry with
  | none => exact .ok trivial
  | some entry =>
    refine .ite (fun _ => .ok trivial) fun _ => ?_
    rw [MemSpace.readLine]
    split
    · exact .ok trivial
    · exact .error (by simp)

/-- A read that misses both caches only leaves the memory. -/
theorem notHitL1OrL2_yields (wordSelect : ℕ) (newentry : Option Entry) (room : l1Cache.Room type)
    (hs : s < type.lines) :
    Yields (· ≠ .arrayBounds) (fun _ => True)
      (notHitL1OrL2 type memSpace paddr l1Cache l2Cache s wordSelect word newentry) := by
  cases newentry with
  | none => exact .ok trivial
  | some garbage =>
    have fill (entry : Option Entry) (nway : ℕ) (hw : nway < type.ways) :=
      (cacheInsert_yields entry room hs hw).bind fun _ room =>
        (lruAgeUpdate_yields room hs hw).bind fun l1 room =>
          (load_yields (Cache.cacheEntry_lt room hs hw)).bind fun selected _ =>
            (.ok trivial : Yields (· ≠ Fault.arrayBounds) (fun _ => True)
              (.ok (⟨.errNone, l1, l2Cache, selected.line.word wordSelect⟩ : ReadReply)))
    refine (cacheEntryInit_yields _).bind fun entry _ => (findPlace_yields room hs).bind fun place inside =>
      .ite (fun _ => ?_) fun present => ?_
    · exact (applyLru_yields room hs).bind fun nway hw => fill entry.2 nway hw
    · exact fill entry.2 place (inside present)

/-- The copy from L2 takes the number of lines for a stride. -/
theorem indexFromL2ToL1_yields (entry : Entry) (inside : cacheEntry CacheType.L2_CACHE.lines s w < l2Cache.size) :
    Yields allowed (fun _ => True) (indexFromL2ToL1 l2Cache entry type w s) := by
  cases type with
  | L2_CACHE => exact .ok trivial
  | L1_ICACHE | L1_DCACHE => exact (load_yields inside).bind fun _ _ => .ok trivial

/-- In set zero the strides of `hit_L2` make no difference. -/
theorem hitL2_yields (newTag wordSelect : ℕ) (newentry : Option Entry)
    (room : l1Cache.Room access.cacheType) (room2 : l2Cache.Room .L2_CACHE)
    (hw : w < CacheType.L2_CACHE.ways) :
    Yields (· ≠ .arrayBounds) (fun _ => True)
      (hitL2 access.cacheType l1Cache l2Cache newTag w 0 0 wordSelect word newentry) := by
  have hs : 0 < access.cacheType.lines := CacheType.lines_pos
  have small : cacheEntry CacheType.L2_CACHE.lines 0 w < 8 := by
    simpa [cacheEntry, CacheType.ways] using hw
  have large : 8 ≤ l1Cache.size := le_trans (by cases access <;> decide) room
  have large2 : 8 ≤ l2Cache.size := le_trans (by decide) room2
  cases newentry with
  | none => exact .ok trivial
  | some newentry =>
    refine (indexFromL2ToL1_yields _ (small.trans_le large2)).bind fun moved _ => ?_
    refine .ite (fun _ => .ok trivial) fun _ => ?_
    refine (load_yields (small.trans_le large)).bind fun moved _ => ?_
    refine (store_yields room (small.trans_le large) _).bind fun l1 room => ?_
    refine (findPlace_yields room hs).bind fun nway inside => .ite (fun present => ?_) fun _ => ?_
    · refine (cacheInsert_yields _ room hs (inside present)).bind fun result room => ?_
      refine .ite (fun _ => .ok trivial) fun _ => ?_
      exact (lruAgeIncrease_yields room hs (inside present)).bind fun _ _ => .ok trivial
    · refine (applyLru_yields room hs).bind fun waydel hw => ?_
      have first : cacheEntry access.cacheType.lines 0 waydel < l1.size := by
        have inside := Cache.cacheEntry_lt room hs hw
        simpa [cacheEntry] using inside
      refine (load_yields first).bind fun oldEntry _ => ?_
      refine (cacheInsert_yields _ room hs hw).bind fun result room => ?_
      refine (lruAgeUpdate_yields room hs hw).bind fun _ room => ?_
      refine (load_yields (Cache.cacheEntry_lt room hs hw)).bind fun selected _ => ?_
      exact (insertIntoL2_yields _ room2 CacheType.lines_pos).bind fun _ _ => .ok trivial

/-- Outside set zero `hit_L2` leaves one of the two arrays. -/
theorem hitL2_strays {newTag line1 wordSelect s : ℕ} {newentry : Option Entry}
    (size1 : l1Cache.size = 256) (size2 : l2Cache.size = 4096) (set : s ≠ 0)
    (available : newentry ≠ none) :
    hitL2 access.cacheType l1Cache l2Cache newTag w s line1 wordSelect word newentry =
      .error .arrayBounds := by
  obtain ⟨entry, rfl⟩ := Option.ne_none_iff_exists'.mp available
  have outside : ¬ cacheEntry CacheType.L2_CACHE.lines s w < 256 := by
    simp only [cacheEntry, CacheType.lines]
    omega
  have first (entry : Entry) : indexFromL2ToL1 l2Cache entry access.cacheType w s =
      (l2Cache.load (cacheEntry CacheType.L2_CACHE.lines s w) >>= fun source =>
        .ok (.errNone, (entry.setLine source.line).setV true)) := by
    cases access <;> rfl
  by_cases inside : cacheEntry CacheType.L2_CACHE.lines s w < 4096
  · simp only [hitL2, first, Cache.load, size2, size1, inside, outside, ↓reduceIte, ok_bind, ne_eq,
      not_true_eq_false, error_bind]
  · simp only [hitL2, first, Cache.load, size2, inside, ↓reduceIte, error_bind]

theorem writeLine_yields {a : ℕ} (line : Line) :
    Yields (· ≠ .arrayBounds) (fun _ => a + 16 ≤ memSpace.size) (memSpace.writeLine a line) :=
  .ite (fun inside => .ok inside) fun _ => .error (by simp)

theorem writeHitL1_yields {hit : HitReply} (newLine : Bool) (room : l1Cache.Room .L1_DCACHE)
    (hs : hit.hitIndex < CacheType.L1_DCACHE.lines) (hw : hit.hitWay < CacheType.L1_DCACHE.ways) :
    Yields (· ≠ .arrayBounds) (fun _ => True)
      (writeHitL1 memSpace paddr l1Cache l2Cache word hit newLine) := by
  have inside := Cache.cacheEntry_lt room hs hw
  refine .ite (fun _ => .ok trivial) fun _ => (load_yields inside).bind fun entry _ => ?_
  refine (store_yields room inside _).bind fun _ room => ?_
  refine (lruAgeUpdate_yields room hs hw).bind fun _ _ => ?_
  exact (writeLine_yields _).bind fun _ _ => .ok trivial

theorem writeMiss_yields (room : l1Cache.Room .L1_DCACHE) (room2 : l2Cache.Room .L2_CACHE) :
    Yields (· ≠ .arrayBounds) (fun _ => True)
      (writeMiss memSpace paddr l1Cache l2Cache word allocations) := by
  have hs : ((phyAddrTToUint32T paddr >>> 4) &&& 0b111111#32).toNat < CacheType.L1_DCACHE.lines := by
    rw [newindex_toNat]
    exact Nat.mod_lt _ (by decide)
  refine .ite (fun _ => .error (by simp)) fun _ => ?_
  have read : Yields (· ≠ Fault.arrayBounds) (fun _ => True) (memSpace.readLine paddr.address) :=
    .ite (fun _ => .ok trivial) fun _ => .error (by simp)
  refine read.bind fun memLine _ => (writeLine_yields _).bind fun memSpace _ => ?_
  refine (cacheEntryInit_yields _).bind fun made _ => ?_
  refine (findPlace_yields room hs).bind fun wayld inside => .ite (fun present => ?_) fun _ => ?_
  · refine (cacheInsert_yields _ room hs (inside present)).bind fun _ room => ?_
    exact (lruAgeIncrease_yields room hs (inside present)).bind fun _ _ => .ok trivial
  · refine (applyLru_yields room hs).bind fun waydel2 hw => ?_
    cases allocations.oldEntry with
    | none => exact .error (by simp)
    | some oldEntry =>
      refine (load_yields (Cache.cacheEntry_lt room hs hw)).bind fun leaving _ => ?_
      refine (cacheInsert_yields _ room hs hw).bind fun _ room => ?_
      refine (lruAgeUpdate_yields room hs hw).bind fun _ _ => ?_
      exact (insertIntoL2_yields _ room2 (l2index_lt paddr)).bind fun _ _ => .ok trivial

/-- The mask of the L1 line keeps a line of L1. -/
theorem indexL1_eq (hs : s < 64) : s &&& 0b111111 = s := by
  rw [show (0b111111 : ℕ) = 2 ^ 6 - 1 from rfl, Nat.and_two_pow_sub_one_eq_mod]
  exact Nat.mod_eq_of_lt hs

/-- `cache_write` after a hit in L2, where no index leaves its array. -/
theorem writeHitL2_yields {hit : HitReply} (room : l1Cache.Room .L1_DCACHE)
    (room2 : l2Cache.Room .L2_CACHE) (hs : hit.hitIndex < CacheType.L1_DCACHE.lines) (hw : hit.hitWay < 4)
    (stays : allocations.newLine = true → allocations.newentry ≠ none → hit.hitIndex < 8 ∧
      (hit.hitIndex = 0 ∨ ¬ (Full .L1_DCACHE l1Cache hit.hitIndex ∧
        paddr.address + 16 ≤ memSpace.size ∧ allocations.oldEntry ≠ none))) :
    Yields (· ≠ .arrayBounds) (fun _ => True)
      (writeHitL2 memSpace paddr l1Cache l2Cache word hit allocations) := by
  have hs2 : hit.hitIndex < CacheType.L2_CACHE.lines := hs.trans (by decide)
  have hw2 : hit.hitWay < CacheType.L2_CACHE.ways := hw.trans (by decide)
  have inside := Cache.cacheEntry_lt room2 hs2 hw2
  refine .ite (fun _ => .ok trivial) fun newLine => (load_yields inside).bind fun entry _ => ?_
  refine (store_yields room2 inside _).bind fun _ room2 => ?_
  refine (lruAgeUpdate_yields room2 hs2 hw2).bind fun l2 room2 => ?_
  cases available : allocations.newentry with
  | none => exact .ok trivial
  | some newentry =>
    obtain ⟨low, kept⟩ := stays (by simpa using newLine) (by simp [available])
    have copied : cacheEntry CacheType.L2_CACHE.lines hit.hitIndex hit.hitWay < l2.size := by
      unfold Cache.Room at room2
      simp only [cacheEntry, CacheType.lines, CacheType.ways] at room2 ⊢
      omega
    refine (indexFromL2ToL1_yields _ copied).bind fun moved _ => ?_
    dsimp only
    rw [indexL1_eq hs]
    rcases full_or_free .L1_DCACHE l1Cache hit.hitIndex with full | ⟨wayL1, free⟩
    · rw [findPlace_full room hs full]
      refine (writeLine_yields _).bind fun memSpace written => .ite (fun present => (present rfl).elim) fun _ => ?_
      refine (applyLru_yields room hs).bind fun waydel hw => ?_
      cases old : allocations.oldEntry with
      | none => exact .error (by simp)
      | some oldEntry =>
        -- way 255 of line 0 is the last entry of the array
        have zero : hit.hitIndex = 0 := kept.resolve_right fun stays =>
          stays ⟨full, written, by rw [old]; simp⟩
        have last : cacheEntry CacheType.L1_DCACHE.ways hit.hitIndex hitWayMiss < l1Cache.size := by
          rw [zero]
          exact lt_of_lt_of_le (by decide) room
        refine (load_yields last).bind fun leaving _ => ?_
        refine (cacheInsert_yields _ room hs hw).bind fun _ room => ?_
        refine (lruAgeUpdate_yields room hs hw).bind fun _ _ => ?_
        exact (insertIntoL2_yields _ room2 hs2).bind fun _ _ => .ok trivial
    · rw [free.findPlace room hs]
      refine (writeLine_yields _).bind fun memSpace _ => .ite (fun _ => ?_) fun missing => ?_
      · refine (cacheInsert_yields _ room hs free.way).bind fun _ room => ?_
        exact (lruAgeIncrease_yields room hs free.way).bind fun _ _ => .ok trivial
      · exact (missing (free.way.trans CacheType.ways_lt).ne).elim

end Paths

end KabyLake
