import KabyLake.Proofs.CacheBounds

/-! # What one cache finds and forgets

A lookup in a cache of any contents finds a block exactly if no invalid way comes before it. An entry
that was made for an address and inserted is found at the addresses of its block and at no other.
`cache_flush` leaves the array it is given.
-/

namespace KabyLake

open Machine

variable {type : CacheType} {cache after : Cache} {a s w : ℕ} {paddr : PhyAddr}

/-- A block of the cache that a lookup does not reach: an invalid way comes before its way. -/
def HiddenBlock (type : CacheType) (cache : Cache) (a : ℕ) : Prop :=
  ∃ w, Holds type cache a w ∧ ∃ i < w, (cache.slot type (type.lineOf a) i).v = false

structure OnlyAges (type : CacheType) (a : ℕ) (before after : Cache) : Prop where
  size : after.size = before.size
  others : ∀ k, (∀ i < type.ways, k ≠ cacheEntry type.ways (type.lineOf a) i) →
    after.entry k = before.entry k
  block : ∀ i < type.ways, Entry.SameBlock type (after.slot type (type.lineOf a) i)
    (before.slot type (type.lineOf a) i)

/-- The lookup of `a` reports a hit exactly if a way holds its block, and then that way. -/
structure ExactHit (type : CacheType) (before : Cache) (a : ℕ) (after : Cache) (reply : HitReply) :
    Prop where
  code : reply.code = .errNone
  hit_iff : reply.hitWay ≠ hitWayMiss ↔ ∃ w, Holds type before a w
  hit : reply.hitWay ≠ hitWayMiss → Holds type before a reply.hitWay ∧
    reply.hitIndex = type.lineOf a ∧
    reply.pLine = (before.slot type (type.lineOf a) reply.hitWay).line ∧ OnlyAges type a before after
  miss : reply.hitWay = hitWayMiss → reply.hitIndex = hitIndexMiss ∧ after = before

/-- The valid ways of each line have different tags; invalid ways may be anywhere. -/
def DistinctTags (type : CacheType) (cache : Cache) : Prop :=
  ∀ s < type.lines, ∀ i < type.ways, ∀ j < type.ways, (cache.slot type s i).v = true →
    (cache.slot type s j).v = true →
    (cache.slot type s i).tag type = (cache.slot type s j).tag type → i = j

/-- A block is found in its way unless an invalid way comes before it. -/
theorem DistinctTags.found_iff (distinct : DistinctTags type cache) (holds : Holds type cache a w) :
    Found type cache a w ↔ ¬ HiddenBlock type cache a := by
  constructor
  · rintro found ⟨other, again, i, earlier, invalid⟩
    have same : other = w := distinct _ (CacheType.lineOf_lt type a) other again.way w holds.way again.v
      holds.v (again.tag.trans holds.tag.symm)
    rw [(found.earlier i (same ▸ earlier)).1] at invalid
    contradiction
  · intro visible
    refine ⟨holds.way, fun i earlier => ?_, holds.v, holds.tag⟩
    have valid : (cache.slot type (type.lineOf a) i).v = true := by
      by_contra invalid
      exact visible ⟨w, holds, i, earlier, by simpa using invalid⟩
    refine ⟨valid, fun tag => ?_⟩
    have same := distinct _ (CacheType.lineOf_lt type a) i (earlier.trans holds.way) w holds.way valid
      holds.v (tag.trans holds.tag.symm)
    exact earlier.ne same

/-- `cache_hit` finds exactly what is present, and where, if and only if no invalid way comes before
the block that is looked up. -/
theorem exactHit_iff (room : cache.Room type) (distinct : DistinctTags type cache) (paddr : PhyAddr)
    (pLine : Line) :
    (∃ after reply, cacheHit cache paddr pLine type = .ok (after, reply) ∧
      ExactHit type cache paddr.address after reply) ↔ ¬ HiddenBlock type cache paddr.address := by
  by_cases present : ∃ w, Found type cache paddr.address w
  · obtain ⟨w, found⟩ := present
    have holds := found.holds
    refine iff_of_true ?_ ((distinct.found_iff holds).mp found)
    obtain ⟨after, hit, aged⟩ := found.cacheHit room pLine
    have inside : w ≠ hitWayMiss := (found.way.trans CacheType.ways_lt).ne
    refine ⟨after, _, hit, rfl, iff_of_true inside ⟨w, holds⟩, fun _ => ?_, fun same => ?_⟩
    · exact ⟨holds, rfl, rfl, aged.size, aged.others, aged.block⟩
    · exact (inside same).elim
  · have missed := cacheHit_unfound room pLine present
    constructor
    · rintro ⟨after, reply, ran, exact⟩ ⟨w, holds, _⟩
      obtain ⟨rfl, rfl⟩ := Prod.mk.inj (Except.ok.inj (missed.symm.trans ran))
      exact exact.hit_iff.mpr ⟨w, holds⟩ rfl
    · intro visible
      have absent : ¬ ∃ w, Holds type cache paddr.address w := by
        rintro ⟨w, holds⟩
        exact present ⟨w, (distinct.found_iff holds).mpr visible⟩
      refine ⟨cache, _, missed, rfl, ?_, fun hit => (hit rfl).elim, fun _ => ⟨rfl, rfl⟩⟩
      simp [absent]

private def oneEntry (k : ℕ) : Cache :=
  ⟨4096, fun j => if j = k then ⟨1#32, Line.zero⟩ else ⟨0#32, Line.zero⟩⟩

private theorem v_oneEntry {k j : ℕ} : ((oneEntry k).entry j).v = true ↔ j = k := by
  simp only [oneEntry]
  split <;> simp_all [Entry.v]

private theorem oneEntry_distinct (k : ℕ) : DistinctTags .L2_CACHE (oneEntry k) := by
  intro s hs i hi j hj valid valid' _
  rw [Cache.slot, v_oneEntry] at valid valid'
  exact ((Cache.cacheEntry_inj hi hj).mp (valid.trans valid'.symm)).2

theorem exactHit_iff_first : ∃ after reply,
    cacheHit (oneEntry 0) ⟨0, 0⟩ Line.zero .L2_CACHE = .ok (after, reply) ∧
      ExactHit .L2_CACHE (oneEntry 0) (PhyAddr.address ⟨0, 0⟩) after reply := by
  have room : (oneEntry 0).Room .L2_CACHE := .of_size rfl (by decide)
  apply (exactHit_iff room (oneEntry_distinct 0) ⟨0, 0⟩ Line.zero).mpr
  rintro ⟨w, holds, i, earlier, _⟩
  have first : cacheEntry CacheType.L2_CACHE.ways 0 w = 0 := v_oneEntry.mp holds.v
  rw [cacheEntry] at first
  omega

/-- The block of address 0 is in way 1 behind an invalid way, and is not found. -/
theorem hidden_block_missed : Holds .L2_CACHE (oneEntry 1) (PhyAddr.address ⟨0, 0⟩) 1 ∧
    DistinctTags .L2_CACHE (oneEntry 1) ∧
    (cacheHit (oneEntry 1) ⟨0, 0⟩ Line.zero .L2_CACHE).map (fun result => result.2.hitWay) =
      .ok hitWayMiss ∧
    ¬ ∃ after reply, cacheHit (oneEntry 1) ⟨0, 0⟩ Line.zero .L2_CACHE = .ok (after, reply) ∧
      ExactHit .L2_CACHE (oneEntry 1) (PhyAddr.address ⟨0, 0⟩) after reply := by
  have holds : Holds .L2_CACHE (oneEntry 1) (PhyAddr.address ⟨0, 0⟩) 1 :=
    ⟨by decide, by decide, by decide⟩
  have missed : (cacheHit (oneEntry 1) ⟨0, 0⟩ Line.zero .L2_CACHE).map
      (fun result => result.2.hitWay) = .ok hitWayMiss := by decide +kernel
  refine ⟨holds, oneEntry_distinct 1, missed, ?_⟩
  rintro ⟨after, reply, ran, exact⟩
  rw [ran] at missed
  exact exact.hit_iff.mpr ⟨1, holds⟩ (Except.ok.inj missed)

/-- An entry made for an aligned address and inserted behind valid ways of other tags is found at the
addresses of its block, with the words of memory, and at no other address. -/
theorem cacheHit_inserted_iff (type : CacheType) {memSpace : MemSpace} {block : PhyAddr}
    (aligned : block.address % 16 = 0) (inside : block.address + 16 ≤ memSpace.size)
    (room : cache.Room type) (hw : w < type.ways)
    (earlier : ∀ i < w, (cache.slot type (type.lineOf block.address) i).v = true ∧
      (cache.slot type (type.lineOf block.address) i).tag type ≠ type.tagOf block.address)
    (garbage : Entry) :
    ∃ entry after, cacheEntryInit memSpace block (some garbage) type = .ok (.errNone, some entry) ∧
      cacheInsert (type.lineOf block.address) w (some entry) cache type = .ok (.errNone, after) ∧
      after.size = cache.size ∧
      (∀ k, k ≠ cacheEntry type.ways (type.lineOf block.address) w → after.entry k = cache.entry k) ∧
      ∀ paddr pLine, ∃ final reply, cacheHit after paddr pLine type = .ok (final, reply) ∧
        reply.code = .errNone ∧
        ((reply.hitWay = w ∧ reply.hitIndex = type.lineOf block.address) ↔
          paddr.address / 16 = block.address / 16) ∧
        (paddr.address / 16 = block.address / 16 → reply.pLine = memSpace.line block.address) := by
  have hs := CacheType.lineOf_lt type block.address
  obtain ⟨entry, made, valid, _, tag, line⟩ := cacheEntryInit_aligned type garbage aligned inside
  obtain ⟨stored, inserted, same, _⟩ := cacheInsert_some entry room hs hw
  refine ⟨entry, _, made, inserted, rfl, fun k other => Cache.entry_put_of_ne other, ?_⟩
  intro paddr pLine
  set after := cache.put type (type.lineOf block.address) w stored with put
  have wide : after.Room type := room.put
  have here : after.slot type (type.lineOf block.address) w = stored := Cache.slot_put_self
  by_cases own : paddr.address / 16 = block.address / 16
  · have index : type.lineOf paddr.address = type.lineOf block.address := by rw [CacheType.lineOf, own]
    have tags : type.tagOf paddr.address = type.tagOf block.address := by
      rw [CacheType.tagOf_eq, CacheType.tagOf_eq, own]
    have found : Found type after paddr.address w := by
      refine ⟨hw, fun i hi => ?_, ?_, ?_⟩
      · rw [index, tags, put, Cache.slot_put_of_ne hw (hi.trans hw) fun _ => hi.ne]
        exact earlier i hi
      · rw [index, here, same.v, valid]
      · rw [index, tags, here, same.tag, tag]
    obtain ⟨final, hit, _⟩ := found.cacheHit wide pLine
    refine ⟨final, _, hit, rfl, iff_of_true ⟨rfl, index⟩ own, fun _ => ?_⟩
    rw [index, here, same.line, line]
  · by_cases present : ∃ other, Found type after paddr.address other
    · obtain ⟨other, found⟩ := present
      obtain ⟨final, hit, _⟩ := found.cacheHit wide pLine
      refine ⟨final, _, hit, rfl, iff_of_false ?_ own, fun same => (own same).elim⟩
      rintro ⟨way, index⟩
      dsimp only at way index
      -- line and tag determine the block
      have tags := found.tag
      rw [way, index, here, same.tag, tag] at tags
      have starts : type.blockStart (type.tagOf paddr.address) (type.lineOf paddr.address) =
          paddr.address / 16 * 16 := CacheType.blockStart_tagOf _
      rw [← tags, index, CacheType.blockStart_tagOf] at starts
      omega
    · have missed := cacheHit_unfound wide pLine present
      refine ⟨after, _, missed, rfl, iff_of_false ?_ own, fun same => (own same).elim⟩
      rintro ⟨way, _⟩
      exact (hw.trans CacheType.ways_lt).ne way.symm

/-- The block at 16, inserted behind the block of tag 1 in set 1 of L2, is found there at its second word;
the block of tag 1 and one that was not inserted are not taken for it. -/
theorem cacheHit_inserted_iff_behind : ∃ cache entry after,
    cache = (Cache.zero .L2_CACHE).put .L2_CACHE 1 0 (((⟨0, Line.zero⟩ : Entry).setV true).setTag .L2_CACHE 1) ∧
    cacheInsert 1 1 (some entry) cache .L2_CACHE = .ok (.errNone, after) ∧
    (∃ final reply, cacheHit after ⟨0, 20⟩ Line.zero .L2_CACHE = .ok (final, reply) ∧ reply.hitWay = 1 ∧
      reply.hitIndex = 1) ∧
    (∃ final reply, cacheHit after ⟨2, 16⟩ Line.zero .L2_CACHE = .ok (final, reply) ∧
      ¬ (reply.hitWay = 1 ∧ reply.hitIndex = 1)) ∧
    ∃ final reply, cacheHit after ⟨4, 16⟩ Line.zero .L2_CACHE = .ok (final, reply) ∧
      ¬ (reply.hitWay = 1 ∧ reply.hitIndex = 1) := by
  let cache := (Cache.zero .L2_CACHE).put .L2_CACHE 1 0
    (((⟨0, Line.zero⟩ : Entry).setV true).setTag .L2_CACHE 1)
  have room : cache.Room .L2_CACHE := .of_size rfl (by decide)
  have inside : PhyAddr.address ⟨0, 16⟩ + 16 ≤ (⟨32, fun _ => 0⟩ : MemSpace).size := by decide
  have earlier : ∀ i < 1, (cache.slot .L2_CACHE 1 i).v = true ∧
      (cache.slot .L2_CACHE 1 i).tag .L2_CACHE ≠ CacheType.L2_CACHE.tagOf (PhyAddr.address ⟨0, 16⟩) := by
    intro i hi
    obtain rfl := Nat.lt_one_iff.mp hi
    rw [Cache.slot_put_self]
    decide
  obtain ⟨entry, after, _, inserted, _, _, lookups⟩ :=
    cacheHit_inserted_iff .L2_CACHE (by decide) inside room (by decide) earlier ⟨0, Line.zero⟩
  refine ⟨cache, entry, after, rfl, inserted, ?_, ?_, ?_⟩
  · obtain ⟨final, reply, hit, _, found, _⟩ := lookups ⟨0, 20⟩ Line.zero
    obtain ⟨way, index⟩ := found.mpr (by decide)
    exact ⟨final, reply, hit, way, index⟩
  · obtain ⟨final, reply, hit, _, found, _⟩ := lookups ⟨2, 16⟩ Line.zero
    exact ⟨final, reply, hit, found.not.mpr (by decide)⟩
  · obtain ⟨final, reply, hit, _, found, _⟩ := lookups ⟨4, 16⟩ Line.zero
    exact ⟨final, reply, hit, found.not.mpr (by decide)⟩

/-- The cache has forgotten everything and nothing behind it was written. -/
structure Erased (type : CacheType) (before after : Cache) : Prop where
  v : ∀ k < type.lines * type.ways, (after.entry k).v = false
  tag : ∀ k < type.lines * type.ways, (after.entry k).tag type = 0
  age : ∀ k < type.lines * type.ways, (after.entry k).age type = 0
  line : ∀ k < type.lines * type.ways, (after.entry k).line = Line.zero
  beyond : ∀ k, type.lines * type.ways ≤ k → after.entry k = before.entry k

private structure FlushedBelow (before : Cache) (n : ℕ) (after : Cache) : Prop where
  size : after.size = before.size
  entry : ∀ k, after.entry k = if k < n then (before.entry k).setV false else before.entry k

private theorem flushLoop_ok {n : ℕ} (inside : n ≤ cache.size) :
    ∃ after, forLoop flushStep n cache = .ok after ∧ FlushedBelow cache n after := by
  have initial : FlushedBelow cache 0 cache := ⟨rfl, fun k => rfl⟩
  apply forLoop_ok (FlushedBelow cache) initial
  rintro i middle below ⟨size, entries⟩
  have bound : i < middle.size := by omega
  refine ⟨{ middle with entry := Function.update middle.entry i ((middle.entry i).setV false) }, ?_,
    size, fun k => ?_⟩
  · simp only [flushStep, Cache.load, Cache.store, bound, ↓reduceIte, ok_bind]
  · rcases eq_or_ne k i with rfl | other
    · simp [entries]
    · have same : k < i ↔ k < i + 1 := by omega
      simp only [Function.update_of_ne other, entries, same]

/-- On an array of exactly the entries of its type `cache_flush` leaves the array. -/
theorem cacheFlush_strays (size : cache.size = type.lines * type.ways) :
    cacheFlush cache type = .error .arrayBounds := by
  obtain ⟨after, looped, flushed⟩ := flushLoop_ok size.ge
  have outside : ¬ type.lines * type.ways < after.size := by
    rw [flushed.size, size]
    exact Nat.lt_irrefl _
  simp only [cacheFlush, Nat.mul_comm type.ways type.lines, looped, ok_bind, Cache.load, outside,
    ↓reduceIte, error_bind]

/-- In a longer array `cache_flush` clears the valid bits, one line, and the tag and the age of the
entry behind the cache; the tags and ages of the cache stay. -/
theorem cacheFlush_longer (longer : type.lines * type.ways < cache.size) :
    ∃ after, cacheFlush cache type = .ok (.errNone, after) ∧ after.size = cache.size ∧
      (∀ k < type.lines * type.ways, (after.entry k).v = false ∧
        (after.entry k).tag type = (cache.entry k).tag type ∧
        (after.entry k).age type = (cache.entry k).age type ∧
        (after.entry k).line = if k = 0 then Line.zero else (cache.entry k).line) ∧
      (after.entry (type.lines * type.ways)).tag type = 0 ∧
      (after.entry (type.lines * type.ways)).age type = 0 := by
  obtain ⟨middle, looped, flushed⟩ := flushLoop_ok longer.le
  have inside : type.lines * type.ways < middle.size := flushed.size ▸ longer
  have positive : 0 < type.lines * type.ways := Nat.mul_pos CacheType.lines_pos CacheType.ways_pos
  have first : 0 < middle.size := positive.trans inside
  set n := type.lines * type.ways with total
  refine ⟨{ middle with entry := Function.update (Function.update middle.entry n
    (((middle.entry n).setTag type 0).setAge type 0)) 0 ((middle.entry 0).setLine Line.zero) }, ?_,
    flushed.size, fun k below => ?_, ?_, ?_⟩
  · simp only [cacheFlush, Nat.mul_comm type.ways type.lines, ← total, looped, ok_bind, Cache.load,
      Cache.store, inside, first, ↓reduceIte, pure_eq_ok, Function.update_self, Function.update_idem,
      Function.update_of_ne positive.ne]
  · rcases eq_or_ne k 0 with rfl | later
    · simp [flushed.entry, positive]
    · simp [below.ne, later, flushed.entry, below]
  · simp [positive.ne']
  · simp [positive.ne']

/-- `cache_flush` erases no cache. -/
theorem cacheFlush_never (size : cache.size = type.lines * type.ways) :
    ¬ ∃ after, cacheFlush cache type = .ok (.errNone, after) ∧ Erased type cache after := by
  rintro ⟨after, ran, _⟩
  rw [cacheFlush_strays size] at ran
  contradiction

theorem cacheFlush_never_zero : ¬ ∃ after,
    cacheFlush (Cache.zero .L2_CACHE) .L2_CACHE = .ok (.errNone, after) ∧
      Erased .L2_CACHE (Cache.zero .L2_CACHE) after :=
  cacheFlush_never rfl

private def staleCache (extra : ℕ) : Cache := ⟨256 + extra, fun _ => ⟨0b1111#32, Line.zero⟩⟩

/-- `cache_flush` does not return on the array of 256 entries. With one more entry behind them it returns and has
written to that entry, while tag 1 and age 3 are left in every entry of the cache. -/
theorem flush_strays : (staleCache 0).size = CacheType.L1_DCACHE.lines * CacheType.L1_DCACHE.ways ∧
    (¬ ∃ after, cacheFlush (staleCache 0) .L1_DCACHE = .ok (.errNone, after) ∧
      Erased .L1_DCACHE (staleCache 0) after) ∧
    ∃ after, cacheFlush (staleCache 1) .L1_DCACHE = .ok (.errNone, after) ∧
      (after.entry 256).age .L1_DCACHE = 0 ∧
      ∀ k < 256, (after.entry k).tag .L1_DCACHE = 1 ∧ (after.entry k).age .L1_DCACHE = 3 := by
  refine ⟨rfl, ?_, ?_⟩
  · rintro ⟨after, ran, _⟩
    rw [cacheFlush_strays rfl] at ran
    contradiction
  have longer : CacheType.L1_DCACHE.lines * CacheType.L1_DCACHE.ways < (staleCache 1).size := by decide
  obtain ⟨after, ran, _, kept, _, age⟩ := cacheFlush_longer longer
  refine ⟨after, ran, age, fun k below => ?_⟩
  obtain ⟨_, sameTag, sameAge, _⟩ := kept k below
  rw [sameTag, sameAge]
  exact ⟨show Entry.tag .L1_DCACHE ⟨0b1111#32, Line.zero⟩ = 1 by decide,
    show Entry.age .L1_DCACHE ⟨0b1111#32, Line.zero⟩ = 3 by decide⟩

end KabyLake
