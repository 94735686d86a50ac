import KabyLake.Proofs.CacheBounds
import KabyLake.Proofs.CacheCoherent

/-! # A hit in L2

`hit_L2` clears the valid bit of an L1 entry at the position of the L2 entry, fills a way of L1 and,
if the line is full, writes the L1 entry that leaves over an L2 entry of the set that was hit. Only
set 0 matters here, since the other ones are outside the array. The branch of `cache_write` for such
a hit keeps the block in L2.
-/

namespace KabyLake

open Machine

variable {type : CacheType} {access : MemAccess} {a s w : ℕ}

/-- The tag that L2 reads in an entry of an L1 cache. -/
theorem Entry.tag_L2 (entry : Entry) (access : MemAccess) :
    entry.tag .L2_CACHE = entry.tag access.cacheType / 2 % 2 ^ 19 := by
  have l1 : entry.tag access.cacheType = entry.header.toNat / 2 ^ 3 % 2 ^ 22 := by
    cases access <;> simp [Entry.tag, MemAccess.cacheType, CacheType.ageBits, CacheType.tagBits,
      BitVec.extractLsb'_toNat, Nat.shiftRight_eq_div_pow]
  have l2 : entry.tag .L2_CACHE = entry.header.toNat / 2 ^ 4 % 2 ^ 19 := by
    simp [Entry.tag, CacheType.ageBits, CacheType.tagBits, BitVec.extractLsb'_toNat,
      Nat.shiftRight_eq_div_pow]
  omega

namespace Cache

variable {cache : Cache} {i k : ℕ}

/-- The array after the valid bit of one entry was cleared. -/
def clear (cache : Cache) (k : ℕ) : Cache :=
  { cache with entry := Function.update cache.entry k ((cache.entry k).setV false) }

theorem slot_clear : (cache.clear k).slot type s i =
    if cacheEntry type.ways s i = k then (cache.slot type s i).setV false else cache.slot type s i := by
  have updated : (cache.clear k).slot type s i = Function.update cache.entry k
      ((cache.entry k).setV false) (cacheEntry type.ways s i) := rfl
  rw [updated, Function.update_apply]
  split
  · next same => rw [slot, same]
  · rfl

theorem v_slot_clear : ((cache.clear k).slot type s i).v = true ↔
    cacheEntry type.ways s i ≠ k ∧ (cache.slot type s i).v = true := by
  rw [slot_clear]
  split
  · next same => simp [same]
  · next other => simp [other]

@[simp] theorem tag_slot_clear :
    ((cache.clear k).slot type s i).tag type = (cache.slot type s i).tag type := by
  rw [slot_clear]
  split <;> simp

@[simp] theorem age_slot_clear :
    ((cache.clear k).slot type s i).age type = (cache.slot type s i).age type := by
  rw [slot_clear]
  split <;> simp

@[simp] theorem line_slot_clear :
    ((cache.clear k).slot type s i).line = (cache.slot type s i).line := by
  rw [slot_clear]
  split <;> simp

/-- Clearing the valid bit of an entry removes the block it held. -/
theorem holds_clear :
    Holds type (cache.clear k) a w ↔ cacheEntry type.ways (type.lineOf a) w ≠ k ∧ Holds type cache a w := by
  constructor
  · rintro ⟨way, v, tag⟩
    rw [v_slot_clear] at v
    rw [tag_slot_clear] at tag
    exact ⟨v.1, way, v.2, tag⟩
  · rintro ⟨other, way, v, tag⟩
    exact ⟨way, v_slot_clear.mpr ⟨other, v⟩, tag_slot_clear.trans tag⟩

end Cache

theorem MemAccess.ways_cacheType (access : MemAccess) : access.cacheType.ways = 4 := by
  cases access <;> rfl

theorem MemAccess.lines_cacheType (access : MemAccess) : access.cacheType.lines = 64 := by
  cases access <;> rfl

section Insert

variable {l2Cache : Cache} {entry : Entry}

/-- A valid entry that is inserted into L2 takes the first invalid way or replaces the eldest one. -/
theorem insertIntoL2_accessed (room : l2Cache.Room .L2_CACHE) (hs : s < CacheType.L2_CACHE.lines)
    (valid : entry.v = true) :
    ∃ w bound after, insertIntoL2 (some entry) l2Cache s = .ok after ∧
      (Free .L2_CACHE l2Cache s w ∨ Eldest .L2_CACHE l2Cache s w) ∧
      Accessed .L2_CACHE s w (entry.tag .L2_CACHE) bound entry.line l2Cache after := by
  obtain ⟨w, bound, stored, after, inserted, place, same, aged⟩ := insertIntoL2_ok entry room hs
  have accessed := aged.accessed_put (place_lt place) (same.v.trans valid)
  rw [same.tag, same.line] at accessed
  exact ⟨w, bound, after, inserted, place, accessed⟩

/-- Way `w` of line `s` lost what it held, and every other block is where it was. -/
structure Discarded (type : CacheType) (s w : ℕ) (before after : Cache) : Prop where
  v : (after.slot type s w).v = false
  sameBlock : ∀ t, ∀ j < type.ways, ¬ (t = s ∧ j = w) →
    Entry.SameBlock type (after.slot type t j) (before.slot type t j)

/-- An invalid entry that is inserted into L2 only removes what was in its way. -/
theorem insertIntoL2_discards (room : l2Cache.Room .L2_CACHE) (hs : s < CacheType.L2_CACHE.lines)
    (invalid : entry.v = false) :
    ∃ w after, insertIntoL2 (some entry) l2Cache s = .ok after ∧
      (Free .L2_CACHE l2Cache s w ∨ Eldest .L2_CACHE l2Cache s w) ∧
      Discarded .L2_CACHE s w l2Cache after := by
  obtain ⟨w, bound, stored, after, inserted, place, same, aged⟩ := insertIntoL2_ok entry room hs
  refine ⟨w, after, inserted, place, ?_, fun t j hj other => ?_⟩
  · have valid := (aged.block w (place_lt place)).v
    rw [Cache.slot_put_self] at valid
    exact valid.trans (same.v.trans invalid)
  · have kept := aged.sameBlock t hj
    rwa [Cache.slot_put_of_ne (place_lt place) hj fun line way => other ⟨line, way⟩] at kept

/-- What L2 holds after a way was discarded. -/
theorem Discarded.holds_iff {before after : Cache} {b k : ℕ} (discarded : Discarded type s w before after) :
    Holds type after b k ↔ ¬ (type.lineOf b = s ∧ k = w) ∧ Holds type before b k := by
  by_cases written : type.lineOf b = s ∧ k = w
  · refine iff_of_false (fun holds => ?_) fun both => both.1 written
    have valid := holds.v
    rw [written.1, written.2, discarded.v] at valid
    contradiction
  · rw [and_iff_right written]
    exact holds_congr fun way => discarded.sameBlock _ _ way written

end Insert

section SetZero

variable {l1Cache l2Cache : Cache} {tag : ℕ} (wordSelect : ℕ) (word : BitVec 32) (garbage : Entry)

/-- The first half of `hit_L2` in set 0: the new entry is made from the L2 entry, and the valid bit
of an L1 entry is cleared. -/
private theorem hitL2_start (room : l1Cache.Room access.cacheType) (room2 : l2Cache.Room .L2_CACHE)
    (hw : w < CacheType.L2_CACHE.ways) (small : tag < 2 ^ access.cacheType.tagBits) :
    ∃ entry, indexFromL2ToL1 l2Cache (garbage.setTag access.cacheType tag) access.cacheType w 0 =
        .ok (.errNone, entry) ∧
      entry.v = true ∧ entry.tag access.cacheType = tag ∧
      entry.line = (l2Cache.slot .L2_CACHE 0 w).line ∧
      l1Cache.load (cacheEntry CacheType.L2_CACHE.lines 0 w) = .ok (l1Cache.entry w) ∧
      l1Cache.store (cacheEntry CacheType.L2_CACHE.lines 0 w) ((l1Cache.entry w).setV false) =
        .ok (l1Cache.clear w) := by
  have position (stride : ℕ) : cacheEntry stride 0 w = w := by simp [cacheEntry]
  have few : w < 8 := hw
  have large : w < l1Cache.size := lt_of_lt_of_le (few.trans (by cases access <;> decide)) room
  have large2 : w < l2Cache.size := lt_of_lt_of_le (few.trans (by decide)) room2
  have copied : indexFromL2ToL1 l2Cache (garbage.setTag access.cacheType tag) access.cacheType w 0 =
      .ok (.errNone, ((garbage.setTag access.cacheType tag).setLine (l2Cache.entry w).line).setV true) := by
    cases access <;> simp [indexFromL2ToL1, MemAccess.cacheType, position, Cache.load, large2]
  refine ⟨_, copied, by simp, by simp [Nat.mod_eq_of_lt small], by simp [Cache.slot, position], ?_, ?_⟩
  · rw [position]
    exact if_pos large
  · rw [position]
    exact if_pos large

/-- With a free way in L1 the L2 cache stays as it is. -/
theorem hitL2_free {i : ℕ} (room : l1Cache.Room access.cacheType) (room2 : l2Cache.Room .L2_CACHE)
    (hw : w < CacheType.L2_CACHE.ways) (small : tag < 2 ^ access.cacheType.tagBits)
    (free : Free access.cacheType (l1Cache.clear w) 0 i) :
    ∃ after, hitL2 access.cacheType l1Cache l2Cache tag w 0 0 wordSelect word (some garbage) =
      .ok ⟨.errNone, after, l2Cache, word⟩ := by
  have hs : 0 < access.cacheType.lines := CacheType.lines_pos
  have room' : (l1Cache.clear w).Room access.cacheType := room
  obtain ⟨entry, copied, _, _, _, loaded, stored⟩ := hitL2_start garbage room room2 hw small
  obtain ⟨stored', inserted, _⟩ := cacheInsert_some entry room' hs free.way
  have wide : ((l1Cache.clear w).put access.cacheType 0 i stored').Room access.cacheType := room'
  obtain ⟨after, increased, _⟩ := lruAgeIncrease_ok wide hs free.way
  have present : i ≠ hitWayMiss := (free.way.trans CacheType.ways_lt).ne
  refine ⟨after, ?_⟩
  simp only [hitL2, copied, ok_bind, ne_eq, not_true_eq_false, ↓reduceIte, loaded, stored,
    free.findPlace room' hs, present, not_false_eq_true, inserted, increased, pure_eq_ok]

/-- With a full line in L1 the eldest way is replaced, and its entry goes to L2. -/
theorem hitL2_full (room : l1Cache.Room access.cacheType) (room2 : l2Cache.Room .L2_CACHE)
    (hw : w < CacheType.L2_CACHE.ways) (small : tag < 2 ^ access.cacheType.tagBits)
    (full : Full access.cacheType (l1Cache.clear w) 0) :
    ∃ i bound after, Eldest access.cacheType (l1Cache.clear w) 0 i ∧
      Accessed access.cacheType 0 i tag bound (l2Cache.slot .L2_CACHE 0 w).line (l1Cache.clear w) after ∧
      hitL2 access.cacheType l1Cache l2Cache tag w 0 0 wordSelect word (some garbage) =
        insertIntoL2 (some ((l1Cache.clear w).slot access.cacheType 0 i)) l2Cache 0 >>= fun l2 =>
          .ok ⟨.errNone, after, l2, (l2Cache.slot .L2_CACHE 0 w).line.word wordSelect⟩ := by
  have hs : 0 < access.cacheType.lines := CacheType.lines_pos
  have room' : (l1Cache.clear w).Room access.cacheType := room
  obtain ⟨entry, copied, valid, tagged, line, loaded, stored⟩ := hitL2_start garbage room room2 hw small
  obtain ⟨i, chosen, eldest⟩ := full.applyLru room' hs
  obtain ⟨stored', after, inserted, updated, accessed⟩ := insert_accessed room' hs eldest.way valid
  rw [tagged, line] at accessed
  have leaving : (l1Cache.clear w).load (cacheEntry access.cacheType.lines 0 i) =
      .ok ((l1Cache.clear w).slot access.cacheType 0 i) := by
    rw [show cacheEntry access.cacheType.lines 0 i = cacheEntry access.cacheType.ways 0 i by
      simp [cacheEntry]]
    exact Cache.load_slot room' hs eldest.way
  refine ⟨i, _, after, eldest, accessed, ?_⟩
  simp only [hitL2, copied, ok_bind, ne_eq, not_true_eq_false, ↓reduceIte, loaded, stored,
    findPlace_full room' hs full, chosen, leaving, inserted, updated,
    Cache.load_slot (accessed.room room') hs eldest.way, accessed.line, pure_eq_ok]

end SetZero

section WriteHit

variable {memSpace : MemSpace} {paddr : PhyAddr} {l1Cache l2Cache : Cache} {word : BitVec 32}
  {allocations : Allocations} {entry other : Entry} {before after : Cache} {i bound : ℕ} {line : Line}

/-- Entries of the same block for one type have the same tag for L2. -/
theorem Entry.SameBlock.tag_L2 (same : Entry.SameBlock type entry other) :
    entry.tag .L2_CACHE = other.tag .L2_CACHE := by
  cases type with
  | L2_CACHE => exact same.tag
  | L1_DCACHE =>
    rw [Entry.tag_L2 entry .DATA, Entry.tag_L2 other .DATA]
    exact congrArg (· / 2 % 2 ^ 19) same.tag
  | L1_ICACHE =>
    rw [Entry.tag_L2 entry .INSTRUCTION, Entry.tag_L2 other .INSTRUCTION]
    exact congrArg (· / 2 % 2 ^ 19) same.tag

/-- Ageing L2 entries with any type keeps the blocks of L2. -/
theorem Aged.holds_L2 (aged : Aged type s i bound before after) (holds : Holds .L2_CACHE before a w) :
    Holds .L2_CACHE after a w := by
  have same (k : ℕ) : (after.entry k).v = (before.entry k).v ∧
      (after.entry k).tag .L2_CACHE = (before.entry k).tag .L2_CACHE := by
    by_cases inLine : ∃ j < type.ways, k = cacheEntry type.ways s j
    · obtain ⟨j, hj, rfl⟩ := inLine
      have block := aged.block j hj
      exact ⟨block.v, block.tag_L2⟩
    · rw [aged.others k fun j hj same => inLine ⟨j, hj, same⟩]
      exact ⟨rfl, rfl⟩
  constructor
  · exact holds.way
  · exact (same _).1.trans holds.v
  · exact (same _).2.trans holds.tag

/-- Writing the line of an entry keeps the blocks of a cache. -/
theorem Holds.put_setLine (holds : Holds type before a w) (hi : i < type.ways) :
    Holds type (before.put type s i ((before.slot type s i).setLine line)) a w := by
  by_cases written : type.lineOf a = s ∧ w = i
  · obtain ⟨rfl, rfl⟩ := written
    constructor
    · exact hi
    · rw [Cache.slot_put_self, Entry.v_setLine]
      exact holds.v
    · rw [Cache.slot_put_self, Entry.tag_setLine]
      exact holds.tag
  · apply (holds_congr fun hw => ?_).mpr holds
    rw [Cache.slot_put_of_ne hi hw fun lines way => written ⟨lines, way⟩]
    exact .refl

/-- After an access to its own block a way still holds it. -/
theorem Accessed.holds (accessed : Accessed type s i (type.tagOf a) bound line before after)
    (hi : i < type.ways) (holds : Holds type before a w) : Holds type after a w := by
  rw [accessed.holds_iff hi]
  split
  · rfl
  · exact holds

/-- Inserting an entry with the tag of the address keeps its block in L2, in whatever set. -/
theorem insertIntoL2_keeps (room2 : l2Cache.Room .L2_CACHE) (hs : s < CacheType.L2_CACHE.lines)
    (holds : Holds .L2_CACHE l2Cache a w) (valid : entry.v = true)
    (tag : entry.tag .L2_CACHE = CacheType.L2_CACHE.tagOf a) :
    Yields (fun _ => True) (fun cache => Holds .L2_CACHE cache a w)
      (insertIntoL2 (some entry) l2Cache s) := by
  obtain ⟨j, bound, after, ran, place, accessed⟩ := insertIntoL2_accessed room2 hs valid
  rw [tag] at accessed
  exact .of_eq ran (accessed.holds (place_lt place) holds)

/-- The branch of `cache_write` for a hit in L2 keeps the block of the address in L2, wherever the
lookup has found it: the entry that goes to L2 has the tag of the address. -/
theorem writeHitL2_keeps {hit : HitReply} (room2 : l2Cache.Room .L2_CACHE)
    (hs : hit.hitIndex < CacheType.L2_CACHE.lines) (hw : hit.hitWay < CacheType.L2_CACHE.ways)
    (holds : Holds .L2_CACHE l2Cache paddr.address w) :
    Yields (fun _ => True) (fun reply => Holds .L2_CACHE reply.l2Cache paddr.address w)
      (writeHitL2 memSpace paddr l1Cache l2Cache word hit allocations) := by
  have loaded : Yields (fun _ => True) (· = l2Cache.slot .L2_CACHE hit.hitIndex hit.hitWay)
      (l2Cache.load (cacheEntry CacheType.L2_CACHE.ways hit.hitIndex hit.hitWay)) :=
    .of_eq (Cache.load_slot room2 hs hw) rfl
  have stored (line : Line) : Yields (fun _ => True)
      (fun cache => Holds .L2_CACHE cache paddr.address w ∧ cache.Room .L2_CACHE)
      (l2Cache.store (cacheEntry CacheType.L2_CACHE.ways hit.hitIndex hit.hitWay)
        ((l2Cache.slot .L2_CACHE hit.hitIndex hit.hitWay).setLine line)) :=
    .of_eq (Cache.store_slot room2 hs hw) ⟨holds.put_setLine hw, room2.put⟩
  have updated (cache : Cache) (holds : Holds .L2_CACHE cache paddr.address w)
      (room : cache.Room .L2_CACHE) : Yields (fun _ => True)
      (fun cache => Holds .L2_CACHE cache paddr.address w ∧ cache.Room .L2_CACHE)
      (lruAgeUpdate .L2_CACHE CacheType.L2_CACHE.ways hit.hitWay hit.hitIndex cache) := by
    obtain ⟨after, ran, aged⟩ := lruAgeUpdate_ok room hs hw
    exact .of_eq ran ⟨aged.holds_iff.mpr holds, aged.room room⟩
  refine .ite (fun _ => .ok holds) fun _ => loaded.bind ?_
  rintro entry rfl
  refine (stored _).bind fun middle kept => (updated middle kept.1 kept.2).bind fun l2 kept => ?_
  cases allocations.newentry with
  | none => exact .ok kept.1
  | some newentry =>
    refine Yields.any.bind fun moved _ => Yields.any.bind fun wayL1 _ => Yields.any.bind fun memory _ => ?_
    refine .ite (fun _ => ?_) fun _ => ?_
    · exact Yields.any.bind fun _ _ => Yields.any.bind fun _ _ => .ok kept.1
    · refine Yields.any.bind fun waydel _ => ?_
      cases allocations.oldEntry with
      | none => exact .error trivial
      | some oldEntry =>
        refine Yields.any.bind fun leaving _ => Yields.any.bind fun _ _ => Yields.any.bind fun _ _ => ?_
        refine (insertIntoL2_keeps kept.2 hs kept.1 ?_ ?_).bind fun _ holds => .ok holds
        · simp
        · simp [Nat.mod_eq_of_lt (CacheType.tagOf_lt paddr)]

end WriteHit

end KabyLake
