import KabyLake.Proofs.CacheFormed

/-! # What one call of `cache_read` or `cache_write` does

The two lookups at the start decide which path a call takes, whatever the caches hold. In a system
with well-formed L1 caches and a quiet L2 cache the branches for L2 hits are never taken; there is one
lemma for each other path, and it says which access to the L1 cache the path is, or why it faults.
-/

namespace KabyLake

open Machine

section Address

variable (paddr : PhyAddr)

theorem wordSelect_toNat :
    ((phyAddrTToUint32T paddr &&& 0b1111#32) >>> 2).toNat = paddr.address % 16 / 4 := by
  rw [BitVec.toNat_ushiftRight, BitVec.toNat_and, Nat.shiftRight_eq_div_pow]
  exact congrArg (· / 4) (Nat.and_two_pow_sub_one_eq_mod _ 4)

theorem byteSelect_toNat : (phyAddrTToUint32T paddr &&& 0b11#32).toNat = paddr.address % 4 := by
  rw [BitVec.toNat_and]
  exact Nat.and_two_pow_sub_one_eq_mod _ 2

theorem line1_eq :
    ((phyAddrTToUint32T paddr &&& 0b1111110000#32) >>> 4).toNat = paddr.address / 16 % 64 := by
  rw [BitVec.toNat_ushiftRight, BitVec.toNat_and, Nat.shiftRight_and_distrib, Nat.shiftRight_eq_div_pow]
  exact Nat.and_two_pow_sub_one_eq_mod _ 6

theorem line1_toNat :
    ((phyAddrTToUint32T paddr &&& 0b1111110000#32) >>> 4).toNat &&& 0b111111 =
      paddr.address / 16 % 64 := by
  rw [line1_eq, show (0b111111 : ℕ) = 2 ^ 6 - 1 from rfl, Nat.and_two_pow_sub_one_eq_mod]
  exact Nat.mod_mod _ _

theorem newindex_toNat :
    ((phyAddrTToUint32T paddr >>> 4) &&& 0b111111#32).toNat = paddr.address / 16 % 64 := by
  rw [BitVec.toNat_and, BitVec.toNat_ushiftRight, Nat.shiftRight_eq_div_pow]
  exact Nat.and_two_pow_sub_one_eq_mod _ 6

theorem l2index_toNat :
    ((phyAddrTToUint32T paddr >>> 4) &&& 0b111111111#32).toNat =
      CacheType.L2_CACHE.lineOf paddr.address := by
  rw [BitVec.toNat_and, BitVec.toNat_ushiftRight, Nat.shiftRight_eq_div_pow]
  exact Nat.and_two_pow_sub_one_eq_mod _ 9

theorem l2index_lt :
    ((phyAddrTToUint32T paddr >>> 4) &&& 0b111111111#32).toNat < CacheType.L2_CACHE.lines := by
  rw [l2index_toNat]
  exact CacheType.lineOf_lt _ _

end Address

theorem MemAccess.lineOf_cacheType (access : MemAccess) (a : ℕ) :
    access.cacheType.lineOf a = a / 16 % 64 := by
  cases access <;> rfl

/-- The word of its line that an address selects. -/
abbrev wordOf (a : ℕ) : ℕ := a % 16 / 4

variable (memSpace : MemSpace) {paddr : PhyAddr} {access : MemAccess} {l1Cache l2Cache : Cache}
  (word : BitVec 32) {allocations : Allocations} {w : ℕ}

/-- A read that hits L1. -/
theorem cacheRead_first (l2Cache : Cache) (room : l1Cache.Room access.cacheType)
    (pLine : allocations.pLine = true) (found : Found access.cacheType l1Cache paddr.address w) :
    ∃ after, cacheRead memSpace paddr access l1Cache l2Cache word allocations = .ok ⟨.errNone, after,
        l2Cache, (l1Cache.slot access.cacheType (access.cacheType.lineOf paddr.address) w).line.word
          (wordOf paddr.address)⟩ ∧
      Accessed access.cacheType (access.cacheType.lineOf paddr.address) w
        (access.cacheType.tagOf paddr.address)
        ((l1Cache.slot access.cacheType (access.cacheType.lineOf paddr.address) w).age access.cacheType)
        (l1Cache.slot access.cacheType (access.cacheType.lineOf paddr.address) w).line l1Cache after := by
  obtain ⟨after, hit, aged⟩ := found.cacheHit room Line.zero
  have accessed := aged.accessed found.way found.v
  rw [found.tag] at accessed
  have present : w ≠ hitWayMiss := (found.way.trans CacheType.ways_lt).ne
  refine ⟨after, ?_, accessed⟩
  simp only [cacheRead, pLine, Bool.not_true, Bool.false_eq_true, ↓reduceIte, hit, ok_bind, ne_eq,
    not_true_eq_false, present, not_false_eq_true, wordSelect_toNat, pure_eq_ok,
    Cache.load_slot (accessed.room room) (CacheType.lineOf_lt _ _) found.way, accessed.line]

/-- A read that misses L1 and hits L2. -/
theorem cacheRead_second (room : l1Cache.Room access.cacheType) (room2 : l2Cache.Room .L2_CACHE)
    (pLine : allocations.pLine = true)
    (unfound : ¬ ∃ w, Found access.cacheType l1Cache paddr.address w)
    (found : Found .L2_CACHE l2Cache paddr.address w) :
    ∃ middle, cacheRead memSpace paddr access l1Cache l2Cache word allocations =
        hitL2 access.cacheType l1Cache middle (access.cacheType.tagOf paddr.address) w
          (CacheType.L2_CACHE.lineOf paddr.address) (access.cacheType.lineOf paddr.address)
          (wordOf paddr.address) word allocations.newentry ∧
      Aged .L2_CACHE (CacheType.L2_CACHE.lineOf paddr.address) w
        ((l2Cache.slot .L2_CACHE (CacheType.L2_CACHE.lineOf paddr.address) w).age .L2_CACHE)
        l2Cache middle := by
  obtain ⟨middle, hit, aged⟩ := found.cacheHit room2 Line.zero
  have present : w ≠ hitWayMiss := (found.way.trans CacheType.ways_lt).ne
  have tag : access.cacheType.tagOf paddr.address =
      paddr.address >>> CacheType.L1_ICACHE.tagRemainingBits := by cases access <;> rfl
  refine ⟨middle, ?_, aged⟩
  simp only [cacheRead, pLine, Bool.not_true, Bool.false_eq_true, ↓reduceIte,
    cacheHit_unfound room _ unfound, hit, ok_bind, ne_eq, not_true_eq_false, present,
    not_false_eq_true, wordSelect_toNat, line1_eq, MemAccess.lineOf_cacheType, tag]

/-- A read that misses both caches. -/
theorem cacheRead_unfound (room : l1Cache.Room access.cacheType) (room2 : l2Cache.Room .L2_CACHE)
    (pLine : allocations.pLine = true)
    (unfound : ¬ ∃ w, Found access.cacheType l1Cache paddr.address w)
    (unfound2 : ¬ ∃ w, Found .L2_CACHE l2Cache paddr.address w) :
    cacheRead memSpace paddr access l1Cache l2Cache word allocations =
      notHitL1OrL2 access.cacheType memSpace paddr l1Cache l2Cache
        (access.cacheType.lineOf paddr.address) (wordOf paddr.address) word allocations.newentry := by
  simp only [cacheRead, pLine, Bool.not_true, Bool.false_eq_true, ↓reduceIte,
    cacheHit_unfound room _ unfound, cacheHit_unfound room2 _ unfound2, ok_bind, ne_eq,
    not_true_eq_false, wordSelect_toNat, line1_toNat, MemAccess.lineOf_cacheType]

/-- A write that hits L1. -/
theorem cacheWrite_first (l2Cache : Cache) (room : l1Cache.Room .L1_DCACHE) (pLine : allocations.pLine = true)
    (pLine2 : allocations.pLine2 = true) (found : Found .L1_DCACHE l1Cache paddr.address w) :
    ∃ after, cacheWrite memSpace paddr l1Cache l2Cache word allocations =
        writeHitL1 memSpace paddr after l2Cache word
          ⟨.errNone, w, CacheType.L1_DCACHE.lineOf paddr.address,
            (l1Cache.slot .L1_DCACHE (CacheType.L1_DCACHE.lineOf paddr.address) w).line⟩
          allocations.newLine ∧
      Aged .L1_DCACHE (CacheType.L1_DCACHE.lineOf paddr.address) w
        ((l1Cache.slot .L1_DCACHE (CacheType.L1_DCACHE.lineOf paddr.address) w).age .L1_DCACHE)
        l1Cache after := by
  obtain ⟨after, hit, aged⟩ := found.cacheHit room Line.zero
  have present : w ≠ hitWayMiss := (found.way.trans CacheType.ways_lt).ne
  refine ⟨after, ?_, aged⟩
  simp only [cacheWrite, pLine, pLine2, Bool.not_true, Bool.false_eq_true, ↓reduceIte, hit, ok_bind,
    ne_eq, present, not_false_eq_true]

/-- A write that misses L1 and hits L2, which is looked up as an array of L1 entries. -/
theorem cacheWrite_second (room : l1Cache.Room .L1_DCACHE) (room2 : l2Cache.Room .L1_DCACHE)
    (pLine : allocations.pLine = true) (pLine2 : allocations.pLine2 = true)
    (unfound : ¬ ∃ w, Found .L1_DCACHE l1Cache paddr.address w)
    (found : Found .L1_DCACHE l2Cache paddr.address w) :
    ∃ middle, cacheWrite memSpace paddr l1Cache l2Cache word allocations =
        writeHitL2 memSpace paddr l1Cache middle word
          ⟨.errNone, w, CacheType.L1_DCACHE.lineOf paddr.address,
            (l2Cache.slot .L1_DCACHE (CacheType.L1_DCACHE.lineOf paddr.address) w).line⟩ allocations ∧
      Aged .L1_DCACHE (CacheType.L1_DCACHE.lineOf paddr.address) w
        ((l2Cache.slot .L1_DCACHE (CacheType.L1_DCACHE.lineOf paddr.address) w).age .L1_DCACHE)
        l2Cache middle := by
  obtain ⟨middle, hit, aged⟩ := found.cacheHit room2 Line.zero
  have present : w ≠ hitWayMiss := (found.way.trans CacheType.ways_lt).ne
  refine ⟨middle, ?_, aged⟩
  simp only [cacheWrite, pLine, pLine2, Bool.not_true, Bool.false_eq_true, ↓reduceIte,
    cacheHit_unfound room _ unfound, hit, ok_bind, ne_eq, not_true_eq_false, present,
    not_false_eq_true]

/-- A write that misses both caches. -/
theorem cacheWrite_unfound (room : l1Cache.Room .L1_DCACHE) (room2 : l2Cache.Room .L1_DCACHE)
    (pLine : allocations.pLine = true) (pLine2 : allocations.pLine2 = true)
    (unfound : ¬ ∃ w, Found .L1_DCACHE l1Cache paddr.address w)
    (unfound2 : ¬ ∃ w, Found .L1_DCACHE l2Cache paddr.address w) :
    cacheWrite memSpace paddr l1Cache l2Cache word allocations =
      writeMiss memSpace paddr l1Cache l2Cache word allocations := by
  simp only [cacheWrite, pLine, pLine2, Bool.not_true, Bool.false_eq_true, ↓reduceIte,
    cacheHit_unfound room _ unfound, cacheHit_unfound room2 _ unfound2, ok_bind, ne_eq,
    not_true_eq_false]

/-- A read that misses L1 goes past the quiet L2 cache to the memory. -/
theorem cacheRead_absent (formed : Formed access.cacheType l1Cache) (quiet : Quiet l2Cache)
    (absent : ∀ w, ¬ Holds access.cacheType l1Cache paddr.address w) (pLine : allocations.pLine = true) :
    cacheRead memSpace paddr access l1Cache l2Cache word allocations =
      notHitL1OrL2 access.cacheType memSpace paddr l1Cache l2Cache
        (access.cacheType.lineOf paddr.address) (wordOf paddr.address) word allocations.newentry :=
  cacheRead_unfound memSpace word formed.room quiet.room pLine (not_found absent) quiet.not_found

/-- Inserting a valid entry in the chosen way and making it the youngest. -/
theorem insert_accessed {type : CacheType} {s : ℕ} {cache : Cache} {entry : Entry}
    (room : cache.Room type) (hs : s < type.lines) (hw : w < type.ways) (valid : entry.v = true) :
    ∃ stored after, cacheInsert s w (some entry) cache type = .ok (.errNone, stored) ∧
      lruAgeUpdate type type.ways w s stored = .ok after ∧
      Accessed type s w (entry.tag type) (entry.age type) entry.line cache after := by
  obtain ⟨stored, inserted, same, age⟩ := cacheInsert_some entry room hs hw
  have wide : (cache.put type s w stored).Room type := room
  obtain ⟨after, updated, aged⟩ := lruAgeUpdate_ok wide hs hw
  rw [Cache.slot_put_self, age] at aged
  have accessed := aged.accessed_put hw (same.v.trans valid)
  rw [same.tag, same.line] at accessed
  exact ⟨_, after, inserted, updated, accessed⟩

/-- A read miss at an aligned address fills the first invalid way or replaces the eldest one. -/
theorem notHitL1OrL2_fill {type : CacheType} (l2Cache : Cache) (garbage : Entry)
    (room : l1Cache.Room type) (aligned : paddr.address % 16 = 0)
    (inside : paddr.address + 16 ≤ memSpace.size) :
    ∃ w after, notHitL1OrL2 type memSpace paddr l1Cache l2Cache (type.lineOf paddr.address)
        (wordOf paddr.address) word (some garbage) = .ok ⟨.errNone, after, l2Cache,
          (memSpace.line paddr.address).word (wordOf paddr.address)⟩ ∧
      (Free type l1Cache (type.lineOf paddr.address) w ∨
        Eldest type l1Cache (type.lineOf paddr.address) w) ∧
      Accessed type (type.lineOf paddr.address) w (type.tagOf paddr.address) 0
        (memSpace.line paddr.address) l1Cache after := by
  obtain ⟨entry, made, valid, young, tag, line⟩ :=
    cacheEntryInit_aligned type garbage aligned inside
  have hs := CacheType.lineOf_lt type paddr.address
  rcases full_or_free type l1Cache (type.lineOf paddr.address) with full | ⟨w, free⟩
  · obtain ⟨w, chosen, eldest⟩ := full.applyLru room hs
    obtain ⟨stored, after, inserted, updated, accessed⟩ := insert_accessed room hs eldest.way valid
    rw [tag, young, line] at accessed
    refine ⟨w, after, ?_, .inr eldest, accessed⟩
    simp only [notHitL1OrL2, made, ok_bind, findPlace_full room hs full, ↓reduceIte, chosen, inserted,
      updated, Cache.load_slot (accessed.room room) hs eldest.way, accessed.line, pure_eq_ok]
  · obtain ⟨stored, after, inserted, updated, accessed⟩ := insert_accessed room hs free.way valid
    rw [tag, young, line] at accessed
    have present : w ≠ hitWayMiss := (free.way.trans CacheType.ways_lt).ne
    refine ⟨w, after, ?_, .inl free, accessed⟩
    simp only [notHitL1OrL2, made, ok_bind, free.findPlace room hs, present, ↓reduceIte, inserted,
      updated, Cache.load_slot (accessed.room room) hs free.way, accessed.line, pure_eq_ok]

/-- The line that a write of `word` makes from `line`. -/
abbrev patched (line : Line) (paddr : PhyAddr) (word : BitVec 32) : Line :=
  line.setWord (wordOf paddr.address) word

theorem cacheWrite_refused (l2Cache : Cache) (formed : Formed .L1_DCACHE l1Cache)
    (holds : Holds .L1_DCACHE l1Cache paddr.address w) (pLine : allocations.pLine = true)
    (pLine2 : allocations.pLine2 = true) (newLine : allocations.newLine = false) :
    ∃ bound after, cacheWrite memSpace paddr l1Cache l2Cache word allocations =
        .ok ⟨.errBadParameter, memSpace, after, l2Cache⟩ ∧
      Aged .L1_DCACHE (CacheType.L1_DCACHE.lineOf paddr.address) w bound l1Cache after := by
  obtain ⟨middle, found, aged⟩ := cacheWrite_first memSpace word l2Cache formed.room pLine
    pLine2 (holds.found formed)
  exact ⟨_, middle, by simp [found, writeHitL1, newLine], aged⟩

/-- A write hit patches the line in the cache and copies all of it to the address. -/
theorem cacheWrite_hit (l2Cache : Cache) (formed : Formed .L1_DCACHE l1Cache)
    (holds : Holds .L1_DCACHE l1Cache paddr.address w) (pLine : allocations.pLine = true)
    (pLine2 : allocations.pLine2 = true) (newLine : allocations.newLine = true)
    {content : Line} (patch : content =
      patched (l1Cache.slot .L1_DCACHE (CacheType.L1_DCACHE.lineOf paddr.address) w).line paddr word) :
    ∃ after, cacheWrite memSpace paddr l1Cache l2Cache word allocations = (do
        let memSpace ← memSpace.writeLine paddr.address content
        return ⟨.errNone, memSpace, after, l2Cache⟩) ∧
      Accessed .L1_DCACHE (CacheType.L1_DCACHE.lineOf paddr.address) w
        (CacheType.L1_DCACHE.tagOf paddr.address)
        ((l1Cache.slot .L1_DCACHE (CacheType.L1_DCACHE.lineOf paddr.address) w).age .L1_DCACHE)
        content l1Cache after := by
  obtain ⟨middle, found, aged⟩ := cacheWrite_first memSpace word l2Cache formed.room pLine
    pLine2 (holds.found formed)
  have hs := CacheType.lineOf_lt .L1_DCACHE paddr.address
  have accessed := aged.accessed holds.way holds.v
  have room := accessed.room formed.room
  have wide : (middle.put .L1_DCACHE (CacheType.L1_DCACHE.lineOf paddr.address) w
      ((middle.slot .L1_DCACHE (CacheType.L1_DCACHE.lineOf paddr.address) w).setLine content)).Room
        .L1_DCACHE := room.put
  obtain ⟨after, updated, again⟩ := lruAgeUpdate_ok wide hs holds.way
  rw [Cache.slot_put_self, Entry.age_setLine] at again
  refine ⟨after, ?_, holds.tag ▸ accessed.overwrite holds.way again⟩
  simp only [found, writeHitL1, newLine, Bool.not_true, Bool.false_eq_true, ↓reduceIte,
    Cache.load_slot room hs holds.way, Cache.store_slot room hs holds.way, ok_bind, wordSelect_toNat,
    ← patch, updated]

/-- A write that misses L1 goes past the quiet L2 cache to the memory. -/
theorem cacheWrite_absent (formed : Formed .L1_DCACHE l1Cache) (quiet : Quiet l2Cache)
    (absent : ∀ w, ¬ Holds .L1_DCACHE l1Cache paddr.address w) (pLine : allocations.pLine = true)
    (pLine2 : allocations.pLine2 = true) :
    cacheWrite memSpace paddr l1Cache l2Cache word allocations =
      writeMiss memSpace paddr l1Cache l2Cache word allocations :=
  cacheWrite_unfound memSpace word formed.room (le_trans (by decide) quiet.room) pLine pLine2
    (not_found absent) quiet.not_found

/-- What a write miss does to its way: without memory for the new entry it only ages the line. -/
def Settled (newd : Option Entry) (type : CacheType) (s w tag bound : ℕ) (line : Line)
    (before after : Cache) : Prop :=
  match newd with
  | some _ => Accessed type s w tag bound line before after
  | none => ∃ bound, Aged type s w bound before after

/-- The new entry of a write miss is inserted if there is memory for it. -/
private theorem insert_newd {type : CacheType} {cache : Cache} (newd : Option Entry)
    (room : cache.Room type) (hw : w < type.ways) (aligned : paddr.address % 16 = 0)
    (inside : paddr.address + 16 ≤ memSpace.size) :
    ∃ code entry code' stored, cacheEntryInit memSpace paddr newd type = .ok (code, entry) ∧
      cacheInsert (type.lineOf paddr.address) w entry cache type = .ok (code', stored) ∧
      stored.Room type ∧
      (newd ≠ none → (stored.slot type (type.lineOf paddr.address) w).age type = 0) ∧
      ∀ bound after, Aged type (type.lineOf paddr.address) w bound stored after →
        Settled newd type (type.lineOf paddr.address) w (type.tagOf paddr.address) bound
          (memSpace.line paddr.address) cache after := by
  have hs := CacheType.lineOf_lt type paddr.address
  cases newd with
  | none =>
    exact ⟨_, none, _, cache, rfl, rfl, room, by simp, fun bound after aged => ⟨bound, aged⟩⟩
  | some garbage =>
    obtain ⟨entry, made, valid, young, tag, line⟩ :=
      cacheEntryInit_aligned type garbage aligned inside
    obtain ⟨stored, inserted, same, age⟩ := cacheInsert_some entry room hs hw
    refine ⟨_, some entry, _, _, made, inserted, room.put, fun _ => ?_, fun bound after aged => ?_⟩
    · rw [Cache.slot_put_self, age, young]
    · have accessed := aged.accessed_put hw (same.v.trans valid)
      rwa [same.tag, same.line, tag, line] at accessed

variable {content : Line}

/-- A write miss on a line with a free way fills it. -/
theorem writeMiss_free (l2Cache : Cache) (room : l1Cache.Room .L1_DCACHE) (aligned : paddr.address % 16 = 0)
    (inside : paddr.address + 16 ≤ memSpace.size) (memLine : allocations.memLine = true)
    (free : Free .L1_DCACHE l1Cache (CacheType.L1_DCACHE.lineOf paddr.address) w)
    (patch : content = patched (memSpace.line paddr.address) paddr word) :
    ∃ after, writeMiss memSpace paddr l1Cache l2Cache word allocations =
        .ok ⟨.errNone, memSpace.putLine paddr.address content, after, l2Cache⟩ ∧
      Settled allocations.newd .L1_DCACHE (CacheType.L1_DCACHE.lineOf paddr.address) w
        (CacheType.L1_DCACHE.tagOf paddr.address) (CacheType.L1_DCACHE.ways - 1) content
        l1Cache after := by
  have hs := CacheType.lineOf_lt .L1_DCACHE paddr.address
  obtain ⟨_, entry, _, stored, made, inserted, wide, _, settle⟩ := insert_newd
    (memSpace.putLine paddr.address content) allocations.newd room free.way aligned inside
  obtain ⟨after, increased, aged⟩ := lruAgeIncrease_ok wide hs free.way
  have settled := settle _ _ aged
  rw [MemSpace.line_putLine_self] at settled
  have present : w ≠ hitWayMiss := (free.way.trans CacheType.ways_lt).ne
  refine ⟨after, ?_, settled⟩
  have place := free.findPlace room hs
  simp only [writeMiss, memLine, Bool.not_true, Bool.false_eq_true, ↓reduceIte, wordSelect_toNat,
    MemSpace.readLine_ok inside, MemSpace.writeLine_ok inside, ok_bind, ← patch, made, newindex_toNat,
    show paddr.address / 16 % 64 = CacheType.L1_DCACHE.lineOf paddr.address from rfl, place, ne_eq,
    present, not_false_eq_true, inserted, increased, pure_eq_ok]

/-- A write miss on a full line replaces the eldest way, and an invalid entry goes to L2. -/
theorem writeMiss_evicts (l2Cache : Cache) (room : l1Cache.Room .L1_DCACHE)
    (aligned : paddr.address % 16 = 0) (inside : paddr.address + 16 ≤ memSpace.size)
    (memLine : allocations.memLine = true) (oldEntry : allocations.oldEntry ≠ none)
    (full : Full .L1_DCACHE l1Cache (CacheType.L1_DCACHE.lineOf paddr.address))
    (patch : content = patched (memSpace.line paddr.address) paddr word) :
    ∃ w after old, Eldest .L1_DCACHE l1Cache (CacheType.L1_DCACHE.lineOf paddr.address) w ∧
      Entry.v old = false ∧
      writeMiss memSpace paddr l1Cache l2Cache word allocations =
        (insertIntoL2 (some old) l2Cache (CacheType.L2_CACHE.lineOf paddr.address) >>= fun l2 =>
          .ok ⟨.errNone, memSpace.putLine paddr.address content, after, l2⟩) ∧
      Settled allocations.newd .L1_DCACHE (CacheType.L1_DCACHE.lineOf paddr.address) w
        (CacheType.L1_DCACHE.tagOf paddr.address) 0 content l1Cache after := by
  have hs := CacheType.lineOf_lt .L1_DCACHE paddr.address
  obtain ⟨w, chosen, eldest⟩ := full.applyLru room hs
  obtain ⟨_, entry, _, stored, made, inserted, wide, young, settle⟩ := insert_newd
    (memSpace.putLine paddr.address content) allocations.newd room eldest.way aligned inside
  obtain ⟨after, updated, aged⟩ := lruAgeUpdate_ok wide hs eldest.way
  have settled : Settled allocations.newd .L1_DCACHE (CacheType.L1_DCACHE.lineOf paddr.address) w
      (CacheType.L1_DCACHE.tagOf paddr.address) 0 content l1Cache after := by
    have settled := settle _ _ aged
    rw [MemSpace.line_putLine_self] at settled
    cases newd : allocations.newd with
    | none => rwa [newd] at settled
    | some garbage => rwa [young (by rw [newd]; simp), newd] at settled
  obtain ⟨old, available⟩ := Option.ne_none_iff_exists'.mp oldEntry
  refine ⟨w, after, (((old.setLine (l1Cache.slot .L1_DCACHE
    (CacheType.L1_DCACHE.lineOf paddr.address) w).line).setAge .L2_CACHE 0).setV false).setTag .L2_CACHE
      ((l1Cache.slot .L1_DCACHE (CacheType.L1_DCACHE.lineOf paddr.address) w).tag .L1_DCACHE >>> 3),
    eldest, by simp, ?_, settled⟩
  have place := findPlace_full room hs full
  simp only [writeMiss, memLine, Bool.not_true, Bool.false_eq_true, ↓reduceIte, wordSelect_toNat,
    MemSpace.readLine_ok inside, MemSpace.writeLine_ok inside, ok_bind, ← patch, made, newindex_toNat,
    show paddr.address / 16 % 64 = CacheType.L1_DCACHE.lineOf paddr.address from rfl, place, ne_eq,
    not_true_eq_false, chosen, available, Cache.load_slot room hs eldest.way, inserted, updated,
    l2index_toNat, pure_eq_ok]

/-- A quiet L2 cache stays quiet when a write miss replaces a way of L1. -/
theorem writeMiss_full (room : l1Cache.Room .L1_DCACHE) (quiet : Quiet l2Cache)
    (aligned : paddr.address % 16 = 0) (inside : paddr.address + 16 ≤ memSpace.size)
    (memLine : allocations.memLine = true) (oldEntry : allocations.oldEntry ≠ none)
    (full : Full .L1_DCACHE l1Cache (CacheType.L1_DCACHE.lineOf paddr.address))
    (patch : content = patched (memSpace.line paddr.address) paddr word) :
    ∃ w after l2, Eldest .L1_DCACHE l1Cache (CacheType.L1_DCACHE.lineOf paddr.address) w ∧
      writeMiss memSpace paddr l1Cache l2Cache word allocations =
        .ok ⟨.errNone, memSpace.putLine paddr.address content, after, l2⟩ ∧ Quiet l2 ∧
      Settled allocations.newd .L1_DCACHE (CacheType.L1_DCACHE.lineOf paddr.address) w
        (CacheType.L1_DCACHE.tagOf paddr.address) 0 content l1Cache after := by
  obtain ⟨w, after, old, eldest, invalid, ran, settled⟩ :=
    writeMiss_evicts memSpace word l2Cache room aligned inside memLine oldEntry full patch
  obtain ⟨l2, placed, still⟩ := quiet.insertIntoL2 (CacheType.lineOf_lt _ _) old invalid
  refine ⟨w, after, l2, eldest, ?_, still, settled⟩
  rw [ran, placed, ok_bind]

/-- Without the memory it needs a write miss does not return. -/
theorem writeMiss_faults (l2Cache : Cache) (room : l1Cache.Room .L1_DCACHE) (aligned : paddr.address % 16 = 0)
    (lacks : allocations.memLine = false ∨ ¬ paddr.address + 16 ≤ memSpace.size ∨
      allocations.oldEntry = none ∧ Full .L1_DCACHE l1Cache (CacheType.L1_DCACHE.lineOf paddr.address)) :
    ∃ fault, writeMiss memSpace paddr l1Cache l2Cache word allocations = .error fault := by
  have hs := CacheType.lineOf_lt .L1_DCACHE paddr.address
  cases memLine : allocations.memLine with
  | false => exact ⟨_, by simp only [writeMiss, memLine, Bool.not_false, ↓reduceIte]; rfl⟩
  | true =>
    by_cases inside : paddr.address + 16 ≤ memSpace.size
    · obtain ⟨oldEntry, full⟩ : allocations.oldEntry = none ∧
          Full .L1_DCACHE l1Cache (CacheType.L1_DCACHE.lineOf paddr.address) := by
        rcases lacks with missing | outside | both
        · rw [memLine] at missing
          contradiction
        · exact (outside inside).elim
        · exact both
      obtain ⟨w, chosen, eldest⟩ := full.applyLru room hs
      obtain ⟨_, entry, _, stored, made, _⟩ := insert_newd
        (memSpace.putLine paddr.address (patched (memSpace.line paddr.address) paddr word))
        allocations.newd room eldest.way aligned inside
      refine ⟨.nullPointer, ?_⟩
      have place := findPlace_full room hs full
      simp only [writeMiss, memLine, Bool.not_true, Bool.false_eq_true, ↓reduceIte, wordSelect_toNat,
        MemSpace.readLine_ok inside, MemSpace.writeLine_ok inside, ok_bind, made, newindex_toNat,
        show paddr.address / 16 % 64 = CacheType.L1_DCACHE.lineOf paddr.address from rfl, place, ne_eq,
        not_true_eq_false, chosen, oldEntry]
    · refine ⟨.memoryBounds, ?_⟩
      simp only [writeMiss, memLine, Bool.not_true, Bool.false_eq_true, ↓reduceIte, MemSpace.readLine,
        inside, error_bind]

end KabyLake
