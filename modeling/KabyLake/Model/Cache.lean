import Mathlib.Logic.Function.Basic
import KabyLake.Machine.Loop
import KabyLake.Model.Addr
import KabyLake.Model.Memory
import KabyLake.ToMathlib.BitField

/-! # Cache entries, arrays and the functions on one cache

The entry types of `cache.h`, the macros of `cache.h` and `lru.h`, and the functions of
`cache_mng.c` that work on one cache. An entry is kept as the header word of its bit-fields and its
line, since the code reads L2 entries through the L1 type and copies L1 entries as L2 entries; the
layout is that of GCC on x86-64, where `v`, `age` and `tag` fill one word from bit 0 upwards in
every type. A cache is an allocated array of entries, and an index outside the array faults.
-/

namespace KabyLake

/-- `cache_t`. -/
inductive CacheType where
  | L1_ICACHE | L1_DCACHE | L2_CACHE
deriving DecidableEq, Repr

namespace CacheType

/-- The declared width of the `age` bit-field. -/
def ageBits : CacheType → ℕ
  | L1_ICACHE => 2
  | L1_DCACHE => 2
  | L2_CACHE => 3

/-- The declared width of the `tag` bit-field. -/
def tagBits : CacheType → ℕ
  | L1_ICACHE => 22
  | L1_DCACHE => 22
  | L2_CACHE => 19

/-- `L1_ICACHE_WAYS`, `L1_DCACHE_WAYS`, `L2_CACHE_WAYS`. -/
def ways : CacheType → ℕ
  | L1_ICACHE => 4
  | L1_DCACHE => 4
  | L2_CACHE => 8

/-- `L1_ICACHE_LINES`, `L1_DCACHE_LINES`, `L2_CACHE_LINES`. -/
def lines : CacheType → ℕ
  | L1_ICACHE => 64
  | L1_DCACHE => 64
  | L2_CACHE => 512

/-- `L1_ICACHE_TAG_REMAINING_BITS`, `L1_DCACHE_TAG_REMAINING_BITS`, `L2_CACHE_TAG_REMAINING_BITS`. -/
def tagRemainingBits : CacheType → ℕ
  | L1_ICACHE => 10
  | L1_DCACHE => 10
  | L2_CACHE => 13

end CacheType

/-- `HIT_WAY_MISS`. -/
def hitWayMiss : ℕ := 255

/-- `HIT_INDEX_MISS`. -/
def hitIndexMiss : ℕ := 65535

/-- The bytes of a cache entry of any of the three types. -/
structure Entry where
  header : BitVec 32
  line : Line
deriving DecidableEq, Repr

namespace Entry

/-- `entry->v`. -/
def v (entry : Entry) : Bool := entry.header.getLsbD 0

/-- `entry->age`. -/
def age (type : CacheType) (entry : Entry) : ℕ := (entry.header.extractLsb' 1 type.ageBits).toNat

/-- `entry->tag`. -/
def tag (type : CacheType) (entry : Entry) : ℕ :=
  (entry.header.extractLsb' (1 + type.ageBits) type.tagBits).toNat

/-- `entry->v = v`. -/
def setV (v : Bool) (entry : Entry) : Entry :=
  { entry with header := entry.header.setField 0 (BitVec.ofBool v) }

/-- `entry->age = age`. -/
def setAge (type : CacheType) (age : ℕ) (entry : Entry) : Entry :=
  { entry with header := entry.header.setField 1 (BitVec.ofNat type.ageBits age) }

/-- `entry->tag = tag`. -/
def setTag (type : CacheType) (tag : ℕ) (entry : Entry) : Entry :=
  { entry with header := entry.header.setField (1 + type.ageBits) (BitVec.ofNat type.tagBits tag) }

/-- `memcpy(entry->line, line, 4 * sizeof(word_t))`. -/
def setLine (line : Line) (entry : Entry) : Entry := { entry with line }

end Entry

/-- The array behind a pointer `cache`. -/
structure Cache where
  size : ℕ
  entry : ℕ → Entry

namespace Cache

/-- Read an entry of the array. -/
def load (cache : Cache) (k : ℕ) : Exec Entry :=
  if k < cache.size then .ok (cache.entry k) else .error .arrayBounds

/-- Write an entry of the array. -/
def store (cache : Cache) (k : ℕ) (entry : Entry) : Exec Cache :=
  if k < cache.size then .ok { cache with entry := Function.update cache.entry k entry }
  else .error .arrayBounds

end Cache

/-- `cache_entry`: the number of the entry that the macro points to. -/
def cacheEntry (ways lineIndex way : ℕ) : ℕ := lineIndex * ways + way

/-- The loop body that `LRU_age_increase` and `LRU_age_update` share. -/
def lruAgeStep (bound : ℕ) (type : CacheType) (ways lineIndex i : ℕ) (cache : Cache) :
    Exec Cache := do
  let entry ← cache.load (cacheEntry ways lineIndex i)
  if entry.age type < bound then
    cache.store (cacheEntry ways lineIndex i) (entry.setAge type (entry.age type + 1))
  else return cache

/-- The loop of `LRU_age_increase` and `LRU_age_update`, and the assignment after it. -/
def lruAge (bound : ℕ) (type : CacheType) (ways wayIndex lineIndex : ℕ) (cache : Cache) :
    Exec Cache := do
  let cache ← Machine.forLoop (lruAgeStep bound type ways lineIndex) ways cache
  let entry ← cache.load (cacheEntry ways lineIndex wayIndex)
  cache.store (cacheEntry ways lineIndex wayIndex) (entry.setAge type 0)

/-- `LRU_age_increase`. -/
def lruAgeIncrease (type : CacheType) (ways wayIndex lineIndex : ℕ) (cache : Cache) : Exec Cache :=
  lruAge (ways - 1) type ways wayIndex lineIndex cache

/-- `LRU_age_update`. -/
def lruAgeUpdate (type : CacheType) (ways wayIndex lineIndex : ℕ) (cache : Cache) : Exec Cache := do
  let max ← cache.load (cacheEntry ways lineIndex wayIndex)
  lruAge (max.age type) type ways wayIndex lineIndex cache

/-- `cache_entry_init`: the alignment check comes before the first assignment, and a rejected
entry keeps what `malloc` left in it. -/
def cacheEntryInit (memSpace : MemSpace) (paddr : PhyAddr) (entry : Option Entry) (type : CacheType) :
    Exec (ErrorCode × Option Entry) := do
  match entry with
  | none => return (.errBadParameter, none)
  | some entry =>
    if (phyAddrTToUint32T paddr).toNat % 16 ≠ 0 then return (.errBadParameter, some entry)
    else
      let tag := (phyAddrTToUint32T paddr).toNat >>> type.tagRemainingBits
      let line ← memSpace.readLine (phyAddrTToUint32T paddr).toNat
      return (.errNone, some ((((entry.setV true).setAge type 0).setTag type tag).setLine line))

/-- The four zero words of a fresh `calloc` block. -/
def Line.zero : Line := Vector.replicate 4 0#32

/-- The loop body of the macro `flush`. -/
def flushStep (i : ℕ) (cache : Cache) : Exec Cache := do
  let entry ← cache.load i
  cache.store i (entry.setV false)

/-- `cache_flush`: the loop has no braces, so that only `v` is assigned in it. The assignments to
`tag` and `age` run once after it, with the counter at its bound, and one line is cleared. -/
def cacheFlush (cache : Cache) (type : CacheType) : Exec (ErrorCode × Cache) := do
  let i := type.ways * type.lines
  let cache ← Machine.forLoop flushStep i cache
  let entry ← cache.load i
  let cache ← cache.store i (entry.setTag type 0)
  let entry ← cache.load i
  let cache ← cache.store i (entry.setAge type 0)
  let entry ← cache.load 0
  let cache ← cache.store 0 (entry.setLine Line.zero)
  return (.errNone, cache)

/-- `cache_insert`: line, `v`, `age` and `tag` are assigned one by one; an index out of range is
reported as success. -/
def cacheInsert (cacheLineIndex cacheWay : ℕ) (cacheLineIn : Option Entry) (cache : Cache)
    (type : CacheType) : Exec (ErrorCode × Cache) := do
  match cacheLineIn with
  | none => return (.errBadParameter, cache)
  | some lineIn =>
    if cacheLineIndex ≥ type.lines ∨ cacheWay ≥ type.ways then return (.errNone, cache)
    else
      let entry ← cache.load (cacheEntry type.ways cacheLineIndex cacheWay)
      let cache ← cache.store (cacheEntry type.ways cacheLineIndex cacheWay)
        ((((entry.setLine lineIn.line).setV lineIn.v).setAge type (lineIn.age type)).setTag type
          (lineIn.tag type))
      return (.errNone, cache)

/-- What `cache_hit` returns and stores behind its pointers, with the line that `*p_line` points to
afterwards. -/
structure HitReply where
  code : ErrorCode
  hitWay : ℕ
  hitIndex : ℕ
  pLine : Line

/-- The loop body of the macro `hit`: it returns `none` at an invalid way and the way of a matching
tag. -/
def hitStep (cache : Cache) (type : CacheType) (lineIndex tag i : ℕ) :
    Exec (Option (Option ℕ)) := do
  let entry ← cache.load (cacheEntry type.ways lineIndex i)
  if entry.v = false then return some none
  else if entry.v = true ∧ tag = entry.tag type then return some (some i)
  else return none

/-- `cache_hit`. -/
def cacheHit (cache : Cache) (paddr : PhyAddr) (pLine : Line) (type : CacheType) :
    Exec (Cache × HitReply) := do
  let lineIndex := (phyAddrTToUint32T paddr).toNat / 16 % type.lines
  let tag := (phyAddrTToUint32T paddr).toNat >>> type.tagRemainingBits
  match ← Machine.returnLoop (hitStep cache type lineIndex tag) type.ways with
  | some (some i) =>
    let entry ← cache.load (cacheEntry type.ways lineIndex i)
    let cache ← lruAgeUpdate type type.ways i lineIndex cache
    return (cache, ⟨.errNone, i, lineIndex, entry.line⟩)
  | _ => return (cache, ⟨.errNone, hitWayMiss, hitIndexMiss, pLine⟩)

/-- `index_from_l2_to_l1`: the stride of the L2 array is taken from `L2_CACHE_LINES`. -/
def indexFromL2ToL1 (cache : Cache) (entry : Entry) (cacheType : CacheType) (way index : ℕ) :
    Exec (ErrorCode × Entry) := do
  match cacheType with
  | .L2_CACHE => return (.errBadParameter, entry)
  | _ =>
    let source ← cache.load (cacheEntry CacheType.L2_CACHE.lines index way)
    return (.errNone, (entry.setLine source.line).setV true)

/-- The loop body of the macro `lru`, on `max_age` and `way`. -/
def lruStep (cache : Cache) (type : CacheType) (lineIndex i : ℕ) (best : ℕ × ℕ) : Exec (ℕ × ℕ) := do
  let entry ← cache.load (cacheEntry type.ways lineIndex i)
  if entry.age type ≥ best.1 then return (entry.age type, i) else return best

/-- `apply_lru`: the last way among those of the largest age. -/
def applyLru (cache : Cache) (type : CacheType) (lineIndex : ℕ) : Exec ℕ := do
  let (_, way) ← Machine.forLoop (lruStep cache type lineIndex) type.ways (0, 0)
  return way

/-- The loop body of the macro `find_place_`. -/
def findPlaceStep (cache : Cache) (type : CacheType) (lineIndex i : ℕ) : Exec (Option ℕ) := do
  let entry ← cache.load (cacheEntry type.ways lineIndex i)
  if entry.v = false then return some i else return none

/-- `find_place`: the first invalid way. -/
def findPlace (cache : Cache) (type : CacheType) (lineIndex : ℕ) : Exec ℕ := do
  match ← Machine.returnLoop (findPlaceStep cache type lineIndex) type.ways with
  | some i => return i
  | none => return hitWayMiss

end KabyLake
