import KabyLake.Model.Cache

/-! # Reading and writing words through the cache hierarchy

`cache_read` and `cache_write` with the macros `hit_L2` and `not_hit_L1_or_L2` of `cache.h`, and the
system of two L1 caches, one L2 cache and a memory on which the test program runs them. The macros
read the array behind the local pointer `cache`, which is `l1_cache` unless a comment says otherwise.
-/

namespace KabyLake

/-- The outcomes of the allocations of one call: a `calloc` block is handed out or not, and a
`malloc` block holds any bytes. `false` and `none` stand for `NULL`. -/
structure Allocations where
  pLine : Bool
  pLine2 : Bool
  newLine : Bool
  memLine : Bool
  newentry : Option Entry
  newd : Option Entry
  oldEntry : Option Entry

/-- What `cache_read` returns and leaves in the caches and in `*word`. -/
structure ReadReply where
  code : ErrorCode
  l1Cache : Cache
  l2Cache : Cache
  word : BitVec 32

/-- What `cache_write` returns and leaves in the memory and the caches. -/
structure WriteReply where
  code : ErrorCode
  memSpace : MemSpace
  l1Cache : Cache
  l2Cache : Cache

/-- `access == INSTRUCTION ? L1_ICACHE : L1_DCACHE`. -/
def MemAccess.cacheType : MemAccess → CacheType
  | INSTRUCTION => .L1_ICACHE
  | DATA => .L1_DCACHE

/-- The steps at the end of `hit_L2` and of two paths of `cache_write` that insert an entry which
left L1 into L2; `cache` is `l2_cache` here. -/
def insertIntoL2 (oldEntry : Option Entry) (l2Cache : Cache) (index : ℕ) : Exec Cache := do
  let l2way ← findPlace l2Cache .L2_CACHE index
  if l2way ≠ hitWayMiss then
    let (_, l2Cache) ← cacheInsert index l2way oldEntry l2Cache .L2_CACHE
    lruAgeIncrease .L2_CACHE CacheType.L2_CACHE.ways l2way index l2Cache
  else
    let waydel ← applyLru l2Cache .L2_CACHE index
    let (_, l2Cache) ← cacheInsert index waydel oldEntry l2Cache .L2_CACHE
    lruAgeUpdate .L2_CACHE CacheType.L2_CACHE.ways waydel index l2Cache

/-- `hit_L2`: the valid bit is cleared in the L1 array at an L2 position, the evicted entry is
read with a stride of `LINES`, and `*word` is only assigned when an entry was evicted. -/
def hitL2 (type : CacheType) (l1Cache l2Cache : Cache) (newTag hitWay indexl2 line1 wordSelect : ℕ)
    (word : BitVec 32) (newentry : Option Entry) : Exec ReadReply := do
  match newentry with
  | none => return ⟨.errBadParameter, l1Cache, l2Cache, word⟩
  | some newentry =>
    let (code, newentry) ← indexFromL2ToL1 l2Cache (newentry.setTag type newTag) type hitWay indexl2
    if code ≠ .errNone then return ⟨.errBadParameter, l1Cache, l2Cache, word⟩
    else
      let moved ← l1Cache.load (cacheEntry CacheType.L2_CACHE.lines indexl2 hitWay)
      let l1Cache ← l1Cache.store (cacheEntry CacheType.L2_CACHE.lines indexl2 hitWay)
        (moved.setV false)
      let nway ← findPlace l1Cache type line1
      if nway ≠ hitWayMiss then
        let (code, l1Cache) ← cacheInsert line1 nway (some newentry) l1Cache type
        if code ≠ .errNone then return ⟨.errBadParameter, l1Cache, l2Cache, word⟩
        else
          let l1Cache ← lruAgeIncrease type type.ways nway line1 l1Cache
          return ⟨.errNone, l1Cache, l2Cache, word⟩
      else
        let waydel ← applyLru l1Cache type line1
        let oldEntry ← l1Cache.load (cacheEntry type.lines line1 waydel)
        let (_, l1Cache) ← cacheInsert line1 waydel (some newentry) l1Cache type
        let l1Cache ← lruAgeUpdate type type.ways waydel line1 l1Cache
        let selected ← l1Cache.load (cacheEntry type.ways line1 waydel)
        let l2Cache ← insertIntoL2 (some oldEntry) l2Cache indexl2
        return ⟨.errNone, l1Cache, l2Cache, selected.line.word wordSelect⟩

/-- `not_hit_L1_or_L2`: the result of `cache_entry_init` is not looked at, and the entry that leaves
L1 is overwritten. -/
def notHitL1OrL2 (type : CacheType) (memSpace : MemSpace) (paddr : PhyAddr) (l1Cache l2Cache : Cache)
    (line1 wordSelect : ℕ) (word : BitVec 32) (newentry : Option Entry) : Exec ReadReply := do
  match newentry with
  | none => return ⟨.errBadParameter, l1Cache, l2Cache, word⟩
  | some newentry =>
    let (_, newentry) ← cacheEntryInit memSpace paddr (some newentry) type
    let place ← findPlace l1Cache type line1
    let nway ← if place = hitWayMiss then applyLru l1Cache type line1 else pure place
    let (_, l1Cache) ← cacheInsert line1 nway newentry l1Cache type
    let l1Cache ← lruAgeUpdate type type.ways nway line1 l1Cache
    let selected ← l1Cache.load (cacheEntry type.ways line1 nway)
    return ⟨.errNone, l1Cache, l2Cache, selected.line.word wordSelect⟩

/-- `cache_read`. -/
def cacheRead (memSpace : MemSpace) (paddr : PhyAddr) (access : MemAccess) (l1Cache l2Cache : Cache)
    (word : BitVec 32) (allocations : Allocations) : Exec ReadReply := do
  let addr := phyAddrTToUint32T paddr
  let wordSelect := ((addr &&& 0b1111#32) >>> 2).toNat
  if !allocations.pLine then return ⟨.errBadParameter, l1Cache, l2Cache, word⟩
  else
    let cacheType := access.cacheType
    let (l1Cache, first) ← cacheHit l1Cache paddr Line.zero cacheType
    if first.code ≠ .errNone then return ⟨.errBadParameter, l1Cache, l2Cache, word⟩
    else if first.hitWay ≠ hitWayMiss then
      let selected ← l1Cache.load (cacheEntry cacheType.ways first.hitIndex first.hitWay)
      return ⟨.errNone, l1Cache, l2Cache, selected.line.word wordSelect⟩
    else
      let (l2Cache, second) ← cacheHit l2Cache paddr first.pLine .L2_CACHE
      if second.code ≠ .errNone then return ⟨.errBadParameter, l1Cache, l2Cache, word⟩
      else
        let line1 := ((addr &&& 0b1111110000#32) >>> 4).toNat
        let newTag := addr.toNat >>> CacheType.L1_ICACHE.tagRemainingBits
        if second.hitWay ≠ hitWayMiss then
          hitL2 cacheType l1Cache l2Cache newTag second.hitWay second.hitIndex line1 wordSelect word
            allocations.newentry
        else
          notHitL1OrL2 cacheType memSpace paddr l1Cache l2Cache (line1 &&& 0b111111) wordSelect word
            allocations.newentry

/-- `cache_write` after a hit in L1: the patched line goes to the cache and to the memory. -/
def writeHitL1 (memSpace : MemSpace) (paddr : PhyAddr) (l1Cache l2Cache : Cache) (word : BitVec 32)
    (hit : HitReply) (newLine : Bool) : Exec WriteReply := do
  let addr := phyAddrTToUint32T paddr
  if !newLine then return ⟨.errBadParameter, memSpace, l1Cache, l2Cache⟩
  else
    let line := hit.pLine.setWord ((addr &&& 0b1111#32) >>> 2).toNat word
    let entry ← l1Cache.load (cacheEntry CacheType.L1_DCACHE.ways hit.hitIndex hit.hitWay)
    let l1Cache ← l1Cache.store (cacheEntry CacheType.L1_DCACHE.ways hit.hitIndex hit.hitWay)
      (entry.setLine line)
    let l1Cache ← lruAgeUpdate .L1_DCACHE CacheType.L1_DCACHE.ways hit.hitWay hit.hitIndex l1Cache
    let memSpace ← memSpace.writeLine addr.toNat line
    return ⟨.errNone, memSpace, l1Cache, l2Cache⟩

/-- `cache_write` after a hit in L2. The line that leaves L1 is read at way `HIT_WAY_MISS`. -/
def writeHitL2 (memSpace : MemSpace) (paddr : PhyAddr) (l1Cache l2Cache : Cache) (word : BitVec 32)
    (hit : HitReply) (allocations : Allocations) : Exec WriteReply := do
  let addr := phyAddrTToUint32T paddr
  if !allocations.newLine then return ⟨.errBadParameter, memSpace, l1Cache, l2Cache⟩
  else
    let line := hit.pLine.setWord ((addr &&& 0b1111#32) >>> 2).toNat word
    let entry ← l2Cache.load (cacheEntry CacheType.L2_CACHE.ways hit.hitIndex hit.hitWay)
    let l2Cache ← l2Cache.store (cacheEntry CacheType.L2_CACHE.ways hit.hitIndex hit.hitWay)
      (entry.setLine line)
    let l2Cache ← lruAgeUpdate .L2_CACHE CacheType.L2_CACHE.ways hit.hitWay hit.hitIndex l2Cache
    match allocations.newentry with
    | none => return ⟨.errBadParameter, memSpace, l1Cache, l2Cache⟩
    | some newentry =>
      let (_, newentry) ← indexFromL2ToL1 l2Cache newentry .L1_DCACHE hit.hitWay hit.hitIndex
      let indexL1 := hit.hitIndex &&& 0b111111
      let wayL1 ← findPlace l1Cache .L1_DCACHE hit.hitIndex
      let memSpace ← memSpace.writeLine addr.toNat line
      if wayL1 ≠ hitWayMiss then
        let (_, l1Cache) ← cacheInsert indexL1 wayL1 (some newentry) l1Cache .L1_DCACHE
        let l1Cache ← lruAgeIncrease .L1_DCACHE CacheType.L1_DCACHE.ways wayL1 indexL1 l1Cache
        return ⟨.errNone, memSpace, l1Cache, l2Cache⟩
      else
        let waydel ← applyLru l1Cache .L1_DCACHE indexL1
        match allocations.oldEntry with
        | none => .error .nullPointer
        | some oldEntry =>
          let leaving ← l1Cache.load (cacheEntry CacheType.L1_DCACHE.ways indexL1 wayL1)
          let oldEntry := (((oldEntry.setV true).setTag .L2_CACHE
            (addr.toNat >>> CacheType.L2_CACHE.tagRemainingBits)).setAge .L2_CACHE 0).setLine
              leaving.line
          let (_, l1Cache) ← cacheInsert indexL1 waydel (some newentry) l1Cache .L1_DCACHE
          let l1Cache ← lruAgeUpdate .L1_DCACHE CacheType.L1_DCACHE.ways waydel indexL1 l1Cache
          let l2Cache ← insertIntoL2 (some oldEntry) l2Cache hit.hitIndex
          return ⟨.errNone, memSpace, l1Cache, l2Cache⟩

/-- `cache_write` after two misses: the line at the address is patched in the memory and a new
entry is made from it. The entry that leaves L1 goes to L2 with `v` set to `INVALID`. -/
def writeMiss (memSpace : MemSpace) (paddr : PhyAddr) (l1Cache l2Cache : Cache) (word : BitVec 32)
    (allocations : Allocations) : Exec WriteReply := do
  let addr := phyAddrTToUint32T paddr
  if !allocations.memLine then .error .nullPointer
  else
    let memLine ← memSpace.readLine addr.toNat
    let memSpace ← memSpace.writeLine addr.toNat
      (memLine.setWord ((addr &&& 0b1111#32) >>> 2).toNat word)
    let (_, newd) ← cacheEntryInit memSpace paddr allocations.newd .L1_DCACHE
    let newindex := ((addr >>> 4) &&& 0b111111#32).toNat
    let wayld ← findPlace l1Cache .L1_DCACHE newindex
    if wayld ≠ hitWayMiss then
      let (_, l1Cache) ← cacheInsert newindex wayld newd l1Cache .L1_DCACHE
      let l1Cache ← lruAgeIncrease .L1_DCACHE CacheType.L1_DCACHE.ways wayld newindex l1Cache
      return ⟨.errNone, memSpace, l1Cache, l2Cache⟩
    else
      let waydel2 ← applyLru l1Cache .L1_DCACHE newindex
      match allocations.oldEntry with
      | none => .error .nullPointer
      | some oldEntry =>
        let leaving ← l1Cache.load (cacheEntry CacheType.L1_DCACHE.ways newindex waydel2)
        let oldEntry := (((oldEntry.setLine leaving.line).setAge .L2_CACHE 0).setV false).setTag
          .L2_CACHE (leaving.tag .L1_DCACHE >>> 3)
        let (_, l1Cache) ← cacheInsert newindex waydel2 newd l1Cache .L1_DCACHE
        let l1Cache ← lruAgeUpdate .L1_DCACHE CacheType.L1_DCACHE.ways waydel2 newindex l1Cache
        let l2Cache ← insertIntoL2 (some oldEntry) l2Cache ((addr >>> 4) &&& 0b111111111#32).toNat
        return ⟨.errNone, memSpace, l1Cache, l2Cache⟩

/-- `cache_write`. L2 is searched with the type of the L1 data cache. -/
def cacheWrite (memSpace : MemSpace) (paddr : PhyAddr) (l1Cache l2Cache : Cache) (word : BitVec 32)
    (allocations : Allocations) : Exec WriteReply := do
  if !allocations.pLine then return ⟨.errBadParameter, memSpace, l1Cache, l2Cache⟩
  else if !allocations.pLine2 then return ⟨.errBadParameter, memSpace, l1Cache, l2Cache⟩
  else
    let (l1Cache, first) ← cacheHit l1Cache paddr Line.zero .L1_DCACHE
    if first.hitWay ≠ hitWayMiss then
      writeHitL1 memSpace paddr l1Cache l2Cache word first allocations.newLine
    else
      let (l2Cache, second) ← cacheHit l2Cache paddr Line.zero .L1_DCACHE
      if second.hitWay ≠ hitWayMiss then
        writeHitL2 memSpace paddr l1Cache l2Cache word second allocations
      else writeMiss memSpace paddr l1Cache l2Cache word allocations

/-- The memory and the caches of the test program. -/
structure CacheSystem where
  memSpace : MemSpace
  l1ICache : Cache
  l1DCache : Cache
  l2Cache : Cache

/-- The L1 cache that serves a kind of access. -/
def CacheSystem.l1Cache (system : CacheSystem) : MemAccess → Cache
  | .INSTRUCTION => system.l1ICache
  | .DATA => system.l1DCache

/-- Replace the L1 cache that serves a kind of access. -/
def CacheSystem.withL1Cache (system : CacheSystem) (access : MemAccess) (l1Cache : Cache) :
    CacheSystem :=
  match access with
  | .INSTRUCTION => { system with l1ICache := l1Cache }
  | .DATA => { system with l1DCache := l1Cache }

/-- The two operations on words. -/
inductive Operation where
  | read (access : MemAccess)
  | write
deriving DecidableEq, Repr

/-- One call of `cache_read` or `cache_write`; `word` is what `*word` holds before it. -/
structure CacheCall where
  operation : Operation
  paddr : PhyAddr
  word : BitVec 32
  allocations : Allocations

/-- What the caller sees. -/
structure CacheReply where
  code : ErrorCode
  word : BitVec 32

/-- One word command of `execute_command`: instruction reads use the instruction cache, and data
reads and writes the data cache. -/
def executeCommand (system : CacheSystem) (call : CacheCall) : Exec (CacheSystem × CacheReply) := do
  match call.operation with
  | .read access =>
    let reply ← cacheRead system.memSpace call.paddr access (system.l1Cache access) system.l2Cache
      call.word call.allocations
    return ({ system.withL1Cache access reply.l1Cache with l2Cache := reply.l2Cache },
      ⟨reply.code, reply.word⟩)
  | .write =>
    let reply ← cacheWrite system.memSpace call.paddr system.l1DCache system.l2Cache call.word
      call.allocations
    return ({ system with
      memSpace := reply.memSpace, l1DCache := reply.l1Cache, l2Cache := reply.l2Cache },
      ⟨reply.code, call.word⟩)

/-- An array of zero bytes of the size of one cache. -/
def Cache.zero (type : CacheType) : Cache := ⟨type.lines * type.ways, fun _ => ⟨0#32, Line.zero⟩⟩

/-- The system before the first call. -/
def CacheSystem.zero (memSpace : MemSpace) : CacheSystem :=
  ⟨memSpace, Cache.zero .L1_ICACHE, Cache.zero .L1_DCACHE, Cache.zero .L2_CACHE⟩

end KabyLake
