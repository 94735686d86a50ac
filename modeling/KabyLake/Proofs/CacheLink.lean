import KabyLake.Machine.Footprint
import KabyLake.Proofs.CacheMng

/-! # Two calls side by side

The functions on one cache look at the ways of one line. A relation between two caches that stores in this
line and its ageing keep is followed here through `cache_read` and `cache_write`, once for all relations:
two calls fault alike, or they return the same and leave related caches and memories.
-/

namespace KabyLake

open Machine

/-- All fields agree; only the padding may differ. -/
structure Entry.SameFields (type : CacheType) (entry entry' : Entry) : Prop where
  block : Entry.SameBlock type entry entry'
  age : entry.age type = entry'.age type

theorem Entry.SameFields.refl {type : CacheType} (entry : Entry) : Entry.SameFields type entry entry :=
  ⟨⟨rfl, rfl, rfl⟩, rfl⟩

/-- What `cache_insert` leaves in an entry. -/
def Entry.overwrite (type : CacheType) (lineIn entry : Entry) : Entry :=
  (((entry.setLine lineIn.line).setV lineIn.v).setAge type (lineIn.age type)).setTag type (lineIn.tag type)

/-- `linked` relates two caches and `same` the entries of a way of line `s`. The ways of the line agree in
`v`, the entries of valid ways are related, and so are all caches after related entries are stored and
after the line is aged. -/
structure LineLink (type : CacheType) (s : ℕ) (linked : Cache → Cache → Prop) (same : Entry → Entry → Prop) :
    Prop where
  line : s < type.lines
  room : ∀ {cache other}, linked cache other → cache.Room type ∧ other.Room type
  v : ∀ {cache other i}, linked cache other → i < type.ways →
    (cache.slot type s i).v = (other.slot type s i).v
  valid : ∀ {cache other i}, linked cache other → i < type.ways → (cache.slot type s i).v = true →
    same (cache.slot type s i) (other.slot type s i)
  fields : ∀ {entry entry'}, same entry entry' → Entry.SameFields type entry entry'
  setLine : ∀ {entry entry'}, same entry entry' → ∀ line, same (entry.setLine line) (entry'.setLine line)
  overwrite : ∀ {cache other i entry entry'}, linked cache other → i < type.ways → same entry entry' →
    same (entry.overwrite type (cache.slot type s i)) (entry'.overwrite type (other.slot type s i))
  put : ∀ {cache other i entry entry'}, linked cache other → i < type.ways → same entry entry' →
    linked (cache.put type s i entry) (other.put type s i entry')
  lruAge : ∀ {cache other w bound}, linked cache other → w < type.ways → bound < type.ways →
    Related (fun after after' => linked after after' ∧
        (same (cache.slot type s w) (other.slot type s w) → same (after.slot type s w) (after'.slot type s w)))
      (lruAge bound type type.ways w s cache) (lruAge bound type type.ways w s other)

/-- Equal caches. -/
theorem LineLink.eq {type : CacheType} {s : ℕ} (hs : s < type.lines) :
    LineLink type s (fun cache other => cache = other ∧ cache.Room type) (· = ·) where
  line := hs
  room := fun ⟨same, room⟩ => ⟨room, same ▸ room⟩
  v := fun ⟨same, _⟩ _ => by rw [same]
  valid := fun ⟨same, _⟩ _ _ => by rw [same]
  fields := fun same => same ▸ .refl _
  setLine := fun same _ => by rw [same]
  overwrite := fun ⟨same, _⟩ _ entries => by rw [same, entries]
  put := fun ⟨same, room⟩ _ entries => ⟨by rw [same, entries], room⟩
  lruAge := by
    rintro cache _ w bound ⟨rfl, room⟩ hw fits
    obtain ⟨after, ran, aged⟩ := lruAge_ok room hs hw fits
    rw [ran]
    exact .ok ⟨⟨rfl, aged.room room⟩, fun _ => rfl⟩

section Line

variable {type : CacheType} {s w : ℕ} {linked : Cache → Cache → Prop} {same : Entry → Entry → Prop}
  {cache other : Cache}

theorem findPlace_lt (room : cache.Room type) (hs : s < type.lines) (found : findPlace cache type s = .ok w)
    (present : w ≠ hitWayMiss) : w < type.ways := by
  rcases full_or_free type cache s with full | ⟨i, free⟩
  · rw [findPlace_full room hs full] at found
    exact (present (Except.ok.inj found).symm).elim
  · rw [free.findPlace room hs] at found
    exact Except.ok.inj found ▸ free.way

theorem applyLru_lt (room : cache.Room type) (hs : s < type.lines) (chosen : applyLru cache type s = .ok w) :
    w < type.ways := by
  obtain ⟨i, inside, ran, _⟩ := applyLru_ok room hs
  rw [ran] at chosen
  exact Except.ok.inj chosen ▸ inside

theorem full_of_findPlace (room : cache.Room type) (hs : s < type.lines)
    (found : findPlace cache type s = .ok hitWayMiss) : Full type cache s := by
  rcases full_or_free type cache s with full | ⟨w, free⟩
  · exact full
  · rw [free.findPlace room hs] at found
    exact ((free.way.trans CacheType.ways_lt).ne (Except.ok.inj found)).elim

namespace LineLink

variable (link : LineLink type s linked same) (holds : linked cache other)
include link holds

theorem load (hw : w < type.ways) (here : same (cache.slot type s w) (other.slot type s w)) :
    Related same (cache.load (cacheEntry type.ways s w)) (other.load (cacheEntry type.ways s w)) := by
  obtain ⟨room, room'⟩ := link.room holds
  rw [Cache.load_slot room link.line hw, Cache.load_slot room' link.line hw]
  exact .ok here

theorem findPlace : findPlace cache type s = findPlace other type s := by
  obtain ⟨room, room'⟩ := link.room holds
  have steps : ∀ i < type.ways, findPlaceStep cache type s i = findPlaceStep other type s i := by
    intro i hi
    rw [findPlaceStep, findPlaceStep, Cache.load_slot room link.line hi, Cache.load_slot room' link.line hi,
      ok_bind, ok_bind, link.v holds hi]
  rw [KabyLake.findPlace, KabyLake.findPlace, returnLoop_congr steps]

/-- In a full line the same way is chosen. -/
theorem applyLru (full : Full type cache s) : applyLru cache type s = applyLru other type s := by
  obtain ⟨room, room'⟩ := link.room holds
  have steps : ∀ i < type.ways, ∀ best, lruStep cache type s i best = lruStep other type s i best := by
    intro i hi best
    have age := (link.fields (link.valid holds hi (full i hi))).age
    rw [lruStep, lruStep, Cache.load_slot room link.line hi, Cache.load_slot room' link.line hi, ok_bind,
      ok_bind, age]
  rw [KabyLake.applyLru, KabyLake.applyLru, forLoop_congr _ steps]

/-- `LRU_age_increase` does not look at the entry of its way. -/
theorem lruAgeIncrease (hw : w < type.ways) : Related linked
    (lruAgeIncrease type type.ways w s cache) (lruAgeIncrease type type.ways w s other) :=
  (link.lruAge holds hw (Nat.sub_lt CacheType.ways_pos Nat.one_pos)).mono fun _ _ both => both.1

/-- `LRU_age_update` begins at the age of its way. -/
theorem lruAgeUpdate (hw : w < type.ways) (here : same (cache.slot type s w) (other.slot type s w)) :
    Related (fun after after' => linked after after' ∧ same (after.slot type s w) (after'.slot type s w))
      (lruAgeUpdate type type.ways w s cache) (lruAgeUpdate type type.ways w s other) := by
  obtain ⟨room, room'⟩ := link.room holds
  simp only [KabyLake.lruAgeUpdate, Cache.load_slot room link.line hw, Cache.load_slot room' link.line hw,
    ok_bind, ← (link.fields here).age]
  exact (link.lruAge holds hw Entry.age_lt).mono fun _ _ both => ⟨both.1, both.2 here⟩

/-- After an insertion the entries of the way are related if an entry was inserted, and where they were
valid before. -/
theorem cacheInsert (hw : w < type.ways) {entry entry' : Option Entry} (entries : Option.Rel same entry entry') :
    Related (fun result result' => linked result.2 result'.2 ∧
        (entry ≠ none ∨ (cache.slot type s w).v = true →
          same (result.2.slot type s w) (result'.2.slot type s w)))
      (cacheInsert s w entry cache type) (cacheInsert s w entry' other type) := by
  obtain ⟨room, room'⟩ := link.room holds
  cases entries with
  | none => exact .ok ⟨holds, fun before => link.valid holds hw (before.resolve_left fun some => some rfl)⟩
  | @some entry entry' here =>
    have stored := link.overwrite holds hw here
    refine .ite (fun outside => ?_) fun _ => ?_
    · have inside := link.line
      omega
    · rw [Cache.load_slot room link.line hw, Cache.load_slot room' link.line hw, ok_bind, ok_bind]
      rw [Cache.store_slot room link.line hw, Cache.store_slot room' link.line hw]
      refine .ok ⟨link.put holds hw stored, fun _ => ?_⟩
      rwa [Cache.slot_put_self, Cache.slot_put_self]

end LineLink

/-- An entry is inserted into both L2 caches. -/
theorem LineLink.insertIntoL2 (link : LineLink .L2_CACHE s linked same) (holds : linked cache other)
    {entry entry' : Entry} (entries : same entry entry') :
    Related linked (insertIntoL2 (some entry) cache s) (insertIntoL2 (some entry') other s) := by
  have room := (link.room holds).1
  refine .bind_same (link.findPlace holds) fun place found => .ite (fun present => ?_) fun missed => ?_
  · have hw := findPlace_lt room link.line found present
    refine (link.cacheInsert holds hw (.some entries)).bind fun _ _ both => ?_
    exact link.lruAgeIncrease both.1 hw
  · obtain rfl := not_not.mp missed
    refine .bind_same (link.applyLru holds (full_of_findPlace room link.line found)) fun way chosen => ?_
    have hw := applyLru_lt room link.line chosen
    refine (link.cacheInsert holds hw (.some entries)).bind fun _ _ both => ?_
    exact (link.lruAgeUpdate both.1 hw (both.2 (.inl (by simp)))).mono fun _ _ both => both.1

end Line

section Lookup

variable {paddr : PhyAddr} {type : CacheType} {linked : Cache → Cache → Prop} {same : Entry → Entry → Prop}
  {cache other : Cache} {w : ℕ} (link : LineLink type (type.lineOf paddr.address) linked same)
  (holds : linked cache other)
include link holds

/-- A lookup stops at the same way. -/
theorem LineLink.found_iff : Found type cache paddr.address w ↔ Found type other paddr.address w := by
  have agree {i : ℕ} (hi : i < type.ways) :
      (cache.slot type (type.lineOf paddr.address) i).v = (other.slot type (type.lineOf paddr.address) i).v ∧
      ((cache.slot type (type.lineOf paddr.address) i).v = true →
        (cache.slot type (type.lineOf paddr.address) i).tag type =
          (other.slot type (type.lineOf paddr.address) i).tag type) :=
    ⟨link.v holds hi, fun valid => (link.fields (link.valid holds hi valid)).block.tag⟩
  constructor
  · intro found
    obtain ⟨v, tag⟩ := agree found.way
    refine ⟨found.way, fun i hi => ?_, v ▸ found.v, tag found.v ▸ found.tag⟩
    obtain ⟨present, apart⟩ := found.earlier i hi
    obtain ⟨v, tag⟩ := agree (hi.trans found.way)
    exact ⟨v ▸ present, tag present ▸ apart⟩
  · intro found
    obtain ⟨v, tag⟩ := agree found.way
    refine ⟨found.way, fun i hi => ?_, v.trans found.v, (tag (v.trans found.v)).trans found.tag⟩
    obtain ⟨present, apart⟩ := found.earlier i hi
    obtain ⟨v, tag⟩ := agree (hi.trans found.way)
    exact ⟨v.trans present, tag (v.trans present) ▸ apart⟩

/-- A lookup gives the same reply, and a hit is in the line of the address. -/
theorem LineLink.cacheHit (pLine : Line) :
    Related (fun result result' => result.2 = result'.2 ∧ linked result.1 result'.1 ∧
        (result.2.hitWay ≠ hitWayMiss → result.2.hitIndex = type.lineOf paddr.address ∧
          result.2.hitWay < type.ways ∧
          same (result.1.slot type (type.lineOf paddr.address) result.2.hitWay)
            (result'.1.slot type (type.lineOf paddr.address) result.2.hitWay)) ∧
        (result.2.hitWay = hitWayMiss → ¬ ∃ w, Found type cache paddr.address w))
      (cacheHit cache paddr pLine type) (cacheHit other paddr pLine type) := by
  obtain ⟨room, room'⟩ := link.room holds
  by_cases present : ∃ w, Found type cache paddr.address w
  · obtain ⟨w, found⟩ := present
    have here := link.valid holds found.way found.v
    rw [found.cacheHit_eq room, ((link.found_iff holds).mp found).cacheHit_eq room',
      (link.fields here).block.line]
    refine (link.lruAgeUpdate holds found.way here).bind fun after after' both => ?_
    refine .ok ⟨rfl, both.1, fun _ => ⟨rfl, found.way, both.2⟩, fun missed => ?_⟩
    exact ((found.way.trans CacheType.ways_lt).ne missed).elim
  · have absent : ¬ ∃ w, Found type other paddr.address w := by
      rintro ⟨w, found⟩
      exact present ⟨w, (link.found_iff holds).mpr found⟩
    rw [cacheHit_unfound room pLine present, cacheHit_unfound room' pLine absent]
    exact .ok ⟨rfl, holds, fun hit => (hit rfl).elim, fun _ => present⟩

end Lookup

/-- Allocations with the same outcomes, up to what `malloc` left in its blocks. -/
structure Allocations.SameOutcomes (allocations allocations' : Allocations) : Prop where
  pLine : allocations.pLine = allocations'.pLine
  pLine2 : allocations.pLine2 = allocations'.pLine2
  newLine : allocations.newLine = allocations'.newLine
  memLine : allocations.memLine = allocations'.memLine
  newentry : allocations.newentry.isSome = allocations'.newentry.isSome
  newd : allocations.newd.isSome = allocations'.newd.isSome
  oldEntry : allocations.oldEntry.isSome = allocations'.oldEntry.isSome

theorem Allocations.SameOutcomes.refl (allocations : Allocations) : allocations.SameOutcomes allocations :=
  ⟨rfl, rfl, rfl, rfl, rfl, rfl, rfl⟩

/-- What two callers have in `*word` after a command: the same word, or, if it failed, what each of them
had there before. -/
def SameWord (code : ErrorCode) (prior prior' word word' : BitVec 32) : Prop :=
  word = word' ∨ code ≠ .errNone ∧ word = prior ∧ word' = prior'

theorem SameWord.failed {code : ErrorCode} (failure : code ≠ .errNone) (prior prior' : BitVec 32) :
    SameWord code prior prior' prior prior' := .inr ⟨failure, rfl, rfl⟩

theorem SameWord.of_success {prior prior' word word' : BitVec 32}
    (same : SameWord .errNone prior prior' word word') : word = word' :=
  same.resolve_right fun failed => failed.1 rfl

theorem SameWord.of_same {code : ErrorCode} {prior word word' : BitVec 32}
    (same : SameWord code prior prior word word') : word = word' := by
  rcases same with same | ⟨_, rfl, rfl⟩
  · exact same
  · rfl

/-- The line of L2 that the code computes for an address. -/
abbrev l2Index (paddr : PhyAddr) : ℕ := ((phyAddrTToUint32T paddr >>> 4) &&& 0b111111111#32).toNat

/-- The entry that `cache_write` inserts into L2 for one that leaves L1; its valid bit is cleared. -/
abbrev leavingEntry (oldEntry leaving : Entry) : Entry :=
  (((oldEntry.setLine leaving.line).setAge .L2_CACHE 0).setV false).setTag .L2_CACHE
    (leaving.tag .L1_DCACHE >>> 3)

/-- `cache_entry_init` makes related entries in related memories. -/
def MakesRelated (type : CacheType) (paddr : PhyAddr) (same : Entry → Entry → Prop)
    (entry entry' : Option Entry) (memSpace memSpace' : MemSpace) : Prop :=
  Related (fun made made' => Option.Rel same made.2 made'.2) (cacheEntryInit memSpace paddr entry type)
    (cacheEntryInit memSpace' paddr entry' type)

/-- For related entries that leave L1, the insertions into L2 keep L2 related. -/
def LeavesRelated (paddr : PhyAddr) (same : Entry → Entry → Prop) (lower : Cache → Cache → Prop)
    (oldEntry oldEntry' : Option Entry) (l2 l2' : Cache) : Prop :=
  ∀ old ∈ oldEntry, ∀ old' ∈ oldEntry', ∀ leaving leaving', same leaving leaving' →
    Related lower (insertIntoL2 (some (leavingEntry old leaving)) l2 (l2Index paddr))
      (insertIntoL2 (some (leavingEntry old' leaving')) l2' (l2Index paddr))

theorem MakesRelated.of_eq {type : CacheType} {paddr : PhyAddr} {entry : Option Entry}
    {memSpace memSpace' : MemSpace}
    (same : cacheEntryInit memSpace paddr entry type = cacheEntryInit memSpace' paddr entry type) :
    MakesRelated type paddr (· = ·) entry entry memSpace memSpace' := by
  refine Related.of_eq same fun made _ => ?_
  cases made.2 with
  | none => exact .none
  | some entry => exact .some rfl

theorem cacheEntryInit_ne_none {memSpace : MemSpace} {paddr : PhyAddr} {type : CacheType} {garbage : Entry}
    {made : ErrorCode × Option Entry}
    (ran : cacheEntryInit memSpace paddr (some garbage) type = .ok made) : made.2 ≠ none := by
  rw [cacheEntryInit] at ran
  split at ran
  · obtain rfl := Except.ok.inj ran
    simp
  · obtain ⟨line, _, rest⟩ := bind_eq_ok_iff.mp ran
    obtain rfl := Except.ok.inj rest
    simp

section Paths

variable {paddr : PhyAddr} {memSpace memSpace' : MemSpace} {l1 l1' l2 l2' : Cache} (word word' : BitVec 32)
  {allocations allocations' : Allocations} {linked : Cache → Cache → Prop} {same : Entry → Entry → Prop}

/-- Two replies of `cache_read` with related L1 caches, and the L2 caches as they were. -/
structure ReadReply.Linked (linked : Cache → Cache → Prop) (l2 l2' : Cache) (prior prior' : BitVec 32)
    (reply reply' : ReadReply) : Prop where
  code : reply.code = reply'.code
  word : SameWord reply.code prior prior' reply.word reply'.word
  l1Cache : linked reply.l1Cache reply'.l1Cache
  l2Cache : reply.l2Cache = l2
  l2Cache' : reply'.l2Cache = l2'

theorem notHitL1OrL2_linked {type : CacheType} {s : ℕ} (link : LineLink type s linked same)
    (holds : linked l1 l1') (wordSelect : ℕ) {newentry newentry' : Option Entry}
    (outcome : newentry.isSome = newentry'.isSome)
    (makes : MakesRelated type paddr same newentry newentry' memSpace memSpace') :
    Related (ReadReply.Linked linked l2 l2' word word')
      (notHitL1OrL2 type memSpace paddr l1 l2 s wordSelect word newentry)
      (notHitL1OrL2 type memSpace' paddr l1' l2' s wordSelect word' newentry') := by
  have room := (link.room holds).1
  cases newentry with
  | none =>
    obtain rfl : newentry' = none := by simpa using outcome
    exact .ok ⟨rfl, .failed (by simp) _ _, holds, rfl, rfl⟩
  | some garbage =>
    obtain ⟨garbage', rfl⟩ := Option.isSome_iff_exists.mp outcome.symm
    refine makes.returned.bind ?_
    rintro ⟨code, made⟩ ⟨code', made'⟩ ⟨entries, ran⟩
    have present : made ≠ none := cacheEntryInit_ne_none ran
    refine .bind_same (link.findPlace holds) fun place found => ?_
    have fill (nway : ℕ) (hw : nway < type.ways) := (link.cacheInsert holds hw entries).bind fun _ _ both =>
      (link.lruAgeUpdate both.1 hw (both.2 (.inl present))).bind fun _ _ aged =>
        (link.load aged.1 hw aged.2).bind fun selected selected' here =>
          have line := (link.fields here).block.line
          .ok (⟨rfl, .inl (congrArg (Line.word · wordSelect) line), aged.1, rfl, rfl⟩ :
            ReadReply.Linked linked l2 l2' word word' ⟨.errNone, _, l2, selected.line.word wordSelect⟩
              ⟨.errNone, _, l2', selected'.line.word wordSelect⟩)
    refine .ite (fun missed => ?_) fun present => ?_
    · subst missed
      have full := full_of_findPlace room link.line found
      refine .bind_same (link.applyLru holds full) fun nway chosen => ?_
      exact fill nway (applyLru_lt room link.line chosen)
    · exact fill place (findPlace_lt room link.line found present)

/-- `cache_read` on related L1 caches and quiet L2 caches. -/
theorem cacheRead_linked {access : MemAccess}
    (link : LineLink access.cacheType (access.cacheType.lineOf paddr.address) linked same)
    (holds : linked l1 l1') (quiet : Quiet l2) (quiet' : Quiet l2')
    (outcomes : allocations.SameOutcomes allocations')
    (makes : (¬ ∃ w, Found access.cacheType l1 paddr.address w) → MakesRelated access.cacheType paddr same
      allocations.newentry allocations'.newentry memSpace memSpace') :
    Related (ReadReply.Linked linked l2 l2' word word')
      (cacheRead memSpace paddr access l1 l2 word allocations)
      (cacheRead memSpace' paddr access l1' l2' word' allocations') := by
  have failed : SameWord .errBadParameter word word' word word' := .failed (by decide) _ _
  unfold cacheRead
  rw [← outcomes.pLine]
  refine .ite (fun _ => .ok ⟨rfl, failed, holds, rfl, rfl⟩) fun _ => (link.cacheHit holds Line.zero).bind ?_
  rintro ⟨after, first⟩ ⟨after', _⟩ ⟨rfl, holds, inside, unfound⟩
  refine .ite (fun _ => .ok ⟨rfl, failed, holds, rfl, rfl⟩) fun _ => .ite (fun present => ?_) fun missed => ?_
  · obtain ⟨index, way, here⟩ := inside present
    dsimp only at index way here ⊢
    rw [index]
    refine (link.load holds way here).bind fun selected selected' here => ?_
    rw [(link.fields here).block.line]
    exact .ok ⟨rfl, .inl rfl, holds, rfl, rfl⟩
  · -- the quiet L2 caches miss on both sides
    simp only [quiet.cacheHit quiet.room, quiet'.cacheHit quiet'.room, ok_bind, ne_eq,
      not_true_eq_false, ↓reduceIte, line1_toNat]
    rw [← MemAccess.lineOf_cacheType access]
    exact notHitL1OrL2_linked word word' link holds _ outcomes.newentry (makes (unfound (not_not.mp missed)))

/-- Memories that agree in the block at an address, and stay related when it is written. -/
structure BlockLink (a : ℕ) (together : MemSpace → MemSpace → Prop) : Prop where
  readLine : ∀ {memSpace memSpace'}, together memSpace memSpace' → memSpace.readLine a = memSpace'.readLine a
  writeLine : ∀ {memSpace memSpace'}, together memSpace memSpace' → ∀ line,
    Related together (memSpace.writeLine a line) (memSpace'.writeLine a line)

theorem BlockLink.eq (a : ℕ) : BlockLink a (· = ·) where
  readLine := fun same => by rw [same]
  writeLine := fun same line => by
    subst same
    exact .of_eq rfl fun _ _ => rfl

/-- Two replies of `cache_write` with related memories and caches. -/
structure WriteReply.Linked (together : MemSpace → MemSpace → Prop) (linked lower : Cache → Cache → Prop)
    (reply reply' : WriteReply) : Prop where
  code : reply.code = reply'.code
  memSpace : together reply.memSpace reply'.memSpace
  l1Cache : linked reply.l1Cache reply'.l1Cache
  l2Cache : lower reply.l2Cache reply'.l2Cache

variable {together : MemSpace → MemSpace → Prop} {lower : Cache → Cache → Prop}
  (link : LineLink .L1_DCACHE (CacheType.L1_DCACHE.lineOf paddr.address) linked same) (holds : linked l1 l1')
  (block : BlockLink paddr.address together) (memory : together memSpace memSpace') (lowest : lower l2 l2')
include link holds block memory lowest

theorem writeHitL1_linked {hit : HitReply} (newLine : Bool)
    (index : hit.hitIndex = CacheType.L1_DCACHE.lineOf paddr.address)
    (way : hit.hitWay < CacheType.L1_DCACHE.ways)
    (here : same (l1.slot .L1_DCACHE (CacheType.L1_DCACHE.lineOf paddr.address) hit.hitWay)
      (l1'.slot .L1_DCACHE (CacheType.L1_DCACHE.lineOf paddr.address) hit.hitWay)) :
    Related (WriteReply.Linked together linked lower) (writeHitL1 memSpace paddr l1 l2 word hit newLine)
      (writeHitL1 memSpace' paddr l1' l2' word hit newLine) := by
  obtain ⟨room, room'⟩ := link.room holds
  refine .ite (fun _ => .ok ⟨rfl, memory, holds, lowest⟩) fun _ => ?_
  rw [index]
  refine (link.load holds way here).bind fun entry entry' here => ?_
  rw [Cache.store_slot room link.line way, Cache.store_slot room' link.line way, ok_bind, ok_bind]
  refine (link.lruAgeUpdate (link.put holds way (link.setLine here _)) way ?_).bind fun _ _ aged => ?_
  · rw [Cache.slot_put_self, Cache.slot_put_self]
    exact link.setLine here _
  · exact (block.writeLine memory _).bind fun _ _ memory => .ok ⟨rfl, memory, aged.1, lowest⟩

theorem writeMiss_linked (outcomes : allocations.SameOutcomes allocations')
    (makes : ∀ memSpace memSpace', together memSpace memSpace' → MakesRelated .L1_DCACHE paddr same
      allocations.newd allocations'.newd memSpace memSpace')
    (leaves : LeavesRelated paddr same lower allocations.oldEntry allocations'.oldEntry l2 l2') :
    Related (WriteReply.Linked together linked lower)
      (writeMiss memSpace paddr l1 l2 word allocations)
      (writeMiss memSpace' paddr l1' l2' word allocations') := by
  have room := (link.room holds).1
  have line : ((phyAddrTToUint32T paddr >>> 4) &&& 0b111111#32).toNat =
      CacheType.L1_DCACHE.lineOf paddr.address := newindex_toNat paddr
  unfold writeMiss
  rw [← outcomes.memLine]
  refine .ite (fun _ => .error _) fun _ => .bind_same (block.readLine memory) fun memLine _ => ?_
  refine (block.writeLine memory _).bind fun _ _ memory => (makes _ _ memory).bind ?_
  rintro ⟨code, made⟩ ⟨code', made'⟩ entries
  dsimp only
  rw [line]
  refine .bind_same (link.findPlace holds) fun place found => .ite (fun present => ?_) fun missed => ?_
  · have hw := findPlace_lt room link.line found present
    refine (link.cacheInsert holds hw entries).bind fun _ _ both => ?_
    exact (link.lruAgeIncrease both.1 hw).bind fun _ _ holds => .ok ⟨rfl, memory, holds, lowest⟩
  · obtain rfl := not_not.mp missed
    have full := full_of_findPlace room link.line found
    refine .bind_same (link.applyLru holds full) fun way chosen => ?_
    have hw := applyLru_lt room link.line chosen
    have old := outcomes.oldEntry
    cases available : allocations.oldEntry with
    | none =>
      have available' : allocations'.oldEntry = none := by simpa [available] using old
      rw [available']
      exact .error _
    | some oldEntry =>
      rw [available] at old
      obtain ⟨oldEntry', available'⟩ := Option.isSome_iff_exists.mp old.symm
      rw [available']
      refine (link.load holds hw (link.valid holds hw (full way hw))).bind fun leaving leaving' here => ?_
      refine (link.cacheInsert holds hw entries).bind fun _ _ both => ?_
      refine (link.lruAgeUpdate both.1 hw (both.2 (.inr (full way hw)))).bind fun _ _ aged => ?_
      refine (leaves _ available _ available' leaving leaving' here).bind fun _ _ lowest => ?_
      exact .ok ⟨rfl, memory, aged.1, lowest⟩

/-- `cache_write` on related memories and L1 caches and quiet L2 caches. -/
theorem cacheWrite_linked (quiet : Quiet l2) (quiet' : Quiet l2')
    (outcomes : allocations.SameOutcomes allocations')
    (makes : (¬ ∃ w, Found .L1_DCACHE l1 paddr.address w) → ∀ memSpace memSpace', together memSpace memSpace' →
      MakesRelated .L1_DCACHE paddr same allocations.newd allocations'.newd memSpace memSpace')
    (leaves : LeavesRelated paddr same lower allocations.oldEntry allocations'.oldEntry l2 l2') :
    Related (WriteReply.Linked together linked lower)
      (cacheWrite memSpace paddr l1 l2 word allocations)
      (cacheWrite memSpace' paddr l1' l2' word allocations') := by
  have room : l2.Room .L1_DCACHE := le_trans (by decide) quiet.room
  have room' : l2'.Room .L1_DCACHE := le_trans (by decide) quiet'.room
  unfold cacheWrite
  rw [← outcomes.pLine, ← outcomes.pLine2, ← outcomes.newLine]
  refine .ite (fun _ => .ok ⟨rfl, memory, holds, lowest⟩) fun _ => ?_
  refine .ite (fun _ => .ok ⟨rfl, memory, holds, lowest⟩) fun _ => (link.cacheHit holds Line.zero).bind ?_
  rintro ⟨after, first⟩ ⟨after', _⟩ ⟨rfl, holds, inside, unfound⟩
  refine .ite (fun present => ?_) fun missed => ?_
  · obtain ⟨index, way, here⟩ := inside present
    exact writeHitL1_linked word link holds block memory lowest _ index way here
  · -- the quiet L2 caches miss on both sides
    simp only [quiet.cacheHit room, quiet'.cacheHit room', ok_bind, ne_eq, not_true_eq_false,
      ↓reduceIte]
    exact writeMiss_linked word link holds block memory lowest outcomes (makes (unfound (not_not.mp missed)))
      leaves

end Paths

end KabyLake
