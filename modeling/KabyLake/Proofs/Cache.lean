import KabyLake.Model.Cache

/-! # The functions on one cache array

Each loop and each small function is characterised once, on the `slot` of a line and a way: what it
returns, and which fields of which slots it changes. No later proof looks at the bits of an entry or
at the position of an entry in its array.
-/

namespace KabyLake

open Machine

variable {type : CacheType}

namespace CacheType

theorem ways_pos : 0 < type.ways := by cases type <;> decide

theorem lines_pos : 0 < type.lines := by cases type <;> decide

theorem ways_eq : type.ways = 2 ^ type.ageBits := by cases type <;> rfl

theorem ways_lt : type.ways < hitWayMiss := by cases type <;> decide

private theorem fields_fit : 1 + type.ageBits + type.tagBits ≤ 32 := by cases type <;> decide

end CacheType

namespace Entry

variable {entry : Entry}

@[simp] theorem v_setV (v : Bool) : (entry.setV v).v = v := by
  rw [Entry.v, setV, BitVec.getLsbD_setField _ _ _ _ (by decide)]
  simp

@[simp] theorem v_setAge (age : ℕ) : (entry.setAge type age).v = entry.v :=
  BitVec.getLsbD_setField_of_lt _ _ _ _ (by decide)

@[simp] theorem v_setTag (tag : ℕ) : (entry.setTag type tag).v = entry.v :=
  BitVec.getLsbD_setField_of_lt _ _ _ _ (by omega)

@[simp] theorem v_setLine (line : Line) : (entry.setLine line).v = entry.v := rfl

@[simp] theorem age_setV (v : Bool) : (entry.setV v).age type = entry.age type := by
  rw [age, setV, BitVec.extractLsb'_setField_of_disjoint _ _ _ _ (.inr (by omega)), age]

@[simp] theorem age_setAge (age : ℕ) : (entry.setAge type age).age type = age % type.ways := by
  have fits : 1 + type.ageBits ≤ 32 := (Nat.le_add_right _ _).trans CacheType.fields_fit
  rw [Entry.age, setAge, BitVec.extractLsb'_setField _ _ _ fits, BitVec.toNat_ofNat, CacheType.ways_eq]

@[simp] theorem age_setTag (tag : ℕ) : (entry.setTag type tag).age type = entry.age type := by
  rw [age, setTag, BitVec.extractLsb'_setField_of_disjoint _ _ _ _ (.inl (by omega)), age]

@[simp] theorem age_setLine (line : Line) : (entry.setLine line).age type = entry.age type := rfl

@[simp] theorem tag_setV (v : Bool) : (entry.setV v).tag type = entry.tag type := by
  rw [tag, setV, BitVec.extractLsb'_setField_of_disjoint _ _ _ _ (.inr (by omega)), tag]

@[simp] theorem tag_setAge (age : ℕ) : (entry.setAge type age).tag type = entry.tag type := by
  rw [tag, setAge, BitVec.extractLsb'_setField_of_disjoint _ _ _ _ (.inr (by omega)), tag]

@[simp] theorem tag_setTag (tag : ℕ) :
    (entry.setTag type tag).tag type = tag % 2 ^ type.tagBits := by
  rw [Entry.tag, setTag, BitVec.extractLsb'_setField _ _ _ CacheType.fields_fit, BitVec.toNat_ofNat]

@[simp] theorem tag_setLine (line : Line) : (entry.setLine line).tag type = entry.tag type := rfl

@[simp] theorem line_setV (v : Bool) : (entry.setV v).line = entry.line := rfl

@[simp] theorem line_setAge (age : ℕ) : (entry.setAge type age).line = entry.line := rfl

@[simp] theorem line_setTag (tag : ℕ) : (entry.setTag type tag).line = entry.line := rfl

@[simp] theorem line_setLine (line : Line) : (entry.setLine line).line = line := rfl

/-- An age field counts the ways of a line. -/
theorem age_lt : entry.age type < type.ways := by
  rw [CacheType.ways_eq]
  exact BitVec.isLt _

theorem tag_lt : entry.tag type < 2 ^ type.tagBits := BitVec.isLt _

/-- Two entries that stand for the same block; their ages may differ. -/
structure SameBlock (type : CacheType) (entry other : Entry) : Prop where
  v : entry.v = other.v
  tag : entry.tag type = other.tag type
  line : entry.line = other.line

theorem SameBlock.refl : SameBlock type entry entry := ⟨rfl, rfl, rfl⟩

theorem SameBlock.trans {first second third : Entry} (left : SameBlock type first second)
    (right : SameBlock type second third) : SameBlock type first third :=
  ⟨left.v.trans right.v, left.tag.trans right.tag, left.line.trans right.line⟩

theorem SameBlock.setAge (age : ℕ) : SameBlock type (entry.setAge type age) entry :=
  ⟨v_setAge age, tag_setAge age, rfl⟩

end Entry

namespace Cache

variable {cache : Cache} {s i t j : ℕ} {entry : Entry}

/-- The entry of a line and a way. -/
def slot (cache : Cache) (type : CacheType) (lineIndex way : ℕ) : Entry :=
  cache.entry (cacheEntry type.ways lineIndex way)

/-- The array after one slot was overwritten. -/
def put (cache : Cache) (type : CacheType) (lineIndex way : ℕ) (entry : Entry) : Cache :=
  { cache with entry := Function.update cache.entry (cacheEntry type.ways lineIndex way) entry }

/-- The array has all lines and ways of its type. -/
def Room (type : CacheType) (cache : Cache) : Prop := type.lines * type.ways ≤ cache.size

@[simp] theorem size_put : (cache.put type s i entry).size = cache.size := rfl

theorem Room.put (room : cache.Room type) : (cache.put type s i entry).Room type := room

/-- Lines do not overlap. -/
theorem cacheEntry_inj (hi : i < type.ways) (hj : j < type.ways) :
    cacheEntry type.ways s i = cacheEntry type.ways t j ↔ s = t ∧ i = j := by
  constructor
  · intro same
    have line : s = t := by
      have := congrArg (· / type.ways) same
      simpa [cacheEntry, Nat.add_div_of_dvd_right, CacheType.ways_pos, Nat.div_eq_of_lt hi,
        Nat.div_eq_of_lt hj] using this
    subst line
    exact ⟨rfl, by simpa [cacheEntry] using same⟩
  · rintro ⟨rfl, rfl⟩
    rfl

theorem cacheEntry_lt (room : cache.Room type) (hs : s < type.lines) (hi : i < type.ways) :
    cacheEntry type.ways s i < cache.size := by
  have inside : (s + 1) * type.ways ≤ type.lines * type.ways := Nat.mul_le_mul_right _ hs
  have total : (s + 1) * type.ways = s * type.ways + type.ways := Nat.succ_mul _ _
  unfold Room at room
  unfold cacheEntry
  omega

theorem load_slot (room : cache.Room type) (hs : s < type.lines) (hi : i < type.ways) :
    cache.load (cacheEntry type.ways s i) = .ok (cache.slot type s i) :=
  if_pos (cacheEntry_lt room hs hi)

theorem store_slot (room : cache.Room type) (hs : s < type.lines) (hi : i < type.ways) :
    cache.store (cacheEntry type.ways s i) entry = .ok (cache.put type s i entry) :=
  if_pos (cacheEntry_lt room hs hi)

theorem entry_put_of_ne {k : ℕ} (apart : k ≠ cacheEntry type.ways s i) :
    (cache.put type s i entry).entry k = cache.entry k := Function.update_of_ne apart ..

theorem slot_put_self : (cache.put type s i entry).slot type s i = entry :=
  Function.update_self ..

theorem slot_put_of_ne (hi : i < type.ways) (hj : j < type.ways) (other : t = s → j ≠ i) :
    (cache.put type s i entry).slot type t j = cache.slot type t j := by
  apply Function.update_of_ne
  rw [Ne, cacheEntry_inj hj hi, not_and]
  exact other

end Cache

variable {cache : Cache} {s w : ℕ}

/-- What the macros of `lru.h` do to a cache: in one line the ages below `bound` grow by one and the
age of one way becomes zero. Blocks stay where they are, and other lines keep their bytes. -/
structure Aged (type : CacheType) (s w bound : ℕ) (before after : Cache) : Prop where
  size : after.size = before.size
  others : ∀ k, (∀ i < type.ways, k ≠ cacheEntry type.ways s i) → after.entry k = before.entry k
  block : ∀ i < type.ways, Entry.SameBlock type (after.slot type s i) (before.slot type s i)
  age : ∀ i < type.ways, (after.slot type s i).age type =
    if i = w then 0
    else if (before.slot type s i).age type < bound then (before.slot type s i).age type + 1
    else (before.slot type s i).age type

/-- The loop of `lru.h` after `n` iterations. -/
private structure AgedBelow (type : CacheType) (s bound : ℕ) (before : Cache) (n : ℕ)
    (after : Cache) : Prop where
  size : after.size = before.size
  others : ∀ k, (∀ i < n, k ≠ cacheEntry type.ways s i) → after.entry k = before.entry k
  grown : ∀ i < n, after.slot type s i =
    if (before.slot type s i).age type < bound
    then (before.slot type s i).setAge type ((before.slot type s i).age type + 1)
    else before.slot type s i

private theorem AgedBelow.step {bound n : ℕ} {after : Cache} (room : cache.Room type)
    (hs : s < type.lines) (hn : n < type.ways) (below : AgedBelow type s bound cache n after) :
    ∃ next, lruAgeStep bound type type.ways s n after = .ok next ∧
      AgedBelow type s bound cache (n + 1) next := by
  have wide : after.Room type := by
    rw [Cache.Room, below.size]
    exact room
  have fresh : after.slot type s n = cache.slot type s n := by
    apply below.others
    intro i hi same
    have := (Cache.cacheEntry_inj hn (by omega)).mp same
    omega
  rw [lruAgeStep, Cache.load_slot wide hs hn, ok_bind, fresh]
  by_cases young : (cache.slot type s n).age type < bound
  · rw [if_pos young, Cache.store_slot wide hs hn]
    refine ⟨_, rfl, below.size, ?_, ?_⟩
    · intro k apart
      rw [Cache.entry_put_of_ne (apart n (by omega))]
      exact below.others k fun i hi => apart i (by omega)
    · intro i hi
      rcases Nat.lt_succ_iff_lt_or_eq.mp hi with earlier | rfl
      · rw [Cache.slot_put_of_ne hn (by omega) (fun _ => earlier.ne), below.grown i earlier]
      · rw [Cache.slot_put_self, if_pos young]
  · rw [if_neg young, pure_eq_ok]
    refine ⟨after, rfl, below.size, ?_, ?_⟩
    · intro k apart
      exact below.others k fun i hi => apart i (by omega)
    · intro i hi
      rcases Nat.lt_succ_iff_lt_or_eq.mp hi with earlier | rfl
      · exact below.grown i earlier
      · rw [if_neg young, fresh]

/-- The macros never leave the array, and no age overflows its field. -/
theorem lruAge_ok {bound : ℕ} (room : cache.Room type) (hs : s < type.lines) (hw : w < type.ways)
    (fits : bound < type.ways) :
    ∃ after, lruAge bound type type.ways w s cache = .ok after ∧ Aged type s w bound cache after := by
  have initial : AgedBelow type s bound cache 0 cache := ⟨rfl, fun _ _ => rfl, by simp⟩
  obtain ⟨grown, looped, below⟩ := forLoop_ok (AgedBelow type s bound cache) initial
    (fun n after hn below => below.step room hs hn)
  have wide : grown.Room type := by
    rw [Cache.Room, below.size]
    exact room
  refine ⟨grown.put type s w ((grown.slot type s w).setAge type 0), ?_, below.size, ?_, ?_, ?_⟩
  · simp only [lruAge, looped, ok_bind, Cache.load_slot wide hs hw, Cache.store_slot wide hs hw]
  · intro k apart
    rw [Cache.entry_put_of_ne (apart w hw)]
    exact below.others k apart
  · intro i hi
    have loop : Entry.SameBlock type (grown.slot type s i) (cache.slot type s i) := by
      rw [below.grown i hi]
      split
      · exact .setAge _
      · exact .refl
    rcases eq_or_ne i w with rfl | other
    · rw [Cache.slot_put_self]
      exact (Entry.SameBlock.setAge 0).trans loop
    · rwa [Cache.slot_put_of_ne hw hi fun _ => other]
  · intro i hi
    rcases eq_or_ne i w with rfl | other
    · rw [Cache.slot_put_self, if_pos rfl, Entry.age_setAge, Nat.zero_mod]
    · rw [Cache.slot_put_of_ne hw hi fun _ => other, if_neg other, below.grown i hi]
      split
      · next young => rw [Entry.age_setAge, Nat.mod_eq_of_lt (by omega)]
      · rfl

theorem lruAgeIncrease_ok (room : cache.Room type) (hs : s < type.lines) (hw : w < type.ways) :
    ∃ after, lruAgeIncrease type type.ways w s cache = .ok after ∧
      Aged type s w (type.ways - 1) cache after :=
  lruAge_ok room hs hw (Nat.sub_lt CacheType.ways_pos Nat.one_pos)

theorem lruAgeUpdate_ok (room : cache.Room type) (hs : s < type.lines) (hw : w < type.ways) :
    ∃ after, lruAgeUpdate type type.ways w s cache = .ok after ∧
      Aged type s w ((cache.slot type s w).age type) cache after := by
  simp only [lruAgeUpdate, Cache.load_slot room hs hw, ok_bind]
  exact lruAge_ok room hs hw Entry.age_lt

/-- The line has no invalid way. -/
theorem findPlace_full (room : cache.Room type) (hs : s < type.lines)
    (full : ∀ i < type.ways, (cache.slot type s i).v = true) :
    findPlace cache type s = .ok hitWayMiss := by
  have passed : ∀ i < type.ways, ∃ result, findPlaceStep cache type s i = .ok result ∧
      ∀ value ∈ result, False := by
    intro i hi
    exact ⟨none, by simp [findPlaceStep, Cache.load_slot room hs hi, full i hi], by simp⟩
  obtain ⟨result, looped, nothing⟩ := returnLoop_ok _ passed
  rw [findPlace, looped]
  cases result with
  | none => rfl
  | some value => exact (nothing value rfl).elim

/-- The first invalid way is found. -/
theorem findPlace_free (room : cache.Room type) (hs : s < type.lines) (hw : w < type.ways)
    (before : ∀ i < w, (cache.slot type s i).v = true) (free : (cache.slot type s w).v = false) :
    findPlace cache type s = .ok w := by
  have passed : ∀ i < w, findPlaceStep cache type s i = .ok none := by
    intro i hi
    simp [findPlaceStep, Cache.load_slot room hs (hi.trans hw), before i hi]
  have found : findPlaceStep cache type s w = .ok (some w) := by
    simp [findPlaceStep, Cache.load_slot room hs hw, free]
  rw [findPlace, returnLoop_found hw passed found]
  rfl

/-- What the scan of `apply_lru` knows after `n` ways. -/
private def BestBelow (cache : Cache) (type : CacheType) (s n : ℕ) (best : ℕ × ℕ) : Prop :=
  (n = 0 → best.1 = 0) ∧ (0 < n → best.2 < n ∧ (cache.slot type s best.2).age type = best.1 ∧
    (∀ i < n, (cache.slot type s i).age type ≤ best.1) ∧
    ∀ i < n, best.2 < i → (cache.slot type s i).age type < best.1)

private theorem BestBelow.step {n : ℕ} {best : ℕ × ℕ} (room : cache.Room type) (hs : s < type.lines)
    (hn : n < type.ways) (below : BestBelow cache type s n best) :
    ∃ next, lruStep cache type s n best = .ok next ∧ BestBelow cache type s (n + 1) next := by
  obtain ⟨start, known⟩ := below
  rw [lruStep, Cache.load_slot room hs hn, ok_bind]
  by_cases older : (cache.slot type s n).age type ≥ best.1
  · rw [if_pos older, pure_eq_ok]
    refine ⟨_, rfl, by omega, fun _ => ⟨Nat.lt_succ_self n, rfl, ?_, by simp only; omega⟩⟩
    intro i hi
    rcases Nat.lt_succ_iff_lt_or_eq.mp hi with earlier | rfl
    · exact ((known (by omega)).2.2.1 i earlier).trans older
    · exact le_rfl
  · rw [if_neg older, pure_eq_ok]
    have positive : 0 < n := by
      by_contra zero
      have := start (by omega)
      omega
    obtain ⟨inside, age, most, later⟩ := known positive
    refine ⟨best, rfl, by omega, fun _ => ⟨by omega, age, ?_, ?_⟩⟩
    · intro i hi
      rcases Nat.lt_succ_iff_lt_or_eq.mp hi with earlier | rfl
      · exact most i earlier
      · exact Nat.le_of_lt (Nat.not_le.mp older)
    · intro i hi after
      rcases Nat.lt_succ_iff_lt_or_eq.mp hi with earlier | rfl
      · exact later i earlier after
      · exact Nat.not_le.mp older

/-- The chosen way has the largest age, and every later way a smaller one. -/
theorem applyLru_ok (room : cache.Room type) (hs : s < type.lines) :
    ∃ w < type.ways, applyLru cache type s = .ok w ∧
      (∀ i < type.ways, (cache.slot type s i).age type ≤ (cache.slot type s w).age type) ∧
      ∀ i < type.ways, w < i → (cache.slot type s i).age type < (cache.slot type s w).age type := by
  have initial : BestBelow cache type s 0 (0, 0) := ⟨fun _ => rfl, by omega⟩
  obtain ⟨⟨maxAge, w⟩, looped, _, chosen⟩ := forLoop_ok (BestBelow cache type s) initial
    (fun n best hn below => below.step room hs hn)
  obtain ⟨inside, age, most, later⟩ := chosen CacheType.ways_pos
  dsimp only at age inside most later
  subst age
  exact ⟨w, inside, by rw [applyLru, looped]; rfl, most, later⟩

end KabyLake
