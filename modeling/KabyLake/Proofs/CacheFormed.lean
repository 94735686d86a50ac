import KabyLake.Proofs.CacheAccess

/-! # Well-formed caches and the place of a block

The valid ways of a line come first and hold different blocks. In such a cache a lookup finds every
block that is there, although it stops at the first invalid way. A missing block goes to the first
invalid way or to the eldest one, and the cache stays well formed. A quiet cache has no valid entry
at all.
-/

namespace KabyLake

open Machine

variable {type : CacheType} {cache before after : Cache} {a s w tag bound : ℕ} {line : Line}
  {paddr : PhyAddr}

/-- The valid ways of each line are the first ones, and their tags differ. -/
structure Formed (type : CacheType) (cache : Cache) : Prop where
  room : cache.Room type
  first : ∀ s < type.lines, ∀ i < type.ways, ∀ j < i, (cache.slot type s i).v = true →
    (cache.slot type s j).v = true
  distinct : ∀ s < type.lines, ∀ i < type.ways, ∀ j < type.ways, (cache.slot type s i).v = true →
    (cache.slot type s j).v = true →
    (cache.slot type s i).tag type = (cache.slot type s j).tag type → i = j

/-- Way `w` holds the block of address `a`. -/
structure Holds (type : CacheType) (cache : Cache) (a w : ℕ) : Prop where
  way : w < type.ways
  v : (cache.slot type (type.lineOf a) w).v = true
  tag : (cache.slot type (type.lineOf a) w).tag type = type.tagOf a

/-- Way `w` is the first invalid way of the line. -/
structure Free (type : CacheType) (cache : Cache) (s w : ℕ) : Prop where
  way : w < type.ways
  first : ∀ i < w, (cache.slot type s i).v = true
  invalid : (cache.slot type s w).v = false

/-- All ways of the line are valid. -/
def Full (type : CacheType) (cache : Cache) (s : ℕ) : Prop :=
  ∀ i < type.ways, (cache.slot type s i).v = true

/-- The line is full, and way `w` is the last of those with the largest age. -/
structure Eldest (type : CacheType) (cache : Cache) (s w : ℕ) : Prop where
  way : w < type.ways
  full : Full type cache s
  most : ∀ i < type.ways, (cache.slot type s i).age type ≤ (cache.slot type s w).age type
  later : ∀ i < type.ways, w < i → (cache.slot type s i).age type < (cache.slot type s w).age type

theorem full_or_free (type : CacheType) (cache : Cache) (s : ℕ) :
    Full type cache s ∨ ∃ w, Free type cache s w := by
  by_cases full : ∃ w, w < type.ways ∧ (cache.slot type s w).v = false
  · obtain ⟨inside, invalid⟩ := Nat.find_spec full
    refine .inr ⟨Nat.find full, inside, ?_, invalid⟩
    intro i hi
    by_contra other
    exact Nat.find_min full hi ⟨hi.trans inside, by simpa using other⟩
  · refine .inl fun i hi => ?_
    by_contra other
    exact full ⟨i, hi, by simpa using other⟩

theorem Free.not_full (free : Free type cache s w) : ¬ Full type cache s := by
  intro full
  have := full w free.way
  rw [free.invalid] at this
  contradiction

theorem place_lt (place : Free type cache s w ∨ Eldest type cache s w) : w < type.ways := by
  rcases place with free | eldest
  · exact free.way
  · exact eldest.way

theorem Free.findPlace (free : Free type cache s w) (room : cache.Room type) (hs : s < type.lines) :
    findPlace cache type s = .ok w :=
  findPlace_free room hs free.way free.first free.invalid

theorem Full.applyLru (full : Full type cache s) (room : cache.Room type) (hs : s < type.lines) :
    ∃ w, applyLru cache type s = .ok w ∧ Eldest type cache s w := by
  obtain ⟨w, inside, chosen, most, later⟩ := applyLru_ok room hs
  exact ⟨w, chosen, inside, full, most, later⟩

/-- In a line whose first way is invalid no way is valid. -/
theorem Formed.empty (formed : Formed type cache) (hs : s < type.lines) (free : Free type cache s 0)
    {i : ℕ} (hi : i < type.ways) : (cache.slot type s i).v ≠ true := by
  intro valid
  rcases Nat.eq_zero_or_pos i with rfl | later
  · rw [free.invalid] at valid
    contradiction
  · have first := formed.first s hs i hi 0 later valid
    rw [free.invalid] at first
    contradiction

theorem Found.holds {a : ℕ} (found : Found type cache a w) : Holds type cache a w :=
  ⟨found.way, found.v, found.tag⟩

/-- A block of a well-formed cache is the one that a lookup stops at. -/
theorem Holds.found {a : ℕ} (holds : Holds type cache a w) (formed : Formed type cache) :
    Found type cache a w := by
  have hs := CacheType.lineOf_lt type a
  refine ⟨holds.way, fun i hi => ?_, holds.v, holds.tag⟩
  have valid := formed.first _ hs w holds.way i hi holds.v
  refine ⟨valid, fun same => ?_⟩
  have := formed.distinct _ hs i (hi.trans holds.way) w holds.way valid holds.v (same.trans holds.tag.symm)
  omega

/-- A lookup does not find a block that no way holds. -/
theorem not_found (absent : ∀ w, ¬ Holds type cache a w) : ¬ ∃ w, Found type cache a w :=
  fun ⟨w, found⟩ => absent w found.holds

/-- A valid way holds the block that its line and its tag name. -/
theorem Holds.of_slot (hs : s < type.lines) (hw : w < type.ways) (valid : (cache.slot type s w).v = true) :
    Holds type cache (type.blockStart ((cache.slot type s w).tag type) s) w := by
  constructor
  · exact hw
  · rwa [CacheType.lineOf_blockStart _ hs]
  · rw [CacheType.lineOf_blockStart _ hs, CacheType.tagOf_blockStart _ hs]

/-- Only the number of its block matters in an address. -/
theorem Holds.of_block {b : ℕ} (holds : Holds type cache a w) (same : a / 16 = b / 16) :
    Holds type cache b w := by
  constructor
  · exact holds.way
  · rw [CacheType.lineOf, ← same]
    exact holds.v
  · rw [CacheType.tagOf_eq, CacheType.lineOf, ← same, ← CacheType.tagOf_eq]
    exact holds.tag

/-- A way holds at most one block. -/
theorem Holds.block_eq {b : ℕ} (holds : Holds type cache a w) (again : Holds type cache b w)
    (lines : type.lineOf a = type.lineOf b) : a / 16 = b / 16 := by
  have tags := holds.tag.symm.trans (lines ▸ again.tag)
  have blocks := congrArg₂ type.blockStart tags lines
  rw [CacheType.blockStart_tagOf, CacheType.blockStart_tagOf] at blocks
  exact Nat.eq_of_mul_eq_mul_right (by decide) blocks

theorem Holds.unique {other : ℕ} (holds : Holds type cache a w) (formed : Formed type cache)
    (again : Holds type cache a other) : w = other :=
  formed.distinct _ (CacheType.lineOf_lt type a) w holds.way other again.way holds.v again.v
    (holds.tag.trans again.tag.symm)

theorem Aged.slot_other {t j : ℕ} (aged : Aged type s w bound before after) (other : t ≠ s)
    (hj : j < type.ways) : after.slot type t j = before.slot type t j := by
  apply aged.others
  intro i hi same
  exact other ((Cache.cacheEntry_inj hj hi).mp same).1

theorem Accessed.slot_other {t j : ℕ} (accessed : Accessed type s w tag bound line before after)
    (other : t ≠ s) (hj : j < type.ways) : after.slot type t j = before.slot type t j := by
  apply accessed.others
  intro i hi same
  exact other ((Cache.cacheEntry_inj hj hi).mp same).1

/-- Ageing keeps every block in its way. -/
theorem Aged.sameBlock (aged : Aged type s w bound before after) (t : ℕ) {j : ℕ} (hj : j < type.ways) :
    Entry.SameBlock type (after.slot type t j) (before.slot type t j) := by
  rcases eq_or_ne t s with rfl | other
  · exact aged.block j hj
  · rw [aged.slot_other other hj]
    exact .refl

/-- An access keeps every other block in its way. -/
theorem Accessed.sameBlock {t j : ℕ} (accessed : Accessed type s w tag bound line before after)
    (hj : j < type.ways) (other : ¬ (t = s ∧ j = w)) :
    Entry.SameBlock type (after.slot type t j) (before.slot type t j) := by
  rcases eq_or_ne t s with rfl | apart
  · exact accessed.block j hj fun way => other ⟨rfl, way⟩
  · rw [accessed.slot_other apart hj]
    exact .refl

/-- A way holds the same blocks as long as its entry stands for the same block. -/
theorem holds_congr {b k : ℕ} (same : k < type.ways → Entry.SameBlock type
    (after.slot type (type.lineOf b) k) (before.slot type (type.lineOf b) k)) :
    Holds type after b k ↔ Holds type before b k := by
  constructor
  · rintro ⟨way, v, tag⟩
    exact ⟨way, (same way).v.symm.trans v, (same way).tag.symm.trans tag⟩
  · rintro ⟨way, v, tag⟩
    exact ⟨way, (same way).v.trans v, (same way).tag.trans tag⟩

/-- Ageing moves no block. -/
theorem Aged.holds_iff {b k : ℕ} (aged : Aged type s w bound before after) :
    Holds type after b k ↔ Holds type before b k :=
  holds_congr fun way => aged.sameBlock _ way

/-- After an access its way holds the block of the tag, and every other way what it held before. -/
theorem Accessed.holds_iff {b k : ℕ} (accessed : Accessed type s w tag bound line before after)
    (hw : w < type.ways) :
    Holds type after b k ↔
      if type.lineOf b = s ∧ k = w then tag = type.tagOf b else Holds type before b k := by
  split
  · next written =>
    obtain ⟨rfl, rfl⟩ := written
    constructor
    · intro holds
      exact accessed.tag.symm.trans holds.tag
    · intro same
      exact ⟨hw, accessed.v, accessed.tag.trans same⟩
  · next other => exact holds_congr fun way => accessed.sameBlock way other

theorem Aged.formed (aged : Aged type s w bound before after) (formed : Formed type before) :
    Formed type after where
  room := aged.room formed.room
  first t ht i hi j hj valid := by
    rw [(aged.sameBlock t hi).v] at valid
    rw [(aged.sameBlock t (hj.trans hi)).v]
    exact formed.first t ht i hi j hj valid
  distinct t ht i hi j hj valid valid' same := by
    rw [(aged.sameBlock t hi).v] at valid
    rw [(aged.sameBlock t hj).v] at valid'
    rw [(aged.sameBlock t hi).tag, (aged.sameBlock t hj).tag] at same
    exact formed.distinct t ht i hi j hj valid valid' same

/-- An access keeps the cache well formed if no other way holds the block and no invalid way comes
before it. -/
theorem Accessed.formed (accessed : Accessed type s w tag bound line before after)
    (formed : Formed type before) (hw : w < type.ways)
    (earlier : ∀ i < w, (before.slot type s i).v = true)
    (alone : ∀ i < type.ways, i ≠ w → (before.slot type s i).v = true →
      (before.slot type s i).tag type ≠ tag) : Formed type after where
  room := accessed.room formed.room
  first t ht i hi j hj valid := by
    by_cases last : t = s ∧ j = w
    · rw [last.1, last.2]
      exact accessed.v
    · rw [(accessed.sameBlock (hj.trans hi) last).v]
      by_cases current : t = s ∧ i = w
      · rw [current.1]
        exact earlier j (current.2 ▸ hj)
      · rw [(accessed.sameBlock hi current).v] at valid
        exact formed.first t ht i hi j hj valid
  distinct t ht i hi j hj valid valid' same := by
    by_cases left : t = s ∧ i = w
    · obtain ⟨rfl, rfl⟩ := left
      by_contra other
      have kept := accessed.sameBlock hj (t := t) fun both => other both.2.symm
      rw [kept.v] at valid'
      rw [accessed.tag, kept.tag] at same
      exact alone j hj (Ne.symm other) valid' same.symm
    · rw [(accessed.sameBlock hi left).v] at valid
      by_cases right : t = s ∧ j = w
      · obtain ⟨rfl, rfl⟩ := right
        by_contra other
        rw [accessed.tag, (accessed.sameBlock hi left).tag] at same
        exact alone i hi other valid same
      · rw [(accessed.sameBlock hj right).v] at valid'
        rw [(accessed.sameBlock hi left).tag, (accessed.sameBlock hj right).tag] at same
        exact formed.distinct t ht i hi j hj valid valid' same

/-- Accessing a block where it is keeps the cache well formed. -/
theorem Accessed.formed_of_holds
    (accessed : Accessed type (type.lineOf a) w (type.tagOf a) bound line before after)
    (formed : Formed type before) (holds : Holds type before a w) : Formed type after := by
  refine accessed.formed formed holds.way ?_ ?_
  · exact fun i hi => formed.first _ (CacheType.lineOf_lt type a) w holds.way i hi holds.v
  · intro i hi other valid same
    exact other (Holds.unique ⟨hi, valid, same⟩ formed holds)

/-- Filling a chosen way with a missing block keeps the cache well formed. -/
theorem Accessed.formed_of_absent
    (accessed : Accessed type (type.lineOf a) w (type.tagOf a) bound line before after)
    (formed : Formed type before) (absent : ∀ w, ¬ Holds type before a w)
    (place : Free type before (type.lineOf a) w ∨ Eldest type before (type.lineOf a) w) :
    Formed type after := by
  have hw := place_lt place
  refine accessed.formed formed hw ?_ fun i hi _ valid same => absent i ⟨hi, valid, same⟩
  intro i hi
  rcases place with free | eldest
  · exact free.first i hi
  · exact eldest.full i (hi.trans hw)

/-- A cache without a valid entry. -/
structure Quiet (cache : Cache) : Prop where
  room : cache.Room .L2_CACHE
  v : ∀ k, (cache.entry k).v = false

/-- A quiet cache holds no block, whatever type its entries are taken for. -/
theorem Quiet.not_found (quiet : Quiet cache) : ¬ ∃ w, Found type cache a w := by
  rintro ⟨w, found⟩
  have valid := found.v
  rw [Cache.slot, quiet.v] at valid
  contradiction

/-- A lookup in a quiet cache finds nothing. -/
theorem Quiet.cacheHit (quiet : Quiet cache) (room : cache.Room type) (pLine : Line) :
    cacheHit cache paddr pLine type = .ok (cache, ⟨.errNone, hitWayMiss, hitIndexMiss, pLine⟩) :=
  cacheHit_unfound room pLine quiet.not_found

theorem Aged.quiet (aged : Aged .L2_CACHE s w bound before after) (quiet : Quiet before) :
    Quiet after where
  room := aged.room quiet.room
  v k := by
    by_cases inLine : ∃ i < CacheType.L2_CACHE.ways, k = cacheEntry CacheType.L2_CACHE.ways s i
    · obtain ⟨i, hi, rfl⟩ := inLine
      exact (aged.block i hi).v.trans (quiet.v _)
    · rw [aged.others k fun i hi same => inLine ⟨i, hi, same⟩]
      exact quiet.v k

/-- An entry that is inserted into L2 is stored in the first invalid way or in the eldest one, which
becomes the youngest. -/
theorem insertIntoL2_ok (entry : Entry) (room : cache.Room .L2_CACHE) (hs : s < CacheType.L2_CACHE.lines) :
    ∃ w bound stored after, insertIntoL2 (some entry) cache s = .ok after ∧
      (Free .L2_CACHE cache s w ∨ Eldest .L2_CACHE cache s w) ∧
      Entry.SameBlock .L2_CACHE stored entry ∧
      Aged .L2_CACHE s w bound (cache.put .L2_CACHE s w stored) after := by
  rcases full_or_free .L2_CACHE cache s with full | ⟨w, free⟩
  · obtain ⟨w, chosen, eldest⟩ := full.applyLru room hs
    obtain ⟨stored, inserted, same, _⟩ := cacheInsert_some entry room hs eldest.way
    have wide : (cache.put .L2_CACHE s w stored).Room .L2_CACHE := room
    obtain ⟨after, updated, aged⟩ := lruAgeUpdate_ok wide hs eldest.way
    refine ⟨w, _, stored, after, ?_, .inr eldest, same, aged⟩
    simp only [insertIntoL2, findPlace_full room hs full, ok_bind, ne_eq, not_true_eq_false, ↓reduceIte,
      chosen, inserted, updated]
  · obtain ⟨stored, inserted, same, _⟩ := cacheInsert_some entry room hs free.way
    have wide : (cache.put .L2_CACHE s w stored).Room .L2_CACHE := room
    obtain ⟨after, increased, aged⟩ := lruAgeIncrease_ok wide hs free.way
    have present : w ≠ hitWayMiss := (free.way.trans CacheType.ways_lt).ne
    refine ⟨w, _, stored, after, ?_, .inl free, same, aged⟩
    simp only [insertIntoL2, free.findPlace room hs, ok_bind, ne_eq, present, not_false_eq_true,
      ↓reduceIte, inserted, increased]

/-- An invalid entry that is inserted into a quiet L2 cache leaves it quiet. -/
theorem Quiet.insertIntoL2 (quiet : Quiet cache) (hs : s < CacheType.L2_CACHE.lines) (entry : Entry)
    (invalid : entry.v = false) :
    ∃ after, insertIntoL2 (some entry) cache s = .ok after ∧ Quiet after := by
  obtain ⟨w, bound, stored, after, inserted, _, same, aged⟩ := insertIntoL2_ok entry quiet.room hs
  refine ⟨after, inserted, aged.quiet ⟨quiet.room, fun k => ?_⟩⟩
  rcases eq_or_ne k (cacheEntry CacheType.L2_CACHE.ways s w) with rfl | other
  · have valid := same.v.trans invalid
    rwa [← Cache.slot, Cache.slot_put_self]
  · rw [Cache.entry_put_of_ne other]
    exact quiet.v k

end KabyLake
