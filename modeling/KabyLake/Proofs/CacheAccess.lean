import KabyLake.Model.CacheMng
import KabyLake.Proofs.Cache

/-! # One access to one cache

An access to a block, whether it hits, patches the line or fills a way, changes its cache in one
manner: `Accessed` says what becomes of the way that holds the block and of the other ways of the
line. The lemmas below derive it for the combinations of lookup, insertion and ageing that
`cache_read` and `cache_write` are made of.
-/

namespace KabyLake

open Machine

variable {type : CacheType}

/-- The byte address that `phy_addr_t_to_uint32_t` computes. -/
abbrev PhyAddr.address (paddr : PhyAddr) : ℕ := (phyAddrTToUint32T paddr).toNat

namespace CacheType

/-- The line that an address selects. -/
abbrev lineOf (type : CacheType) (a : ℕ) : ℕ := a / 16 % type.lines

/-- The tag of an address. -/
abbrev tagOf (type : CacheType) (a : ℕ) : ℕ := a >>> type.tagRemainingBits

/-- The address of the block with a given tag in a given line. -/
def blockStart (type : CacheType) (tag s : ℕ) : ℕ := (tag * type.lines + s) * 16

theorem lineOf_lt (type : CacheType) (a : ℕ) : type.lineOf a < type.lines := Nat.mod_lt _ lines_pos

theorem tagOf_eq (a : ℕ) : type.tagOf a = a / 16 / type.lines := by
  rw [tagOf, Nat.shiftRight_eq_div_pow, Nat.div_div_eq_div_mul]
  cases type <;> rfl

/-- Tag and line of an address determine its block. -/
theorem blockStart_tagOf (a : ℕ) : type.blockStart (type.tagOf a) (type.lineOf a) = a / 16 * 16 := by
  rw [blockStart, tagOf_eq, Nat.div_add_mod']

theorem lineOf_blockStart {s : ℕ} (tag : ℕ) (hs : s < type.lines) :
    type.lineOf (type.blockStart tag s) = s := by
  rw [lineOf, blockStart, Nat.mul_div_cancel _ (by decide), Nat.mul_add_mod', Nat.mod_eq_of_lt hs]

theorem tagOf_blockStart {s : ℕ} (tag : ℕ) (hs : s < type.lines) :
    type.tagOf (type.blockStart tag s) = tag := by
  rw [tagOf_eq, blockStart, Nat.mul_div_cancel _ (by decide), Nat.mul_comm tag, Nat.mul_add_div lines_pos,
    Nat.div_eq_of_lt hs, Nat.add_zero]

theorem tagOf_lt (paddr : PhyAddr) : type.tagOf paddr.address < 2 ^ type.tagBits := by
  have width : 2 ^ 32 = 2 ^ type.tagBits * 2 ^ type.tagRemainingBits := by cases type <;> rfl
  rw [tagOf, Nat.shiftRight_eq_div_pow, Nat.div_lt_iff_lt_mul (Nat.two_pow_pos _), ← width]
  exact BitVec.isLt _

/-- Blocks of one type are equal or do not overlap. -/
theorem blockStart_apart {s t tag other : ℕ} (hs : s < type.lines) (ht : t < type.lines)
    (different : ¬ (s = t ∧ tag = other)) :
    type.blockStart tag s + 16 ≤ type.blockStart other t ∨
      type.blockStart other t + 16 ≤ type.blockStart tag s := by
  have distinct : tag * type.lines + s ≠ other * type.lines + t := by
    intro same
    have tags : tag = other := by
      have := congrArg (· / type.lines) same
      simpa [Nat.add_div_of_dvd_right, lines_pos, Nat.div_eq_of_lt hs, Nat.div_eq_of_lt ht] using this
    subst tags
    exact different ⟨by omega, rfl⟩
  unfold blockStart
  omega

end CacheType

variable {cache before middle after : Cache} {s w tag bound : ℕ} {line : Line} {paddr : PhyAddr}

/-- The block `tag` of line `s` was accessed in way `w` and now consists of `line`. -/
structure Accessed (type : CacheType) (s w tag bound : ℕ) (line : Line) (before after : Cache) :
    Prop where
  size : after.size = before.size
  others : ∀ k, (∀ i < type.ways, k ≠ cacheEntry type.ways s i) → after.entry k = before.entry k
  v : (after.slot type s w).v = true
  tag : (after.slot type s w).tag type = tag
  line : (after.slot type s w).line = line
  age : (after.slot type s w).age type = 0
  block : ∀ i < type.ways, i ≠ w → Entry.SameBlock type (after.slot type s i) (before.slot type s i)
  ages : ∀ i < type.ways, i ≠ w → (after.slot type s i).age type =
    if (before.slot type s i).age type < bound then (before.slot type s i).age type + 1
    else (before.slot type s i).age type

theorem Aged.room (aged : Aged type s w bound before after) (room : before.Room type) :
    after.Room type := by
  rw [Cache.Room, aged.size]
  exact room

/-- Ageing on a valid way is an access to its block. -/
theorem Aged.accessed (aged : Aged type s w bound before after) (hw : w < type.ways)
    (valid : (before.slot type s w).v = true) :
    Accessed type s w ((before.slot type s w).tag type) bound (before.slot type s w).line
      before after where
  size := aged.size
  others := aged.others
  v := (aged.block w hw).v.trans valid
  tag := (aged.block w hw).tag
  line := (aged.block w hw).line
  age := by rw [aged.age w hw, if_pos rfl]
  block i hi _ := aged.block i hi
  ages i hi other := by rw [aged.age i hi, if_neg other]

/-- An inserted entry followed by ageing on its way is an access to the inserted block. -/
theorem Aged.accessed_put {entry : Entry}
    (aged : Aged type s w bound (before.put type s w entry) after) (hw : w < type.ways)
    (valid : entry.v = true) : Accessed type s w (entry.tag type) bound entry.line before after := by
  have slot := aged.block w hw
  rw [Cache.slot_put_self] at slot
  refine ⟨aged.size, ?_, slot.v.trans valid, slot.tag, slot.line, by rw [aged.age w hw, if_pos rfl],
    ?_, ?_⟩
  · intro k apart
    rw [aged.others k apart, Cache.entry_put_of_ne (apart w hw)]
  · intro i hi other
    have kept := aged.block i hi
    rwa [Cache.slot_put_of_ne hw hi fun _ => other] at kept
  · intro i hi other
    rw [aged.age i hi, if_neg other, Cache.slot_put_of_ne hw hi fun _ => other]

/-- Patching the line of the block that was accessed last, and ageing once more. -/
theorem Accessed.overwrite {content : Line} (accessed : Accessed type s w tag bound line before middle)
    (hw : w < type.ways)
    (aged : Aged type s w ((middle.slot type s w).age type)
      (middle.put type s w ((middle.slot type s w).setLine content)) after) :
    Accessed type s w tag bound content before after := by
  rw [accessed.age] at aged
  have again := aged.accessed_put hw accessed.v
  rw [Entry.tag_setLine, accessed.tag, Entry.line_setLine] at again
  refine ⟨again.size.trans accessed.size, ?_, again.v, again.tag, again.line, again.age, ?_, ?_⟩
  · intro k apart
    rw [again.others k apart, accessed.others k apart]
  · intro i hi other
    exact (again.block i hi other).trans (accessed.block i hi other)
  · intro i hi other
    rw [again.ages i hi other, if_neg (Nat.not_lt_zero _), accessed.ages i hi other]

theorem Accessed.room (accessed : Accessed type s w tag bound line before after)
    (room : before.Room type) : after.Room type := by
  rw [Cache.Room, accessed.size]
  exact room

/-- Way `w` is the one that a lookup of the address `a` stops at with a hit. -/
structure Found (type : CacheType) (cache : Cache) (a w : ℕ) : Prop where
  way : w < type.ways
  earlier : ∀ i < w, (cache.slot type (type.lineOf a) i).v = true ∧
    (cache.slot type (type.lineOf a) i).tag type ≠ type.tagOf a
  v : (cache.slot type (type.lineOf a) w).v = true
  tag : (cache.slot type (type.lineOf a) w).tag type = type.tagOf a

theorem Found.unique {a other : ℕ} (found : Found type cache a w) (again : Found type cache a other) :
    w = other := by
  rcases Nat.lt_trichotomy w other with less | same | more
  · exact ((again.earlier w less).2 found.tag).elim
  · exact same
  · exact ((found.earlier other more).2 again.tag).elim

/-- The loop of a lookup stops at the way of the block, which is then aged. -/
theorem Found.cacheHit_eq (found : Found type cache paddr.address w) (room : cache.Room type)
    (pLine : Line) : cacheHit cache paddr pLine type = (do
      let cache' ← lruAgeUpdate type type.ways w (type.lineOf paddr.address) cache
      return (cache', ⟨.errNone, w, type.lineOf paddr.address,
        (cache.slot type (type.lineOf paddr.address) w).line⟩)) := by
  obtain ⟨hw, earlier, valid, tag⟩ := found
  have hs := CacheType.lineOf_lt type paddr.address
  have looped : returnLoop (hitStep cache type (type.lineOf paddr.address)
      (type.tagOf paddr.address)) type.ways = .ok (some (some w)) := by
    apply returnLoop_found hw
    · intro i hi
      obtain ⟨present, other⟩ := earlier i hi
      simp [hitStep, Cache.load_slot room hs (hi.trans hw), present, Ne.symm other]
    · simp [hitStep, Cache.load_slot room hs hw, valid, tag]
  simp only [KabyLake.cacheHit, looped, ok_bind, Cache.load_slot room hs hw]

/-- A lookup that finds the block makes it the youngest one. -/
theorem Found.cacheHit (found : Found type cache paddr.address w) (room : cache.Room type)
    (pLine : Line) :
    ∃ after, cacheHit cache paddr pLine type = .ok (after, ⟨.errNone, w, type.lineOf paddr.address,
        (cache.slot type (type.lineOf paddr.address) w).line⟩) ∧
      Aged type (type.lineOf paddr.address) w
        ((cache.slot type (type.lineOf paddr.address) w).age type) cache after := by
  obtain ⟨after, updated, aged⟩ := lruAgeUpdate_ok room (CacheType.lineOf_lt type paddr.address) found.way
  exact ⟨after, by rw [found.cacheHit_eq room, updated]; rfl, aged⟩

/-- A lookup that finds nothing changes nothing. -/
theorem cacheHit_unfound (room : cache.Room type) (pLine : Line)
    (unfound : ¬ ∃ w, Found type cache paddr.address w) :
    cacheHit cache paddr pLine type =
      .ok (cache, ⟨.errNone, hitWayMiss, hitIndexMiss, pLine⟩) := by
  have hs := CacheType.lineOf_lt type paddr.address
  -- the loop passes the valid ways of other tags and stops at the first other way
  have looped : ∃ result, returnLoop (hitStep cache type (type.lineOf paddr.address)
      (type.tagOf paddr.address)) type.ways = .ok result ∧ ∀ value ∈ result, value = none := by
    by_cases stop : ∃ w, w < type.ways ∧ ¬ ((cache.slot type (type.lineOf paddr.address) w).v = true ∧
        (cache.slot type (type.lineOf paddr.address) w).tag type ≠ type.tagOf paddr.address)
    · obtain ⟨w, ⟨hw, here⟩, least⟩ : ∃ w, (w < type.ways ∧
          ¬ ((cache.slot type (type.lineOf paddr.address) w).v = true ∧
            (cache.slot type (type.lineOf paddr.address) w).tag type ≠ type.tagOf paddr.address)) ∧
          ∀ i < w, ¬ (i < type.ways ∧ ¬ ((cache.slot type (type.lineOf paddr.address) i).v = true ∧
            (cache.slot type (type.lineOf paddr.address) i).tag type ≠ type.tagOf paddr.address)) :=
        ⟨Nat.find stop, Nat.find_spec stop, fun i hi => Nat.find_min stop hi⟩
      have before : ∀ i < w, (cache.slot type (type.lineOf paddr.address) i).v = true ∧
          (cache.slot type (type.lineOf paddr.address) i).tag type ≠ type.tagOf paddr.address := by
        intro i hi
        by_contra other
        exact least i hi ⟨hi.trans hw, other⟩
      have invalid : (cache.slot type (type.lineOf paddr.address) w).v = false := by
        cases valid : (cache.slot type (type.lineOf paddr.address) w).v with
        | false => rfl
        | true =>
          rw [valid] at here
          exact (unfound ⟨w, hw, before, valid, not_not.mp fun other => here ⟨rfl, other⟩⟩).elim
      refine ⟨some none, returnLoop_found hw (fun i hi => ?_) ?_, by simp⟩
      · obtain ⟨present, other⟩ := before i hi
        simp [hitStep, Cache.load_slot room hs (hi.trans hw), present, Ne.symm other]
      · simp [hitStep, Cache.load_slot room hs hw, invalid]
    · apply returnLoop_ok
      intro i hi
      have passed : (cache.slot type (type.lineOf paddr.address) i).v = true ∧
          (cache.slot type (type.lineOf paddr.address) i).tag type ≠ type.tagOf paddr.address := by
        by_contra other
        exact stop ⟨i, hi, other⟩
      exact ⟨none, by simp [hitStep, Cache.load_slot room hs hi, passed.1, Ne.symm passed.2], by simp⟩
  obtain ⟨result, looped, nothing⟩ := looped
  simp only [cacheHit, looped, ok_bind]
  cases result with
  | none => rfl
  | some value =>
    obtain rfl := nothing value rfl
    rfl

/-- An inserted entry brings its block and its age; the padding of its way stays. -/
theorem cacheInsert_some (entry : Entry) (room : cache.Room type) (hs : s < type.lines)
    (hw : w < type.ways) :
    ∃ stored, cacheInsert s w (some entry) cache type = .ok (.errNone, cache.put type s w stored) ∧
      Entry.SameBlock type stored entry ∧ stored.age type = entry.age type := by
  refine ⟨((((cache.slot type s w).setLine entry.line).setV entry.v).setAge type
    (entry.age type)).setTag type (entry.tag type), ?_, ?_, ?_⟩
  · simp only [cacheInsert, Cache.load_slot room hs hw, Cache.store_slot room hs hw, ok_bind, pure_eq_ok]
    rw [if_neg (by omega)]
  · exact ⟨by simp, by simp [Nat.mod_eq_of_lt Entry.tag_lt], by simp⟩
  · simp [Nat.mod_eq_of_lt Entry.age_lt]

/-- An entry made at an aligned address holds the line of memory at that address. -/
theorem cacheEntryInit_aligned {memSpace : MemSpace} (type : CacheType) (garbage : Entry)
    (aligned : paddr.address % 16 = 0) (inside : paddr.address + 16 ≤ memSpace.size) :
    ∃ entry, cacheEntryInit memSpace paddr (some garbage) type = .ok (.errNone, some entry) ∧
      entry.v = true ∧ entry.age type = 0 ∧ entry.tag type = type.tagOf paddr.address ∧
      entry.line = memSpace.line paddr.address := by
  refine ⟨(((garbage.setV true).setAge type 0).setTag type (type.tagOf paddr.address)).setLine
    (memSpace.line paddr.address), ?_, ?_, ?_, ?_, ?_⟩
  · simp only [cacheEntryInit, aligned, ne_eq, not_true_eq_false, ↓reduceIte,
      MemSpace.readLine_ok inside, ok_bind, pure_eq_ok]
  · simp
  · simp
  · simp [Nat.mod_eq_of_lt (CacheType.tagOf_lt paddr)]
  · simp

end KabyLake
