import KabyLake.Proofs.CacheMove

/-! # When a read hit in L2 moves the block

A block that is in L2 and not in L1 should move to L1, and an L1 block that has to leave should move
to L2. The code does so in one situation only, in which the entry that is written over in set 0 of L2
happens to be the one that was hit.
-/

namespace KabyLake

open Machine

variable {memSpace : MemSpace} {paddr : PhyAddr} {access : MemAccess} {l1Cache l2Cache : Cache}
  {word : BitVec 32} {allocations : Allocations} {w : ℕ}

/-- The block of the address is in L2, with the given line. -/
def L2Holds (l2Cache : Cache) (a : ℕ) (line : Line) : Prop :=
  ∃ w, Holds .L2_CACHE l2Cache a w ∧ (l2Cache.slot .L2_CACHE (CacheType.L2_CACHE.lineOf a) w).line = line

/-- The read moves the block of the address from way `w` of L2 to L1, returns its word, and every
block that L1 loses is in L2 under its own set and tag. -/
structure MovesBlock (memSpace : MemSpace) (paddr : PhyAddr) (access : MemAccess)
    (l1Cache l2Cache : Cache) (w : ℕ) (reply : ReadReply) : Prop where
  code : reply.code = .errNone
  word : reply.word = memSpace.word paddr.address
  moved : ∃ i, Holds access.cacheType reply.l1Cache paddr.address i ∧
    (reply.l1Cache.slot access.cacheType (access.cacheType.lineOf paddr.address) i).line =
      (l2Cache.slot .L2_CACHE (CacheType.L2_CACHE.lineOf paddr.address) w).line
  released : ¬ ((reply.l2Cache.slot .L2_CACHE (CacheType.L2_CACHE.lineOf paddr.address) w).v = true ∧
    (reply.l2Cache.slot .L2_CACHE (CacheType.L2_CACHE.lineOf paddr.address) w).tag .L2_CACHE =
      CacheType.L2_CACHE.tagOf paddr.address)
  kept : ∀ s < access.cacheType.lines, ∀ i < access.cacheType.ways,
    (l1Cache.slot access.cacheType s i).v = true →
    (∀ j, ¬ Holds access.cacheType reply.l1Cache
      (access.cacheType.blockStart ((l1Cache.slot access.cacheType s i).tag access.cacheType) s) j) →
    L2Holds reply.l2Cache
      (access.cacheType.blockStart ((l1Cache.slot access.cacheType s i).tag access.cacheType) s)
      (l1Cache.slot access.cacheType s i).line

/-- The block is in the last way of set 0 of L2, whose ages are all zero; set 0 of L1 is full, and
L2 has room for the right tag of its eldest block or holds it anyway; and the L1 entry at position 7
is not needed. -/
structure LastWayHit (paddr : PhyAddr) (access : MemAccess) (l1Cache l2Cache : Cache) (w : ℕ)
    (allocations : Allocations) : Prop where
  pLine : allocations.pLine = true
  newentry : allocations.newentry ≠ none
  set : CacheType.L2_CACHE.lineOf paddr.address = 0
  way : w = 7
  ages : ∀ i < 8, (l2Cache.slot .L2_CACHE 0 i).age .L2_CACHE = 0
  full : Full access.cacheType l1Cache 0
  victim : ∀ i, Eldest access.cacheType l1Cache 0 i →
    (l1Cache.slot access.cacheType 0 i).tag access.cacheType / 2 % 2 ^ 19 ≠
      CacheType.L2_CACHE.tagOf paddr.address ∧
    ((l1Cache.slot access.cacheType 0 i).tag access.cacheType = 0 ∨
      ∃ j, Holds .L2_CACHE l2Cache (access.cacheType.blockStart
        ((l1Cache.slot access.cacheType 0 i).tag access.cacheType) 0) j)
  cleared : (l1Cache.slot access.cacheType 1 3).v = true →
    ∃ j, Holds .L2_CACHE l2Cache (access.cacheType.blockStart
      ((l1Cache.slot access.cacheType 1 3).tag access.cacheType) 1) j

section Levels

variable {s i j bound tag : ℕ} {line : Line} {middle after : Cache}

/-- Which blocks L1 loses: the one that is written over and the one whose valid bit is cleared. -/
theorem lost_iff (formed : Formed access.cacheType l1Cache)
    (absent : ∀ j, ¬ Holds access.cacheType l1Cache paddr.address j)
    (set : access.cacheType.lineOf paddr.address = 0) (hj : j < access.cacheType.ways)
    (accessed : Accessed access.cacheType 0 j (access.cacheType.tagOf paddr.address) bound line
      (l1Cache.clear w) after)
    (hs : s < access.cacheType.lines) (hi : i < access.cacheType.ways)
    (valid : (l1Cache.slot access.cacheType s i).v = true) :
    (∀ k, ¬ Holds access.cacheType after
      (access.cacheType.blockStart ((l1Cache.slot access.cacheType s i).tag access.cacheType) s) k) ↔
      s = 0 ∧ i = j ∨ cacheEntry access.cacheType.ways s i = w := by
  have held := Holds.of_slot hs hi valid
  have lines := CacheType.lineOf_blockStart ((l1Cache.slot access.cacheType s i).tag access.cacheType) hs
  constructor
  · intro lost
    by_contra other
    rw [not_or] at other
    apply lost i
    rw [accessed.holds_iff hj, lines, if_neg other.1, Cache.holds_clear, lines]
    exact ⟨other.2, held⟩
  · intro gone k again
    rw [accessed.holds_iff hj, lines] at again
    split at again
    · next written =>
      -- the way that was written holds the block of the address, which L1 did not have
      refine absent i ⟨hi, ?_, ?_⟩
      · rwa [set, ← written.1]
      · rw [set, ← written.1, again, CacheType.tagOf_blockStart _ hs]
    · next other =>
      rw [Cache.holds_clear, lines] at again
      obtain rfl := again.2.unique formed held
      rcases gone with here | here
      · exact other here
      · exact again.1 here

/-- A block that L1 has is not the block of an address that L1 does not have. -/
theorem other_block {type : CacheType} {a b : ℕ} (absent : ∀ k, ¬ Holds type l1Cache a k)
    (held : Holds type l1Cache b i) (holds : Holds .L2_CACHE l2Cache a w) :
    ¬ (CacheType.L2_CACHE.lineOf b = CacheType.L2_CACHE.lineOf a ∧ Holds .L2_CACHE l2Cache b w) := by
  rintro ⟨lines, again⟩
  exact absent i (held.of_block (again.block_eq holds lines))

/-- What L2 holds after an entry was written to way `w` of set 0. -/
theorem l2Holds_iff {content : Line} {b bound' : ℕ} (hw : w < CacheType.L2_CACHE.ways)
    (aged : Aged .L2_CACHE 0 w bound l2Cache middle)
    (accessed : Accessed .L2_CACHE 0 w tag bound' line middle after)
    (other : ¬ (CacheType.L2_CACHE.lineOf b = 0 ∧ Holds .L2_CACHE l2Cache b w)) :
    L2Holds after b content ↔
      CacheType.L2_CACHE.lineOf b = 0 ∧ tag = CacheType.L2_CACHE.tagOf b ∧ line = content ∨
      L2Holds l2Cache b content := by
  constructor
  · rintro ⟨k, again, lines⟩
    have before := (accessed.holds_iff hw).mp again
    split at before
    · next written =>
      obtain ⟨zero, rfl⟩ := written
      rw [zero, accessed.line] at lines
      exact .inl ⟨zero, before, lines⟩
    · next apart =>
      have same := (accessed.sameBlock again.way apart).trans (aged.sameBlock _ again.way)
      exact .inr ⟨k, aged.holds_iff.mp before, same.line.symm.trans lines⟩
  · rintro (⟨zero, tags, lines⟩ | ⟨k, held, lines⟩)
    · refine ⟨w, (accessed.holds_iff hw).mpr ?_, ?_⟩
      · rwa [if_pos ⟨zero, rfl⟩]
      · rw [zero, accessed.line, lines]
    · have apart : ¬ (CacheType.L2_CACHE.lineOf b = 0 ∧ k = w) :=
        fun written => other ⟨written.1, written.2 ▸ held⟩
      have same := (accessed.sameBlock held.way apart).trans (aged.sameBlock _ held.way)
      refine ⟨k, (accessed.holds_iff hw).mpr ?_, same.line.trans lines⟩
      rw [if_neg apart]
      exact aged.holds_iff.mpr held

/-- The way that was used last is the eldest one only if no way has an age and it is the last way. -/
theorem eldest_used (aged : Aged .L2_CACHE 0 w ((l2Cache.slot .L2_CACHE 0 w).age .L2_CACHE) l2Cache middle)
    (eldest : Eldest .L2_CACHE middle 0 w) :
    w = 7 ∧ ∀ i < 8, (l2Cache.slot .L2_CACHE 0 i).age .L2_CACHE = 0 := by
  have hw : w < 8 := eldest.way
  have young : (middle.slot .L2_CACHE 0 w).age .L2_CACHE = 0 := by rw [aged.age w hw, if_pos rfl]
  have zero : ∀ i < 8, i ≠ w → (l2Cache.slot .L2_CACHE 0 i).age .L2_CACHE = 0 ∧
      (l2Cache.slot .L2_CACHE 0 w).age .L2_CACHE = 0 := by
    intro i hi other
    have most := eldest.most i hi
    rw [young, aged.age i hi, if_neg other] at most
    split at most <;> omega
  have last : w = 7 := by
    by_contra before
    have later := eldest.later 7 (by decide) (by omega)
    omega
  refine ⟨last, fun i hi => ?_⟩
  rcases eq_or_ne i w with rfl | other
  · exact (zero 0 (by decide) (by omega)).2
  · exact (zero i hi other).1

theorem eldest_last (aged : Aged .L2_CACHE 0 w ((l2Cache.slot .L2_CACHE 0 w).age .L2_CACHE) l2Cache middle)
    (hw : w < 8) (ages : ∀ i < 8, (l2Cache.slot .L2_CACHE 0 i).age .L2_CACHE = 0)
    (eldest : Eldest .L2_CACHE middle 0 j) : j = 7 := by
  have young (i : ℕ) (hi : i < 8) : (middle.slot .L2_CACHE 0 i).age .L2_CACHE = 0 := by
    rw [aged.age i hi, ages w hw, ages i hi]
    simp
  have hj : j < 8 := eldest.way
  by_contra before
  have later := eldest.later 7 (by decide) (by omega)
  rw [young 7 (by decide), young j hj] at later
  omega

end Levels

theorem Eldest.unique {type : CacheType} {cache : Cache} {s i j : ℕ} (eldest : Eldest type cache s i)
    (again : Eldest type cache s j) : i = j := by
  rcases Nat.lt_trichotomy i j with less | same | more
  · have later := eldest.later j again.way less
    have most := again.most i eldest.way
    omega
  · exact same
  · have later := again.later i eldest.way more
    have most := eldest.most j again.way
    omega

theorem eldest_clear {type : CacheType} {cache : Cache} {i k : ℕ} (outside : type.ways ≤ k) :
    Eldest type (cache.clear k) 0 i ↔ Eldest type cache 0 i := by
  have valid (j : ℕ) (hj : j < type.ways) :
      ((cache.clear k).slot type 0 j).v = true ↔ (cache.slot type 0 j).v = true := by
    rw [Cache.v_slot_clear]
    exact and_iff_right (by simp only [cacheEntry]; omega)
  constructor
  · rintro ⟨way, full, most, later⟩
    refine ⟨way, fun j hj => (valid j hj).mp (full j hj), ?_, ?_⟩
    · simpa only [Cache.age_slot_clear] using most
    · simpa only [Cache.age_slot_clear] using later
  · rintro ⟨way, full, most, later⟩
    refine ⟨way, fun j hj => (valid j hj).mpr (full j hj), ?_, ?_⟩
    · simpa only [Cache.age_slot_clear] using most
    · simpa only [Cache.age_slot_clear] using later

private theorem half_eq (q : ℕ) : 8 * q / 2 = q + 3 * q := by omega

private theorem tag_eq_zero {t : ℕ} (small : t < 2 ^ 22) (low : t % 8 = 0)
    (same : t / 2 % 2 ^ 19 = t / 8) : t = 0 := by
  obtain ⟨q, rfl⟩ := Nat.dvd_of_mod_eq_zero low
  have bounded : q < 2 ^ 19 := by
    rw [show (2 : ℕ) ^ 22 = 8 * 2 ^ 19 from rfl] at small
    exact Nat.lt_of_mul_lt_mul_left small
  rw [half_eq, Nat.mul_div_cancel_left q (by decide)] at same
  have divides := Nat.sub_mod_eq_zero_of_mod_eq (same.trans (Nat.mod_eq_of_lt bounded).symm)
  rw [Nat.add_sub_cancel_left] at divides
  have coprime : Nat.Coprime (2 ^ 19) 3 := Nat.Coprime.pow_left 19 (by decide)
  rw [Nat.eq_zero_of_dvd_of_lt (coprime.dvd_of_dvd_mul_left (Nat.dvd_of_mod_eq_zero divides)) bounded]

private theorem word_of_block {a : ℕ} (aligned : a % 4 = 0) :
    (memSpace.line (a / 16 * 16)).word (wordOf a) = memSpace.word a := by
  have inside : wordOf a < 4 := by
    simp only [wordOf]
    omega
  rw [MemSpace.word_line _ inside]
  have position : a / 16 * 16 + 4 * wordOf a = a := by
    simp only [wordOf]
    omega
  rw [position]

section Reply

variable {i j bound bound' : ℕ} {middle after l2 : Cache}
  (formed : Formed access.cacheType l1Cache)
  (coherent : Coherent access.cacheType memSpace l1Cache) (coherent2 : Coherent .L2_CACHE memSpace l2Cache)
  (absent : ∀ i, ¬ Holds access.cacheType l1Cache paddr.address i)
  (holds : Holds .L2_CACHE l2Cache paddr.address w)
  (set : CacheType.L2_CACHE.lineOf paddr.address = 0)

include coherent coherent2 absent holds set in
private theorem kept_iff {s k : ℕ} (hs : s < access.cacheType.lines) (hk : k < access.cacheType.ways)
    (valid : (l1Cache.slot access.cacheType s k).v = true) {tag : ℕ} {line : Line}
    (aged : Aged .L2_CACHE 0 w ((l2Cache.slot .L2_CACHE 0 w).age .L2_CACHE) l2Cache middle)
    (accessed : Accessed .L2_CACHE 0 w tag bound' line middle l2) :
    L2Holds l2 (access.cacheType.blockStart ((l1Cache.slot access.cacheType s k).tag access.cacheType) s)
        (l1Cache.slot access.cacheType s k).line ↔
      (s = 0 ∧ (l1Cache.slot access.cacheType s k).tag access.cacheType % 8 = 0 ∧
        tag = (l1Cache.slot access.cacheType s k).tag access.cacheType / 8 ∧
        line = (l1Cache.slot access.cacheType s k).line) ∨
      ∃ j, Holds .L2_CACHE l2Cache (access.cacheType.blockStart
        ((l1Cache.slot access.cacheType s k).tag access.cacheType) s) j := by
  have held := Holds.of_slot hs hk valid
  have other := other_block absent held holds
  have lines := coherent.line_of_holds held
  rw [CacheType.lineOf_blockStart _ hs] at lines
  rw [set] at other
  rw [l2Holds_iff holds.way aged accessed other]
  rw [MemAccess.lines_cacheType] at hs
  apply or_congr
  · -- the block number of the tag `t` in line `s` is `t * 64 + s`
    rw [CacheType.tagOf_eq, CacheType.lineOf, CacheType.blockStart, MemAccess.lines_cacheType,
      Nat.mul_div_cancel _ (by decide), show CacheType.L2_CACHE.lines = 512 from rfl]
    constructor
    · rintro ⟨zero, tags, lines⟩
      exact ⟨by omega, by omega, by omega, lines⟩
    · rintro ⟨zero, low, tags, lines⟩
      exact ⟨by omega, by omega, lines⟩
  · apply exists_congr
    intro j
    -- both levels hold the block as it is in the memory
    exact and_iff_left_of_imp fun there => (coherent2.line_of_holds there).trans lines.symm

include holds set in
private theorem released_iff {tag : ℕ} {line : Line}
    (aged : Aged .L2_CACHE 0 w ((l2Cache.slot .L2_CACHE 0 w).age .L2_CACHE) l2Cache middle)
    (accessed : Accessed .L2_CACHE 0 j tag bound' line middle l2) :
    ¬ ((l2.slot .L2_CACHE 0 w).v = true ∧
      (l2.slot .L2_CACHE 0 w).tag .L2_CACHE = CacheType.L2_CACHE.tagOf paddr.address) ↔
      j = w ∧ tag ≠ CacheType.L2_CACHE.tagOf paddr.address := by
  have v := holds.v
  have kept := holds.tag
  rw [set] at v kept
  rcases eq_or_ne j w with rfl | other
  · rw [accessed.v, accessed.tag]
    simp
  · have same := (accessed.block w holds.way (Ne.symm other)).trans (aged.block w holds.way)
    rw [same.v, same.tag]
    simp [v, kept, other]

include formed coherent coherent2 absent holds set in
/-- When the entry of the block was written over in L2, it has all blocks that L1 loses exactly when
it had them before, except that the block with tag zero arrives with its right tag. -/
private theorem keptAll_iff
    (aged : Aged .L2_CACHE 0 w ((l2Cache.slot .L2_CACHE 0 w).age .L2_CACHE) l2Cache middle)
    (eldest : Eldest access.cacheType (l1Cache.clear w) 0 i)
    (accessed : Accessed access.cacheType 0 i (access.cacheType.tagOf paddr.address) bound
      (middle.slot .L2_CACHE 0 w).line (l1Cache.clear w) after)
    (accessed2 : Accessed .L2_CACHE 0 w
      ((l1Cache.slot access.cacheType 0 i).tag access.cacheType / 2 % 2 ^ 19) bound'
      (l1Cache.slot access.cacheType 0 i).line middle l2) :
    (∀ s < access.cacheType.lines, ∀ k < access.cacheType.ways,
        (l1Cache.slot access.cacheType s k).v = true →
        (∀ j, ¬ Holds access.cacheType after
          (access.cacheType.blockStart ((l1Cache.slot access.cacheType s k).tag access.cacheType) s) j) →
        L2Holds l2 (access.cacheType.blockStart
          ((l1Cache.slot access.cacheType s k).tag access.cacheType) s)
          (l1Cache.slot access.cacheType s k).line) ↔
      ((l1Cache.slot access.cacheType 0 i).tag access.cacheType = 0 ∨
        ∃ j, Holds .L2_CACHE l2Cache (access.cacheType.blockStart
          ((l1Cache.slot access.cacheType 0 i).tag access.cacheType) 0) j) ∧
      ∀ s < access.cacheType.lines, ∀ k < access.cacheType.ways,
        (l1Cache.slot access.cacheType s k).v = true → cacheEntry access.cacheType.ways s k = w →
        ∃ j, Holds .L2_CACHE l2Cache (access.cacheType.blockStart
          ((l1Cache.slot access.cacheType s k).tag access.cacheType) s) j := by
  have set1 : access.cacheType.lineOf paddr.address = 0 := MemAccess.lineOf_eq_zero set
  have hs : 0 < access.cacheType.lines := CacheType.lines_pos
  have valid (k : ℕ) (hk : k < access.cacheType.ways) := Cache.v_slot_clear.mp (eldest.full k hk)
  have small : (l1Cache.slot access.cacheType 0 i).tag access.cacheType < 2 ^ 22 := by
    have small : (l1Cache.slot access.cacheType 0 i).tag access.cacheType <
        2 ^ access.cacheType.tagBits := Entry.tag_lt
    cases access <;> exact small
  constructor
  · intro kept
    constructor
    · have present := (valid i eldest.way).2
      have lost := (lost_iff formed absent set1 eldest.way accessed hs eldest.way present).mpr (.inl ⟨rfl, rfl⟩)
      rcases (kept_iff coherent coherent2 absent holds set hs eldest.way present aged accessed2).mp
        (kept 0 hs i eldest.way present lost) with ⟨_, low, tags, _⟩ | held
      · exact .inl (tag_eq_zero small low tags)
      · exact .inr held
    · intro s hs' k hk present cleared
      have lost := (lost_iff formed absent set1 eldest.way accessed hs' hk present).mpr (.inr cleared)
      rcases (kept_iff coherent coherent2 absent holds set hs' hk present aged accessed2).mp
        (kept s hs' k hk present lost) with ⟨rfl, _⟩ | held
      · exact ((valid k hk).1 cleared).elim
      · exact held
  · rintro ⟨victim, cleared⟩ s hs' k hk present lost
    apply (kept_iff coherent coherent2 absent holds set hs' hk present aged accessed2).mpr
    rcases (lost_iff formed absent set1 eldest.way accessed hs' hk present).mp lost with ⟨rfl, rfl⟩ | gone
    · rcases victim with zero | held
      · refine .inl ⟨rfl, ?_, ?_, rfl⟩
        · rw [zero]
        · rw [zero]
          rfl
      · exact .inr held
    · exact .inr (cleared s hs' k hk present gone)

include formed coherent coherent2 absent holds set in
/-- A reply of the path with a full line moves the block exactly when the entry that is written over
in L2 is the one that was hit, its new tag is another one, and L2 has the blocks that L1 loses. -/
private theorem moves_iff (aligned : paddr.address % 4 = 0)
    (aged : Aged .L2_CACHE 0 w ((l2Cache.slot .L2_CACHE 0 w).age .L2_CACHE) l2Cache middle)
    (eldest : Eldest access.cacheType (l1Cache.clear w) 0 i)
    (accessed : Accessed access.cacheType 0 i (access.cacheType.tagOf paddr.address) bound
      (middle.slot .L2_CACHE 0 w).line (l1Cache.clear w) after)
    (accessed2 : Accessed .L2_CACHE 0 j
      (((l1Cache.clear w).slot access.cacheType 0 i).tag .L2_CACHE) bound'
      ((l1Cache.clear w).slot access.cacheType 0 i).line middle l2) :
    MovesBlock memSpace paddr access l1Cache l2Cache w
        ⟨.errNone, after, l2, (middle.slot .L2_CACHE 0 w).line.word (wordOf paddr.address)⟩ ↔
      j = w ∧
      ((l1Cache.slot access.cacheType 0 i).tag access.cacheType / 2 % 2 ^ 19 ≠
        CacheType.L2_CACHE.tagOf paddr.address ∧
      ((l1Cache.slot access.cacheType 0 i).tag access.cacheType = 0 ∨
        ∃ j, Holds .L2_CACHE l2Cache (access.cacheType.blockStart
          ((l1Cache.slot access.cacheType 0 i).tag access.cacheType) 0) j)) ∧
      ∀ s < access.cacheType.lines, ∀ k < access.cacheType.ways,
        (l1Cache.slot access.cacheType s k).v = true → cacheEntry access.cacheType.ways s k = w →
        ∃ j, Holds .L2_CACHE l2Cache (access.cacheType.blockStart
          ((l1Cache.slot access.cacheType s k).tag access.cacheType) s) j := by
  have set1 : access.cacheType.lineOf paddr.address = 0 := MemAccess.lineOf_eq_zero set
  have used := aged.block w holds.way
  rw [Entry.tag_L2 _ access, Cache.tag_slot_clear, Cache.line_slot_clear] at accessed2
  have gives := released_iff holds set aged accessed2
  constructor
  · intro moves
    have released := moves.released
    rw [set] at released
    obtain ⟨rfl, different⟩ := gives.mp released
    obtain ⟨victim, cleared⟩ := (keptAll_iff formed coherent coherent2 absent holds set aged eldest
      accessed accessed2).mp moves.kept
    exact ⟨rfl, ⟨different, victim⟩, cleared⟩
  · rintro ⟨rfl, ⟨different, victim⟩, cleared⟩
    constructor
    · rfl
    · have content := coherent2.line_of_holds holds
      rw [set] at content
      exact (congrArg (Line.word · _) (used.line.trans content)).trans (word_of_block aligned)
    · refine ⟨i, ⟨eldest.way, ?_, ?_⟩, ?_⟩
      · rw [set1]
        exact accessed.v
      · rw [set1]
        exact accessed.tag
      · rw [set1, set, accessed.line, used.line]
    · rw [set]
      exact gives.mpr ⟨rfl, different⟩
    · exact (keptAll_iff formed coherent coherent2 absent holds set aged eldest accessed
        accessed2).mpr ⟨victim, cleared⟩

end Reply

section Main

variable (size1 : l1Cache.size = 64 * 4) (size2 : l2Cache.size = 512 * 8)
  (formed : Formed access.cacheType l1Cache) (formed2 : Formed .L2_CACHE l2Cache)
  (coherent : Coherent access.cacheType memSpace l1Cache) (coherent2 : Coherent .L2_CACHE memSpace l2Cache)
  (aligned : paddr.address % 4 = 0)
  (absent : ∀ i, ¬ Holds access.cacheType l1Cache paddr.address i)
  (holds : Holds .L2_CACHE l2Cache paddr.address w)

include formed2 holds in
/-- Way `j`, which is written over in L2, is the way that was hit exactly in the one situation. -/
private theorem lastWayHit_iff {i j : ℕ} {middle : Cache} (pLine : allocations.pLine = true)
    (newentry : allocations.newentry ≠ none) (set : CacheType.L2_CACHE.lineOf paddr.address = 0)
    (aged : Aged .L2_CACHE 0 w ((l2Cache.slot .L2_CACHE 0 w).age .L2_CACHE) l2Cache middle)
    (full : Full access.cacheType (l1Cache.clear w) 0)
    (eldest : Eldest access.cacheType (l1Cache.clear w) 0 i)
    (place : Free .L2_CACHE middle 0 j ∨ Eldest .L2_CACHE middle 0 j) :
    (j = w ∧
      ((l1Cache.slot access.cacheType 0 i).tag access.cacheType / 2 % 2 ^ 19 ≠
        CacheType.L2_CACHE.tagOf paddr.address ∧
      ((l1Cache.slot access.cacheType 0 i).tag access.cacheType = 0 ∨
        ∃ j, Holds .L2_CACHE l2Cache (access.cacheType.blockStart
          ((l1Cache.slot access.cacheType 0 i).tag access.cacheType) 0) j)) ∧
      ∀ s < access.cacheType.lines, ∀ k < access.cacheType.ways,
        (l1Cache.slot access.cacheType s k).v = true → cacheEntry access.cacheType.ways s k = w →
        ∃ j, Holds .L2_CACHE l2Cache (access.cacheType.blockStart
          ((l1Cache.slot access.cacheType s k).tag access.cacheType) s) j) ↔
      LastWayHit paddr access l1Cache l2Cache w allocations := by
  have outside : access.cacheType.ways ≤ 7 := by cases access <;> decide
  have v := holds.v
  rw [set] at v
  constructor
  · rintro ⟨rfl, victim, cleared⟩
    have eldest2 : Eldest .L2_CACHE middle 0 j := by
      rcases place with free | eldest2
      · have invalid := free.invalid
        rw [(aged.block j holds.way).v, v] at invalid
        contradiction
      · exact eldest2
    obtain ⟨rfl, ages⟩ := eldest_used aged eldest2
    refine ⟨pLine, newentry, set, rfl, ages, fun k hk => (Cache.v_slot_clear.mp (full k hk)).2, ?_, ?_⟩
    · intro k again
      obtain rfl := eldest.unique ((eldest_clear outside).mpr again)
      exact victim
    · intro present
      exact cleared 1 (by cases access <;> decide) 3 (by cases access <;> decide) present
        (by cases access <;> rfl)
  · intro last
    have way := last.way
    have middleFull : Full .L2_CACHE middle 0 := by
      intro k hk
      rw [(aged.block k hk).v]
      rcases eq_or_ne k w with rfl | other
      · exact v
      · have hk' : k < 8 := hk
        exact formed2.first 0 CacheType.lines_pos w holds.way k (by omega) v
    have eldest2 : Eldest .L2_CACHE middle 0 j :=
      place.resolve_left fun free => free.not_full middleFull
    obtain rfl : j = w := (eldest_last aged holds.way last.ages eldest2).trans way.symm
    refine ⟨rfl, last.victim i ((eldest_clear (way ▸ outside)).mp eldest), ?_⟩
    intro s hs k hk present position
    rw [way, MemAccess.ways_cacheType, cacheEntry] at position
    rw [MemAccess.ways_cacheType] at hk
    obtain ⟨rfl, rfl⟩ : s = 1 ∧ k = 3 := by omega
    exact last.cleared present

include formed formed2 coherent coherent2 aligned absent holds in
private theorem movesBlock_set_zero (pLine : allocations.pLine = true)
    (newentry : allocations.newentry ≠ none)
    (set : CacheType.L2_CACHE.lineOf paddr.address = 0) :
    (∃ reply, cacheRead memSpace paddr access l1Cache l2Cache word allocations = .ok reply ∧
        MovesBlock memSpace paddr access l1Cache l2Cache w reply) ↔
      LastWayHit paddr access l1Cache l2Cache w allocations := by
  obtain ⟨garbage, available⟩ := Option.ne_none_iff_exists'.mp newentry
  have unfound : ¬ ∃ i, Found access.cacheType l1Cache paddr.address i := not_found absent
  obtain ⟨middle, ran, aged⟩ := cacheRead_second memSpace word formed.room formed2.room
    pLine unfound (holds.found formed2)
  have set1 : access.cacheType.lineOf paddr.address = 0 := MemAccess.lineOf_eq_zero set
  rw [set, set1, available] at ran
  rw [set] at aged
  have room2 := aged.room formed2.room
  have small : access.cacheType.tagOf paddr.address < 2 ^ access.cacheType.tagBits :=
    CacheType.tagOf_lt paddr
  rcases full_or_free access.cacheType (l1Cache.clear w) 0 with full | ⟨i, free⟩
  · obtain ⟨i, bound, after, eldest, accessed, filled⟩ := hitL2_full (wordOf paddr.address) word
      garbage formed.room room2 holds.way small full
    obtain ⟨j, bound', l2, inserted, place, accessed2⟩ := insertIntoL2_accessed room2
      CacheType.lines_pos (eldest.full i eldest.way)
    rw [inserted, ok_bind] at filled
    rw [filled] at ran
    have moves := (moves_iff formed coherent coherent2 absent holds set aligned aged eldest accessed
      accessed2).trans (lastWayHit_iff formed2 holds pLine newentry set aged full eldest place)
    constructor
    · rintro ⟨reply, again, moved⟩
      obtain rfl := Except.ok.inj (ran.symm.trans again)
      exact moves.mp moved
    · intro last
      exact ⟨_, ran, moves.mpr last⟩
  · -- L2 keeps the block
    obtain ⟨after, filled⟩ := hitL2_free (wordOf paddr.address) word garbage formed.room room2
      holds.way small free
    rw [filled] at ran
    constructor
    · rintro ⟨reply, again, moved⟩
      obtain rfl := Except.ok.inj (ran.symm.trans again)
      have used := aged.block w holds.way
      have v := holds.v
      have tag := holds.tag
      have released := moved.released
      rw [set] at v tag released
      exact (released ⟨used.v.trans v, used.tag.trans tag⟩).elim
    · intro last
      refine (free.not_full fun k hk => Cache.v_slot_clear.mpr ⟨?_, last.full k hk⟩).elim
      rw [MemAccess.ways_cacheType] at hk
      rw [last.way, MemAccess.ways_cacheType, cacheEntry]
      omega

include size1 size2 formed formed2 coherent coherent2 aligned absent holds in
/-- A read of a block that L1 does not have and L2 has moves it exactly in the one situation. -/
theorem movesBlock_iff :
    (∃ reply, cacheRead memSpace paddr access l1Cache l2Cache word allocations = .ok reply ∧
        MovesBlock memSpace paddr access l1Cache l2Cache w reply) ↔
      LastWayHit paddr access l1Cache l2Cache w allocations := by
  have room := formed.room
  have unfound : ¬ ∃ i, Found access.cacheType l1Cache paddr.address i := not_found absent
  cases pLine : allocations.pLine with
  | false =>
    have early : cacheRead memSpace paddr access l1Cache l2Cache word allocations =
        .ok ⟨.errBadParameter, l1Cache, l2Cache, word⟩ := by
      simp only [cacheRead, pLine, Bool.not_false, ↓reduceIte, pure_eq_ok]
    refine iff_of_false ?_ fun last => by simp [last.pLine] at pLine
    rintro ⟨reply, again, moved⟩
    rw [early] at again
    obtain rfl := Except.ok.inj again
    exact absurd (show ErrorCode.errBadParameter = .errNone from moved.code) (by decide)
  | true =>
    obtain ⟨middle, ran, aged⟩ := cacheRead_second memSpace word room formed2.room pLine unfound
      (holds.found formed2)
    by_cases newentry : allocations.newentry = none
    · refine iff_of_false ?_ fun last => last.newentry newentry
      rintro ⟨reply, again, moved⟩
      rw [ran, newentry] at again
      obtain rfl := Except.ok.inj again
      exact absurd (show ErrorCode.errBadParameter = .errNone from moved.code) (by decide)
    · by_cases set : CacheType.L2_CACHE.lineOf paddr.address = 0
      · exact movesBlock_set_zero formed formed2 coherent coherent2 aligned absent holds pLine newentry set
      · refine iff_of_false ?_ fun last => set last.set
        rintro ⟨reply, again, _⟩
        rw [ran, hitL2_strays size1 (aged.size.trans size2) set newentry] at again
        contradiction

end Main

section Examples

variable {type : CacheType} {tags : List ℕ} {k : ℕ}

def tagged (type : CacheType) (tags : List ℕ) : Cache :=
  ⟨type.lines * type.ways, fun k =>
    if k < tags.length then ((⟨0#32, Line.zero⟩ : Entry).setV true).setTag type (tags.getD k 0)
    else ⟨0#32, Line.zero⟩⟩

theorem v_tagged : ((tagged type tags).entry k).v = true ↔ k < tags.length := by
  simp only [tagged]
  split
  · next inside => simp [inside]
  · next outside => simp [outside, Entry.v]

theorem tag_tagged (small : ∀ t ∈ tags, t < 2 ^ type.tagBits) (inside : k < tags.length) :
    ((tagged type tags).entry k).tag type = tags[k] := by
  simp only [tagged, inside, ↓reduceIte, Entry.tag_setTag, List.getD_eq_getElem?_getD,
    List.getElem?_eq_getElem inside, Option.getD_some]
  exact Nat.mod_eq_of_lt (small _ (List.getElem_mem inside))

theorem age_tagged : ((tagged type tags).entry k).age type = 0 := by
  simp only [tagged]
  split
  · rw [Entry.age_setTag, Entry.age_setV]
    simp [Entry.age]
  · simp [Entry.age]

theorem line_tagged : ((tagged type tags).entry k).line = Line.zero := by
  simp only [tagged]
  split <;> simp

theorem tagged_formed (different : tags.Nodup)
    (small : ∀ t ∈ tags, t < 2 ^ type.tagBits) : Formed type (tagged type tags) where
  room := Nat.le_refl _
  first s hs i hi j hj valid := by
    rw [Cache.slot, v_tagged, cacheEntry] at valid ⊢
    omega
  distinct s hs i hi j hj valid valid' same := by
    rw [Cache.slot, v_tagged] at valid valid'
    rw [Cache.slot, Cache.slot, tag_tagged small valid, tag_tagged small valid'] at same
    have position := (different.getElem_inj_iff).mp same
    exact ((Cache.cacheEntry_inj hi hj).mp position).2

theorem absent_tagged {a : ℕ} (small : ∀ t ∈ tags, t < 2 ^ type.tagBits)
    (set : type.lineOf a = 0) (missing : type.tagOf a ∉ tags) (i : ℕ) :
    ¬ Holds type (tagged type tags) a i := by
  rintro ⟨-, valid, tag⟩
  rw [Cache.slot, v_tagged, set] at valid
  rw [Cache.slot, set, tag_tagged small valid] at tag
  exact missing (tag ▸ List.getElem_mem valid)

theorem tagged_coherent (size : ℕ) :
    Coherent type ⟨size, fun _ => 0⟩ (tagged type tags) := by
  intro s hs i hi valid
  rw [Cache.slot, line_tagged]
  apply Line.ext_word
  intro k hk
  rw [MemSpace.word_line k hk, Line.word_eq_getElem _ _ hk]
  simp only [Line.zero, Vector.getElem_replicate, MemSpace.word]
  exact (LittleEndian.word_eq_of_bytes fun j hj => by simp [LittleEndian.byte]).symm

theorem eldest_tagged {i : ℕ} (eldest : Eldest type (tagged type tags) 0 i) : i + 1 = type.ways := by
  have way := eldest.way
  by_contra before
  have later := eldest.later (i + 1) (by omega) (Nat.lt_succ_self i)
  rw [Cache.slot, Cache.slot, age_tagged, age_tagged] at later
  exact Nat.lt_irrefl 0 later

theorem full_tagged (filled : type.ways ≤ tags.length) : Full type (tagged type tags) 0 := by
  intro i hi
  rw [Cache.slot, v_tagged, cacheEntry]
  omega

/-- Blocks 1, 2, 3 and 0 in set 0 of L1 and blocks 1 to 8 in set 0 of L2, of which the last is read. -/
theorem movesBlock_iff_last_way :
    ∃ reply, cacheRead ⟨2 ^ 20, fun _ => 0⟩ ⟨16, 0⟩ .DATA (tagged .L1_DCACHE [1, 2, 3, 0])
        (tagged .L2_CACHE [1, 2, 3, 4, 5, 6, 7, 8]) 0
        ⟨true, true, true, true, some ⟨0#32, Line.zero⟩, none, none⟩ = .ok reply ∧
      MovesBlock ⟨2 ^ 20, fun _ => 0⟩ ⟨16, 0⟩ .DATA (tagged .L1_DCACHE [1, 2, 3, 0])
        (tagged .L2_CACHE [1, 2, 3, 4, 5, 6, 7, 8]) 7 reply := by
  have eldestTag (i : ℕ) (eldest : Eldest .L1_DCACHE (tagged .L1_DCACHE [1, 2, 3, 0]) 0 i) :
      ((tagged .L1_DCACHE [1, 2, 3, 0]).slot .L1_DCACHE 0 i).tag .L1_DCACHE = 0 := by
    obtain rfl : i = 3 := Nat.succ.inj (eldest_tagged eldest)
    exact tag_tagged (by decide) (by decide)
  apply (movesBlock_iff rfl rfl (tagged_formed (by decide) (by decide))
    (tagged_formed (by decide) (by decide)) (tagged_coherent _) (tagged_coherent _) (by decide) ?_
    ?_).mpr
  · constructor
    · rfl
    · exact Option.some_ne_none _
    · rfl
    · rfl
    · exact fun i _ => age_tagged
    · exact full_tagged (by decide)
    · intro i eldest
      have zero : ((tagged .L1_DCACHE [1, 2, 3, 0]).slot .L1_DCACHE 0 i).tag .L1_DCACHE = 0 :=
        eldestTag i eldest
      refine ⟨?_, .inl zero⟩
      show ((tagged .L1_DCACHE [1, 2, 3, 0]).slot .L1_DCACHE 0 i).tag .L1_DCACHE / 2 % 2 ^ 19 ≠ _
      rw [zero]
      decide
    · intro valid
      exact absurd (v_tagged.mp valid) (by decide)
  · exact absent_tagged (by decide) (by decide) (by decide)
  · exact ⟨by decide, v_tagged.mpr (by decide), tag_tagged (by decide) (by decide)⟩

/-- A read of block 0 from set 0 of L2 with an empty L1 leaves `*word` as it was. -/
theorem l2_hit_not_moved :
    Formed .L1_DCACHE (tagged .L1_DCACHE []) ∧ Formed .L2_CACHE (tagged .L2_CACHE [0]) ∧
      Coherent .L1_DCACHE ⟨2 ^ 20, fun _ => 0⟩ (tagged .L1_DCACHE []) ∧
      Coherent .L2_CACHE ⟨2 ^ 20, fun _ => 0⟩ (tagged .L2_CACHE [0]) ∧
      (∀ i, ¬ Holds .L1_DCACHE (tagged .L1_DCACHE []) (PhyAddr.address ⟨0, 0⟩) i) ∧
      Holds .L2_CACHE (tagged .L2_CACHE [0]) (PhyAddr.address ⟨0, 0⟩) 0 ∧
      ¬ ∃ reply, cacheRead ⟨2 ^ 20, fun _ => 0⟩ ⟨0, 0⟩ .DATA (tagged .L1_DCACHE [])
          (tagged .L2_CACHE [0]) 7 ⟨true, true, true, true, some ⟨0#32, Line.zero⟩, none, none⟩ =
          .ok reply ∧
        MovesBlock ⟨2 ^ 20, fun _ => 0⟩ ⟨0, 0⟩ .DATA (tagged .L1_DCACHE []) (tagged .L2_CACHE [0]) 0
          reply := by
  refine ⟨tagged_formed (by decide) (by decide), tagged_formed (by decide) (by decide),
    tagged_coherent _, tagged_coherent _, ?_, ?_, ?_⟩
  · exact fun i holds => absurd (v_tagged.mp holds.v) (Nat.not_lt_zero _)
  · exact ⟨by decide, v_tagged.mpr (by decide), tag_tagged (by decide) (by decide)⟩
  · rintro ⟨reply, ran, moved⟩
    have word : (cacheRead ⟨2 ^ 20, fun _ => 0⟩ ⟨0, 0⟩ .DATA (tagged .L1_DCACHE [])
        (tagged .L2_CACHE [0]) 7 ⟨true, true, true, true, some ⟨0#32, Line.zero⟩, none, none⟩).map
          ReadReply.word = .ok 7 := by
      decide +kernel
    rw [ran] at word
    have zero : reply.word = 0 := moved.word.trans (by decide)
    have seven : reply.word = 7 := Except.ok.inj word
    rw [zero] at seven
    contradiction

end Examples

end KabyLake
