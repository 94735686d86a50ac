import KabyLake.Soundness.CacheMove

/-! # When a write hit in L2 moves the block

A write to a block that is in L2 and not in L1 should move the block to L1. The code looks L2 up with
the type of the L1 data cache, and on no path does it invalidate the entry of the block. The block
leaves L2 only where the invalid entry that a write miss inserts is written over it.
-/

namespace KabyLake

open Machine

variable {memSpace : MemSpace} {paddr : PhyAddr} {l1Cache l2Cache : Cache} {word : BitVec 32}
  {allocations : Allocations} {w : ℕ}

/-- The write changes the word at the address and no other byte, moves the block of the address from
L2 to L1, and leaves both caches coherent; every block that L1 loses is in L2 under its own set and
tag. -/
structure WriteMoves (memSpace : MemSpace) (paddr : PhyAddr) (l1Cache : Cache) (word : BitVec 32)
    (reply : WriteReply) : Prop where
  size : reply.memSpace.size = memSpace.size
  stored : reply.memSpace.word paddr.address = word
  others : ∀ x, ¬ (paddr.address ≤ x ∧ x < paddr.address + 4) →
    reply.memSpace.byte x = memSpace.byte x
  moved : ∃ i, Holds .L1_DCACHE reply.l1Cache paddr.address i ∧
    (reply.l1Cache.slot .L1_DCACHE (CacheType.L1_DCACHE.lineOf paddr.address) i).line =
      patched (memSpace.line paddr.address) paddr word
  released : ∀ j, ¬ Holds .L2_CACHE reply.l2Cache paddr.address j
  coherent : Coherent .L1_DCACHE reply.memSpace reply.l1Cache
  coherent2 : Coherent .L2_CACHE reply.memSpace reply.l2Cache
  kept : ∀ s < CacheType.L1_DCACHE.lines, ∀ i < CacheType.L1_DCACHE.ways,
    (l1Cache.slot .L1_DCACHE s i).v = true →
    (∀ j, ¬ Holds .L1_DCACHE reply.l1Cache
      (CacheType.L1_DCACHE.blockStart ((l1Cache.slot .L1_DCACHE s i).tag .L1_DCACHE) s) j) →
    L2Holds reply.l2Cache
      (CacheType.L1_DCACHE.blockStart ((l1Cache.slot .L1_DCACHE s i).tag .L1_DCACHE) s)
      (l1Cache.slot .L1_DCACHE s i).line

/-- The lookup of L2 with the L1 type misses, both sets of the address are full, the block is the
eldest one of its set in L2, and the eldest block of the set in L1 is in L2 as well. -/
structure EldestHit (paddr : PhyAddr) (l1Cache l2Cache : Cache) (w : ℕ) (allocations : Allocations) :
    Prop where
  newd : allocations.newd ≠ none
  unfound : ¬ ∃ i, Found .L1_DCACHE l2Cache paddr.address i
  full : Full .L1_DCACHE l1Cache (CacheType.L1_DCACHE.lineOf paddr.address)
  eldest : Eldest .L2_CACHE l2Cache (CacheType.L2_CACHE.lineOf paddr.address) w
  victim : ∀ i, Eldest .L1_DCACHE l1Cache (CacheType.L1_DCACHE.lineOf paddr.address) i →
    ∃ j, Holds .L2_CACHE l2Cache (CacheType.L1_DCACHE.blockStart
      ((l1Cache.slot .L1_DCACHE (CacheType.L1_DCACHE.lineOf paddr.address) i).tag .L1_DCACHE)
      (CacheType.L1_DCACHE.lineOf paddr.address)) j

section Miss

variable {i j : ℕ} {content : Line} {after l2 : Cache}
  (formed : Formed .L1_DCACHE l1Cache) (formed2 : Formed .L2_CACHE l2Cache)
  (coherent : Coherent .L1_DCACHE memSpace l1Cache) (coherent2 : Coherent .L2_CACHE memSpace l2Cache)
  (aligned : paddr.address % 16 = 0)
  (absent : ∀ i, ¬ Holds .L1_DCACHE l1Cache paddr.address i)
  (holds : Holds .L2_CACHE l2Cache paddr.address w)

include formed absent in
private theorem gone_iff {s k bound : ℕ} {line : Line} (hj : j < CacheType.L1_DCACHE.ways)
    (accessed : Accessed .L1_DCACHE (CacheType.L1_DCACHE.lineOf paddr.address) j
      (CacheType.L1_DCACHE.tagOf paddr.address) bound line l1Cache after)
    (hs : s < CacheType.L1_DCACHE.lines) (hk : k < CacheType.L1_DCACHE.ways)
    (valid : (l1Cache.slot .L1_DCACHE s k).v = true) :
    (∀ i, ¬ Holds .L1_DCACHE after
      (CacheType.L1_DCACHE.blockStart ((l1Cache.slot .L1_DCACHE s k).tag .L1_DCACHE) s) i) ↔
      s = CacheType.L1_DCACHE.lineOf paddr.address ∧ k = j := by
  have held := Holds.of_slot hs hk valid
  have line := CacheType.lineOf_blockStart ((l1Cache.slot .L1_DCACHE s k).tag .L1_DCACHE) hs
  constructor
  · intro lost
    by_contra other
    apply lost k
    rw [accessed.holds_iff hj, line, if_neg other]
    exact held
  · rintro ⟨rfl, rfl⟩ i again
    rw [accessed.holds_iff hj] at again
    split at again
    · next written =>
      -- the block that was filled in would have been there
      refine absent k ⟨hk, valid, ?_⟩
      rw [again, CacheType.tagOf_blockStart _ hs]
    · next other => exact other ⟨line, again.unique formed held⟩

include coherent coherent2 absent holds in
/-- A block of L1 that L2 has as well is still there when the block of the address was discarded. -/
private theorem l2Holds_discarded {s k : ℕ} (hs : s < CacheType.L1_DCACHE.lines)
    (hk : k < CacheType.L1_DCACHE.ways) (valid : (l1Cache.slot .L1_DCACHE s k).v = true)
    (discarded : Discarded .L2_CACHE (CacheType.L2_CACHE.lineOf paddr.address) w l2Cache l2)
    (there : ∃ j, Holds .L2_CACHE l2Cache
      (CacheType.L1_DCACHE.blockStart ((l1Cache.slot .L1_DCACHE s k).tag .L1_DCACHE) s) j) :
    L2Holds l2 (CacheType.L1_DCACHE.blockStart ((l1Cache.slot .L1_DCACHE s k).tag .L1_DCACHE) s)
      (l1Cache.slot .L1_DCACHE s k).line := by
  obtain ⟨j, there⟩ := there
  have held := Holds.of_slot hs hk valid
  have other (both : CacheType.L2_CACHE.lineOf (CacheType.L1_DCACHE.blockStart
      ((l1Cache.slot .L1_DCACHE s k).tag .L1_DCACHE) s) = CacheType.L2_CACHE.lineOf paddr.address ∧
      j = w) : False :=
    other_block absent held holds ⟨both.1, both.2 ▸ there⟩
  refine ⟨j, discarded.holds_iff.mpr ⟨other, there⟩, ?_⟩
  have lines := coherent.line_of_holds held
  rw [CacheType.lineOf_blockStart _ hs] at lines
  rw [(discarded.sameBlock _ j there.way other).line, coherent2.line_of_holds there, lines]

include formed2 coherent2 aligned holds in
/-- L2 without the block of the address is coherent with a memory in which only this block changed. -/
private theorem coherent_discarded
    (discarded : Discarded .L2_CACHE (CacheType.L2_CACHE.lineOf paddr.address) w l2Cache l2) :
    Coherent .L2_CACHE (memSpace.putLine paddr.address content) l2 := by
  intro t ht k hk valid
  by_cases written : t = CacheType.L2_CACHE.lineOf paddr.address ∧ k = w
  · rw [written.1, written.2, discarded.v] at valid
    contradiction
  · have same := discarded.sameBlock t k hk written
    rw [same.v] at valid
    rw [same.line, same.tag]
    have start : CacheType.L2_CACHE.blockStart (CacheType.L2_CACHE.tagOf paddr.address)
        (CacheType.L2_CACHE.lineOf paddr.address) = paddr.address := blockStart_aligned aligned
    rw [← start]
    apply coherent2.putLine (CacheType.lineOf_lt .L2_CACHE paddr.address) ht hk valid
    intro lines tags
    subst lines
    exact written ⟨rfl, Holds.unique ⟨hk, valid, tags⟩ formed2 holds⟩

include aligned in
private theorem putLine_patched (patch : content = patched (memSpace.line paddr.address) paddr word) :
    (memSpace.putLine paddr.address content).word paddr.address = word ∧
      ∀ x, ¬ (paddr.address ≤ x ∧ x < paddr.address + 4) →
        (memSpace.putLine paddr.address content).byte x = memSpace.byte x := by
  have first : wordOf paddr.address = 0 := by
    rw [wordOf, aligned]
  rw [patch, patched, first]
  constructor
  · have stored : (memSpace.putLine paddr.address ((memSpace.line paddr.address).setWord 0 word)).word
        paddr.address = ((memSpace.line paddr.address).setWord 0 word).word 0 :=
      MemSpace.word_putLine_inside 0 (by decide)
    rw [stored, Line.word_setWord _ _ _ _ (by decide), if_pos rfl]
  · intro x outside
    rw [MemSpace.byte_putLine_setWord 0 (by decide), Nat.mul_zero, Nat.add_zero, if_neg outside]

include formed formed2 coherent coherent2 aligned absent holds in
/-- After a write miss on a full line of L1 everything depends on which way of L2 was discarded. -/
private theorem writeMoves_iff_discarded (newd : allocations.newd ≠ none)
    (full : Full .L1_DCACHE l1Cache (CacheType.L1_DCACHE.lineOf paddr.address))
    (eldest : Eldest .L1_DCACHE l1Cache (CacheType.L1_DCACHE.lineOf paddr.address) i)
    (settled : Settled allocations.newd .L1_DCACHE (CacheType.L1_DCACHE.lineOf paddr.address) i
      (CacheType.L1_DCACHE.tagOf paddr.address) 0 content l1Cache after)
    (discarded : Discarded .L2_CACHE (CacheType.L2_CACHE.lineOf paddr.address) j l2Cache l2)
    (patch : content = patched (memSpace.line paddr.address) paddr word) :
    WriteMoves memSpace paddr l1Cache word
        ⟨.errNone, memSpace.putLine paddr.address content, after, l2⟩ ↔
      j = w ∧ ∃ k, Holds .L2_CACHE l2Cache (CacheType.L1_DCACHE.blockStart
        ((l1Cache.slot .L1_DCACHE (CacheType.L1_DCACHE.lineOf paddr.address) i).tag .L1_DCACHE)
        (CacheType.L1_DCACHE.lineOf paddr.address)) k := by
  have hs := CacheType.lineOf_lt .L1_DCACHE paddr.address
  have kept := settled.coherent hs coherent fun k hk valid same => absent k ⟨hk, valid, same⟩
  rw [blockStart_aligned aligned] at kept
  obtain ⟨garbage, available⟩ := Option.ne_none_iff_exists'.mp newd
  rw [available] at settled
  have accessed : Accessed .L1_DCACHE (CacheType.L1_DCACHE.lineOf paddr.address) i
    (CacheType.L1_DCACHE.tagOf paddr.address) 0 content l1Cache after := settled
  constructor
  · intro moves
    constructor
    · by_contra other
      exact moves.released w (discarded.holds_iff.mpr ⟨fun both => other both.2.symm, holds⟩)
    · have lost := (gone_iff formed absent eldest.way accessed hs eldest.way (full i eldest.way)).mpr
        ⟨rfl, rfl⟩
      obtain ⟨k, there, _⟩ := moves.kept _ hs i eldest.way (full i eldest.way) lost
      exact ⟨k, (discarded.holds_iff.mp there).2⟩
  · rintro ⟨rfl, victim⟩
    constructor
    · rfl
    · exact (putLine_patched aligned patch).1
    · exact (putLine_patched aligned patch).2
    · exact ⟨i, ⟨eldest.way, accessed.v, accessed.tag⟩, accessed.line.trans patch⟩
    · intro k again
      obtain ⟨other, again⟩ := discarded.holds_iff.mp again
      exact other ⟨rfl, again.unique formed2 holds⟩
    · exact kept
    · exact coherent_discarded formed2 coherent2 aligned holds discarded
    · intro s hs k hk valid lost
      obtain ⟨rfl, rfl⟩ := (gone_iff formed absent eldest.way accessed hs hk valid).mp lost
      exact l2Holds_discarded coherent coherent2 absent holds hs hk valid discarded victim

end Miss

section Main

variable (formed : Formed .L1_DCACHE l1Cache) (formed2 : Formed .L2_CACHE l2Cache)
  (coherent : Coherent .L1_DCACHE memSpace l1Cache) (coherent2 : Coherent .L2_CACHE memSpace l2Cache)
  (aligned : paddr.address % 16 = 0)
  (absent : ∀ i, ¬ Holds .L1_DCACHE l1Cache paddr.address i)
  (holds : Holds .L2_CACHE l2Cache paddr.address w)

include absent in
private theorem newd_of_moves {s i bound tag : ℕ} {content : Line}
    {reply : WriteReply} (moves : WriteMoves memSpace paddr l1Cache word reply)
    (settled : Settled allocations.newd .L1_DCACHE s i tag bound content l1Cache reply.l1Cache) :
    allocations.newd ≠ none := by
  intro newd
  rw [newd] at settled
  obtain ⟨bound, aged⟩ := settled
  obtain ⟨k, held, _⟩ := moves.moved
  exact absent k (aged.holds_iff.mp held)

include formed formed2 coherent coherent2 aligned absent holds in
/-- A write miss moves the block exactly if the way that holds it in L2 is the eldest one. -/
private theorem writeMiss_iff {reply : WriteReply}
    (unfound : ¬ ∃ i, Found .L1_DCACHE l2Cache paddr.address i)
    (ran : writeMiss memSpace paddr l1Cache l2Cache word allocations = .ok reply) :
    WriteMoves memSpace paddr l1Cache word reply ↔ EldestHit paddr l1Cache l2Cache w allocations := by
  have returned : ¬ (allocations.memLine = false ∨ ¬ paddr.address + 16 ≤ memSpace.size ∨
      allocations.oldEntry = none ∧
        Full .L1_DCACHE l1Cache (CacheType.L1_DCACHE.lineOf paddr.address)) := by
    intro lacks
    obtain ⟨fault, failed⟩ := writeMiss_faults memSpace word l2Cache formed.room aligned lacks
    rw [ran] at failed
    contradiction
  simp only [not_or, not_and, not_not, Bool.not_eq_false] at returned
  obtain ⟨memLine, inside, oldEntry⟩ := returned
  rcases full_or_free .L1_DCACHE l1Cache (CacheType.L1_DCACHE.lineOf paddr.address) with full | ⟨i, free⟩
  · obtain ⟨i, after, old, eldest, invalid, evicted, settled⟩ := writeMiss_evicts memSpace word l2Cache
      formed.room aligned inside memLine (fun missing => oldEntry missing full) full rfl
    obtain ⟨j, l2, inserted, place, discarded⟩ :=
      insertIntoL2_discards formed2.room (CacheType.lineOf_lt _ _) invalid
    rw [ran, inserted, ok_bind] at evicted
    obtain rfl := Except.ok.inj evicted
    constructor
    · intro moves
      have newd := newd_of_moves absent moves settled
      obtain ⟨rfl, victim⟩ := (writeMoves_iff_discarded formed formed2 coherent coherent2 aligned absent
        holds newd full eldest settled discarded rfl).mp moves
      refine ⟨newd, unfound, full, ?_, fun k again => eldest.unique again ▸ victim⟩
      rcases place with free | eldest2
      · have valid := holds.v
        rw [free.invalid] at valid
        contradiction
      · exact eldest2
    · intro hit
      have eldest2 := place.resolve_left fun free => free.not_full hit.eldest.full
      exact (writeMoves_iff_discarded formed formed2 coherent coherent2 aligned absent holds hit.newd full
        eldest settled discarded rfl).mpr ⟨eldest2.unique hit.eldest, hit.victim i eldest⟩
  · -- L2 stays as it is
    obtain ⟨after, filled, _⟩ := writeMiss_free memSpace word l2Cache formed.room aligned inside memLine
      free rfl
    rw [ran] at filled
    obtain rfl := Except.ok.inj filled
    constructor
    · intro moves
      exact (moves.released w holds).elim
    · intro hit
      exact (free.not_full hit.full).elim

private theorem lines_of_success {reply : WriteReply}
    (ran : cacheWrite memSpace paddr l1Cache l2Cache word allocations = .ok reply)
    (success : reply.code = .errNone) : allocations.pLine = true ∧ allocations.pLine2 = true := by
  cases pLine : allocations.pLine with
  | false =>
    simp only [cacheWrite, pLine, Bool.not_false, ↓reduceIte, pure_eq_ok] at ran
    obtain rfl := Except.ok.inj ran
    contradiction
  | true =>
    cases pLine2 : allocations.pLine2 with
    | false =>
      simp only [cacheWrite, pLine, pLine2, Bool.not_true, Bool.not_false, Bool.false_eq_true,
        ↓reduceIte, pure_eq_ok] at ran
      obtain rfl := Except.ok.inj ran
      contradiction
    | true => exact ⟨rfl, rfl⟩

include formed formed2 coherent coherent2 aligned absent holds in
/-- A write of a block that L1 does not have and L2 has, if it returns `ERR_NONE`, moves the block
exactly in the one situation, and there it does return `ERR_NONE` when it gets its memory. -/
theorem writeMoves_iff :
    (∀ reply, cacheWrite memSpace paddr l1Cache l2Cache word allocations = .ok reply →
      reply.code = .errNone →
      (WriteMoves memSpace paddr l1Cache word reply ↔ EldestHit paddr l1Cache l2Cache w allocations)) ∧
    (EldestHit paddr l1Cache l2Cache w allocations → allocations.Succeed →
      paddr.address + 16 ≤ memSpace.size →
      ∃ reply, cacheWrite memSpace paddr l1Cache l2Cache word allocations = .ok reply ∧
        reply.code = .errNone) := by
  have room2 : l2Cache.Room .L1_DCACHE := le_trans (by decide) formed2.room
  have missed : ¬ ∃ i, Found .L1_DCACHE l1Cache paddr.address i := not_found absent
  constructor
  · intro reply ran success
    obtain ⟨pLine, pLine2⟩ := lines_of_success ran success
    by_cases found : ∃ i, Found .L1_DCACHE l2Cache paddr.address i
    · obtain ⟨i, found⟩ := found
      obtain ⟨middle, second, aged⟩ :=
        cacheWrite_second memSpace word formed.room room2 pLine pLine2 missed found
      have wide : middle.Room .L2_CACHE := by
        rw [Cache.Room, aged.size]
        exact formed2.room
      have still : Holds .L2_CACHE reply.l2Cache paddr.address w := by
        apply (writeHitL2_keeps wide _ _ (aged.holds_L2 holds)).post_of_eq (second.symm.trans ran)
        · exact (CacheType.lineOf_lt .L1_DCACHE _).trans (by decide)
        · exact found.way.trans (by decide)
      exact iff_of_false (fun moves => moves.released w still) fun hit => hit.unfound ⟨i, found⟩
    · rw [cacheWrite_unfound memSpace word formed.room room2 pLine pLine2 missed found] at ran
      exact writeMiss_iff formed formed2 coherent coherent2 aligned absent holds found ran
  · intro hit allocated inside
    obtain ⟨i, after, old, _, invalid, evicted, _⟩ := writeMiss_evicts memSpace word l2Cache formed.room
      aligned inside allocated.memLine allocated.oldEntry hit.full rfl
    obtain ⟨j, l2, inserted, _⟩ :=
      insertIntoL2_discards formed2.room (CacheType.lineOf_lt _ _) invalid
    rw [inserted, ok_bind] at evicted
    have missed2 := cacheWrite_unfound memSpace word formed.room room2 allocated.pLine allocated.pLine2
      missed hit.unfound
    exact ⟨_, missed2.trans evicted, rfl⟩

end Main

section Examples

private def crowdedL1 : Cache := tagged .L1_DCACHE [1, 2, 3, 8]

private def crowdedL2 : Cache := tagged .L2_CACHE [1, 2, 3, 5, 6, 7, 8, 9]

private theorem crowded_eldestHit : EldestHit ⟨18, 0⟩ crowdedL1 crowdedL2 7 granted := by
  constructor
  · exact Option.some_ne_none _
  · rintro ⟨i, found⟩
    have others : ∀ i < 4, (crowdedL2.slot .L1_DCACHE 0 i).tag .L1_DCACHE ≠ 72 := by decide +kernel
    exact others i found.way found.tag
  · exact full_tagged (by decide)
  · refine ⟨by decide, full_tagged (by decide), fun i _ => ?_, fun i hi later => ?_⟩
    · exact (age_tagged.trans age_tagged.symm).le
    · have way : i < 8 := hi
      omega
  · intro i eldest
    obtain rfl : i = 3 := Nat.succ.inj (eldest_tagged eldest)
    have eight : (crowdedL1.slot .L1_DCACHE (CacheType.L1_DCACHE.lineOf (PhyAddr.address ⟨18, 0⟩)) 3).tag
        .L1_DCACHE = 8 := tag_tagged (by decide) (by decide)
    rw [eight]
    exact ⟨0, by decide, v_tagged.mpr (by decide), tag_tagged (by decide) (by decide)⟩

/-- The block with tag 9 is the last one of set 0 of L2 and leaves it when it is written. -/
theorem writeMoves_iff_eldest :
    ∃ reply, cacheWrite ⟨2 ^ 20, fun _ => 0⟩ ⟨18, 0⟩ crowdedL1 crowdedL2 7 granted =
        .ok reply ∧ reply.code = .errNone ∧
      WriteMoves ⟨2 ^ 20, fun _ => 0⟩ ⟨18, 0⟩ crowdedL1 7 reply := by
  have formed : Formed .L1_DCACHE crowdedL1 := tagged_formed (by decide) (by decide)
  have formed2 : Formed .L2_CACHE crowdedL2 := tagged_formed (by decide) (by decide)
  have absent : ∀ i, ¬ Holds .L1_DCACHE crowdedL1 (PhyAddr.address ⟨18, 0⟩) i :=
    absent_tagged (by decide) (by decide) (by decide)
  have holds : Holds .L2_CACHE crowdedL2 (PhyAddr.address ⟨18, 0⟩) 7 :=
    ⟨by decide, v_tagged.mpr (by decide), tag_tagged (by decide) (by decide)⟩
  obtain ⟨reply, ran, success⟩ : ∃ reply, cacheWrite ⟨2 ^ 20, fun _ => 0⟩ ⟨18, 0⟩ crowdedL1 crowdedL2 7
      granted = .ok reply ∧ reply.code = .errNone :=
    (writeMoves_iff formed formed2 (tagged_coherent _) (tagged_coherent _) (by decide) absent holds).2
      crowded_eldestHit granted_succeed (by decide)
  exact ⟨reply, ran, success, ((writeMoves_iff formed formed2 (tagged_coherent _) (tagged_coherent _)
    (by decide) absent holds).1 reply ran success).mpr crowded_eldestHit⟩

/-- A write to block 512 in set 0 of L2 with an empty L1 leaves the old copy valid in L2. -/
theorem l2_copy_stays :
    Formed .L1_DCACHE (tagged .L1_DCACHE []) ∧ Formed .L2_CACHE (tagged .L2_CACHE [1]) ∧
      Coherent .L1_DCACHE ⟨2 ^ 20, fun _ => 0⟩ (tagged .L1_DCACHE []) ∧
      Coherent .L2_CACHE ⟨2 ^ 20, fun _ => 0⟩ (tagged .L2_CACHE [1]) ∧
      (∀ i, ¬ Holds .L1_DCACHE (tagged .L1_DCACHE []) (PhyAddr.address ⟨2, 0⟩) i) ∧
      Holds .L2_CACHE (tagged .L2_CACHE [1]) (PhyAddr.address ⟨2, 0⟩) 0 ∧
      ∃ reply, cacheWrite ⟨2 ^ 20, fun _ => 0⟩ ⟨2, 0⟩ (tagged .L1_DCACHE []) (tagged .L2_CACHE [1]) 7
          granted = .ok reply ∧ reply.code = .errNone ∧
        ¬ WriteMoves ⟨2 ^ 20, fun _ => 0⟩ ⟨2, 0⟩ (tagged .L1_DCACHE []) 7 reply := by
  refine ⟨tagged_formed (by decide) (by decide), tagged_formed (by decide) (by decide),
    tagged_coherent _, tagged_coherent _, ?_, ?_, ?_⟩
  · exact fun i holds => absurd (v_tagged.mp holds.v) (Nat.not_lt_zero _)
  · exact ⟨by decide, v_tagged.mpr (by decide), tag_tagged (by decide) (by decide)⟩
  · have kept : (cacheWrite ⟨2 ^ 20, fun _ => 0⟩ ⟨2, 0⟩ (tagged .L1_DCACHE []) (tagged .L2_CACHE [1]) 7
        granted).map (fun reply => (reply.code, (reply.l2Cache.slot .L2_CACHE 0 0).v,
          (reply.l2Cache.slot .L2_CACHE 0 0).tag .L2_CACHE)) = .ok (.errNone, true, 1) := by
      decide +kernel
    cases ran : cacheWrite ⟨2 ^ 20, fun _ => 0⟩ ⟨2, 0⟩ (tagged .L1_DCACHE []) (tagged .L2_CACHE [1]) 7
        granted with
    | error fault =>
      rw [ran] at kept
      contradiction
    | ok reply =>
      rw [ran] at kept
      obtain ⟨success, valid, tag⟩ : reply.code = .errNone ∧
          (reply.l2Cache.slot .L2_CACHE 0 0).v = true ∧
          (reply.l2Cache.slot .L2_CACHE 0 0).tag .L2_CACHE = 1 := by
        simpa [Except.map] using kept
      exact ⟨reply, rfl, success, fun moves => moves.released 0 ⟨by decide, valid, tag⟩⟩

end Examples

end KabyLake
