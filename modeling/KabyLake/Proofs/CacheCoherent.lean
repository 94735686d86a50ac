import KabyLake.Proofs.CacheSystem

/-! # The invariants of the cache system

One step keeps the L1 caches well formed and the L2 cache quiet, and it keeps every line of the data
cache equal to the memory block that tag and line index name, also when the step writes memory.
-/

namespace KabyLake

variable {type : CacheType} {memSpace : MemSpace} {cache before after : Cache} {s w tag bound : ℕ}
  {line content : Line} {newd : Option Entry}

/-- Every valid line holds the memory block that its tag and its line index name. -/
def Coherent (type : CacheType) (memSpace : MemSpace) (cache : Cache) : Prop :=
  ∀ s < type.lines, ∀ i < type.ways, (cache.slot type s i).v = true →
    (cache.slot type s i).line = memSpace.line (type.blockStart ((cache.slot type s i).tag type) s)

/-- A way that holds the block of an address holds its sixteen bytes. -/
theorem Coherent.line_of_holds {a : ℕ} (coherent : Coherent type memSpace cache)
    (holds : Holds type cache a w) :
    (cache.slot type (type.lineOf a) w).line = memSpace.line (a / 16 * 16) := by
  rw [coherent _ (CacheType.lineOf_lt type a) w holds.way holds.v, holds.tag, CacheType.blockStart_tagOf]

theorem Aged.coherent (aged : Aged type s w bound before after)
    (coherent : Coherent type memSpace before) : Coherent type memSpace after := by
  intro t ht i hi valid
  have same := aged.sameBlock t hi
  rw [same.v] at valid
  rw [same.line, same.tag]
  exact coherent t ht i hi valid

/-- An access makes its own line coherent and needs coherence of the others. -/
theorem Accessed.coherent (accessed : Accessed type s w tag bound line before after)
    (own : line = memSpace.line (type.blockStart tag s))
    (others : ∀ t < type.lines, ∀ i < type.ways, ¬ (t = s ∧ i = w) →
      (before.slot type t i).v = true → (before.slot type t i).line =
        memSpace.line (type.blockStart ((before.slot type t i).tag type) t)) :
    Coherent type memSpace after := by
  intro t ht i hi valid
  by_cases current : t = s ∧ i = w
  · rw [current.1, current.2, accessed.line, accessed.tag]
    exact own
  · have same := accessed.sameBlock hi current
    rw [same.v] at valid
    rw [same.line, same.tag]
    exact others t ht i hi current valid

/-- Writing one block of memory does not touch the blocks of the other valid ways. -/
theorem Coherent.putLine (coherent : Coherent type memSpace cache) (hs : s < type.lines) {t i : ℕ}
    (ht : t < type.lines) (hi : i < type.ways) (valid : (cache.slot type t i).v = true)
    (other : t = s → (cache.slot type t i).tag type ≠ tag) :
    (cache.slot type t i).line = (memSpace.putLine (type.blockStart tag s) content).line
      (type.blockStart ((cache.slot type t i).tag type) t) := by
  rw [MemSpace.line_putLine_outside]
  · exact coherent t ht i hi valid
  · exact CacheType.blockStart_apart ht hs fun both => other both.1 both.2

/-- A write that fills a way with a missing block keeps the cache coherent with the new memory, and
so does one that gets no memory for the new entry. -/
theorem Settled.coherent (settled : Settled newd type s w tag bound content before after)
    (hs : s < type.lines) (coherent : Coherent type memSpace before)
    (absent : ∀ i < type.ways, (before.slot type s i).v = true → (before.slot type s i).tag type ≠ tag) :
    Coherent type (memSpace.putLine (type.blockStart tag s) content) after := by
  have untouched : Coherent type (memSpace.putLine (type.blockStart tag s) content) before :=
    fun t ht i hi valid => coherent.putLine hs ht hi valid fun same => by
      subst same
      exact absent i hi valid
  cases newd with
  | none =>
    obtain ⟨bound, aged⟩ := settled
    exact aged.coherent untouched
  | some garbage =>
    exact Accessed.coherent settled MemSpace.line_putLine_self.symm
      fun t ht i hi _ valid => untouched t ht i hi valid

theorem Settled.formed {a : ℕ}
    (settled : Settled newd type (type.lineOf a) w (type.tagOf a) bound content before after)
    (formed : Formed type before) (absent : ∀ w, ¬ Holds type before a w)
    (place : Free type before (type.lineOf a) w ∨ Eldest type before (type.lineOf a) w) :
    Formed type after := by
  cases newd with
  | none =>
    obtain ⟨bound, aged⟩ := settled
    exact aged.formed formed
  | some garbage => exact Accessed.formed_of_absent settled formed absent place

variable {system next : CacheSystem} {call : CacheCall} {reply : CacheReply}

private theorem Sound.withL1Cache {access : MemAccess} (sound : Sound system)
    (formed : Formed access.cacheType after) : Sound (system.withL1Cache access after) where
  formed other := by
    rcases eq_or_ne other access with rfl | different
    · rwa [CacheSystem.l1Cache_withL1Cache_self]
    · rw [CacheSystem.l1Cache_withL1Cache_of_ne different]
      exact sound.formed other
  quiet := by
    rw [CacheSystem.l2Cache_withL1Cache]
    exact sound.quiet

private theorem Sound.withData {memory : MemSpace} {l2 : Cache} (sound : Sound system)
    (formed : Formed .L1_DCACHE after) (quiet : Quiet l2) :
    Sound { system with memSpace := memory, l1DCache := after, l2Cache := l2 } where
  formed access := by
    cases access with
    | INSTRUCTION => exact sound.formed .INSTRUCTION
    | DATA => exact formed
  quiet := quiet

/-- Every path keeps the L1 caches well formed and the L2 cache quiet. -/
theorem Outcome.sound (outcome : Outcome system call next reply) (sound : Sound system) :
    Sound next := by
  cases outcome with
  | refused => exact sound
  | readHit _ holds accessed =>
    exact sound.withL1Cache (accessed.formed_of_holds (sound.formed _) holds)
  | readFill _ absent _ place accessed =>
    exact sound.withL1Cache (accessed.formed_of_absent (sound.formed _) absent place)
  | writeRefused _ _ aged _ => exact sound.withData (aged.formed (sound.formed .DATA)) sound.quiet
  | writeHit _ holds _ accessed =>
    exact sound.withData (accessed.formed_of_holds (sound.formed .DATA) holds) sound.quiet
  | writeFill _ absent _ free settled =>
    exact sound.withData (settled.formed (sound.formed .DATA) absent (.inl free)) sound.quiet
  | writeReplace _ absent _ eldest quiet settled =>
    exact sound.withData (settled.formed (sound.formed .DATA) absent (.inr eldest)) quiet

/-- An aligned address is the start of its block. -/
theorem blockStart_aligned {a : ℕ} (aligned : a % 16 = 0) :
    type.blockStart (type.tagOf a) (type.lineOf a) = a := by
  rw [CacheType.blockStart_tagOf]
  omega

/-- Every path keeps the data cache coherent with the memory. -/
theorem Outcome.coherent (outcome : Outcome system call next reply) (sound : Sound system)
    (coherent : Coherent .L1_DCACHE system.memSpace system.l1DCache) :
    Coherent .L1_DCACHE next.memSpace next.l1DCache := by
  have hs := CacheType.lineOf_lt .L1_DCACHE call.paddr.address
  have missing (absent : ∀ w, ¬ Holds .L1_DCACHE system.l1DCache call.paddr.address w) :
      ∀ i < CacheType.L1_DCACHE.ways,
        (system.l1DCache.slot .L1_DCACHE (call.lineIn .DATA) i).v = true →
        (system.l1DCache.slot .L1_DCACHE (call.lineIn .DATA) i).tag .L1_DCACHE ≠ call.tagIn .DATA :=
    fun i hi valid same => absent i ⟨hi, valid, same⟩
  have start (aligned : call.paddr.address % 16 = 0) :
      CacheType.L1_DCACHE.blockStart (call.tagIn .DATA) (call.lineIn .DATA) = call.paddr.address :=
    blockStart_aligned aligned
  cases outcome with
  | refused => exact coherent
  | @readHit access w after _ holds accessed =>
    cases access with
    | INSTRUCTION => exact coherent
    | DATA =>
      refine accessed.coherent ?_ fun t ht i hi _ valid => coherent t ht i hi valid
      exact (coherent.line_of_holds holds).trans
        (congrArg system.memSpace.line (CacheType.blockStart_tagOf _).symm)
  | @readFill access w after _ absent aligned _ accessed =>
    cases access with
    | INSTRUCTION => exact coherent
    | DATA =>
      refine accessed.coherent ?_ fun t ht i hi _ valid => coherent t ht i hi valid
      exact congrArg system.memSpace.line (blockStart_aligned aligned).symm
  | writeRefused _ _ aged _ => exact aged.coherent coherent
  | writeHit _ holds aligned accessed =>
    have start := start aligned
    refine accessed.coherent ?_ ?_
    · rw [start]
      exact MemSpace.line_putLine_self.symm
    · intro t ht i hi other valid
      rw [← start]
      refine coherent.putLine hs ht hi valid fun same tags => other ⟨same, ?_⟩
      subst same
      exact Holds.unique ⟨hi, valid, tags⟩ (sound.formed .DATA) holds
  | writeFill _ absent aligned _ settled =>
    have kept := settled.coherent hs coherent (missing absent)
    rwa [start aligned] at kept
  | writeReplace _ absent aligned _ _ settled =>
    have kept := settled.coherent hs coherent (missing absent)
    rwa [start aligned] at kept

end KabyLake
