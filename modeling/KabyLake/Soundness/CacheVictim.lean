import KabyLake.Soundness.CacheTransparency

/-! # The block that leaves L1 is lost

The comment on the exclusive policy in `cache.h` says that a block evicted from L1 is placed into
L2. No path of `cache_read` or `cache_write` does so: a read miss overwrites the entry, and a write
miss inserts its copy with `v` set to `INVALID`. The L2 cache therefore stays without a valid entry
in every run, and each miss on a full set loses a block.
-/

namespace KabyLake

open Machine

variable {type : CacheType} {before after : Cache} {a s w bound : ℕ} {line : Line}

/-- The block that way `w` of line `s` held is no longer in the cache. -/
structure PushedOut (type : CacheType) (before after : Cache) (s w : ℕ) : Prop where
  valid : (before.slot type s w).v = true
  gone : ∀ i < type.ways, (after.slot type s i).v = true →
    (after.slot type s i).tag type ≠ (before.slot type s w).tag type

/-- The block of an L1 entry of line `s` is valid in L2: in the set of its own block number, under
its own tag and with its words. -/
def InL2 (type : CacheType) (entry : Entry) (s : ℕ) (l2Cache : Cache) : Prop :=
  ∃ j < 8, (l2Cache.slot .L2_CACHE ((entry.tag type * type.lines + s) % 512) j).v = true ∧
    (l2Cache.slot .L2_CACHE ((entry.tag type * type.lines + s) % 512) j).tag .L2_CACHE =
      (entry.tag type * type.lines + s) / 512 ∧
    (l2Cache.slot .L2_CACHE ((entry.tag type * type.lines + s) % 512) j).line = entry.line

/-- Filling a way of a full line with a missing block pushes out what the way held. -/
theorem Accessed.pushedOut
    (accessed : Accessed type (type.lineOf a) w (type.tagOf a) bound line before after)
    (formed : Formed type before) (hw : w < type.ways) (full : Full type before (type.lineOf a))
    (absent : ∀ w, ¬ Holds type before a w) : PushedOut type before after (type.lineOf a) w where
  valid := full w hw
  gone i hi valid same := by
    rcases eq_or_ne i w with rfl | other
    · rw [accessed.tag] at same
      exact absent i ⟨hw, full i hw, same.symm⟩
    · have kept := accessed.block i hi other
      rw [kept.tag] at same
      exact other (formed.distinct _ (CacheType.lineOf_lt _ _) i hi w hw (kept.v ▸ valid) (full w hw) same)

variable {memSpace : MemSpace} {system next : CacheSystem} {call : CacheCall} {reply : CacheReply}
  {history : List (CacheCall × CacheReply)}

theorem sound_of_run
    (run : Run executeCommand (fun _ call => call.paddr.address % 16 = 0) (.zero memSpace) history system) :
    Sound system :=
  run.invariant Sound (CacheSystem.zero_sound memSpace)
    (fun _ _ _ _ sound aligned stepped => (sound.outcome (.aligned aligned) stepped).sound sound)

theorem Outcome.replaces (outcome : Outcome system call next reply)
    (absent : ∀ w, ¬ Holds call.access.cacheType (system.l1Cache call.access) call.paddr.address w)
    (full : Full call.access.cacheType (system.l1Cache call.access) (call.lineIn call.access))
    (allocated : call.operation = .write → call.allocations.newd ≠ none)
    (success : reply.code = .errNone) :
    ∃ w content, Eldest call.access.cacheType (system.l1Cache call.access) (call.lineIn call.access) w ∧
      Accessed call.access.cacheType (call.lineIn call.access) w (call.tagIn call.access) 0 content
        (system.l1Cache call.access) (next.l1Cache call.access) := by
  obtain ⟨⟨w, bound, line, placed, accessed⟩, _⟩ := outcome.accessed allocated success
  cases placed with
  | held holds _ => exact (absent w holds).elim
  | free _ free _ => exact (free.not_full full).elim
  | eldest _ eldest zero => exact ⟨w, line, eldest, zero ▸ accessed⟩

/-- A miss on a full line never moves a block to L2, and it does push one out of L1 if the address
lies in the memory and no allocation returns `NULL`. -/
theorem victim_lost
    (run : Run executeCommand (fun _ call => call.paddr.address % 16 = 0) (.zero memSpace) history system)
    (aligned : call.paddr.address % 16 = 0)
    (absent : ∀ w, ¬ Holds call.access.cacheType (system.l1Cache call.access) call.paddr.address w)
    (full : Full call.access.cacheType (system.l1Cache call.access) (call.lineIn call.access)) :
    (∀ next reply, executeCommand system call = .ok (next, reply) → ∀ w,
      ¬ InL2 call.access.cacheType ((system.l1Cache call.access).slot call.access.cacheType
        (call.lineIn call.access) w) (call.lineIn call.access) next.l2Cache) ∧
    (call.allocations.Succeed → call.paddr.address + 16 ≤ system.memSpace.size →
      ∃ next reply, executeCommand system call = .ok (next, reply) ∧ reply.code = .errNone ∧
        ∃ w < call.access.cacheType.ways, PushedOut call.access.cacheType (system.l1Cache call.access)
          (next.l1Cache call.access) (call.lineIn call.access) w) := by
  have sound := sound_of_run run
  constructor
  · rintro next reply stepped w ⟨j, _, valid, _⟩
    have quiet := ((sound.outcome (.aligned aligned) stepped).sound sound).quiet
    rw [Cache.slot, quiet.v] at valid
    contradiction
  · intro allocated inside
    obtain ⟨next, reply, stepped, success⟩ := sound.progress (.aligned aligned) allocated inside
    have outcome := sound.outcome (.aligned aligned) stepped
    obtain ⟨w, _, eldest, accessed⟩ := outcome.replaces absent full (fun _ => allocated.newd) success
    exact ⟨next, reply, stepped, success, w, eldest.way,
      accessed.pushedOut (sound.formed _) eldest.way full absent⟩

theorem victim_lost_fifth_write : ∃ system next reply,
    replay executeCommand [dataWrite 0 7, dataWrite 1024 7, dataWrite 2048 7, dataWrite 3072 7]
      (.zero blankMemory) = .ok system ∧
    executeCommand system (dataWrite 4096 7) = .ok (next, reply) ∧
    ∃ w < 4, PushedOut .L1_DCACHE system.l1DCache next.l1DCache 0 w ∧
      ¬ InL2 .L1_DCACHE (system.l1DCache.slot .L1_DCACHE 0 w) 0 next.l2Cache := by
  obtain ⟨system, replayed, full, size, other⟩ : ∃ system,
      replay executeCommand [dataWrite 0 7, dataWrite 1024 7, dataWrite 2048 7, dataWrite 3072 7]
        (.zero blankMemory) = .ok system ∧ (∀ i < 4, (system.l1DCache.slot .L1_DCACHE 0 i).v = true) ∧
        system.memSpace.size = 8192 ∧
        ∀ i < 4, (system.l1DCache.slot .L1_DCACHE 0 i).tag .L1_DCACHE ≠ 4 :=
    ⟨_, rfl, by decide +kernel, rfl, by decide +kernel⟩
  have first : Run executeCommand (fun _ call => call.paddr.address % 16 = 0) (.zero blankMemory) []
      (.zero blankMemory) := .nil
  have aligned : ∀ call ∈ [dataWrite 0 7, dataWrite 1024 7, dataWrite 2048 7, dataWrite 3072 7],
      call.paddr.address % 16 = 0 := by decide
  obtain ⟨history, run, _⟩ := first.replay (fun call member _ => aligned call member) replayed
  have absent : ∀ w, ¬ Holds .L1_DCACHE system.l1DCache (dataWrite 4096 7).paddr.address w :=
    fun w holds => other w holds.way holds.tag
  have fifth : (dataWrite 4096 7).paddr.address % 16 = 0 := rfl
  obtain ⟨missing, pushed⟩ := victim_lost run fifth absent full
  have inside : (dataWrite 4096 7).paddr.address + 16 ≤ system.memSpace.size := by rw [size]; decide
  obtain ⟨next, reply, stepped, _, w, hw, out⟩ := pushed granted_succeed inside
  exact ⟨system, next, reply, replayed, stepped, w, hw, out, missing next reply stepped w⟩

/-- After four reads that fill a set, the fifth one drops the block in the last way. -/
theorem fifth_read_loses_victim : ∃ system next,
    replay executeCommand [dataRead 0, dataRead 1024, dataRead 2048, dataRead 3072]
      (.zero blankMemory) = .ok system ∧
    executeCommand system (dataRead 4096) = .ok (next, ⟨.errNone, 0⟩) ∧
    PushedOut .L1_DCACHE system.l1DCache next.l1DCache 0 3 ∧
    ¬ InL2 .L1_DCACHE (system.l1DCache.slot .L1_DCACHE 0 3) 0 next.l2Cache := by
  refine ⟨_, _, rfl, rfl, ⟨rfl, by decide +kernel⟩, ?_⟩
  unfold InL2
  decide +kernel

end KabyLake
