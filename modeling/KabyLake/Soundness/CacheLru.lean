import KabyLake.Proofs.CacheRecency
import KabyLake.Soundness.CacheVictim

/-! # Which block leaves a full L1 line

The ages of a line never contradict the order of its accesses, so the least recently used way has
the largest age in every run. It is the way that `apply_lru` picks exactly if the ways behind it have
smaller ages. Ties come from the misses that store the age zero before they call `LRU_age_update`;
without them the ages decide the order, and the replacement is least recently used.
-/

namespace KabyLake

open AgeCounters Machine

variable {type : CacheType} {before after : Cache} {s w tag bound : ℕ} {line : Line}

/-- The block of way `w`, and no other block of the line, is pushed out. -/
def Replaces (type : CacheType) (before after : Cache) (s w : ℕ) : Prop :=
  ∀ i < type.ways, PushedOut type before after s i ↔ i = w

theorem Accessed.not_pushedOut (accessed : Accessed type s w tag bound line before after) {i : ℕ}
    (hi : i < type.ways) (other : i ≠ w) : ¬ PushedOut type before after s i := by
  intro out
  have kept := accessed.block i hi other
  exact out.gone i hi (kept.v.trans out.valid) kept.tag

variable {memSpace : MemSpace} {system next : CacheSystem} {call : CacheCall} {reply : CacheReply}
  {history : List (CacheCall × CacheReply)}

theorem CacheSystem.zero_bank_empty (memSpace : MemSpace) (access : MemAccess) (s : ℕ)
    (i : Fin access.cacheType.ways) :
    ¬ (((CacheSystem.zero memSpace).l1Cache access).bank access.cacheType s).live i := by
  cases access <;> simp [Cache.bank, Cache.slot, CacheSystem.l1Cache, CacheSystem.zero]

/-- After every run of served calls the ages do not contradict the accesses. -/
theorem ranked_of_run
    (run : Run executeCommand (fun _ call => call.Served) (.zero memSpace) history system) :
    Sound system ∧ ∀ access s, Ranked ((system.l1Cache access).bank access.cacheType s)
      (accesses access s history) := by
  refine run.invariant_history (fun history system => Sound system ∧ ∀ access s,
    Ranked ((system.l1Cache access).bank access.cacheType s) (accesses access s history)) ?_ ?_
  · refine ⟨CacheSystem.zero_sound memSpace, fun access s => ?_⟩
    exact (Decided.of_empty (CacheSystem.zero_bank_empty memSpace access s)).ranked
  · rintro history system call next reply ⟨sound, ranked⟩ served stepped
    have outcome := sound.outcome (.aligned served.aligned) stepped
    have kept := outcome.sound sound
    exact ⟨kept, outcome.ranked served kept ranked⟩

/-- After every run of gradual calls the ages decide the order of the accesses. -/
theorem graded_of_run
    (run : Run executeCommand (fun system call => call.Served ∧ Gradual system call) (.zero memSpace)
      history system) :
    Sound system ∧ ∀ access s, Graded ((system.l1Cache access).bank access.cacheType s)
      (accesses access s history) := by
  refine run.invariant_history (fun history system => Sound system ∧ ∀ access s,
    Graded ((system.l1Cache access).bank access.cacheType s) (accesses access s history)) ?_ ?_
  · refine ⟨CacheSystem.zero_sound memSpace, fun access s => ?_⟩
    exact Graded.of_empty (CacheSystem.zero_bank_empty memSpace access s)
  · rintro history system call next reply ⟨sound, graded⟩ ⟨served, gradual⟩ stepped
    have outcome := sound.outcome (.aligned served.aligned) stepped
    exact ⟨outcome.sound sound, outcome.graded served gradual sound graded⟩

theorem Full.exists_leastRecent {tags : List ℕ} (full : Full type before s) (formed : Formed type before)
    (hs : s < type.lines) (ranked : Ranked (before.bank type s) tags) :
    ∃ w, LeastRecent (before.bank type s) tags w := by
  apply AgeCounters.exists_leastRecent (Set.toFinite _)
  · exact ⟨⟨0, CacheType.ways_pos⟩, full 0 CacheType.ways_pos⟩
  · exact ranked.mem
  · intro i j live live' same
    exact Fin.ext (formed.distinct s hs i i.isLt j j.isLt live live' same)

/-- A successful miss on a full line replaces the block of its eldest way. -/
theorem Outcome.exists_victim (outcome : Outcome system call next reply) (served : call.Served)
    (formed : Formed call.access.cacheType (system.l1Cache call.access))
    (absent : ∀ w, ¬ Holds call.access.cacheType (system.l1Cache call.access) call.paddr.address w)
    (full : Full call.access.cacheType (system.l1Cache call.access) (call.lineIn call.access))
    (success : reply.code = .errNone) :
    ∃ victim, Eldest call.access.cacheType (system.l1Cache call.access) (call.lineIn call.access) victim ∧
      Replaces call.access.cacheType (system.l1Cache call.access) (next.l1Cache call.access)
        (call.lineIn call.access) victim := by
  obtain ⟨victim, line, eldest, accessed⟩ := outcome.replaces absent full served.newd success
  refine ⟨victim, eldest, fun i hi => ⟨fun out => ?_, ?_⟩⟩
  · by_contra other
    exact accessed.not_pushedOut hi other out
  · rintro rfl
    exact accessed.pushedOut formed hi full absent

theorem Replaces.unique {victim : ℕ} (replaced : Replaces type before after s w)
    (again : Replaces type before after s victim) (hw : w < type.ways) : w = victim :=
  (again w hw).mp ((replaced w hw).mpr rfl)

/-- The least recently used way is the eldest one exactly if the ways behind it have smaller ages. -/
theorem Eldest.eq_leastRecent_iff {tags : List ℕ} {victim : ℕ} {w : Fin type.ways}
    (eldest : Eldest type before s victim) (ranked : Ranked (before.bank type s) tags)
    (oldest : LeastRecent (before.bank type s) tags w) :
    w = victim ↔ ∀ i < type.ways, w < i →
      (before.slot type s i).age type < (before.slot type s w).age type := by
  constructor
  · rintro rfl
    exact eldest.later
  · intro younger
    have most : (before.slot type s victim).age type ≤ (before.slot type s w).age type :=
      oldest.age_le (i := ⟨victim, eldest.way⟩) ranked (eldest.full victim eldest.way)
    have largest := eldest.most w w.isLt
    rcases lt_trichotomy w.val victim with behind | same | ahead
    · have := younger victim eldest.way behind
      omega
    · exact same
    · have := eldest.later w w.isLt ahead
      omega

/-- A miss on a full line replaces the block whose last access is the oldest if and only if the ways
behind that of this block have smaller ages than it has. -/
theorem replaces_leastRecent_iff
    (run : Run executeCommand (fun _ call => call.Served) (.zero memSpace) history system)
    (served : call.Served)
    (absent : ∀ w, ¬ Holds call.access.cacheType (system.l1Cache call.access) call.paddr.address w)
    (full : Full call.access.cacheType (system.l1Cache call.access) (call.lineIn call.access))
    (stepped : executeCommand system call = .ok (next, reply)) (success : reply.code = .errNone) :
    ∃ w, LeastRecent ((system.l1Cache call.access).bank call.access.cacheType (call.lineIn call.access))
        (accesses call.access (call.lineIn call.access) history) w ∧
      (Replaces call.access.cacheType (system.l1Cache call.access) (next.l1Cache call.access)
          (call.lineIn call.access) w ↔
        ∀ i < call.access.cacheType.ways, w < i →
          ((system.l1Cache call.access).slot call.access.cacheType (call.lineIn call.access) i).age
              call.access.cacheType <
            ((system.l1Cache call.access).slot call.access.cacheType (call.lineIn call.access) w).age
              call.access.cacheType) := by
  obtain ⟨sound, ranked⟩ := ranked_of_run run
  have outcome := sound.outcome (.aligned served.aligned) stepped
  obtain ⟨victim, eldest, replaced⟩ := outcome.exists_victim served (sound.formed _) absent full success
  obtain ⟨w, oldest⟩ := full.exists_leastRecent (sound.formed _) (CacheType.lineOf_lt _ _) (ranked _ _)
  refine ⟨w, oldest, ?_⟩
  rw [← eldest.eq_leastRecent_iff (ranked _ _) oldest]
  constructor
  · exact fun both => both.unique replaced w.isLt
  · rintro rfl
    exact replaced

theorem replaces_leastRecent_fifth_write : ∃ history system next w,
    Run executeCommand (fun _ call => call.Served) (.zero blankMemory) history system ∧
    executeCommand system (dataWrite 4096 7) = .ok (next, ⟨.errNone, 7⟩) ∧
    LeastRecent (system.l1DCache.bank .L1_DCACHE 0) (accesses .DATA 0 history) w ∧
    Replaces .L1_DCACHE system.l1DCache next.l1DCache 0 w := by
  obtain ⟨system, next, replayed, full, other, younger, stepped⟩ : ∃ system next,
      replay executeCommand [dataWrite 0 7, dataWrite 1024 7, dataWrite 2048 7, dataWrite 3072 7]
        (.zero blankMemory) = .ok system ∧ (∀ i < 4, (system.l1DCache.slot .L1_DCACHE 0 i).v = true) ∧
        (∀ i < 4, (system.l1DCache.slot .L1_DCACHE 0 i).tag .L1_DCACHE ≠ 4) ∧
        (∀ w < 4, ∀ i < 4, w < i → (system.l1DCache.slot .L1_DCACHE 0 i).age .L1_DCACHE <
          (system.l1DCache.slot .L1_DCACHE 0 w).age .L1_DCACHE) ∧
        executeCommand system (dataWrite 4096 7) = .ok (next, ⟨.errNone, 7⟩) :=
    ⟨_, _, rfl, by decide +kernel, by decide +kernel, by decide +kernel, rfl⟩
  have first : Run executeCommand (fun _ call => call.Served) (.zero blankMemory) []
      (.zero blankMemory) := .nil
  have served (a : BitVec 32) (aligned : (dataWrite a 7).paddr.address % 16 = 0) :
      (dataWrite a 7).Served := ⟨aligned, fun _ => rfl, fun _ => by simp [dataWrite, granted]⟩
  have four : ∀ call ∈ [dataWrite 0 7, dataWrite 1024 7, dataWrite 2048 7, dataWrite 3072 7],
      call.Served := by
    simp only [List.forall_mem_cons, List.not_mem_nil, false_implies, implies_true, and_true]
    exact ⟨served 0 rfl, served 1024 rfl, served 2048 rfl, served 3072 rfl⟩
  obtain ⟨history, run, _⟩ := first.replay (fun call member _ => four call member) replayed
  obtain ⟨w, oldest, exactly⟩ := replaces_leastRecent_iff run (served 4096 rfl)
    (fun w holds => other w holds.way holds.tag) full stepped rfl
  exact ⟨history, system, next, w, run, stepped, oldest, exactly.mpr (younger w w.isLt)⟩

/-- After four reads of one set all ages are zero, and a fifth read replaces the last block read
instead of the first one. -/
theorem fifth_read_replaces_latest : ∃ history system next,
    Run executeCommand (fun _ call => call.Served) (.zero blankMemory) history system ∧
    history.map Prod.fst = [dataRead 3072, dataRead 2048, dataRead 1024, dataRead 0] ∧
    executeCommand system (dataRead 4096) = .ok (next, ⟨.errNone, 0⟩) ∧
    LeastRecent (system.l1DCache.bank .L1_DCACHE 0) (accesses .DATA 0 history) (0 : Fin 4) ∧
    Replaces .L1_DCACHE system.l1DCache next.l1DCache 0 3 := by
  obtain ⟨one, two, three, system, next, first, second, third, fourth, fifth, valid, tags, out, kept⟩ :
      ∃ one two three system next,
        executeCommand (.zero blankMemory) (dataRead 0) = .ok (one, ⟨.errNone, 0⟩) ∧
        executeCommand one (dataRead 1024) = .ok (two, ⟨.errNone, 0⟩) ∧
        executeCommand two (dataRead 2048) = .ok (three, ⟨.errNone, 0⟩) ∧
        executeCommand three (dataRead 3072) = .ok (system, ⟨.errNone, 0⟩) ∧
        executeCommand system (dataRead 4096) = .ok (next, ⟨.errNone, 0⟩) ∧
        (∀ i < 4, (system.l1DCache.slot .L1_DCACHE 0 i).v = true) ∧
        (∀ i < 4, (system.l1DCache.slot .L1_DCACHE 0 i).tag .L1_DCACHE = i) ∧
        (∀ i < 4, (next.l1DCache.slot .L1_DCACHE 0 i).tag .L1_DCACHE ≠ 3) ∧
        ∀ i < 3, (next.l1DCache.slot .L1_DCACHE 0 i).v = true ∧
          (next.l1DCache.slot .L1_DCACHE 0 i).tag .L1_DCACHE = i :=
    ⟨_, _, _, _, _, rfl, rfl, rfl, rfl, rfl, by decide +kernel, by decide +kernel, by decide +kernel,
      by decide +kernel⟩
  have served (a : BitVec 32) (aligned : (dataRead a).paddr.address % 16 = 0) : (dataRead a).Served :=
    ⟨aligned, fun write => by contradiction, fun write => by contradiction⟩
  have run : Run executeCommand (fun _ call => call.Served) (.zero blankMemory)
      [(dataRead 3072, ⟨.errNone, 0⟩), (dataRead 2048, ⟨.errNone, 0⟩), (dataRead 1024, ⟨.errNone, 0⟩),
        (dataRead 0, ⟨.errNone, 0⟩)] system :=
    .snoc (.snoc (.snoc (.snoc .nil (served 0 rfl) first) (served 1024 rfl) second)
      (served 2048 rfl) third) (served 3072 rfl) fourth
  refine ⟨_, system, next, run, rfl, fifth, ⟨valid 0 (by decide), fun i _ other => ?_⟩, fun i hi => ?_⟩
  · have order : ∀ i : Fin 4, i ≠ 0 → [3, 2, 1, 0].idxOf i.val < [3, 2, 1, 0].idxOf 0 := by decide
    have stored : (system.l1DCache.bank .L1_DCACHE 0).key i = i.val := tags i i.isLt
    have oldest : (system.l1DCache.bank .L1_DCACHE 0).key (0 : Fin 4) = 0 := tags 0 (by decide)
    rw [stored, oldest]
    exact order i other
  · constructor
    · intro pushed
      by_contra other
      have below : i < 3 := by have : i < 4 := hi; omega
      exact pushed.gone i hi (kept i below).1 ((kept i below).2.trans (tags i hi).symm)
    · rintro rfl
      exact ⟨valid 3 (by decide), fun i hi _ same => out i hi (same.trans (tags 3 (by decide)))⟩

/-- If the run so far consists of hits, of writes that found an invalid way and of first accesses to
a line, a miss on a full line replaces the block whose last access is the oldest. -/
theorem replaces_leastRecent_of_gradual
    (run : Run executeCommand (fun system call => call.Served ∧ Gradual system call) (.zero memSpace)
      history system)
    (served : call.Served)
    (absent : ∀ w, ¬ Holds call.access.cacheType (system.l1Cache call.access) call.paddr.address w)
    (full : Full call.access.cacheType (system.l1Cache call.access) (call.lineIn call.access))
    (stepped : executeCommand system call = .ok (next, reply)) (success : reply.code = .errNone) :
    ∃ w, LeastRecent ((system.l1Cache call.access).bank call.access.cacheType (call.lineIn call.access))
        (accesses call.access (call.lineIn call.access) history) w ∧
      Replaces call.access.cacheType (system.l1Cache call.access) (next.l1Cache call.access)
        (call.lineIn call.access) w := by
  obtain ⟨sound, graded⟩ := graded_of_run run
  have decided := (graded call.access (call.lineIn call.access)).decided
  have outcome := sound.outcome (.aligned served.aligned) stepped
  obtain ⟨victim, eldest, replaced⟩ := outcome.exists_victim served (sound.formed _) absent full success
  obtain ⟨w, oldest⟩ :=
    full.exists_leastRecent (sound.formed _) (CacheType.lineOf_lt _ _) decided.ranked
  have same := (eldest.eq_leastRecent_iff decided.ranked oldest).mpr fun i hi behind =>
    oldest.age_lt (i := ⟨i, hi⟩) decided (full i hi) (Fin.ne_of_gt behind)
  exact ⟨w, oldest, same ▸ replaced⟩

end KabyLake
