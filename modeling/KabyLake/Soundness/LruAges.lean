import KabyLake.Proofs.CacheRecency

/-! # The ages of one set under the macros of `lru.h`

A set whose ways are filled from the first one on with `LRU_age_increase`, and touched with
`LRU_age_update` otherwise, keeps the order of the last steps in the ages of its valid ways: they are the
numbers from zero on, the most recent way has age zero, and `apply_lru` picks the way whose last step is
the oldest. The ages left over in invalid ways do not matter.
-/

namespace KabyLake

open AgeCounters Machine

variable {type : CacheType} {s w : ℕ} {cache start before after : Cache}

/-- A step on one set; what else the filled way holds is any entry. -/
inductive SetStep where
  | fill (entry : Entry)
  | touch (way : ℕ)

/-- Make the first invalid way valid and apply `LRU_age_increase` to it, or apply `LRU_age_update` to a
way; the reply is the way. -/
def setStep (type : CacheType) (s : ℕ) (cache : Cache) : SetStep → Exec (Cache × ℕ)
  | .fill entry => do
    let way ← findPlace cache type s
    let cache ← cache.store (cacheEntry type.ways s way) (entry.setV true)
    let cache ← lruAgeIncrease type type.ways way s cache
    return (cache, way)
  | .touch way => do
    let cache ← lruAgeUpdate type type.ways way s cache
    return (cache, way)

def SetStep.Allowed (type : CacheType) (s : ℕ) (cache : Cache) : SetStep → Prop
  | fill _ => ¬ Full type cache s
  | touch way => way < type.ways ∧ (cache.slot type s way).v = true

def Cache.wayBank (cache : Cache) (type : CacheType) (s : ℕ) : Bank (Fin type.ways) ℕ where
  live i := (cache.slot type s i).v = true
  key i := i
  age i := (cache.slot type s i).age type

structure Stepped (type : CacheType) (s : ℕ) (before : Cache) (w bound : ℕ) (after : Cache) : Prop where
  way : w < type.ways
  accessed : ∃ tag line, Accessed type s w tag bound line before after
  place : Free type before s w ∧ bound = type.ways - 1 ∨
    (before.slot type s w).v = true ∧ bound = (before.slot type s w).age type

theorem setStep_ok (room : before.Room type) (hs : s < type.lines) {step : SetStep}
    (allowed : step.Allowed type s before) :
    ∃ after w bound, setStep type s before step = .ok (after, w) ∧
      Stepped type s before w bound after := by
  cases step with
  | fill entry =>
    obtain ⟨w, free⟩ := (full_or_free type before s).resolve_left allowed
    have wide : (before.put type s w (entry.setV true)).Room type := room.put
    obtain ⟨after, raised, aged⟩ := lruAgeIncrease_ok wide hs free.way
    refine ⟨after, w, _, ?_, free.way, ⟨_, _, aged.accessed_put free.way (by simp)⟩, .inl ⟨free, rfl⟩⟩
    simp only [setStep, free.findPlace room hs, ok_bind, Cache.store_slot room hs free.way, raised,
      pure_eq_ok]
  | touch way =>
    obtain ⟨hw, valid⟩ := allowed
    obtain ⟨after, updated, aged⟩ := lruAgeUpdate_ok room hs hw
    refine ⟨after, way, _, ?_, hw, ⟨_, _, aged.accessed hw valid⟩, .inr ⟨valid, rfl⟩⟩
    simp only [setStep, updated, ok_bind, pure_eq_ok]

theorem Accessed.touched_way {tag bound : ℕ} {line : Line} {w : Fin type.ways}
    (accessed : Accessed type s w tag bound line before after) :
    Touched (before.wayBank type s) w w bound (after.wayBank type s) where
  here := accessed.v
  key := rfl
  age := accessed.age
  live i other := by
    simp only [Cache.wayBank]
    rw [(accessed.block i i.isLt (Fin.val_ne_of_ne other)).v]
  kept _ _ _ := rfl
  other _ other _ := Fin.val_ne_of_ne other
  rises i other _ := accessed.ages i i.isLt (Fin.val_ne_of_ne other)

/-- The ages are graded by the steps so far, and the valid ways come first. -/
structure LruInvariant (type : CacheType) (s : ℕ) (ways : List ℕ) (cache : Cache) : Prop where
  room : cache.Room type
  graded : Graded (cache.wayBank type s) ways
  first : ∀ i < type.ways, ∀ j < i, (cache.slot type s i).v = true → (cache.slot type s j).v = true

theorem LruInvariant.initial (room : cache.Room type)
    (invalid : ∀ i < type.ways, (cache.slot type s i).v = false) : LruInvariant type s [] cache where
  room := room
  graded := by
    apply Graded.of_empty
    intro i
    simp [Cache.wayBank, invalid i i.isLt]
  first i hi j _ valid := by
    rw [invalid i hi] at valid
    contradiction

theorem LruInvariant.step {ways : List ℕ} {bound : ℕ} (holds : LruInvariant type s ways before)
    (stepped : Stepped type s before w bound after) : LruInvariant type s (w :: ways) after := by
  obtain ⟨hw, ⟨tag, line, accessed⟩, place⟩ := stepped
  have touched := Accessed.touched_way (w := ⟨w, hw⟩) accessed
  constructor
  · exact accessed.room holds.room
  · rcases place with ⟨free, rfl⟩ | ⟨valid, rfl⟩
    · apply touched.graded_of_first holds.graded
      · exact fun i earlier => free.first i earlier
      · simp [Cache.wayBank, free.invalid]
      · intro i live
        have young := holds.graded.age_lt (w := ⟨w, hw⟩) live (by simp [Cache.wayBank, free.invalid])
        have young' : (before.wayBank type s).age i < w := young
        omega
    · exact touched.graded_of_live holds.graded valid rfl rfl
  · have earlier : ∀ j < w, (before.slot type s j).v = true := by
      rcases place with ⟨free, _⟩ | ⟨valid, _⟩
      · exact free.first
      · exact fun j less => holds.first w hw j less valid
    intro i hi j less valid
    rcases eq_or_ne j w with rfl | other
    · exact accessed.v
    · rw [(accessed.block j (less.trans hi) other).v]
      rcases eq_or_ne i w with rfl | another
      · exact earlier j less
      · rw [(accessed.block i hi another).v] at valid
        exact holds.first i hi j less valid

/-- The ages of the valid ways are the order of their last steps, `ways` being the ways of the steps so
far, the most recent one first. -/
structure LruOrder (type : CacheType) (s : ℕ) (ways : List ℕ) (cache : Cache) : Prop where
  perm : ∃ k ≤ type.ways, (∀ i < type.ways, (cache.slot type s i).v = true ↔ i < k) ∧
    (List.ofFn fun i : Fin k => (cache.slot type s i).age type).Perm (List.range k)
  stepped : ∀ i < type.ways, (cache.slot type s i).v = true → i ∈ ways
  recency : ∀ i < type.ways, ∀ j < type.ways, (cache.slot type s i).v = true →
    (cache.slot type s j).v = true →
    ((cache.slot type s i).age type < (cache.slot type s j).age type ↔ ways.idxOf i < ways.idxOf j)
  newest : ∀ w ∈ ways.head?, (cache.slot type s w).age type = 0
  bounded : ∀ i < type.ways, (cache.slot type s i).age type ≤ type.ways - 1
  oldest : Full type cache s → ∃ w < type.ways, applyLru cache type s = .ok w ∧
    ∀ i < type.ways, i ≠ w → ways.idxOf i < ways.idxOf w

/-- The valid ways of a set are those before the first invalid one. -/
theorem LruInvariant.exists_prefix {ways : List ℕ} (holds : LruInvariant type s ways cache) :
    ∃ k ≤ type.ways, ∀ i < type.ways, (cache.slot type s i).v = true ↔ i < k := by
  rcases full_or_free type cache s with full | ⟨k, free⟩
  · exact ⟨type.ways, le_rfl, fun i hi => iff_of_true (full i hi) hi⟩
  · refine ⟨k, free.way.le, fun i hi => ⟨fun valid => ?_, free.first i⟩⟩
    by_contra late
    rcases (Nat.not_lt.mp late).eq_or_lt with rfl | after
    · rw [free.invalid] at valid
      contradiction
    · have early := holds.first i hi k after valid
      rw [free.invalid] at early
      contradiction

theorem LruInvariant.order {ways : List ℕ} (holds : LruInvariant type s ways cache)
    (hs : s < type.lines) (newest : ∀ w ∈ ways.head?, (cache.slot type s w).age type = 0) :
    LruOrder type s ways cache := by
  have decided := holds.graded.decided
  have ages {i j : ℕ} (hi : i < type.ways) (hj : j < type.ways)
      (valid : (cache.slot type s i).v = true) (valid' : (cache.slot type s j).v = true) :
      ways.idxOf i < ways.idxOf j → (cache.slot type s i).age type < (cache.slot type s j).age type :=
    decided.ages ⟨i, hi⟩ ⟨j, hj⟩ valid valid'
  have known {i : ℕ} (hi : i < type.ways) (valid : (cache.slot type s i).v = true) : i ∈ ways :=
    decided.mem ⟨i, hi⟩ valid
  obtain ⟨k, fits, first⟩ := holds.exists_prefix
  refine ⟨⟨k, fits, first, ?_⟩, fun i hi => known hi, ?_, newest, ?_, ?_⟩
  · exact holds.graded.ages_perm fits (fun i => first i i.isLt) (fun i _ => Entry.age_lt)
      (fun i j _ _ same => Fin.ext same)
  · intro i hi j hj valid valid'
    refine ⟨fun younger => ?_, ages hi hj valid valid'⟩
    rcases Nat.lt_trichotomy (ways.idxOf i) (ways.idxOf j) with later | same | earlier
    · exact later
    · obtain rfl := (List.idxOf_inj (known hi valid)).mp same
      exact (Nat.lt_irrefl _ younger).elim
    · exact (Nat.lt_asymm younger (ages hj hi valid' valid earlier)).elim
  · intro i hi
    have small : (cache.slot type s i).age type < type.ways := Entry.age_lt
    omega
  · intro full
    obtain ⟨w, chosen, eldest⟩ := full.applyLru holds.room hs
    refine ⟨w, eldest.way, chosen, fun i hi other => ?_⟩
    rcases Nat.lt_trichotomy (ways.idxOf i) (ways.idxOf w) with later | same | earlier
    · exact later
    · exact (other ((List.idxOf_inj (known hi (full i hi))).mp same)).elim
    · have older := ages eldest.way hi (full w eldest.way) (full i hi) earlier
      exact (Nat.not_le.mpr older (eldest.most i hi)).elim

/-- Every sequence of steps on a set that starts without valid ways, whatever the ages in it, keeps the
order of the last steps in the ages, and no further step fails or lets an age wrap around. -/
theorem lruOrder_of_run (room : start.Room type) (hs : s < type.lines)
    (invalid : ∀ i < type.ways, (start.slot type s i).v = false) {history : List (SetStep × ℕ)}
    (run : Run (setStep type s) (SetStep.Allowed type s) start history cache) :
    LruOrder type s (history.map Prod.snd) cache ∧
      ∀ step : SetStep, step.Allowed type s cache → ∃ next w, setStep type s cache step = .ok (next, w) ∧
        w < type.ways ∧ (next.slot type s w).age type = 0 ∧ ∀ i < type.ways, i ≠ w →
          (next.slot type s i).age type = (cache.slot type s i).age type ∨
          (next.slot type s i).age type = (cache.slot type s i).age type + 1 := by
  have reached : LruInvariant type s (history.map Prod.snd) cache ∧
      ∀ w ∈ (history.map Prod.snd).head?, (cache.slot type s w).age type = 0 := by
    refine run.invariant_history (fun history cache => LruInvariant type s (history.map Prod.snd) cache ∧
      ∀ w ∈ (history.map Prod.snd).head?, (cache.slot type s w).age type = 0) ?_ ?_
    · exact ⟨.initial room invalid, by simp⟩
    · rintro history cache step next w ⟨holds, _⟩ allowed ran
      obtain ⟨after, w', bound, ran', stepped⟩ := setStep_ok holds.room hs allowed
      obtain ⟨rfl, rfl⟩ := Prod.mk.inj (Except.ok.inj (ran.symm.trans ran'))
      obtain ⟨_, _, accessed⟩ := stepped.accessed
      exact ⟨holds.step stepped, by simpa using accessed.age⟩
  obtain ⟨holds, newest⟩ := reached
  refine ⟨holds.order hs newest, fun step allowed => ?_⟩
  obtain ⟨next, w, bound, ran, stepped⟩ := setStep_ok holds.room hs allowed
  obtain ⟨_, _, accessed⟩ := stepped.accessed
  refine ⟨next, w, ran, stepped.way, accessed.age, fun i hi other => ?_⟩
  rw [accessed.ages i hi other]
  split
  · exact .inr rfl
  · exact .inl rfl

private def leftoverAges : Cache := ⟨4096, fun _ => ⟨0b1010#32, Line.zero⟩⟩

theorem lruOrder_of_run_fill : ∃ cache w,
    setStep .L2_CACHE 0 leftoverAges (.fill ⟨0#32, Line.zero⟩) = .ok (cache, w) ∧
      (cache.slot .L2_CACHE 0 w).age .L2_CACHE = 0 ∧ LruOrder .L2_CACHE 0 [w] cache := by
  have room : leftoverAges.Room .L2_CACHE := Nat.le_refl 4096
  have invalid : ∀ i < CacheType.L2_CACHE.ways, (leftoverAges.slot .L2_CACHE 0 i).v = false :=
    fun i _ => show Entry.v ⟨0b1010#32, Line.zero⟩ = false by decide
  have free : SetStep.Allowed .L2_CACHE 0 leftoverAges (.fill ⟨0#32, Line.zero⟩) :=
    fun full => absurd (full 0 CacheType.ways_pos) (by decide)
  obtain ⟨cache, w, ran, _, age, _⟩ :=
    (lruOrder_of_run room CacheType.lines_pos invalid .nil).2 _ free
  have run : Run (setStep .L2_CACHE 0) (SetStep.Allowed .L2_CACHE 0) leftoverAges
      [(.fill ⟨0#32, Line.zero⟩, w)] cache := .snoc .nil free ran
  exact ⟨cache, w, ran, age, (lruOrder_of_run room CacheType.lines_pos invalid run).1⟩

end KabyLake
