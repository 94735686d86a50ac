import KabyLake.Soundness.CacheContainment
import KabyLake.Soundness.CacheDump

/-! # A dump shows all that matters

Two systems with the same memory whose L1 caches print alike cannot be told apart by any commands: what
a dump leaves out of an entry, the ages, tags and words of invalid ones and the padding, is never used.
-/

namespace KabyLake

open Machine

section Caches

variable {type : CacheType} {cache other after after' : Cache} {s w : ℕ}

theorem Entry.SameFields.shown_eq {entry entry' : Entry} (same : Entry.SameFields type entry entry') :
    entry.shown type = entry'.shown type :=
  Entry.shown_eq_iff.mpr ⟨same.block.v, fun _ => ⟨same.age, same.block.tag, same.block.line⟩⟩

namespace Cache.Shows

theorem symm (shows : cache.Shows type other) : other.Shows type cache :=
  ⟨shows.room', shows.room, fun s hs i hi => (shows.slot s hs i hi).symm⟩

theorem put (shows : cache.Shows type other) (hw : w < type.ways) {entry entry' : Entry}
    (same : entry.shown type = entry'.shown type) :
    (cache.put type s w entry).Shows type (other.put type s w entry') where
  room := shows.room
  room' := shows.room'
  slot t ht j hj := by
    by_cases here : t = s ∧ j = w
    · obtain ⟨rfl, rfl⟩ := here
      rw [Cache.slot_put_self, Cache.slot_put_self, same]
    · have apart : t = s → j ≠ w := fun line way => here ⟨line, way⟩
      rw [Cache.slot_put_of_ne hw hj apart, Cache.slot_put_of_ne hw hj apart]
      exact shows.slot t ht j hj

theorem aged {bound : ℕ} (shows : cache.Shows type other) (aged : Aged type s w bound cache after)
    (aged' : Aged type s w bound other after') : after.Shows type after' where
  room := aged.room shows.room
  room' := aged'.room shows.room'
  slot t ht j hj := by
    rcases eq_or_ne t s with rfl | apart
    · obtain ⟨valid, fields⟩ := Entry.shown_eq_iff.mp (shows.slot t ht j hj)
      have block := aged.block j hj
      have block' := aged'.block j hj
      rw [Entry.shown_eq_iff, block.v, block'.v]
      refine ⟨valid, fun present => ?_⟩
      obtain ⟨age, tag, line⟩ := fields present
      rw [aged.age j hj, aged'.age j hj, block.tag, block'.tag, block.line, block'.line, age]
      exact ⟨rfl, tag, line⟩
    · rw [aged.slot_other apart hj, aged'.slot_other apart hj]
      exact shows.slot t ht j hj

/-- What is shown of the valid entries is all that the functions on a line use. -/
theorem lineLink (hs : s < type.lines) : LineLink type s (Cache.Shows type) (Entry.SameFields type) where
  line := hs
  room := fun shows => ⟨shows.room, shows.room'⟩
  v := fun shows hi => (Entry.shown_eq_iff.mp (shows.slot s hs _ hi)).1
  valid := by
    intro cache other i shows hi valid
    obtain ⟨v, fields⟩ := Entry.shown_eq_iff.mp (shows.slot s hs i hi)
    obtain ⟨age, tag, line⟩ := fields valid
    exact ⟨⟨v, tag, line⟩, age⟩
  fields := id
  setLine := fun same line => ⟨⟨same.block.v, same.block.tag, rfl⟩, same.age⟩
  overwrite := by
    intro cache other i entry entry' _ _ same
    refine ⟨⟨?_, ?_, ?_⟩, ?_⟩ <;>
      simp [Entry.overwrite, same.block.v, same.block.tag, same.block.line, same.age]
  put := fun shows hw same => shows.put hw same.shown_eq
  lruAge := by
    intro cache other w bound shows hw fits
    obtain ⟨after, ran, aged⟩ := lruAge_ok shows.room hs hw fits
    obtain ⟨after', ran', aged'⟩ := lruAge_ok shows.room' hs hw fits
    rw [ran, ran']
    refine .ok ⟨shows.aged aged aged', fun same => ⟨?_, ?_⟩⟩
    · have block := aged.block w hw
      have block' := aged'.block w hw
      exact ⟨by rw [block.v, block'.v, same.block.v], by rw [block.tag, block'.tag, same.block.tag],
        by rw [block.line, block'.line, same.block.line]⟩
    · rw [aged.age w hw, aged'.age w hw, if_pos rfl, if_pos rfl]

end Cache.Shows

/-- At an aligned address nothing of what `malloc` left in the block of an entry is kept but the padding. -/
theorem makesRelated_clean {paddr : PhyAddr} {entry entry' : Option Entry}
    (outcome : entry.isSome = entry'.isSome) (clean : paddr.address % 16 = 0 ∨ entry = entry')
    (memSpace : MemSpace) : MakesRelated type paddr (Entry.SameFields type) entry entry' memSpace memSpace := by
  cases entry with
  | none =>
    obtain rfl : entry' = none := by simpa using outcome
    exact Related.ok .none
  | some garbage =>
    obtain ⟨garbage', rfl⟩ := Option.isSome_iff_exists.mp outcome.symm
    apply Related.ite
    · intro unaligned
      obtain rfl := Option.some.inj (clean.resolve_left unaligned)
      exact .ok (.some (.refl _))
    · intro _
      refine .bind_same rfl fun line _ => .ok (.some ⟨⟨?_, ?_, ?_⟩, ?_⟩) <;> simp

end Caches

section Paths

variable {paddr : PhyAddr} {memSpace : MemSpace} {l1 l1' l2 l2' : Cache} (word word' : BitVec 32)
  {allocations allocations' : Allocations} (quiet : Quiet l2) (quiet' : Quiet l2')
  (outcomes : allocations.SameOutcomes allocations')
include quiet quiet' outcomes

/-- A read that misses L1 at an address that is not aligned uses what `malloc` left. -/
theorem cacheRead_shows (access : MemAccess) (shows : l1.Shows access.cacheType l1')
    (clean : paddr.address % 16 = 0 ∨ (∃ w, Found access.cacheType l1 paddr.address w) ∨
      allocations.newentry = allocations'.newentry) :
    Related (ReadReply.Linked (Cache.Shows access.cacheType) l2 l2' word word')
      (cacheRead memSpace paddr access l1 l2 word allocations)
      (cacheRead memSpace paddr access l1' l2' word' allocations') :=
  cacheRead_linked word word' (Cache.Shows.lineLink (CacheType.lineOf_lt _ _)) shows quiet quiet' outcomes
    fun unfound =>
      makesRelated_clean outcomes.newentry (clean.imp_right fun rest => rest.resolve_left unfound) memSpace

theorem cacheWrite_shows (shows : l1.Shows .L1_DCACHE l1')
    (clean : paddr.address % 16 = 0 ∨ (∃ w, Found .L1_DCACHE l1 paddr.address w) ∨
      allocations.newd = allocations'.newd) :
    Related (WriteReply.Linked (· = ·) (Cache.Shows .L1_DCACHE) fun l2 l2' => Quiet l2 ∧ Quiet l2')
      (cacheWrite memSpace paddr l1 l2 word allocations)
      (cacheWrite memSpace paddr l1' l2' word allocations') := by
  refine cacheWrite_linked word (Cache.Shows.lineLink (CacheType.lineOf_lt _ _)) shows (.eq _) rfl
    ⟨quiet, quiet'⟩ quiet quiet' outcomes ?_ (quiet_leaves quiet quiet' _ _ _)
  rintro unfound memSpace _ rfl
  exact makesRelated_clean outcomes.newd (clean.imp_right fun rest => rest.resolve_left unfound) memSpace

end Paths

def SameDump (type : CacheType) (cache other : Cache) : Prop :=
  ∃ result, cacheDump cache type = .ok result ∧ cacheDump other type = .ok result

theorem Cache.Shows.dumps {type : CacheType} {cache other : Cache} (shows : cache.Shows type other) :
    SameDump type cache other :=
  ⟨_, cacheDump_eq shows.room, (cacheDump_eq_iff (cacheDump_eq shows.room)).mpr shows⟩

def CacheSystem.SameDumps (system system' : CacheSystem) : Prop :=
  (∀ access, SameDump access.cacheType (system.l1Cache access) (system'.l1Cache access)) ∧
    SameDump .L2_CACHE system.l2Cache system'.l2Cache

/-- Two systems with the same memory whose L1 caches print alike. -/
structure CacheSystem.Shows (system system' : CacheSystem) : Prop where
  memSpace : system.memSpace = system'.memSpace
  l1Cache : ∀ access, (system.l1Cache access).Shows access.cacheType (system'.l1Cache access)
  quiet : Quiet system.l2Cache
  quiet' : Quiet system'.l2Cache

/-- The same command, up to what `malloc` leaves in its blocks. -/
structure CacheCall.SameOutcomes (call call' : CacheCall) : Prop where
  operation : call.operation = call'.operation
  paddr : call.paddr = call'.paddr
  word : call.operation = .write → call.word = call'.word
  allocations : call.allocations.SameOutcomes call'.allocations

/-- The command starts at a block or finds its block in L1. -/
def CacheCall.Clean (system : CacheSystem) (call : CacheCall) : Prop :=
  call.paddr.address % 16 = 0 ∨
    ∃ w, Found call.access.cacheType (system.l1Cache call.access) call.paddr.address w

theorem Contained.shows {system : CacheSystem} (contained : Contained system) : system.Shows system := by
  refine ⟨rfl, fun access => ?_, contained.quiet, contained.quiet⟩
  have room : (system.l1Cache access).Room access.cacheType :=
    .of_size (contained.l1Cache access) (by cases access <;> decide)
  exact ⟨room, room, fun _ _ _ _ => rfl⟩

theorem CacheSystem.zero_shows (memSpace : MemSpace) : (CacheSystem.zero memSpace).Shows (.zero memSpace) := by
  have empty : Run executeLine (fun _ _ => True) (.zero memSpace) [] (.zero memSpace) := .nil
  exact (contained_of_run empty).shows

namespace CacheSystem.Shows

variable {system system' : CacheSystem}

theorem symm (shows : Shows system system') : Shows system' system :=
  ⟨shows.memSpace.symm, fun access => (shows.l1Cache access).symm, shows.quiet', shows.quiet⟩

/-- One command on two such systems; only a command that is not clean uses what `malloc` left. -/
theorem executeCommand_outcomes (shows : Shows system system') {call call' : CacheCall}
    (same : call.SameOutcomes call') (clean : call.Clean system ∨ call.allocations = call'.allocations) :
    Related (fun result result' => result.2.code = result'.2.code ∧
        SameWord result.2.code call.word call'.word result.2.word result'.2.word ∧
        Shows result.1 result'.1)
      (KabyLake.executeCommand system call) (KabyLake.executeCommand system' call') := by
  have icache : system.l1ICache.Shows .L1_ICACHE system'.l1ICache := shows.l1Cache .INSTRUCTION
  have dcache : system.l1DCache.Shows .L1_DCACHE system'.l1DCache := shows.l1Cache .DATA
  unfold KabyLake.executeCommand
  rw [← same.operation, ← same.paddr, ← shows.memSpace]
  cases operation : call.operation with
  | read access =>
    have untouched : call.paddr.address % 16 = 0 ∨
        (∃ w, Found access.cacheType (system.l1Cache access) call.paddr.address w) ∨
        call.allocations.newentry = call'.allocations.newentry := by
      rw [CacheCall.Clean, CacheCall.access, operation] at clean
      exact or_assoc.mp (clean.imp_right fun equal => by rw [equal])
    dsimp only
    refine (cacheRead_shows call.word call'.word shows.quiet shows.quiet' same.allocations access
      (shows.l1Cache access) untouched).bind fun reply reply' both => ?_
    rw [both.l2Cache, both.l2Cache']
    refine .ok ⟨both.code, both.word, ?_, fun other => ?_, shows.quiet, shows.quiet'⟩
    · simpa using shows.memSpace
    · cases access <;> cases other <;> first | exact icache | exact dcache | exact both.l1Cache
  | write =>
    have untouched : call.paddr.address % 16 = 0 ∨
        (∃ w, Found .L1_DCACHE system.l1DCache call.paddr.address w) ∨
        call.allocations.newd = call'.allocations.newd := by
      rw [CacheCall.Clean, CacheCall.access, operation] at clean
      exact or_assoc.mp (clean.imp_right fun equal => by rw [equal])
    dsimp only
    rw [← same.word operation]
    refine (cacheWrite_shows call.word shows.quiet shows.quiet' same.allocations dcache untouched).bind
      fun reply reply' both => ?_
    refine .ok ⟨both.code, .inl rfl, both.memSpace, fun other => ?_, both.l2Cache.1, both.l2Cache.2⟩
    cases other with
    | INSTRUCTION => exact icache
    | DATA => exact both.l1Cache

theorem executeCommand (shows : Shows system system') (call : CacheCall) :
    Related (fun result result' => result.2 = result'.2 ∧ Shows result.1 result'.1)
      (KabyLake.executeCommand system call) (KabyLake.executeCommand system' call) := by
  refine (shows.executeCommand_outcomes ⟨rfl, rfl, fun _ => rfl, .refl _⟩ (.inr rfl)).mono ?_
  rintro ⟨next, code, word⟩ ⟨next', code', word'⟩ ⟨rfl, answered, shows⟩
  obtain rfl : word = word' := answered.of_same
  exact ⟨rfl, shows⟩

theorem congruence : Congruence Shows := ⟨fun shows => shows.memSpace, fun shows => shows.executeCommand⟩

theorem sameDumps (shows : Shows system system') : SameDumps system system' := by
  have quiet : system.l2Cache.Shows .L2_CACHE system'.l2Cache := by
    refine ⟨shows.quiet.room, shows.quiet'.room, fun s hs i hi => ?_⟩
    have v : (system.l2Cache.slot .L2_CACHE s i).v = false := shows.quiet.v _
    have v' : (system'.l2Cache.slot .L2_CACHE s i).v = false := shows.quiet'.v _
    exact Entry.shown_eq_iff.mpr ⟨v.trans v'.symm, fun valid => by simp [v] at valid⟩
  exact ⟨fun access => (shows.l1Cache access).dumps, quiet.dumps⟩

theorem of_dumps (memSpace : system.memSpace = system'.memSpace) (quiet : Quiet system.l2Cache)
    (quiet' : Quiet system'.l2Cache)
    (dumps : ∀ access, SameDump access.cacheType (system.l1Cache access) (system'.l1Cache access)) :
    Shows system system' := by
  refine ⟨memSpace, fun access => ?_, quiet, quiet'⟩
  obtain ⟨result, dumped, dumped'⟩ := dumps access
  exact (cacheDump_eq_iff dumped).mp dumped'

end CacheSystem.Shows

section Runs

variable {system system' final : CacheSystem} {history : List (LineCall × LineReply)}

/-- Systems with the same memory whose L1 caches print alike, and whose L2 caches hold no valid entry,
have the same runs: every command gets the same reply or the same fault, and memories and dumps agree
after it. -/
theorem dumps_determine_run (memSpace : system.memSpace = system'.memSpace)
    (quiet : Quiet system.l2Cache) (quiet' : Quiet system'.l2Cache)
    (dumps : ∀ access, SameDump access.cacheType (system.l1Cache access) (system'.l1Cache access))
    (run : Run executeLine (fun _ _ => True) system history final) :
    ∃ final', Run executeLine (fun _ _ => True) system' history final' ∧
      final.memSpace = final'.memSpace ∧ final.SameDumps final' ∧
      ∀ line, (executeLine final line).map Prod.snd = (executeLine final' line).map Prod.snd := by
  have shows := CacheSystem.Shows.of_dumps memSpace quiet quiet' dumps
  obtain ⟨final', run', shows'⟩ := CacheSystem.Shows.congruence.transfer shows run
  refine ⟨final', run', shows'.memSpace, shows'.sameDumps, fun line => ?_⟩
  exact (CacheSystem.Shows.congruence.executeLine shows' line).map_eq fun _ _ both => both.1

theorem dumps_determine_run_ones : ∃ system system',
    Run executeLine (fun _ _ => True) (.zero blankMemory) [(writeLine 4096 7, .written .errNone)] system ∧
      Run executeLine (fun _ _ => True)
        { CacheSystem.zero blankMemory with l1DCache := ⟨256, fun _ => ⟨0xFFFFFFFE#32, Line.zero⟩⟩ }
        [(writeLine 4096 7, .written .errNone)] system' ∧ system.memSpace = system'.memSpace := by
  obtain ⟨system, run⟩ := blankMemory_run
  have quiet := (CacheSystem.zero_sound blankMemory).quiet
  have blank {type : CacheType} {cache other : Cache} (room : cache.Room type) (room' : other.Room type)
      (v : ∀ k, (cache.entry k).v = false) (v' : ∀ k, (other.entry k).v = false) : cache.Shows type other :=
    ⟨room, room', fun s hs i hi => by simp [Cache.slot, Entry.shown, v, v']⟩
  have invalid : (⟨0xFFFFFFFE#32, Line.zero⟩ : Entry).v = false := by simp [Entry.v]
  have shows : (CacheSystem.zero blankMemory).Shows { CacheSystem.zero blankMemory with
      l1DCache := ⟨256, fun _ => ⟨0xFFFFFFFE#32, Line.zero⟩⟩ } := by
    refine ⟨rfl, fun access => ?_, quiet, quiet⟩
    cases access with
    | INSTRUCTION => exact blank (le_refl _) (le_refl _) (Cache.v_zero _) (Cache.v_zero _)
    | DATA => exact blank (le_refl _) (le_refl _) (Cache.v_zero _) fun _ => invalid
  obtain ⟨system', run', memory, _⟩ :=
    dumps_determine_run shows.memSpace shows.quiet shows.quiet' shows.sameDumps.1 run
  exact ⟨system, system', run, run', memory⟩

end Runs

end KabyLake
