import KabyLake.Machine.Refinement
import KabyLake.Soundness.CacheTransparency

/-! # A memory with snapshots of instructions

What the caches amount to, without lines, ages and tags. Reads and writes of data see one memory.
Instruction fetches see a table of blocks: a block is copied from the memory when it is fetched and
not in the table, and it stays as it was copied until another block of its set takes its place, since
no write looks into the instruction cache.
-/

namespace KabyLake

open Machine

namespace MemSpace

def putWord (mem : MemSpace) (a : ℕ) (w : BitVec 32) : MemSpace where
  size := mem.size
  byte x := if a ≤ x ∧ x < a + 4 then LittleEndian.byte w (x - a) else mem.byte x

theorem putLine_setWord (mem : MemSpace) (a : ℕ) (w : BitVec 32) :
    mem.putLine a ((mem.line a).setWord 0 w) = mem.putWord a w := by
  have bytes : (mem.putLine a ((mem.line a).setWord 0 w)).byte = (mem.putWord a w).byte :=
    funext fun x => byte_putLine_setWord 0 (by decide) w x
  exact congrArg (MemSpace.mk mem.size) bytes

theorem word_putWord (mem : MemSpace) (a : ℕ) (w : BitVec 32) : (mem.putWord a w).word a = w := by
  rw [← putLine_setWord]
  have first : (mem.putLine a ((mem.line a).setWord 0 w)).word a = ((mem.line a).setWord 0 w).word 0 :=
    word_putLine_inside 0 (by decide)
  rwa [Line.word_setWord _ _ _ _ (by decide), if_pos rfl] at first

end MemSpace

/-- A memory, and the blocks that instruction fetches see instead of it. -/
structure SplitMemory where
  memSpace : MemSpace
  fetched : ℕ → Option Line

namespace SplitMemory

/-- Block `b` is copied from the memory, and the block `victim` leaves the table. -/
def fetch (split : SplitMemory) (b : ℕ) (victim : Option ℕ) : SplitMemory where
  memSpace := split.memSpace
  fetched c := if c = b then some (split.memSpace.line (b * 16))
    else if victim = some c then none else split.fetched c

/-- One command on a memory with snapshots of instructions. -/
inductive Step (before : SplitMemory) (call : CacheCall) : CacheReply → SplitMemory → Prop
  | refused : ¬ call.allocations.Succeed → Step before call ⟨.errBadParameter, call.word⟩ before
  | readData : call.operation = .read .DATA →
      Step before call ⟨.errNone, before.memSpace.word (call.paddr.address / 4 * 4)⟩ before
  | fetchKept {line : Line} : call.operation = .read .INSTRUCTION →
      before.fetched (call.paddr.address / 16) = some line →
      Step before call ⟨.errNone, line.word (wordOf call.paddr.address)⟩ before
  | fetchMissing {victim : Option ℕ} : call.operation = .read .INSTRUCTION →
      before.fetched (call.paddr.address / 16) = none →
      (∀ b ∈ victim, b % 64 = call.paddr.address / 16 % 64) →
      Step before call ⟨.errNone, before.memSpace.word (call.paddr.address / 4 * 4)⟩
        (before.fetch (call.paddr.address / 16) victim)
  | write : call.operation = .write → call.paddr.address % 16 = 0 →
      Step before call ⟨.errNone, call.word⟩
        { before with memSpace := before.memSpace.putWord call.paddr.address call.word }

end SplitMemory

section Carries

variable {type : CacheType} {cache before after : Cache} {a b s w bound : ℕ} {line content : Line}

/-- A way of the cache holds the block of number `b` with these bytes. -/
def Carries (type : CacheType) (cache : Cache) (b : ℕ) (line : Line) : Prop :=
  ∃ w, Holds type cache (b * 16) w ∧ (cache.slot type (type.lineOf (b * 16)) w).line = line

theorem Holds.carries (holds : Holds type cache a w) :
    Carries type cache (a / 16) (cache.slot type (type.lineOf a) w).line := by
  have block : a / 16 * 16 / 16 = a / 16 := by omega
  refine ⟨w, holds.of_block block.symm, ?_⟩
  rw [CacheType.lineOf, block]

theorem Carries.holds (carries : Carries type cache (a / 16) line) :
    ∃ w, Holds type cache a w ∧ (cache.slot type (type.lineOf a) w).line = line := by
  obtain ⟨w, holds, same⟩ := carries
  have block : a / 16 * 16 / 16 = a / 16 := by omega
  refine ⟨w, holds.of_block block, ?_⟩
  rwa [CacheType.lineOf, block] at same

theorem Carries.unique {other : Line} (formed : Formed type cache) (carries : Carries type cache b line)
    (again : Carries type cache b other) : line = other := by
  obtain ⟨w, holds, rfl⟩ := carries
  obtain ⟨w', holds', rfl⟩ := again
  rw [holds.unique formed holds']

/-- Caches whose entries stand for the same blocks carry the same blocks. -/
theorem carries_congr (same : ∀ t, ∀ j < type.ways,
    Entry.SameBlock type (after.slot type t j) (before.slot type t j)) :
    Carries type after b line ↔ Carries type before b line := by
  apply exists_congr
  intro j
  constructor
  · rintro ⟨holds, lines⟩
    exact ⟨(holds_congr fun way => same _ j way).mp holds, (same _ j holds.way).line.symm.trans lines⟩
  · rintro ⟨holds, lines⟩
    exact ⟨(holds_congr fun way => same _ j way).mpr holds, (same _ j holds.way).line.trans lines⟩

def occupant (type : CacheType) (cache : Cache) (s w : ℕ) : Option ℕ :=
  if (cache.slot type s w).v = true then some (type.blockStart ((cache.slot type s w).tag type) s / 16)
  else none

theorem occupant_eq_some (hs : s < type.lines) (hw : w < type.ways) :
    occupant type cache s w = some b ↔ type.lineOf (b * 16) = s ∧ Holds type cache (b * 16) w := by
  have number (tag : ℕ) : type.blockStart tag s / 16 = tag * type.lines + s := by
    rw [CacheType.blockStart, Nat.mul_div_cancel _ (by decide)]
  have line : type.lineOf (b * 16) = b % type.lines := by
    rw [CacheType.lineOf, Nat.mul_div_cancel _ (by decide)]
  have tag : type.tagOf (b * 16) = b / type.lines := by
    rw [CacheType.tagOf_eq, Nat.mul_div_cancel _ (by decide)]
  constructor
  · intro here
    obtain ⟨valid, same⟩ := Option.ite_none_right_eq_some.mp here
    obtain rfl : (cache.slot type s w).tag type * type.lines + s = b :=
      (number _).symm.trans (Option.some.inj same)
    have holds := Holds.of_slot hs hw valid
    rw [CacheType.blockStart] at holds
    exact ⟨by rw [line, Nat.mul_add_mod', Nat.mod_eq_of_lt hs], holds⟩
  · rintro ⟨rfl, holds⟩
    refine Option.ite_none_right_eq_some.mpr ⟨holds.v, congrArg some ?_⟩
    rw [number, holds.tag, tag, line, Nat.div_add_mod']

/-- A block that was missing is carried after its way was filled, and the block that was in this way
is not. -/
theorem Accessed.carries_iff
    (accessed : Accessed type (type.lineOf a) w (type.tagOf a) bound content before after)
    (formed : Formed type before) (absent : ∀ w, ¬ Holds type before a w) (hw : w < type.ways) :
    Carries type after b line ↔ if b = a / 16 then content = line
      else occupant type before (type.lineOf a) w ≠ some b ∧ Carries type before b line := by
  have hs := CacheType.lineOf_lt type a
  have block : a / 16 * 16 / 16 = a / 16 := by omega
  have aligned : type.lineOf (a / 16 * 16) = type.lineOf a := by rw [CacheType.lineOf, block]
  have number : b * 16 / 16 = b := Nat.mul_div_cancel _ (by decide)
  split
  · next same =>
    subst same
    constructor
    · rintro ⟨k, holds, rfl⟩
      rw [accessed.holds_iff hw] at holds
      split at holds
      · next written => rw [written.1, written.2, accessed.line]
      · exact (absent k (holds.of_block block)).elim
    · rintro rfl
      refine ⟨w, (accessed.holds_iff hw).mpr ?_, ?_⟩
      · rw [if_pos ⟨aligned, rfl⟩, CacheType.tagOf_eq, CacheType.tagOf_eq, block]
      · rw [aligned, accessed.line]
  · next other =>
    rw [ne_eq, occupant_eq_some hs hw]
    constructor
    · rintro ⟨k, holds, rfl⟩
      rw [accessed.holds_iff hw] at holds
      split at holds
      · next written =>
        -- a block of this line and this tag is the block of the access
        have blocks := congrArg₂ type.blockStart holds.symm written.1
        rw [CacheType.blockStart_tagOf, CacheType.blockStart_tagOf, number] at blocks
        exact (other (by omega)).elim
      · next apart =>
        refine ⟨fun both => apart ⟨both.1, holds.unique formed both.2⟩, k, holds, ?_⟩
        exact (accessed.sameBlock holds.way apart).line.symm
    · rintro ⟨stays, k, holds, rfl⟩
      have apart : ¬ (type.lineOf (b * 16) = type.lineOf a ∧ k = w) := fun both =>
        stays ⟨both.1, both.2 ▸ holds⟩
      refine ⟨k, (accessed.holds_iff hw).mpr ?_, (accessed.sameBlock holds.way apart).line⟩
      rwa [if_neg apart]

end Carries

/-- The memory is the memory of the system, and the table holds what the instruction cache carries. -/
structure Splits (system : CacheSystem) (split : SplitMemory) : Prop where
  sound : Sound system
  coherent : Coherent .L1_DCACHE system.memSpace system.l1DCache
  memSpace : split.memSpace = system.memSpace
  fetched : ∀ b line, split.fetched b = some line ↔ Carries .L1_ICACHE system.l1ICache b line

section Step

variable {system next : CacheSystem} {split : SplitMemory} {call : CacheCall} {reply : CacheReply}
  {after : Cache} {w bound : ℕ} {content : Line}

theorem word_fetched (memSpace : MemSpace) (a : ℕ) :
    (memSpace.line (a / 16 * 16)).word (wordOf a) = memSpace.word (a / 4 * 4) := by
  rw [wordOf, MemSpace.word_line _ (by omega)]
  congr 1
  omega

/-- What a successful write at the start of a block does to the memory. -/
theorem Outcome.written (outcome : Outcome system call next reply)
    (coherent : Coherent .L1_DCACHE system.memSpace system.l1DCache) (operation : call.operation = .write)
    (success : reply.code = .errNone) : call.paddr.address % 16 = 0 ∧
      reply = ⟨.errNone, call.word⟩ ∧ next.l1ICache = system.l1ICache ∧
      next.memSpace = system.memSpace.putWord call.paddr.address call.word := by
  have patch (aligned : call.paddr.address % 16 = 0) : system.memSpace.putLine call.paddr.address
      (patched (system.memSpace.line call.paddr.address) call.paddr call.word) =
        system.memSpace.putWord call.paddr.address call.word := by
    rw [patched, wordOf, aligned]
    exact system.memSpace.putLine_setWord _ _
  cases outcome with
  | refused | writeRefused => contradiction
  | readHit same | readFill same =>
    rw [operation] at same
    contradiction
  | writeHit _ holds aligned =>
    have line := coherent.line_of_holds holds
    rw [show call.paddr.address / 16 * 16 = call.paddr.address by omega] at line
    refine ⟨aligned, rfl, rfl, ?_⟩
    rw [← patch aligned, ← line]
    rfl
  | writeFill _ _ aligned => exact ⟨aligned, rfl, rfl, patch aligned⟩
  | writeReplace _ _ aligned => exact ⟨aligned, rfl, rfl, patch aligned⟩

private theorem Splits.fetch (splits : Splits system split) (aligned : call.paddr.address % 16 = 0)
    (absent : ∀ w, ¬ Holds .L1_ICACHE system.l1ICache call.paddr.address w)
    (place : Free .L1_ICACHE system.l1ICache (call.lineIn .INSTRUCTION) w ∨
      Eldest .L1_ICACHE system.l1ICache (call.lineIn .INSTRUCTION) w)
    (accessed : Accessed .L1_ICACHE (call.lineIn .INSTRUCTION) w (call.tagIn .INSTRUCTION) bound
      (system.memSpace.line call.paddr.address) system.l1ICache after) (b : ℕ) (line : Line) :
    (split.fetch (call.paddr.address / 16)
        (occupant .L1_ICACHE system.l1ICache (call.lineIn .INSTRUCTION) w)).fetched b = some line ↔
      Carries .L1_ICACHE after b line := by
  have start : call.paddr.address / 16 * 16 = call.paddr.address := by omega
  rw [Accessed.carries_iff accessed (splits.sound.formed .INSTRUCTION) absent (place_lt place),
    ← splits.fetched b line]
  simp only [SplitMemory.fetch, splits.memSpace, start]
  split
  · exact Option.some_inj
  · split
    · next gone => exact iff_of_false (by simp) fun both => both.1 gone
    · next stays => exact (and_iff_right stays).symm

private theorem Splits.readData (splits : Splits system split) (operation : call.operation = .read .DATA)
    (outcome : Outcome system call next reply) (success : reply.code = .errNone) :
    reply = ⟨.errNone, split.memSpace.word (call.paddr.address / 4 * 4)⟩ ∧
      next.memSpace = system.memSpace ∧ next.l1ICache = system.l1ICache := by
  rw [splits.memSpace, ← word_fetched]
  cases outcome with
  | refused => contradiction
  | @readHit access w after same holds =>
    rw [operation] at same
    cases same
    exact ⟨by rw [← splits.coherent.line_of_holds holds]; rfl, rfl, rfl⟩
  | @readFill access w after same absent aligned =>
    rw [operation] at same
    cases same
    have start : call.paddr.address / 16 * 16 = call.paddr.address := by omega
    exact ⟨by rw [start], rfl, rfl⟩
  | writeRefused => contradiction
  | writeHit same | writeFill same | writeReplace same =>
    rw [operation] at same
    contradiction

/-- A command that reports an error lacks an allocation, and leaves the memory and the instruction cache
as they were. -/
theorem Outcome.failure (outcome : Outcome system call next reply) (failure : reply.code ≠ .errNone) :
    ¬ call.allocations.Succeed ∧ reply = ⟨.errBadParameter, call.word⟩ ∧
      next.memSpace = system.memSpace ∧ next.l1ICache = system.l1ICache := by
  cases outcome with
  | refused lacks => exact ⟨lacks, rfl, rfl, rfl⟩
  | writeRefused _ _ _ newLine =>
    exact ⟨fun succeed => by simp [succeed.newLine] at newLine, rfl, rfl, rfl⟩
  | readHit | readFill | writeHit | writeFill | writeReplace => exact (failure rfl).elim

private theorem Splits.readInstruction (splits : Splits system split)
    (operation : call.operation = .read .INSTRUCTION) (outcome : Outcome system call next reply)
    (success : reply.code = .errNone) :
    ∃ after, split.Step call reply after ∧ after.memSpace = next.memSpace ∧
      ∀ b line, after.fetched b = some line ↔ Carries .L1_ICACHE next.l1ICache b line := by
  cases outcome with
  | refused | writeRefused => contradiction
  | @readHit access w after same holds accessed =>
    rw [operation] at same
    cases same
    refine ⟨split, .fetchKept operation ((splits.fetched _ _).mpr holds.carries), splits.memSpace, ?_⟩
    intro b line
    rw [splits.fetched]
    refine (carries_congr fun t j hj => ?_).symm
    by_cases own : t = call.lineIn .INSTRUCTION ∧ j = w
    · obtain ⟨rfl, rfl⟩ := own
      exact ⟨accessed.v.trans holds.v.symm, accessed.tag.trans holds.tag.symm, accessed.line⟩
    · exact accessed.sameBlock hj own
  | @readFill access w after same absent aligned place accessed =>
    rw [operation] at same
    cases same
    have missing : split.fetched (call.paddr.address / 16) = none := by
      rw [Option.eq_none_iff_forall_ne_some]
      intro line kept
      obtain ⟨w, holds, _⟩ := ((splits.fetched _ _).mp kept).holds
      exact absent w holds
    have line := (CacheType.lineOf_lt .L1_ICACHE call.paddr.address)
    refine ⟨split.fetch _ (occupant .L1_ICACHE system.l1ICache (call.lineIn .INSTRUCTION) w), ?_,
      splits.memSpace, splits.fetch aligned absent place accessed⟩
    have start : call.paddr.address / 16 * 16 = call.paddr.address := by omega
    have word := word_fetched split.memSpace call.paddr.address
    rw [start, splits.memSpace] at word
    rw [word, ← splits.memSpace]
    refine .fetchMissing operation missing fun b inside => ?_
    obtain ⟨set, _⟩ := (occupant_eq_some line (place_lt place)).mp inside
    rwa [CacheType.lineOf, Nat.mul_div_cancel _ (by decide)] at set
  | writeHit same | writeFill same | writeReplace same =>
    rw [operation] at same
    contradiction

/-- One command of the caches is a command of the memory with snapshots. -/
theorem executeCommand_simulates :
    Simulates executeCommand Admitted SplitMemory.Step Splits := by
  intro system split call next reply splits admitted stepped
  have outcome := splits.sound.outcome admitted stepped
  have sound := outcome.sound splits.sound
  have coherent := outcome.coherent splits.sound splits.coherent
  rcases eq_or_ne reply.code .errNone with success | failure
  · cases operation : call.operation with
    | read access =>
      cases access with
      | DATA =>
        obtain ⟨rfl, memory, icache⟩ := splits.readData operation outcome success
        refine ⟨split, .readData operation, sound, coherent, splits.memSpace.trans memory.symm, ?_⟩
        rw [icache]
        exact splits.fetched
      | INSTRUCTION =>
        obtain ⟨after, taken, memory, fetched⟩ := splits.readInstruction operation outcome success
        exact ⟨after, taken, sound, coherent, memory, fetched⟩
    | write =>
      obtain ⟨aligned, rfl, icache, memory⟩ := outcome.written splits.coherent operation success
      refine ⟨_, .write operation aligned, sound, coherent, ?_, ?_⟩
      · rw [memory, splits.memSpace]
      · rw [icache]
        exact splits.fetched
  · obtain ⟨lacks, rfl, memory, icache⟩ := outcome.failure failure
    refine ⟨split, .refused lacks, sound, coherent, splits.memSpace.trans memory.symm, ?_⟩
    rw [icache]
    exact splits.fetched

end Step

variable {memSpace : MemSpace} {system : CacheSystem} {history : List (CacheCall × CacheReply)}

theorem CacheSystem.zero_splits (memSpace : MemSpace) :
    Splits (.zero memSpace) ⟨memSpace, fun _ => none⟩ where
  sound := CacheSystem.zero_sound memSpace
  coherent := by simp [Coherent, CacheSystem.zero, Cache.slot]
  memSpace := rfl
  fetched b line := by
    refine iff_of_false (by simp) ?_
    rintro ⟨w, holds, _⟩
    have valid := holds.v
    simp [CacheSystem.zero, Cache.slot] at valid

/-- Every run of commands that are aligned to their block, or are reads that find it in L1, is a run of
the memory with snapshots, which starts with an empty table: reads of data return what the memory holds,
a fetch returns what the memory held when its block was last copied, and a write replaces one word. -/
theorem run_refines_splitMemory (run : Run executeCommand Admitted (.zero memSpace) history system) :
    ∃ split, Trace SplitMemory.Step ⟨memSpace, fun _ => none⟩ history split ∧
      split.memSpace = system.memSpace ∧
      ∀ b line, split.fetched b = some line ↔ Carries .L1_ICACHE system.l1ICache b line := by
  obtain ⟨split, trace, splits⟩ := executeCommand_simulates.trace (CacheSystem.zero_splits memSpace) run
  exact ⟨split, trace, splits.memSpace, splits.fetched⟩

def instructionRead (a : BitVec 32) : CacheCall :=
  ⟨.read .INSTRUCTION, ⟨a.extractLsb' 12 20, a.extractLsb' 0 12⟩, 0, granted⟩

/-- A fetch in the empty cache, a write of the same block, and the fetch again. -/
theorem run_refines_splitMemory_stale : ∃ system split, Run executeCommand Admitted (.zero blankMemory)
      [(instructionRead 16, ⟨.errNone, 0⟩), (dataWrite 16 7, ⟨.errNone, 7⟩),
        (instructionRead 16, ⟨.errNone, 0⟩)] system ∧
    Trace SplitMemory.Step ⟨blankMemory, fun _ => none⟩
      [(instructionRead 16, ⟨.errNone, 0⟩), (dataWrite 16 7, ⟨.errNone, 7⟩),
        (instructionRead 16, ⟨.errNone, 0⟩)] split := by
  obtain ⟨system, run⟩ : ∃ system, Run executeCommand Admitted (.zero blankMemory)
      [(instructionRead 16, ⟨.errNone, 0⟩), (dataWrite 16 7, ⟨.errNone, 7⟩),
        (instructionRead 16, ⟨.errNone, 0⟩)] system :=
    ⟨_, .snoc (.snoc (.snoc .nil (.aligned rfl) rfl) (.aligned rfl) rfl) (.aligned rfl) rfl⟩
  obtain ⟨split, trace, _⟩ := run_refines_splitMemory run
  exact ⟨system, split, run, trace⟩

/-- The instruction cache carries the block that a write changes, with another word at its address. -/
structure Stains (system : CacheSystem) (call : CacheCall) : Prop where
  write : call.operation = .write
  carried : ∃ line, Carries .L1_ICACHE system.l1ICache (call.paddr.address / 16) line ∧
    line.word (wordOf call.paddr.address) ≠ call.word

/-- After every run of such commands and a successful write, a fetch from the written address that gets
its allocations succeeds; it returns the written word if and only if the instruction cache did not carry
the block with another word. -/
theorem fetch_after_write_iff {call fetch : CacheCall} {next : CacheSystem} {reply : CacheReply}
    (run : Run executeCommand Admitted (.zero memSpace) history system)
    (operation : call.operation = .write) (aligned : call.paddr.address % 16 = 0)
    (inside : call.paddr.address + 16 ≤ system.memSpace.size)
    (wrote : executeCommand system call = .ok (next, reply)) (success : reply.code = .errNone)
    (instruction : fetch.operation = .read .INSTRUCTION) (same : fetch.paddr = call.paddr)
    (allocated : fetch.allocations.Succeed) :
    ∃ final fetched, executeCommand next fetch = .ok (final, fetched) ∧ fetched.code = .errNone ∧
      (fetched.word = call.word ↔ ¬ Stains system call) := by
  obtain ⟨split, _, splits⟩ := executeCommand_simulates.trace (CacheSystem.zero_splits memSpace) run
  have outcome := splits.sound.outcome (.aligned aligned) wrote
  obtain ⟨_, _, icache, memory⟩ := outcome.written splits.coherent operation success
  have alignedFetch : fetch.paddr.address % 16 = 0 := by rwa [same]
  have admitted : Admitted next fetch := .aligned alignedFetch
  have sound := outcome.sound splits.sound
  obtain ⟨final, fetched, stepped, fine⟩ := sound.progress admitted allocated (by
    rw [memory, same]
    exact inside)
  refine ⟨final, fetched, stepped, fine, ?_⟩
  have stains : Stains system call ↔ ∃ line, split.fetched (call.paddr.address / 16) = some line ∧
      line.word (wordOf call.paddr.address) ≠ call.word := by
    simp only [splits.fetched]
    exact ⟨fun stains => stains.carried, fun carried => ⟨operation, carried⟩⟩
  have kept : Splits next { split with memSpace := next.memSpace } :=
    ⟨sound, outcome.coherent splits.sound splits.coherent, rfl, by rw [icache]; exact splits.fetched⟩
  obtain ⟨_, taken, _⟩ := executeCommand_simulates _ _ _ _ _ kept admitted stepped
  rw [stains, ← same]
  cases taken with
  | refused => contradiction
  | readData data => exact absurd (instruction.symm.trans data) (by simp)
  | @fetchKept line _ carried =>
    constructor
    · rintro word ⟨other, again, differs⟩
      obtain rfl := Option.some.inj (carried.symm.trans again)
      exact differs word
    · intro clean
      by_contra differs
      exact clean ⟨line, carried, differs⟩
  | fetchMissing _ missing =>
    refine iff_of_true ?_ ?_
    · have start : fetch.paddr.address / 4 * 4 = call.paddr.address := by
        rw [same]
        omega
      rw [start, memory]
      exact MemSpace.word_putWord _ _ _
    · rintro ⟨line, carried, _⟩
      exact absurd (missing.symm.trans carried) (by simp)
  | write write => exact absurd (instruction.symm.trans write) (by simp)

theorem fetch_after_write_iff_fetched : ∃ system next final fetched,
    Run executeCommand Admitted (.zero blankMemory) [(instructionRead 16, ⟨.errNone, 0⟩)] system ∧
      executeCommand system (dataWrite 16 7) = .ok (next, ⟨.errNone, 7⟩) ∧
      executeCommand next (instructionRead 16) = .ok (final, fetched) ∧ fetched.word ≠ 7 := by
  obtain ⟨system, next, run, wrote, size, holds, content⟩ : ∃ system next,
      Run executeCommand Admitted (.zero blankMemory) [(instructionRead 16, ⟨.errNone, 0⟩)] system ∧
        executeCommand system (dataWrite 16 7) = .ok (next, ⟨.errNone, 7⟩) ∧
        system.memSpace.size = 8192 ∧ Holds .L1_ICACHE system.l1ICache 16 0 ∧
        (system.l1ICache.slot .L1_ICACHE (CacheType.L1_ICACHE.lineOf 16) 0).line = Line.zero :=
    ⟨_, _, .snoc .nil (.aligned rfl) rfl, rfl, rfl, ⟨by decide, rfl, rfl⟩, rfl⟩
  have instruction : (instructionRead 16).operation = .read .INSTRUCTION := rfl
  have allocated : (instructionRead 16).allocations.Succeed := granted_succeed
  have carries := holds.carries
  rw [content] at carries
  obtain ⟨final, fetched, stepped, _, fresh⟩ := fetch_after_write_iff run rfl rfl
    (by rw [size]; decide) wrote rfl instruction rfl allocated
  refine ⟨system, next, final, fetched, run, wrote, stepped, fun same => ?_⟩
  exact fresh.mp same ⟨rfl, Line.zero, carries, by decide⟩

end KabyLake
