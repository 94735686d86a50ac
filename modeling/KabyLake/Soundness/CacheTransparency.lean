import KabyLake.Proofs.CacheCoherent
import KabyLake.Soundness.PageWalk

/-! # The data cache is a copy of the memory

At block-aligned addresses the invariant of the data cache survives every command, whatever the
allocations hand out. Reads of data then return the word that the memory holds, and a write replaces
four bytes of the memory. Both fail at the other word addresses: `cache_entry_init` rejects them,
its callers insert the bytes that `malloc` left, and a write copies a line of sixteen bytes to the
address of its word.
-/

namespace KabyLake

open Machine

variable {memSpace : MemSpace} {system next : CacheSystem} {call : CacheCall} {reply : CacheReply}
  {history : List (CacheCall × CacheReply)}

@[simp] theorem Cache.v_zero (type : CacheType) (k : ℕ) : ((Cache.zero type).entry k).v = false := by
  simp [Cache.zero, Entry.v]

theorem CacheSystem.zero_sound (memSpace : MemSpace) : Sound (.zero memSpace) := by
  have empty (type : CacheType) : Formed type (Cache.zero type) :=
    ⟨Nat.le_refl _, by simp [Cache.slot], by simp [Cache.slot]⟩
  refine ⟨fun access => ?_, Nat.le_refl _, Cache.v_zero _⟩
  cases access with
  | INSTRUCTION => exact empty .L1_ICACHE
  | DATA => exact empty .L1_DCACHE

def dataRead (a : BitVec 32) : CacheCall :=
  ⟨.read .DATA, ⟨a.extractLsb' 12 20, a.extractLsb' 0 12⟩, 0, granted⟩

def dataWrite (a word : BitVec 32) : CacheCall :=
  ⟨.write, ⟨a.extractLsb' 12 20, a.extractLsb' 0 12⟩, word, granted⟩

/-- Along a run of admitted commands the system stays sound and its data cache coherent. -/
theorem coherent_of_run (run : Run executeCommand Admitted (.zero memSpace) history system) :
    Sound system ∧ Coherent .L1_DCACHE system.memSpace system.l1DCache := by
  refine run.invariant
    (fun system => Sound system ∧ Coherent .L1_DCACHE system.memSpace system.l1DCache) ?_ ?_
  · exact ⟨CacheSystem.zero_sound memSpace, by simp [Coherent, CacheSystem.zero, Cache.slot]⟩
  · rintro system call next reply ⟨sound, coherent⟩ admitted stepped
    have outcome := sound.outcome admitted stepped
    exact ⟨outcome.sound sound, outcome.coherent sound coherent⟩

/-- Every list of aligned commands inside the memory whose allocations succeed runs to its end. -/
theorem exists_run (memSpace : MemSpace) (calls : List CacheCall)
    (permitted : ∀ call ∈ calls, call.paddr.address % 16 = 0 ∧ call.allocations.Succeed ∧
      call.paddr.address + 16 ≤ memSpace.size) :
    ∃ history system, Run executeCommand Admitted (.zero memSpace) history system ∧
      history.map Prod.fst = calls.reverse := by
  have progress (system : CacheSystem) (call : CacheCall)
      (holds : Sound system ∧ system.memSpace.size = memSpace.size)
      (allowed : call.paddr.address % 16 = 0 ∧ call.allocations.Succeed ∧
        call.paddr.address + 16 ≤ memSpace.size) :
      ∃ next reply, Admitted system call ∧ executeCommand system call = .ok (next, reply) ∧
        Sound next ∧ next.memSpace.size = memSpace.size := by
    obtain ⟨sound, size⟩ := holds
    obtain ⟨aligned, allocated, inside⟩ := allowed
    obtain ⟨next, reply, stepped, _⟩ := sound.progress (.aligned aligned) allocated (size ▸ inside)
    have outcome := sound.outcome (.aligned aligned) stepped
    refine ⟨next, reply, .aligned aligned, stepped, outcome.sound sound, ?_⟩
    cases outcome <;> simpa using size
  obtain ⟨history, system, run, labels, _⟩ := Run.exists_of_progress _ _
    ⟨CacheSystem.zero_sound memSpace, rfl⟩ progress calls permitted
  exact ⟨history, system, run, labels⟩

/-- The representation of memory in the L1 data cache: in each set the valid ways are the first
ones, their tags differ, and each holds the sixteen bytes that tag and set name. -/
structure Representation (memSpace : MemSpace) (l1DCache : Cache) : Prop where
  front : ∀ s < 64, ∃ k ≤ 4, ∀ i < 4, (l1DCache.slot .L1_DCACHE s i).v = true ↔ i < k
  distinct : ∀ s < 64, ∀ i < 4, ∀ j < 4, (l1DCache.slot .L1_DCACHE s i).v = true →
    (l1DCache.slot .L1_DCACHE s j).v = true →
    (l1DCache.slot .L1_DCACHE s i).tag .L1_DCACHE = (l1DCache.slot .L1_DCACHE s j).tag .L1_DCACHE → i = j
  content : ∀ s < 64, ∀ i < 4, (l1DCache.slot .L1_DCACHE s i).v = true → ∀ k < 16,
    (l1DCache.slot .L1_DCACHE s i).line.byte k =
      memSpace.byte ((l1DCache.slot .L1_DCACHE s i).tag .L1_DCACHE * 1024 + s * 16 + k)

/-- In a well-formed cache the number of valid ways of a line describes them all. -/
theorem Formed.front {type : CacheType} {cache : Cache} (formed : Formed type cache) {s : ℕ}
    (hs : s < type.lines) :
    ∃ k ≤ type.ways, ∀ i < type.ways, (cache.slot type s i).v = true ↔ i < k := by
  rcases full_or_free type cache s with full | ⟨w, free⟩
  · exact ⟨type.ways, Nat.le_refl _, fun i hi => ⟨fun _ => hi, fun _ => full i hi⟩⟩
  · refine ⟨w, Nat.le_of_lt free.way, fun i hi => ⟨fun valid => ?_, free.first i⟩⟩
    by_contra beyond
    rcases Nat.eq_or_lt_of_le (Nat.not_lt.mp beyond) with rfl | later
    · rw [free.invalid] at valid
      contradiction
    · have before := formed.first s hs i hi w later valid
      rw [free.invalid] at before
      contradiction

/-- The representation invariant holds after every run of aligned commands. -/
theorem representation_of_run
    (run : Run executeCommand (fun _ call => call.paddr.address % 16 = 0) (.zero memSpace) history system) :
    Representation system.memSpace system.l1DCache := by
  obtain ⟨sound, coherent⟩ := coherent_of_run (run.mono fun _ _ aligned => .aligned aligned)
  have formed : Formed .L1_DCACHE system.l1DCache := sound.formed .DATA
  refine ⟨fun s hs => formed.front hs, formed.distinct, fun s hs i hi valid k hk => ?_⟩
  have start : CacheType.L1_DCACHE.blockStart
      ((system.l1DCache.slot .L1_DCACHE s i).tag .L1_DCACHE) s =
      (system.l1DCache.slot .L1_DCACHE s i).tag .L1_DCACHE * 1024 + s * 16 := by
    rw [CacheType.blockStart, show CacheType.L1_DCACHE.lines = 64 from rfl]
    omega
  rw [coherent s hs i hi valid, start, MemSpace.byte_line k hk]

theorem representation_of_run_write : ∃ next,
    executeCommand (.zero blankMemory) (dataWrite 16 7) = .ok (next, ⟨.errNone, 7⟩) ∧
      Representation next.memSpace next.l1DCache ∧
      (next.l1DCache.slot .L1_DCACHE 1 0).v = true ∧ next.memSpace.word 16 = 7 := by
  obtain ⟨next, wrote, valid, stored⟩ : ∃ next,
      executeCommand (.zero blankMemory) (dataWrite 16 7) = .ok (next, ⟨.errNone, 7⟩) ∧
        (next.l1DCache.slot .L1_DCACHE 1 0).v = true ∧ next.memSpace.word 16 = 7 :=
    ⟨_, rfl, rfl, rfl⟩
  have run : Run executeCommand (fun _ call => call.paddr.address % 16 = 0) (.zero blankMemory)
      [(dataWrite 16 7, ⟨.errNone, 7⟩)] next := .snoc .nil rfl wrote
  exact ⟨next, wrote, representation_of_run run, valid, stored⟩

/-- Every read of data that succeeds returns the word of the memory, if each command so far, itself
included, was block-aligned or a read that found its block in L1. -/
theorem read_eq_memory (run : Run executeCommand Admitted (.zero memSpace) history system)
    (operation : call.operation = .read .DATA) (wordAligned : call.paddr.address % 4 = 0)
    (admitted : Admitted system call) (stepped : executeCommand system call = .ok (next, reply))
    (success : reply.code = .errNone) : reply.word = system.memSpace.word call.paddr.address := by
  obtain ⟨sound, coherent⟩ := coherent_of_run run
  have selected (start : ℕ) (block : start = call.paddr.address / 16 * 16) :
      (system.memSpace.line start).word (wordOf call.paddr.address) =
        system.memSpace.word call.paddr.address := by
    rw [wordOf, MemSpace.word_line _ (by omega), block]
    congr 1
    omega
  cases sound.outcome admitted stepped with
  | refused => contradiction
  | @readHit access w _ same holds _ =>
    rw [operation] at same
    cases same
    exact (congrArg (Line.word · _) (coherent.line_of_holds holds)).trans (selected _ rfl)
  | readFill _ _ aligned _ _ => exact selected _ (by omega)
  | writeRefused => contradiction
  | writeHit same | writeFill same | writeReplace same =>
    rw [operation] at same
    contradiction

theorem read_eq_memory_hit : ∃ middle next reply,
    executeCommand (.zero blankMemory) (dataWrite 0 7) = .ok (middle, ⟨.errNone, 7⟩) ∧
      executeCommand middle (dataRead 4) = .ok (next, reply) ∧ reply.word = middle.memSpace.word 4 := by
  obtain ⟨middle, next, wrote, holds, read⟩ : ∃ middle next,
      executeCommand (.zero blankMemory) (dataWrite 0 7) = .ok (middle, ⟨.errNone, 7⟩) ∧
        Holds .L1_DCACHE middle.l1DCache (dataRead 4).paddr.address 0 ∧
        executeCommand middle (dataRead 4) = .ok (next, ⟨.errNone, 0⟩) :=
    ⟨_, _, rfl, ⟨by decide, rfl, rfl⟩, rfl⟩
  have run : Run executeCommand Admitted (.zero blankMemory) [(dataWrite 0 7, ⟨.errNone, 7⟩)] middle :=
    .snoc .nil (.aligned rfl) wrote
  have operation : (dataRead 4).operation = .read .DATA := rfl
  have admitted : Admitted middle (dataRead 4) := .readHit operation holds
  have answer := read_eq_memory run operation rfl admitted read rfl
  rw [show (dataRead 4).paddr.address = 4 from rfl] at answer
  exact ⟨middle, next, _, wrote, read, answer⟩

/-- A read at the second word of a block returns what `malloc` left in the new entry. -/
theorem read_garbage : (dataRead 4).paddr.address = 4 ∧ ∃ next,
    executeCommand (.zero blankMemory) (dataRead 4) = .ok (next, ⟨.errNone, 1⟩) ∧
      blankMemory.word 4 = 0 :=
  ⟨rfl, _, rfl, rfl⟩

/-- A write that succeeds replaces the four bytes at its address and nothing else, if its address
is block-aligned and each command so far was block-aligned or a read that found its block in L1. -/
theorem write_frame (run : Run executeCommand Admitted (.zero memSpace) history system)
    (operation : call.operation = .write) (aligned : call.paddr.address % 16 = 0)
    (stepped : executeCommand system call = .ok (next, reply)) (success : reply.code = .errNone) :
    next.memSpace.size = system.memSpace.size ∧ ∀ x, next.memSpace.byte x =
      if call.paddr.address ≤ x ∧ x < call.paddr.address + 4
      then LittleEndian.byte call.word (x - call.paddr.address) else system.memSpace.byte x := by
  obtain ⟨sound, coherent⟩ := coherent_of_run run
  have block : call.paddr.address / 16 * 16 = call.paddr.address := by omega
  have first : wordOf call.paddr.address = 0 := by
    rw [wordOf, aligned]
  have frame (x : ℕ) : (system.memSpace.putLine call.paddr.address
      ((system.memSpace.line call.paddr.address).setWord 0 call.word)).byte x =
      if call.paddr.address ≤ x ∧ x < call.paddr.address + 4
      then LittleEndian.byte call.word (x - call.paddr.address) else system.memSpace.byte x :=
    MemSpace.byte_putLine_setWord 0 (by decide) call.word x
  cases sound.outcome (.aligned aligned) stepped with
  | refused => contradiction
  | readHit same | readFill same =>
    rw [operation] at same
    contradiction
  | writeRefused => contradiction
  | @writeHit w _ _ holds _ _ =>
    have line : (system.l1DCache.slot .L1_DCACHE (call.lineIn .DATA) w).line =
        system.memSpace.line (call.paddr.address / 16 * 16) := coherent.line_of_holds holds
    refine ⟨rfl, fun x => ?_⟩
    simp only [line, block, patched, first]
    exact frame x
  | writeFill | writeReplace =>
    refine ⟨rfl, fun x => ?_⟩
    simp only [patched, first]
    exact frame x

theorem write_frame_again : ∃ system next reply,
    Run executeCommand Admitted (.zero blankMemory)
      [(dataRead 20, ⟨.errNone, 0⟩), (dataWrite 16 7, ⟨.errNone, 7⟩)] system ∧
    executeCommand system (dataWrite 16 9) = .ok (next, reply) ∧
    next.memSpace.size = system.memSpace.size ∧ ∀ x, next.memSpace.byte x =
      if 16 ≤ x ∧ x < 20 then LittleEndian.byte 9 (x - 16) else system.memSpace.byte x := by
  obtain ⟨middle, wrote, holds, system, read, next, again⟩ : ∃ middle,
      executeCommand (.zero blankMemory) (dataWrite 16 7) = .ok (middle, ⟨.errNone, 7⟩) ∧
      Holds .L1_DCACHE middle.l1DCache (dataRead 20).paddr.address 0 ∧ ∃ system,
      executeCommand middle (dataRead 20) = .ok (system, ⟨.errNone, 0⟩) ∧ ∃ next,
      executeCommand system (dataWrite 16 9) = .ok (next, ⟨.errNone, 9⟩) :=
    ⟨_, rfl, ⟨by decide, rfl, rfl⟩, _, rfl, _, rfl⟩
  have hit : Admitted middle (dataRead 20) := @Admitted.readHit _ _ .DATA _ rfl holds
  have run : Run executeCommand Admitted (.zero blankMemory)
      [(dataRead 20, ⟨.errNone, 0⟩), (dataWrite 16 7, ⟨.errNone, 7⟩)] system :=
    .snoc (.snoc .nil (.aligned rfl) wrote) hit read
  have operation : (dataWrite 16 9).operation = .write := rfl
  exact ⟨system, next, _, run, again, write_frame run operation rfl again rfl⟩

/-- A write at the second word of a block stores its word at the third one. -/
theorem write_misplaced : (dataWrite 4 1).paddr.address = 4 ∧ ∃ next,
    executeCommand (.zero blankMemory) (dataWrite 4 1) = .ok (next, ⟨.errNone, 1⟩) ∧
      next.memSpace.word 4 = 0 ∧ next.memSpace.word 8 = 1 :=
  ⟨rfl, _, rfl, rfl, rfl⟩

end KabyLake
