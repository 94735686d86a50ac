import KabyLake.Machine.Refinement
import KabyLake.Model.CommandExecution
import KabyLake.Soundness.CacheBounds
import KabyLake.Soundness.CacheCommute

/-! # The L2 cache is never used

No entry of L2 ever becomes valid, whatever the commands of a program are and whatever the
allocations return: the one function that fills L2 inserts an entry whose valid bit it has just
cleared. Every lookup in L2 then misses, so that no execution takes a path with a wrong stride, and
the bytes that L2 holds are never seen.
-/

namespace KabyLake

open Machine

section Quiet

variable {memSpace : MemSpace} {paddr : PhyAddr} {access : MemAccess} {l1Cache l2Cache l2Cache' : Cache}
  {allocations : Allocations} (word : BitVec 32) (quiet : Quiet l2Cache) (quiet' : Quiet l2Cache')
include quiet quiet'

/-- What `cache_write` inserts into quiet L2 caches has no valid bit. -/
theorem quiet_leaves (same : Entry → Entry → Prop) (oldEntry oldEntry' : Option Entry) :
    LeavesRelated paddr same (fun l2 l2' => Quiet l2 ∧ Quiet l2') oldEntry oldEntry' l2Cache l2Cache' := by
  intro old _ old' _ leaving leaving' _
  obtain ⟨l2, placed, still⟩ := quiet.insertIntoL2 (l2index_lt paddr) (leavingEntry old leaving) (by simp)
  obtain ⟨l2', placed', still'⟩ := quiet'.insertIntoL2 (l2index_lt paddr) (leavingEntry old' leaving') (by simp)
  rw [placed, placed']
  exact .ok ⟨still, still'⟩

theorem cacheRead_alike (room : l1Cache.Room access.cacheType) :
    Related (ReadReply.Linked (fun l1 l1' => l1 = l1' ∧ l1.Room access.cacheType) l2Cache l2Cache' word word)
      (cacheRead memSpace paddr access l1Cache l2Cache word allocations)
      (cacheRead memSpace paddr access l1Cache l2Cache' word allocations) :=
  cacheRead_linked word word (.eq (CacheType.lineOf_lt _ _)) ⟨rfl, room⟩ quiet quiet' (.refl _) fun _ =>
    .of_eq rfl

theorem cacheWrite_alike (room : l1Cache.Room .L1_DCACHE) :
    Related (WriteReply.Linked (· = ·) (fun l1 l1' => l1 = l1' ∧ l1.Room .L1_DCACHE)
        fun l2 l2' => Quiet l2 ∧ Quiet l2')
      (cacheWrite memSpace paddr l1Cache l2Cache word allocations)
      (cacheWrite memSpace paddr l1Cache l2Cache' word allocations) :=
  cacheWrite_linked word (.eq (CacheType.lineOf_lt _ _)) ⟨rfl, room⟩ (.eq _) rfl ⟨quiet, quiet'⟩ quiet quiet'
    (.refl _) (fun _ _ _ same => .of_eq (by rw [same])) (quiet_leaves quiet quiet' _ _ _)

end Quiet

/-- Two systems that differ at most in the bytes of quiet L2 caches. -/
structure CacheSystem.Alike (system system' : CacheSystem) : Prop where
  memSpace : system.memSpace = system'.memSpace
  l1Cache : ∀ access, system.l1Cache access = system'.l1Cache access
  room : ∀ access, (system.l1Cache access).Room access.cacheType
  quiet : Quiet system.l2Cache
  quiet' : Quiet system'.l2Cache

namespace CacheSystem.Alike

variable {system system' : CacheSystem} {access : MemAccess} {l1 l2 l2' : Cache}

private theorem withL1Cache (alike : Alike system system') (room : l1.Room access.cacheType)
    (quiet : Quiet l2) (quiet' : Quiet l2') : Alike { system.withL1Cache access l1 with l2Cache := l2 }
      { system'.withL1Cache access l1 with l2Cache := l2' } := by
  have icache := alike.l1Cache .INSTRUCTION
  have dcache := alike.l1Cache .DATA
  have room' := alike.room
  refine ⟨?_, fun other => ?_, fun other => ?_, quiet, quiet'⟩
  · simpa using alike.memSpace
  · cases access <;> cases other <;> first | rfl | exact icache | exact dcache
  · cases access <;> cases other <;> first | exact room | exact room' .INSTRUCTION | exact room' .DATA

theorem executeCommand (alike : Alike system system') (call : CacheCall) :
    Related (fun result result' => result.2 = result'.2 ∧ Alike result.1 result'.1)
      (executeCommand system call) (executeCommand system' call) := by
  unfold KabyLake.executeCommand
  cases call.operation with
  | read access =>
    dsimp only
    rw [← alike.memSpace, ← alike.l1Cache access]
    refine (cacheRead_alike call.word alike.quiet alike.quiet' (alike.room access)).bind fun reply reply' both => ?_
    obtain ⟨same, room⟩ := both.l1Cache
    refine .ok ⟨by rw [both.code, both.word.of_same], ?_⟩
    rw [← same, both.l2Cache, both.l2Cache']
    exact alike.withL1Cache room alike.quiet alike.quiet'
  | write =>
    have dcache : system.l1DCache = system'.l1DCache := alike.l1Cache .DATA
    dsimp only
    rw [← alike.memSpace, ← dcache]
    refine (cacheWrite_alike call.word alike.quiet alike.quiet' (alike.room .DATA)).bind fun reply reply' both => ?_
    obtain ⟨same, room⟩ := both.l1Cache
    obtain ⟨quiet, quiet'⟩ := both.l2Cache
    refine .ok ⟨by rw [both.code], both.memSpace, fun other => ?_, fun other => ?_, quiet, quiet'⟩
    · cases other with
      | INSTRUCTION => exact alike.l1Cache .INSTRUCTION
      | DATA => exact same
    · cases other with
      | INSTRUCTION => exact alike.room .INSTRUCTION
      | DATA => exact room

end CacheSystem.Alike

theorem wordLayer_cacheRead (reading writing : Allocations) (system : CacheSystem) (paddr : PhyAddr)
    (access : MemAccess) (word : BitVec 32) :
    (CacheSystem.wordLayer reading writing).cacheRead system paddr access word =
      (executeCommand system ⟨.read access, paddr, word, reading⟩ >>= fun result =>
        .ok (result.2.code, result.1, result.2.word)) := by
  simp only [CacheSystem.wordLayer, executeCommand]
  cases cacheRead system.memSpace paddr access (system.l1Cache access) system.l2Cache word reading <;> rfl

theorem cacheReadByte_wordLayer (reading writing : Allocations) (system : CacheSystem) (paddr : PhyAddr)
    (access : MemAccess) (byte : BitVec 8) (word : BitVec 32) :
    cacheReadByte (CacheSystem.wordLayer reading writing) system paddr access byte (some word) =
      (executeCommand system ⟨.read access, paddr, word, reading⟩ >>= fun result =>
        if result.2.code ≠ .errNone then .ok (.errBadParameter, result.1, byte)
        else .ok (.errNone, result.1, ((result.2.word >>>
          ((phyAddrTToUint32T paddr &&& 0b11#32).toNat * 8)) &&& 0b11111111#32).setWidth 8)) := by
  simp only [cacheReadByte, wordLayer_cacheRead]
  cases executeCommand system ⟨.read access, paddr, word, reading⟩ <;> rfl

section Lines

variable {system system' : CacheSystem}

/-- Linked systems have the same memory, and word commands give the same replies on them and keep them
linked. -/
structure Congruence (linked : CacheSystem → CacheSystem → Prop) : Prop where
  memSpace : ∀ {system system'}, linked system system' → system.memSpace = system'.memSpace
  executeCommand : ∀ {system system'}, linked system system' → ∀ call,
    Related (fun result result' => result.2 = result'.2 ∧ linked result.1 result'.1)
      (executeCommand system call) (executeCommand system' call)

theorem CacheSystem.Alike.congruence : Congruence CacheSystem.Alike :=
  ⟨fun alike => alike.memSpace, fun alike => alike.executeCommand⟩

namespace Congruence

variable {linked : CacheSystem → CacheSystem → Prop}

private theorem cacheReadByte (congruence : Congruence linked) (holds : linked system system')
    (reading writing : Allocations) (paddr : PhyAddr) (access : MemAccess) (byte : BitVec 8)
    (word : Option (BitVec 32)) :
    Related (fun result result' => result.1 = result'.1 ∧ result.2.2 = result'.2.2 ∧
        linked result.2.1 result'.2.1)
      (cacheReadByte (CacheSystem.wordLayer reading writing) system paddr access byte word)
      (cacheReadByte (CacheSystem.wordLayer reading writing) system' paddr access byte word) := by
  cases word with
  | none => exact .ok ⟨rfl, rfl, holds⟩
  | some word =>
    rw [cacheReadByte_wordLayer, cacheReadByte_wordLayer]
    refine (congruence.executeCommand holds _).bind fun result result' both => ?_
    rw [both.1]
    exact .ite (fun _ => .ok ⟨rfl, rfl, both.2⟩) fun _ => .ok ⟨rfl, rfl, both.2⟩

theorem executeLine (congruence : Congruence linked) (holds : linked system system') (line : LineCall) :
    Related (fun result result' => result.2 = result'.2 ∧ linked result.1 result'.1)
      (executeLine system line) (executeLine system' line) := by
  unfold KabyLake.executeLine
  refine .bind_same (by rw [congruence.memSpace holds]) fun walked _ => ?_
  refine .ite (fun _ => .ok ⟨rfl, holds⟩) fun _ => .ite (fun _ => ?_) fun _ => .ite (fun _ => ?_)
    fun _ => .ok ⟨rfl, holds⟩
  · unfold executeRead
    cases MemAccess.ofStored line.command.type with
    | none => exact .ok ⟨rfl, holds⟩
    | some access =>
      refine .ite (fun _ => ?_) fun _ => ?_
      · exact (congruence.executeCommand holds _).bind fun _ _ both => .ok ⟨by rw [both.1], both.2⟩
      · exact (congruence.cacheReadByte holds _ _ _ _ _ _).bind fun _ _ both =>
          .ok ⟨by rw [both.1, both.2.1], both.2.2⟩
  · unfold executeWrite
    refine .ite (fun _ => ?_) fun _ => .ite (fun _ => .ok ⟨rfl, holds⟩) fun _ => ?_
    · exact (congruence.executeCommand holds _).bind fun _ _ both => .ok ⟨by rw [both.1], both.2⟩
    · cases line.newWord with
      | none => exact .ok ⟨rfl, holds⟩
      | some word =>
        refine (congruence.executeCommand holds _).bind ?_
        rintro ⟨next, reply⟩ ⟨next', _⟩ ⟨rfl, kept⟩
        exact .ite (fun _ => .ok ⟨rfl, kept⟩) fun _ => .error _

theorem transfer (congruence : Congruence linked) (holds : linked system system')
    {guard : CacheSystem → LineCall → Prop} {history : List (LineCall × LineReply)} {final : CacheSystem}
    (run : Run KabyLake.executeLine guard system history final) :
    ∃ final', Run KabyLake.executeLine (fun _ _ => True) system' history final' ∧ linked final final' := by
  have alike : ∀ state state' line, linked state state' →
      Related (fun result result' => result.2 = result'.2 ∧ linked result.1 result'.1)
        (KabyLake.executeLine state line) (KabyLake.executeLine state' line) :=
    fun _ _ line holds => congruence.executeLine holds line
  exact run.transfer alike holds

end Congruence

section Yields

variable {allowed : Fault → Prop} {post : CacheSystem → Prop} {line : LineCall} {paddr : PhyAddr}

/-- What the word reads of `case READ` yield, it yields itself. -/
theorem executeRead_yields (kept : post system)
    (read : ∀ access word, Yields allowed (fun result => post result.1)
      (executeCommand system ⟨.read access, paddr, word, line.reading⟩)) :
    Yields allowed (fun result => post result.1) (executeRead system line paddr) := by
  unfold executeRead
  cases MemAccess.ofStored line.command.type with
  | none => exact .ok kept
  | some access =>
    refine .ite (fun _ => (read access _).bind fun _ kept => .ok kept) fun _ => ?_
    cases line.newWord with
    | none => exact .ok kept
    | some word =>
      rw [cacheReadByte_wordLayer]
      have first (result : CacheSystem × CacheReply) (kept : post result.1) (chosen : BitVec 8) :
          Yields allowed (fun result => post result.2.1)
            (if result.2.code ≠ .errNone then .ok (.errBadParameter, result.1, line.byte)
              else .ok (ErrorCode.errNone, result.1, chosen)) :=
        .ite (fun _ => .ok kept) fun _ => .ok kept
      exact ((read access word).bind fun result kept => first result kept _).bind fun _ kept => .ok kept

/-- What the word commands of `case WRITE` yield, it yields itself, unless it reads the byte of the data
as a pointer. -/
theorem executeWrite_yields (kept : post system) (dangling : allowed .danglingPointer)
    (write : Yields allowed (fun result => post result.1)
      (executeCommand system ⟨.write, paddr, line.command.writeData, line.writing⟩))
    (read : ∀ word, Yields allowed (fun result => post result.1)
      (executeCommand system ⟨.read .DATA, paddr, word, line.reading⟩)) :
    Yields allowed (fun result => post result.1) (executeWrite system line paddr) := by
  refine .ite (fun _ => write.bind fun _ kept => .ok kept) fun _ => .ite (fun _ => .ok kept) fun _ => ?_
  cases line.newWord with
  | none => exact .ok kept
  | some word => exact (read word).bind fun _ kept => .ite (fun _ => .ok kept) fun _ => .error dangling

end Yields

/-- The arrays have the sizes of their types and L2 holds nothing. -/
structure Contained (system : CacheSystem) : Prop where
  l1Cache : ∀ access, (system.l1Cache access).size = 64 * 4
  l2Cache : system.l2Cache.size = 512 * 8
  v : ∀ k, (system.l2Cache.entry k).v = false

namespace Contained

theorem quiet (contained : Contained system) : Quiet system.l2Cache :=
  ⟨.of_size contained.l2Cache (by decide), contained.v⟩

private theorem room (contained : Contained system) (access : MemAccess) :
    (system.l1Cache access).Room access.cacheType :=
  .of_size (contained.l1Cache access) (by cases access <;> decide)

private theorem withL1Cache {access : MemAccess} {l1 l2 : Cache} (contained : Contained system)
    (size : l1.size = (system.l1Cache access).size) (same : l2 = system.l2Cache) :
    Contained { system.withL1Cache access l1 with l2Cache := l2 } := by
  subst same
  have icache := contained.l1Cache .INSTRUCTION
  have dcache := contained.l1Cache .DATA
  refine ⟨fun other => ?_, contained.l2Cache, contained.v⟩
  cases access <;> cases other <;> first
    | exact icache
    | exact dcache
    | exact size.trans icache
    | exact size.trans dcache

theorem executeCommand (contained : Contained system) (call : CacheCall) :
    Yields (· ≠ .arrayBounds) (fun result => Contained result.1) (executeCommand system call) := by
  have quiet := contained.quiet
  unfold KabyLake.executeCommand
  cases call.operation with
  | read access =>
    have first : Yields (· ≠ Fault.arrayBounds) (fun reply =>
        reply.l1Cache.size = (system.l1Cache access).size ∧ reply.l2Cache = system.l2Cache)
        (cacheRead system.memSpace call.paddr access (system.l1Cache access) system.l2Cache call.word
          call.allocations) := by
      apply Yields.of_avoids
      · exact (cacheRead_inBounds_iff (contained.l1Cache access) contained.l2Cache).mpr
          fun strays => quiet.not_found strays.found
      · intro reply ran
        obtain ⟨_, _, both⟩ := (cacheRead_twin call.word quiet quiet (.initial rfl fun _ _ => rfl) access
          (contained.room access) (.initial rfl fun _ _ => rfl)).of_ok ran
        exact ⟨both.l1Cache.size, both.l2Cache⟩
    exact first.bind fun reply kept => .ok (contained.withL1Cache kept.1 kept.2)
  | write =>
    have first : Yields (· ≠ Fault.arrayBounds) (fun reply => Contained { system with
        memSpace := reply.memSpace, l1DCache := reply.l1Cache, l2Cache := reply.l2Cache })
        (cacheWrite system.memSpace call.paddr system.l1DCache system.l2Cache call.word
          call.allocations) := by
      apply Yields.of_avoids
      · exact (cacheWrite_inBounds_iff (contained.l1Cache .DATA) contained.l2Cache).mpr
          fun strays => quiet.not_found strays.found
      · intro reply ran
        obtain ⟨_, _, both⟩ := (cacheWrite_twin call.word quiet quiet (.initial rfl fun _ _ => rfl)
          (contained.room .DATA) (.initial rfl fun _ _ => rfl) (.initial rfl fun _ _ => rfl)).of_ok ran
        obtain ⟨_, _, alike⟩ := (cacheWrite_alike call.word quiet quiet (contained.room .DATA)).of_ok ran
        refine ⟨fun other => ?_, both.l2Cache.size.trans contained.l2Cache, alike.l2Cache.1.v⟩
        cases other with
        | INSTRUCTION => exact contained.l1Cache .INSTRUCTION
        | DATA => exact both.l1Cache.size.trans (contained.l1Cache .DATA)
    exact first.bind fun reply kept => .ok kept

private theorem pageWalk_yields (memSpace : MemSpace) (vaddr : VirtAddr) (paddr : PhyAddr) :
    Yields (· ≠ .arrayBounds) (fun _ => True) (pageWalk memSpace vaddr paddr) := by
  have entry (start : BitVec 32) (index : BitVec 9) :
      Yields (· ≠ Fault.arrayBounds) (fun _ => True) (readPageEntry memSpace start index) :=
    .ite (fun _ => .ok trivial) fun _ => .error (by simp)
  refine (entry _ _).bind fun _ _ => (entry _ _).bind fun _ _ => (entry _ _).bind fun _ _ => ?_
  exact (entry _ _).bind fun _ _ => .ok trivial

theorem executeLine (contained : Contained system) (line : LineCall) :
    Yields (· ≠ .arrayBounds) (fun result => Contained result.1) (executeLine system line) := by
  refine (pageWalk_yields _ _ _).bind fun walked _ => .ite (fun _ => .ok contained) fun _ => ?_
  apply Yields.ite
  · intro _
    exact executeRead_yields contained fun _ _ => contained.executeCommand _
  · intro _
    refine .ite (fun _ => ?_) fun _ => .ok contained
    exact executeWrite_yields contained (by simp) (contained.executeCommand _) fun _ =>
      contained.executeCommand _

end Contained

/-- Along a run of lines the system stays contained. -/
theorem contained_of_run {memSpace : MemSpace} {guard : CacheSystem → LineCall → Prop}
    {history : List (LineCall × LineReply)} (run : Run executeLine guard (.zero memSpace) history system) :
    Contained system := by
  refine run.invariant Contained ⟨fun access => ?_, rfl, Cache.v_zero _⟩ ?_
  · cases access <;> rfl
  · intro system line next reply contained _ stepped
    exact (contained.executeLine line).post_of_eq stepped

end Lines

variable {memSpace : MemSpace} {system : CacheSystem} {history : List (LineCall × LineReply)}

/-- In every run of commands, at any addresses and with any outcomes of the allocations, no entry of L2
is ever valid, and no command leaves the array of a cache. -/
theorem l2Cache_never_valid
    (run : Run executeLine (fun _ _ => True) (.zero memSpace) history system) :
    (∀ k, (system.l2Cache.entry k).v = false) ∧
      ∀ line, executeLine system line ≠ .error .arrayBounds := by
  have contained := contained_of_run run
  exact ⟨contained.v, fun line => (contained.executeLine line).avoids (by simp)⟩

def readLine (a : ℕ) : LineCall where
  command := ⟨.READ, MemAccess.DATA.stored, 4, 0, initVirtAddr64 (BitVec.ofNat 64 a)⟩
  paddr := ⟨0, 0⟩
  word := 0
  byte := 0
  newWord := none
  reading := granted
  writing := granted

def writeLine (a : ℕ) (word : BitVec 32) : LineCall where
  command := ⟨.WRITE, MemAccess.DATA.stored, 4, word, initVirtAddr64 (BitVec.ofNat 64 a)⟩
  paddr := ⟨0, 0⟩
  word := 0
  byte := 0
  newWord := none
  reading := granted
  writing := granted

theorem blankMemory_run : ∃ system,
    Run executeLine (fun _ _ => True) (.zero blankMemory) [(writeLine 4096 7, .written .errNone)] system :=
  ⟨_, .snoc .nil trivial rfl⟩

private def evictingHistory : List (LineCall × LineReply) :=
  [(writeLine 4096 7, .written .errNone), (readLine 3072, .word .errNone 0), (readLine 2048, .word .errNone 0),
    (readLine 1024, .word .errNone 0), (readLine 0, .word .errNone 0)]

private theorem evictingHistory_run : ∃ system,
    Run executeLine (fun _ _ => True) (.zero onePage) evictingHistory system ∧
      (system.l2Cache.slot .L2_CACHE 256 1).age .L2_CACHE = 1 := by
  refine ⟨_, .snoc (.snoc (.snoc (.snoc (.snoc .nil trivial rfl) trivial rfl) trivial rfl) trivial rfl)
    trivial rfl, ?_⟩
  rfl

/-- The victim aged the other ways of its set of L2, and yet no entry of L2 is valid. -/
theorem l2Cache_never_valid_evicted : ∃ system,
    Run executeLine (fun _ _ => True) (.zero onePage) evictingHistory system ∧
      (system.l2Cache.slot .L2_CACHE 256 1).age .L2_CACHE = 1 ∧
      (∀ k, (system.l2Cache.entry k).v = false) ∧
      ∀ line, executeLine system line ≠ .error .arrayBounds := by
  obtain ⟨system, run, aged⟩ := evictingHistory_run
  exact ⟨system, run, aged, l2Cache_never_valid run⟩

/-- Whatever bytes an L2 cache without a valid entry holds, every run of commands gives the same
replies, the same memory and the same L1 caches, and every further command the same reply or fault. -/
theorem l2Cache_unseen {l2Cache : Cache} (quiet : Quiet l2Cache)
    (run : Run executeLine (fun _ _ => True) (.zero memSpace) history system) :
    ∃ system', Run executeLine (fun _ _ => True) { CacheSystem.zero memSpace with l2Cache } history system' ∧
      system'.memSpace = system.memSpace ∧ (∀ access, system'.l1Cache access = system.l1Cache access) ∧
      ∀ line, (executeLine system' line).map Prod.snd = (executeLine system line).map Prod.snd := by
  have initial : (CacheSystem.zero memSpace).Alike { CacheSystem.zero memSpace with l2Cache } := by
    have formed := (CacheSystem.zero_sound memSpace).formed
    refine ⟨rfl, fun access => ?_, fun access => (formed access).room, (CacheSystem.zero_sound memSpace).quiet,
      quiet⟩
    cases access <;> rfl
  obtain ⟨system', run', alike⟩ := CacheSystem.Alike.congruence.transfer initial run
  refine ⟨system', run', alike.memSpace.symm, fun access => (alike.l1Cache access).symm, fun line => ?_⟩
  exact ((CacheSystem.Alike.congruence.executeLine alike line).map_eq fun _ _ both => both.1).symm

theorem l2Cache_unseen_write : ∃ system system',
    Run executeLine (fun _ _ => True) (.zero onePage) evictingHistory system ∧
      Run executeLine (fun _ _ => True)
        { CacheSystem.zero onePage with l2Cache := ⟨4096, fun _ => ⟨0xFFFFFFFE#32, Line.zero⟩⟩ }
        evictingHistory system' ∧ system'.memSpace = system.memSpace := by
  obtain ⟨system, run, _⟩ := evictingHistory_run
  have quiet : Quiet ⟨4096, fun _ => ⟨0xFFFFFFFE#32, Line.zero⟩⟩ := ⟨Nat.le_refl _, fun _ => by simp [Entry.v]⟩
  obtain ⟨system', run', memory, _⟩ := l2Cache_unseen quiet run
  exact ⟨system, system', run, run', memory⟩

end KabyLake
