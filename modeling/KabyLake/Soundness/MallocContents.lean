import KabyLake.Soundness.CacheObservation
import KabyLake.Soundness.CommandFaults

/-! # What `malloc` leaves in its blocks

Two runs of the same commands whose allocations are handed out alike, but hold other bytes, and whose
locals hold other values, cannot be told apart while every command starts at a block or finds its block in
L1. A read that does neither returns a word of the block of its new entry, which can be any word.
-/

namespace KabyLake

open Machine

/-- The same line, with the same outcomes of its allocations; their bytes and the locals may differ. -/
structure LineCall.SameOutcomes (line line' : LineCall) : Prop where
  command : line.command = line'.command
  newWord : line.newWord.isSome = line'.newWord.isSome
  reading : line.reading.SameOutcomes line'.reading
  writing : line.writing.SameOutcomes line'.writing

inductive LineReply.Alike : LineReply → LineReply → Prop
  | same (reply : LineReply) : Alike reply reply
  | word {code : ErrorCode} (value value' : BitVec 32) : code ≠ .errNone →
      Alike (.word code value) (.word code value')
  | byte {code : ErrorCode} (value value' : BitVec 8) : code ≠ .errNone →
      Alike (.byte code value) (.byte code value')

/-- If the line makes a word command, it starts at a block or finds its block in L1. -/
def LineCall.Clean (system : CacheSystem) (line : LineCall) : Prop :=
  ∀ target call, line.Maps system.memSpace target → line.wordCall target = some call → call.Clean system

section Lines

variable {system system' : CacheSystem} {line line' : LineCall} {target : PhyAddr}

theorem SameWord.alike {code : ErrorCode} {prior prior' word word' : BitVec 32}
    (same : SameWord code prior prior' word word') :
    LineReply.Alike (.word code word) (.word code word') := by
  rcases same with rfl | ⟨failure, _, _⟩
  · exact .same _
  · exact .word _ _ failure

theorem LineReply.Alike.eq_of_success {word word' : BitVec 32}
    (alike : LineReply.Alike (.word .errNone word) (.word .errNone word')) : word = word' := by
  cases alike with
  | same => rfl
  | word _ _ failure => exact (failure rfl).elim

/-- The walk has the same outcome, whatever `*paddr` held before. -/
theorem pageWalk_prior (memSpace : MemSpace) (vaddr : VirtAddr) (prior prior' : PhyAddr) :
    Related (fun result result' => result.1 = result'.1 ∧ (result.1 = .errNone → result.2 = result'.2))
      (pageWalk memSpace vaddr prior) (pageWalk memSpace vaddr prior') := by
  unfold pageWalk
  refine .bind_same rfl fun _ _ => .bind_same rfl fun _ _ => .bind_same rfl fun _ _ => ?_
  refine .bind_same rfl fun physPageNumber _ => ?_
  rw [initPhyAddr_offset, initPhyAddr_offset]
  split
  · exact .ok ⟨rfl, fun success => by simp at success⟩
  · exact .ok ⟨rfl, fun _ => rfl⟩

private theorem readWord_alike (shows : system.Shows system') {access : MemAccess}
    {reading reading' : Allocations} (same : reading.SameOutcomes reading') (word word' : BitVec 32)
    (clean : CacheCall.Clean system ⟨.read access, target, word, reading⟩) :
    Related (fun result result' => result.2.code = result'.2.code ∧
        SameWord result.2.code word word' result.2.word result'.2.word ∧ result.1.Shows result'.1)
      (executeCommand system ⟨.read access, target, word, reading⟩)
      (executeCommand system' ⟨.read access, target, word', reading'⟩) := by
  have agree : CacheCall.SameOutcomes ⟨.read access, target, word, reading⟩
      ⟨.read access, target, word', reading'⟩ := ⟨rfl, rfl, by simp, same⟩
  exact shows.executeCommand_outcomes agree (.inl clean)

private theorem readByte_alike (shows : system.Shows system') {access : MemAccess}
    (same : line.SameOutcomes line') (clean : ∀ word, line.newWord = some word →
      CacheCall.Clean system ⟨.read access, target, word, line.reading⟩) :
    Related (fun result result' => result.2.1.Shows result'.2.1 ∧
        LineReply.Alike (.byte result.1 result.2.2) (.byte result'.1 result'.2.2))
      (cacheReadByte (CacheSystem.wordLayer line.reading line.writing) system target access line.byte
        line.newWord)
      (cacheReadByte (CacheSystem.wordLayer line'.reading line'.writing) system' target access line'.byte
        line'.newWord) := by
  have outcome := same.newWord
  cases newWord : line.newWord with
  | none =>
    obtain newWord' : line'.newWord = none := by simpa [newWord] using outcome
    rw [newWord']
    exact .ok ⟨shows, .byte _ _ (by simp)⟩
  | some word =>
    rw [newWord] at outcome
    obtain ⟨word', newWord'⟩ := Option.isSome_iff_exists.mp outcome.symm
    rw [newWord', cacheReadByte_wordLayer, cacheReadByte_wordLayer]
    refine (readWord_alike shows same.reading word word' (clean word newWord)).bind ?_
    rintro ⟨next, code, answer⟩ ⟨next', _, answer'⟩ ⟨rfl, answered, shows⟩
    refine .ite (fun _ => .ok ⟨shows, .byte _ _ (by simp)⟩) fun success => ?_
    obtain rfl : code = .errNone := not_not.mp success
    obtain rfl : answer = answer' := answered.of_success
    exact .ok ⟨shows, .same _⟩

private theorem executeRead_alike (shows : system.Shows system') (same : line.SameOutcomes line')
    (order : line.command.order = CommandWord.READ)
    (clean : ∀ call, line.wordCall target = some call → call.Clean system) :
    Related (fun result result' => LineReply.Alike result.2 result'.2 ∧ result.1.Shows result'.1)
      (executeRead system line target) (executeRead system' line' target) := by
  have call : line.wordCall target = _ := if_pos order
  unfold executeRead
  rw [← same.command]
  cases kind : MemAccess.ofStored line.command.type with
  | none =>
    dsimp only
    split
    · exact .ok ⟨.word _ _ (by simp), shows⟩
    · exact .ok ⟨.byte _ _ (by simp), shows⟩
  | some access =>
    rw [kind] at call
    refine .ite (fun size => ?_) fun size => ?_
    · have started := clean _ (call.trans (if_pos size))
      refine (readWord_alike shows same.reading line.word line'.word started).bind ?_
      rintro ⟨next, code, word⟩ ⟨next', _, word'⟩ ⟨rfl, answered, shows⟩
      exact .ok ⟨answered.alike, shows⟩
    · have started (word : BitVec 32) (newWord : line.newWord = some word) :
          CacheCall.Clean system ⟨.read access, target, word, line.reading⟩ := by
        refine clean _ (call.trans ((if_neg size).trans ?_))
        rw [newWord, Option.map_some]
      exact (readByte_alike shows same started).bind fun _ _ both => .ok ⟨both.2, both.1⟩

private theorem executeWrite_alike (shows : system.Shows system') (same : line.SameOutcomes line')
    (order : line.command.order = CommandWord.WRITE)
    (clean : ∀ call, line.wordCall target = some call → call.Clean system) :
    Related (fun result result' => LineReply.Alike result.2 result'.2 ∧ result.1.Shows result'.1)
      (executeWrite system line target) (executeWrite system' line' target) := by
  have write : line.command.order ≠ CommandWord.READ := fun read => absurd (order.symm.trans read) (by decide)
  have call : line.wordCall target = _ := (if_neg write).trans (if_pos order)
  unfold executeWrite
  rw [← same.command]
  refine .ite (fun size => ?_) fun size => .ite (fun _ => .ok ⟨.same _, shows⟩) fun nonzero => ?_
  · have started := clean _ (call.trans (if_pos size))
    have agree : CacheCall.SameOutcomes ⟨.write, target, line.command.writeData, line.writing⟩
        ⟨.write, target, line.command.writeData, line'.writing⟩ := ⟨rfl, rfl, fun _ => rfl, same.writing⟩
    refine (shows.executeCommand_outcomes agree (.inl started)).bind ?_
    rintro ⟨next, code, word⟩ ⟨next', _, word'⟩ ⟨rfl, _, shows⟩
    exact .ok ⟨.same _, shows⟩
  · have outcome := same.newWord
    have read := call.trans ((if_neg size).trans (if_neg nonzero))
    cases newWord : line.newWord with
    | none =>
      obtain newWord' : line'.newWord = none := by simpa [newWord] using outcome
      rw [newWord']
      exact .ok ⟨.same _, shows⟩
    | some word =>
      rw [newWord] at outcome read
      obtain ⟨word', newWord'⟩ := Option.isSome_iff_exists.mp outcome.symm
      rw [newWord']
      refine (readWord_alike shows same.reading word word' (clean _ read)).bind ?_
      rintro ⟨next, code, answer⟩ ⟨next', _, answer'⟩ ⟨rfl, _, shows⟩
      exact .ite (fun _ => .ok ⟨.same _, shows⟩) fun _ => .error _

/-- One clean line on two systems that print alike. -/
theorem executeLine_alike (shows : system.Shows system') (same : line.SameOutcomes line')
    (clean : line.Clean system) :
    Related (fun result result' => LineReply.Alike result.2 result'.2 ∧ result.1.Shows result'.1)
      (executeLine system line) (executeLine system' line') := by
  unfold executeLine
  rw [← same.command, ← shows.memSpace]
  have walks := (pageWalk_prior system.memSpace line.command.vaddr line.paddr line'.paddr).returned
  refine walks.bind ?_
  rintro ⟨code, target⟩ ⟨_, target'⟩ ⟨⟨rfl, agree⟩, walked⟩
  refine .ite (fun _ => .ok ⟨.same _, shows⟩) fun success => ?_
  obtain rfl : code = .errNone := not_not.mp success
  obtain rfl : target = target' := agree rfl
  have started (call : CacheCall) := clean target call walked
  refine .ite (fun read => ?_) fun _ => .ite (fun write => ?_) fun _ => .ok ⟨.same _, shows⟩
  · exact executeRead_alike shows same read started
  · exact executeWrite_alike shows same write started

end Lines

/-- A line whose page offset starts a block is clean. -/
theorem LineCall.clean_of_offset {system : CacheSystem} {line : LineCall}
    (offset : line.command.vaddr.pageOffset.toNat % 16 = 0) : line.Clean system := by
  intro target call maps made
  have kept := maps.offset
  refine .inl ?_
  rw [(wordCall_eq made).1]
  omega

section Blocks

variable {memSpace : MemSpace} {paddr : PhyAddr} {l1Cache l2Cache : Cache} {word : BitVec 32}

/-- At an address inside a block the new entry is inserted as `malloc` handed it out. -/
theorem notHitL1OrL2_unwritten {type : CacheType} {s : ℕ} (wordSelect : ℕ) (garbage : Entry)
    (room : l1Cache.Room type) (hs : s < type.lines) (unaligned : paddr.address % 16 ≠ 0) :
    ∃ after, notHitL1OrL2 type memSpace paddr l1Cache l2Cache s wordSelect word (some garbage) =
      .ok ⟨.errNone, after, l2Cache, garbage.line.word wordSelect⟩ := by
  have made : cacheEntryInit memSpace paddr (some garbage) type = .ok (.errBadParameter, some garbage) :=
    if_pos unaligned
  have fill {w : ℕ} (hw : w < type.ways) : ∃ stored after,
      cacheInsert s w (some garbage) l1Cache type = .ok (.errNone, stored) ∧
        lruAgeUpdate type type.ways w s stored = .ok after ∧
        ∃ entry, after.load (cacheEntry type.ways s w) = .ok entry ∧ entry.line = garbage.line := by
    obtain ⟨entry, inserted, same, _⟩ := cacheInsert_some garbage room hs hw
    have wide : (l1Cache.put type s w entry).Room type := room
    obtain ⟨after, updated, aged⟩ := lruAgeUpdate_ok wide hs hw
    refine ⟨_, after, inserted, updated, _, Cache.load_slot (aged.room wide) hs hw, ?_⟩
    rw [(aged.block w hw).line, Cache.slot_put_self, same.line]
  rcases full_or_free type l1Cache s with full | ⟨w, free⟩
  · obtain ⟨w, chosen, eldest⟩ := full.applyLru room hs
    obtain ⟨stored, after, inserted, updated, entry, loaded, line⟩ := fill eldest.way
    refine ⟨after, ?_⟩
    simp only [notHitL1OrL2, made, ok_bind, findPlace_full room hs full, ↓reduceIte, chosen, inserted,
      updated, loaded, line, pure_eq_ok]
  · obtain ⟨stored, after, inserted, updated, entry, loaded, line⟩ := fill free.way
    have present : w ≠ hitWayMiss := (free.way.trans CacheType.ways_lt).ne
    refine ⟨after, ?_⟩
    simp only [notHitL1OrL2, made, ok_bind, free.findPlace room hs, present, ↓reduceIte, inserted,
      updated, loaded, line, pure_eq_ok]

end Blocks

section Words

variable {system : CacheSystem} {line : LineCall} {target : PhyAddr} {access : MemAccess}

theorem CacheCall.clean_read_iff {word : BitVec 32} {allocations : Allocations} :
    CacheCall.Clean system ⟨.read access, target, word, allocations⟩ ↔
      target.address % 16 = 0 ∨ ∃ w, Found access.cacheType (system.l1Cache access) target.address w := by
  rw [CacheCall.Clean, CacheCall.access]

theorem LineCall.clean_iff_of_readWord (maps : line.Maps system.memSpace target)
    (order : line.command.order = CommandWord.READ) (type : line.command.type = access.stored)
    (size : line.command.dataSize.toNat = sizeofWord) :
    line.Clean system ↔
      target.address % 16 = 0 ∨ ∃ w, Found access.cacheType (system.l1Cache access) target.address w := by
  have made (target : PhyAddr) :
      line.wordCall target = some ⟨.read access, target, line.word, line.reading⟩ := by
    simp only [LineCall.wordCall, order, type, MemAccess.ofStored_stored, size, ↓reduceIte]
  constructor
  · exact fun clean => CacheCall.clean_read_iff.mp (clean target _ maps (made target))
  · intro clean other call again first
    obtain rfl : other = target := (Prod.mk.inj (Except.ok.inj (again.symm.trans maps))).2
    obtain rfl := Option.some.inj ((made other).symm.trans first)
    exact CacheCall.clean_read_iff.mpr clean

/-- A read of a word that is not clean returns the word of the block that `malloc` left. -/
theorem Contained.readWord_garbage (contained : Contained system) (maps : line.Maps system.memSpace target)
    (order : line.command.order = CommandWord.READ) (type : line.command.type = access.stored)
    (size : line.command.dataSize.toNat = sizeofWord) (pLine : line.reading.pLine = true)
    {garbage : Entry} (newentry : line.reading.newentry = some garbage)
    (unclean : ¬ line.Clean system) :
    ∃ next, KabyLake.executeLine system line =
      .ok (next, .word .errNone (garbage.line.word (wordOf target.address))) := by
  rw [LineCall.clean_iff_of_readWord maps order type size, not_or] at unclean
  obtain ⟨unaligned, unfound⟩ := unclean
  have room : (system.l1Cache access).Room access.cacheType := (contained.shows.l1Cache access).room
  obtain ⟨after, missed⟩ := @notHitL1OrL2_unwritten system.memSpace target (system.l1Cache access)
    system.l2Cache line.word access.cacheType _ (wordOf target.address) garbage room
    (CacheType.lineOf_lt _ target.address) unaligned
  have read := cacheRead_unfound system.memSpace line.word room contained.quiet.room pLine unfound
    contained.quiet.not_found
  rw [newentry, missed] at read
  obtain ⟨call, same⟩ := executeLine_readWord maps order type size
  refine ⟨{ system.withL1Cache access after with l2Cache := system.l2Cache }, ?_⟩
  simp only [same, call, KabyLake.executeCommand, read, ok_bind, pure_eq_ok]

def LineCall.withGarbage (line : LineCall) (target : PhyAddr) (value : BitVec 32) : LineCall :=
  { line with reading := { line.reading with
      newentry := some ⟨0, Line.zero.setWord (wordOf target.address) value⟩ } }

/-- A read of a word that is not clean can return any word, with the same outcomes of its allocations. -/
theorem Contained.readWord_anyWord (contained : Contained system) (maps : line.Maps system.memSpace target)
    (order : line.command.order = CommandWord.READ) (type : line.command.type = access.stored)
    (size : line.command.dataSize.toNat = sizeofWord) (granted : line.reading.Succeed)
    (unclean : ¬ line.Clean system) (value : BitVec 32) :
    line.SameOutcomes (line.withGarbage target value) ∧ ∃ next,
      KabyLake.executeLine system (line.withGarbage target value) = .ok (next, .word .errNone value) := by
  have outcomes : line.reading.SameOutcomes (line.withGarbage target value).reading := by
    refine ⟨rfl, rfl, rfl, rfl, ?_, rfl, rfl⟩
    exact Option.isSome_iff_ne_none.mpr granted.newentry
  have clean := LineCall.clean_iff_of_readWord maps order type size
  have clean' : (line.withGarbage target value).Clean system ↔ _ :=
    LineCall.clean_iff_of_readWord maps order type size
  have again : ¬ (line.withGarbage target value).Clean system :=
    fun holds => unclean (clean.mpr (clean'.mp holds))
  obtain ⟨next, ran⟩ := @Contained.readWord_garbage system (line.withGarbage target value) target access
    contained maps order type size granted.pLine _ rfl again
  refine ⟨⟨rfl, rfl, outcomes, .refl _⟩, next, ?_⟩
  rw [ran, Line.word_setWord _ _ _ _ (by rw [wordOf]; omega), if_pos rfl]

end Words

variable {memSpace : MemSpace} {system : CacheSystem} {history : List (LineCall × LineReply)}

/-- What `malloc` leaves in its blocks and what the locals hold is not seen in any run of clean commands:
other bytes there give the same replies, the same memory and the same dumps, and then the same reply or
fault of the next clean command. -/
theorem malloc_unseen
    (run : Run executeLine (fun system line => line.Clean system) (.zero memSpace) history system)
    {lines : List LineCall} (same : List.Forall₂ LineCall.SameOutcomes (history.map Prod.fst) lines) :
    ∃ history' system', Run executeLine (fun _ _ => True) (.zero memSpace) history' system' ∧
      history'.map Prod.fst = lines ∧
      List.Forall₂ LineReply.Alike (history.map Prod.snd) (history'.map Prod.snd) ∧
      system.memSpace = system'.memSpace ∧ system.SameDumps system' ∧
      ∀ line line', line.SameOutcomes line' → line.Clean system →
        Related (fun result result' => LineReply.Alike result.2 result'.2)
          (executeLine system line) (executeLine system' line') := by
  have alike : ∀ state state' line line', state.Shows state' → line.SameOutcomes line' → line.Clean state →
      Related (fun result result' => LineReply.Alike result.2 result'.2 ∧ result.1.Shows result'.1)
        (executeLine state line) (executeLine state' line') :=
    fun _ _ _ _ shows same clean => executeLine_alike shows same clean
  obtain ⟨history', system', run', actions, replies, shows⟩ :=
    run.transfer_same alike (CacheSystem.zero_shows memSpace) same
  refine ⟨history', system', run', actions, replies, shows.memSpace, shows.sameDumps, ?_⟩
  exact fun line line' same clean => (executeLine_alike shows same clean).mono fun _ _ both => both.1

def writeLineOver (a : ℕ) (word : BitVec 32) : LineCall :=
  { writeLine a word with
    paddr := ⟨1, 1⟩
    word := 2
    writing := { granted with newd := some ⟨0, Vector.replicate 4 3⟩ } }

theorem malloc_unseen_write : ∃ system,
    Run executeLine (fun system line => line.Clean system) (.zero blankMemory)
        [(writeLine 4096 7, .written .errNone)] system ∧
      ∃ history' system', Run executeLine (fun _ _ => True) (.zero blankMemory) history' system' ∧
        history'.map Prod.fst = [writeLineOver 4096 7] ∧ system.memSpace = system'.memSpace := by
  have clean : (writeLine 4096 7).Clean (.zero blankMemory) := LineCall.clean_of_offset (by decide)
  obtain ⟨system, run⟩ : ∃ system, Run executeLine (fun system line => line.Clean system)
      (.zero blankMemory) [(writeLine 4096 7, .written .errNone)] system := ⟨_, .snoc .nil clean rfl⟩
  have outcomes : (writeLine 4096 7).SameOutcomes (writeLineOver 4096 7) :=
    ⟨rfl, rfl, .refl _, rfl, rfl, rfl, rfl, rfl, rfl, rfl⟩
  obtain ⟨history', system', run', actions, _, memory, _⟩ := malloc_unseen run (.cons outcomes .nil)
  exact ⟨system, run, history', system', run', actions, memory⟩

/-- The read of a word with its allocations granted shows nothing of these bytes exactly when it starts at
a block or finds its block in L1, after any run. -/
theorem malloc_unseen_iff {guard : CacheSystem → LineCall → Prop}
    (run : Run executeLine guard (.zero memSpace) history system) {line : LineCall} {target : PhyAddr}
    {access : MemAccess} (maps : line.Maps system.memSpace target)
    (order : line.command.order = CommandWord.READ) (type : line.command.type = access.stored)
    (size : line.command.dataSize.toNat = sizeofWord) (granted : line.reading.Succeed) :
    (∀ line', line.SameOutcomes line' → Related (fun result result' => LineReply.Alike result.2 result'.2)
      (executeLine system line) (executeLine system line')) ↔
    target.address % 16 = 0 ∨ ∃ w, Found access.cacheType (system.l1Cache access) target.address w := by
  have contained := contained_of_run run
  have clean := LineCall.clean_iff_of_readWord maps order type size
  refine Iff.trans ⟨fun unseen => ?_, fun clean line' same => ?_⟩ clean
  · by_contra unclean
    obtain ⟨garbage, newentry⟩ := Option.ne_none_iff_exists'.mp granted.newentry
    obtain ⟨next, ran⟩ :=
      contained.readWord_garbage maps order type size granted.pLine newentry unclean
    obtain ⟨same, next', ran'⟩ := contained.readWord_anyWord maps order type size granted unclean
      (garbage.line.word (wordOf target.address) + 1)
    obtain ⟨_, other, alike⟩ := (unseen _ same).of_ok ran
    rw [ran'] at other
    obtain rfl := Except.ok.inj other
    simpa using alike.eq_of_success
  · exact (executeLine_alike contained.shows same clean).mono fun _ _ both => both.1

/-- A read at the second word of a block that L1 does not have, after a write to another block. -/
theorem malloc_unseen_iff_second : ∃ system,
    Run executeLine (fun _ _ => True) (.zero blankMemory) [(writeLine 4112 7, .written .errNone)] system ∧
      ((∀ line', (readLine 4100).SameOutcomes line' →
          Related (fun result result' => LineReply.Alike result.2 result'.2)
            (executeLine system (readLine 4100)) (executeLine system line')) ↔
        (⟨0, 4⟩ : PhyAddr).address % 16 = 0 ∨
          ∃ w, Found .L1_DCACHE system.l1DCache (⟨0, 4⟩ : PhyAddr).address w) := by
  obtain ⟨system, run, maps⟩ : ∃ system,
      Run executeLine (fun _ _ => True) (.zero blankMemory) [(writeLine 4112 7, .written .errNone)] system ∧
        (readLine 4100).Maps system.memSpace ⟨0, 4⟩ := ⟨_, .snoc .nil trivial rfl, rfl⟩
  exact ⟨system, run, @malloc_unseen_iff _ _ _ _ run _ _ .DATA maps rfl rfl rfl granted_succeed⟩

end KabyLake
