import KabyLake.Soundness.CacheObservation
import KabyLake.Soundness.FlatMemory
import KabyLake.Soundness.PrintedText

/-! # The text of a program is what it does

Programs that print alike do the same to the memory and to what the caches print, line by line. The one
field that an accepted command has and its text has not, the size of a fetch, chooses between reading a
word and reading a byte of it, which cannot be told apart there.
-/

namespace KabyLake

open Machine

/-- The same call of `execute_command` for commands with the same text. -/
structure LineCall.SameText (line line' : LineCall) : Prop where
  command : SameCommand line.command line'.command
  paddr : line.paddr = line'.paddr
  word : line.word = line'.word
  byte : line.byte = line'.byte
  newWord : line.newWord = line'.newWord
  reading : line.reading = line'.reading
  writing : line.writing = line'.writing

theorem LineCall.SameText.symm {line line' : LineCall} (same : line.SameText line') : line'.SameText line :=
  ⟨same.command.symm, same.paddr.symm, same.word.symm, same.byte.symm, same.newWord.symm,
    same.reading.symm, same.writing.symm⟩

/-- The same reply, or those of fetches of different sizes that both succeed or both fail. -/
inductive LineReply.SameEnd : LineReply → LineReply → Prop
  | same (reply : LineReply) : SameEnd reply reply
  | wordByte {code code' : ErrorCode} (word : BitVec 32) (byte : BitVec 8) :
      (code = .errNone ↔ code' = .errNone) → SameEnd (.word code word) (.byte code' byte)
  | byteWord {code code' : ErrorCode} (byte : BitVec 8) (word : BitVec 32) :
      (code = .errNone ↔ code' = .errNone) → SameEnd (.byte code byte) (.word code' word)

theorem LineReply.SameEnd.symm {reply reply' : LineReply} (same : SameEnd reply reply') :
    SameEnd reply' reply := by
  cases same with
  | same => exact .same _
  | wordByte word byte codes => exact .byteWord _ _ codes.symm
  | byteWord byte word codes => exact .wordByte _ _ codes.symm

section Lines

variable {system system' : CacheSystem} {line line' : LineCall}

theorem pageWalk_number (memSpace : MemSpace) {vaddr other : VirtAddr}
    (number : virtAddrTToUint64T vaddr = virtAddrTToUint64T other) (prior : PhyAddr) :
    pageWalk memSpace vaddr prior = pageWalk memSpace other prior := by
  have fields : ({ vaddr with reserved := 0 } : VirtAddr) = { other with reserved := 0 } := by
    rw [← initVirtAddr64_virtAddrTToUint64T, ← initVirtAddr64_virtAddrTToUint64T, number]
  calc pageWalk memSpace vaddr prior = pageWalk memSpace { vaddr with reserved := 0 } prior := rfl
    _ = pageWalk memSpace { other with reserved := 0 } prior := by rw [fields]
    _ = pageWalk memSpace other prior := rfl

/-- `execute_command` asks for the size of a command only whether it is the size of a word, and for its data
only to write them. -/
theorem LineCall.SameText.executeLine_eq (same : line.SameText line')
    (size : line.command.dataSize.toNat = sizeofWord ↔ line'.command.dataSize.toNat = sizeofWord)
    (data : line.command.order = CommandWord.WRITE → line.command.writeData = line'.command.writeData) :
    executeLine system line = executeLine system line' := by
  obtain ⟨order, type, number, _⟩ := same.command
  have walk : pageWalk system.memSpace line.command.vaddr line.paddr = _ :=
    pageWalk_number system.memSpace number line.paddr
  have reads (target : PhyAddr) : executeRead system line target = executeRead system line' target := by
    simp only [executeRead, type, size, same.word, same.byte, same.newWord, same.reading, same.writing]
  have writes (write : line.command.order = CommandWord.WRITE) (target : PhyAddr) :
      executeWrite system line target = executeWrite system line' target := by
    simp only [executeWrite, size, data write, same.newWord, same.reading, same.writing]
  by_cases write : line.command.order = CommandWord.WRITE
  · simp only [executeLine, ← same.paddr, walk, ← order, reads, writes write]
  · simp only [executeLine, ← same.paddr, walk, ← order, reads, write, ↓reduceIte]

private theorem fetch_alike (shows : system.Shows system') (target : PhyAddr) (same : line.SameText line')
    (type : line.command.type = MemAccess.INSTRUCTION.stored) (granted : line.newWord ≠ none)
    (size : line.command.dataSize.toNat = sizeofWord) (size' : line'.command.dataSize.toNat ≠ sizeofWord) :
    Related (fun result result' => LineReply.SameEnd result.2 result'.2 ∧ result.1.Shows result'.1)
      (executeRead system line target) (executeRead system' line' target) := by
  have kind : MemAccess.ofStored line.command.type = some .INSTRUCTION := by
    rw [type, MemAccess.ofStored_stored]
  have kind' : MemAccess.ofStored line'.command.type = some .INSTRUCTION := by rwa [← same.command.2.1]
  obtain ⟨word, newWord⟩ := Option.ne_none_iff_exists'.mp granted
  unfold executeRead
  simp only [kind, kind', size, size', ← same.newWord, newWord, ↓reduceIte, cacheReadByte_wordLayer, bind_assoc]
  have agree : CacheCall.SameOutcomes ⟨.read .INSTRUCTION, target, line.word, line.reading⟩
      ⟨.read .INSTRUCTION, target, word, line'.reading⟩ := ⟨rfl, rfl, by simp, same.reading ▸ .refl _⟩
  have first := shows.executeCommand_outcomes agree (.inr same.reading)
  refine first.bind ?_
  rintro ⟨next, code, answer⟩ ⟨next', _, answer'⟩ ⟨rfl, _, shows⟩
  by_cases success : code = .errNone
  · simp only [success, ne_eq, not_true_eq_false, ↓reduceIte, ok_bind]
    exact .ok ⟨.wordByte _ _ Iff.rfl, shows⟩
  · simp only [success, ne_eq, not_false_eq_true, ↓reduceIte, ok_bind]
    exact .ok ⟨.wordByte _ _ (by simp [success]), shows⟩

/-- One line of a program and another one with its text. -/
theorem LineCall.SameText.executeLine (same : line.SameText line') (shows : system.Shows system')
    (accepted : checkCommand line.command = true) (granted : line.newWord ≠ none) :
    Related (fun result result' => LineReply.SameEnd result.2 result'.2 ∧ result.1.Shows result'.1)
      (KabyLake.executeLine system line) (KabyLake.executeLine system' line') := by
  obtain ⟨orders, types, _⟩ := checkCommand_iff.mp accepted
  obtain ⟨order, _, number, data⟩ := same.command
  by_cases size : line.command.dataSize.toNat = sizeofWord ↔ line'.command.dataSize.toNat = sizeofWord
  · have writes : line.command.order = CommandWord.WRITE →
        line.command.writeData = line'.command.writeData := by
      intro write
      rcases orders with ⟨read, _⟩ | ⟨_, type, _⟩
      · exact absurd (read.symm.trans write) (by decide)
      · exact (data type).2
    rw [← same.executeLine_eq size writes]
    refine (CacheSystem.Shows.congruence.executeLine shows line).mono ?_
    rintro ⟨next, reply⟩ ⟨next', _⟩ ⟨rfl, shows⟩
    exact ⟨.same reply, shows⟩
  · -- the sizes differ, so that this is a fetch
    have type : line.command.type = MemAccess.INSTRUCTION.stored := by
      refine types.resolve_right fun both => size ?_
      rw [(data both.1).1]
    have read : line.command.order = CommandWord.READ := by
      rcases orders with ⟨read, _⟩ | ⟨_, other, _⟩
      · exact read
      · exact absurd (other.symm.trans type) (by decide)
    have fetch (target : PhyAddr) :
        Related (fun result result' => LineReply.SameEnd result.2 result'.2 ∧ result.1.Shows result'.1)
          (executeRead system line target) (executeRead system' line' target) := by
      by_cases word : line.command.dataSize.toNat = sizeofWord
      · exact fetch_alike shows target same type granted word fun word' => size (iff_of_true word word')
      · have word' : line'.command.dataSize.toNat = sizeofWord := by
          by_contra byte
          exact size (iff_of_false word byte)
        have back := fetch_alike shows.symm target same.symm (same.command.2.1.symm.trans type)
          (same.newWord ▸ granted) word' word
        exact back.symm.mono fun _ _ both => ⟨both.1.symm, both.2.symm⟩
    have walk := pageWalk_number system.memSpace number line.paddr
    unfold KabyLake.executeLine
    rw [← same.paddr, ← shows.memSpace, ← walk, ← order]
    refine .bind_same rfl fun walked _ => .ite (fun _ => .ok ⟨.same _, shows⟩) fun _ => ?_
    exact .ite (fun _ => fetch _) fun other => absurd read other

end Lines

variable {program other : Program} {memSpace : MemSpace} {system : CacheSystem}
  {history : List (LineCall × LineReply)}

end KabyLake
