import KabyLake.Math.LittleEndian
import KabyLake.Model.Error

/-! # The simulated memory

`mem_space` is an allocation of `size` bytes. The C code reaches it by pointer arithmetic, one
32-bit word at a time in the page walk and one 16-byte line at a time in the caches; an access
that is not inside the allocation faults.
-/

namespace KabyLake

/-- `word_t line[4]`. -/
abbrev Line := Vector (BitVec 32) 4

namespace Line

/-- `line[k]`; the index of a word in its line is always below four. -/
def word (words : Line) (k : ℕ) : BitVec 32 := words[k]?.getD 0

/-- `line[k] = w`. -/
def setWord (line : Line) (k : ℕ) (w : BitVec 32) : Line := line.setIfInBounds k w

/-- Byte `k` of the sixteen bytes of a line. -/
def byte (line : Line) (k : ℕ) : BitVec 8 := LittleEndian.byte (line.word (k / 4)) (k % 4)

theorem word_eq_getElem (words : Line) (k : ℕ) (bound : k < 4) : words.word k = words[k] := by
  simp [word, bound]

theorem word_setWord (line : Line) (k j : ℕ) (w : BitVec 32) (bound : j < 4) :
    (line.setWord k w).word j = if k = j then w else line.word j := by
  rw [word_eq_getElem _ _ bound, word_eq_getElem _ _ bound, setWord, Vector.getElem_setIfInBounds]

theorem ext_word {line other : Line} (same : ∀ k < 4, line.word k = other.word k) :
    line = other := by
  apply Vector.ext
  intro k bound
  rw [← word_eq_getElem, ← word_eq_getElem, same k bound]

end Line

/-- The bytes behind the pointer `mem_space`. -/
structure MemSpace where
  size : ℕ
  byte : ℕ → BitVec 8

namespace MemSpace

/-- The little-endian word at byte address `a`. -/
def word (mem : MemSpace) (a : ℕ) : BitVec 32 := LittleEndian.word mem.byte a

/-- The four words of the sixteen bytes at `a`. -/
def line (mem : MemSpace) (a : ℕ) : Line := Vector.ofFn fun k : Fin 4 => mem.word (a + 4 * k.val)

/-- Replace the sixteen bytes at `a`. -/
def putLine (mem : MemSpace) (a : ℕ) (line : Line) : MemSpace where
  size := mem.size
  byte x := if a ≤ x ∧ x < a + 16 then line.byte (x - a) else mem.byte x

/-- `start[a / 4]` for a `const pte_t * start` at the beginning of the memory. -/
def readWord (mem : MemSpace) (a : ℕ) : Exec (BitVec 32) :=
  if a + 4 ≤ mem.size then .ok (mem.word a) else .error .memoryBounds

/-- `memcpy(line, mem_space + a, 4 * sizeof(word_t))`. -/
def readLine (mem : MemSpace) (a : ℕ) : Exec Line :=
  if a + 16 ≤ mem.size then .ok (mem.line a) else .error .memoryBounds

/-- `memcpy(mem_space + a, line, 4 * sizeof(word_t))`. -/
def writeLine (mem : MemSpace) (a : ℕ) (line : Line) : Exec MemSpace :=
  if a + 16 ≤ mem.size then .ok (mem.putLine a line) else .error .memoryBounds

variable {mem : MemSpace} {a b : ℕ} {content : Line}

theorem readLine_ok (inside : a + 16 ≤ mem.size) : mem.readLine a = .ok (mem.line a) := if_pos inside

theorem writeLine_ok (inside : a + 16 ≤ mem.size) :
    mem.writeLine a content = .ok (mem.putLine a content) := if_pos inside

@[simp] theorem size_putLine : (mem.putLine a content).size = mem.size := rfl

theorem word_line (k : ℕ) (bound : k < 4) : (mem.line a).word k = mem.word (a + 4 * k) := by
  rw [Line.word_eq_getElem _ _ bound, line, Vector.getElem_ofFn]

/-- Byte `k` of a line is the byte of memory it was read from. -/
theorem byte_line (k : ℕ) (bound : k < 16) : (mem.line a).byte k = mem.byte (a + k) := by
  rw [Line.byte, word_line _ (by omega), word, LittleEndian.byte_word _ (by omega),
    show a + 4 * (k / 4) + k % 4 = a + k by omega]

theorem word_congr {other : MemSpace} (same : ∀ k < 4, mem.byte (a + k) = other.byte (b + k)) :
    mem.word a = other.word b := LittleEndian.word_congr same

/-- Word `k` of a line is what the memory holds there after the line was copied to it. -/
theorem word_putLine_inside (k : ℕ) (bound : k < 4) :
    (mem.putLine a content).word (a + 4 * k) = content.word k := by
  apply LittleEndian.word_eq_of_bytes
  intro j small
  simp only [putLine]
  rw [if_pos (by omega), show a + 4 * k + j - a = 4 * k + j by omega, Line.byte,
    show (4 * k + j) / 4 = k by omega, show (4 * k + j) % 4 = j by omega]

/-- A word that does not overlap the copied line keeps its value. -/
theorem word_putLine_outside (apart : b + 4 ≤ a ∨ a + 16 ≤ b) :
    (mem.putLine a content).word b = mem.word b := by
  apply LittleEndian.word_congr
  intro j small
  simp only [putLine]
  rw [if_neg (by omega)]

theorem line_putLine_self : (mem.putLine a content).line a = content := by
  apply Line.ext_word
  intro k bound
  rw [word_line k bound, word_putLine_inside k bound]

theorem line_putLine_outside (apart : b + 16 ≤ a ∨ a + 16 ≤ b) :
    (mem.putLine a content).line b = mem.line b := by
  apply Line.ext_word
  intro k bound
  rw [word_line k bound, word_line k bound, word_putLine_outside (by omega)]

/-- Copying back the line of memory with one word replaced replaces exactly that word's bytes. -/
theorem byte_putLine_setWord (k : ℕ) (bound : k < 4) (w : BitVec 32) (x : ℕ) :
    (mem.putLine a ((mem.line a).setWord k w)).byte x =
      if a + 4 * k ≤ x ∧ x < a + 4 * k + 4 then LittleEndian.byte w (x - (a + 4 * k))
      else mem.byte x := by
  simp only [putLine]
  by_cases inLine : a ≤ x ∧ x < a + 16
  · rw [if_pos inLine, Line.byte, Line.word_setWord _ _ _ _ (by omega)]
    by_cases inWord : a + 4 * k ≤ x ∧ x < a + 4 * k + 4
    · rw [if_pos (by omega), if_pos inWord, show (x - a) % 4 = x - (a + 4 * k) by omega]
    · rw [if_neg (by omega), if_neg inWord, ← Line.byte, byte_line _ (by omega),
        show a + (x - a) = x by omega]
  · rw [if_neg inLine, if_neg (by omega)]

end MemSpace

end KabyLake
