import Mathlib.Data.List.TakeWhile
import KabyLake.Stdio.Numeral

/-! # Lines and their fields

`getline` cuts a text into lines, and `sscanf` reads numerals and words from one line. A line that
consists of fields separated by blanks gives its fields back.
-/

namespace Stdio

/-- The lines that successive calls of `getline` return, each with its newline. -/
def lines : Text → List Text
  | [] => []
  | b :: rest =>
    if b = ascii '\n' then [b] :: lines rest
    else match lines rest with
      | [] => [[b]]
      | line :: others => (b :: line) :: others

/-- The string in a buffer: what stands before its first zero. -/
def cString (buffer : Text) : Text := buffer.takeWhile (· ≠ 0)

/-- One conversion `%s`. -/
def fscanfString (stream : Stream) : Option Text × Stream :=
  let text := stream.rest.dropWhile isSpace
  let word := text.takeWhile (!isSpace ·)
  let rest := text.dropWhile (!isSpace ·)
  (if word = [] then none else some word, ⟨rest, stream.eof || rest.isEmpty⟩)

/-- The signed object of `width` bits after the conversion of a number. -/
def convertSigned (overflow : Overflow) (width : ℕ) (negative : Bool) (n : ℕ) : BitVec width :=
  if negative then
    if n ≤ 2 ^ (width - 1) then -BitVec.ofNat width n else overflow width negative n
  else
    if n < 2 ^ (width - 1) then BitVec.ofNat width n else overflow width negative n

/-- Characters that `%s` reads together. -/
def Word (text : Text) : Prop := text ≠ [] ∧ ∀ b ∈ text, isSpace b = false ∧ b ≠ 0

instance (text : Text) : Decidable (Word text) :=
  inferInstanceAs (Decidable (text ≠ [] ∧ ∀ b ∈ text, isSpace b = false ∧ b ≠ 0))

/-- A line with one numeral. -/
def NumberLine (base : ℕ) (line : Text) (n : ℕ) : Prop :=
  ∃ blanks numeral rest, line = blanks ++ (numeral ++ rest) ∧ Blank blanks ∧
    Denotes base numeral n ∧ Blank rest

/-- A line with one word. -/
def WordLine (line word : Text) : Prop :=
  ∃ blanks rest, line = blanks ++ (word ++ rest) ∧ Blank blanks ∧ Word word ∧ Blank rest

/-- A line with a numeral and a word. -/
def NumberWordLine (base : ℕ) (line : Text) (n : ℕ) (word : Text) : Prop :=
  ∃ numeral gap, gap ≠ [] ∧ Blank gap ∧ Denotes base numeral n ∧ Word word ∧
    ∃ blanks rest, line = blanks ++ (numeral ++ (gap ++ (word ++ rest))) ∧ Blank blanks ∧ Blank rest

/-- A line that begins with the marker of a hexadecimal numeral. -/
def MarkedLine (line : Text) : Prop :=
  ∃ blanks x rest, line = blanks ++ (ascii '0' :: x :: rest) ∧ Blank blanks ∧
    (x = ascii 'x' ∨ x = ascii 'X')

variable {base n : ℕ} {line word rest blanks : Text} {eof : Bool}

theorem Blank.boundary (blank : Blank rest) : Boundary rest := by
  intro b head
  exact blank b (List.mem_of_mem_head? head)

theorem Blank.nonzero (blank : Blank rest) : ∀ b ∈ rest, b ≠ 0 := by
  rintro b member rfl
  exact absurd (blank 0 member) (by decide)

theorem Denotes.nonzero {numeral : Text} (small : base ≤ 16) (denotes : Denotes base numeral n) :
    ∀ b ∈ numeral, b ≠ 0 := by
  rintro b member rfl
  have bounds := denotes_bounds small denotes 0 member
  exact absurd bounds.1 (by decide)

/-- A text without zeros is the string in its buffer. -/
theorem cString_eq (nonzero : ∀ b ∈ line, b ≠ 0) : cString line = line := by
  rw [cString, List.takeWhile_eq_self_iff]
  intro b member
  exact decide_eq_true (nonzero b member)

/-- A word before a boundary is read as a whole. -/
theorem fscanfString_of_word (blank : Blank blanks) (solid : Word word) (boundary : Boundary rest) :
    fscanfString ⟨blanks ++ (word ++ rest), eof⟩ = (some word, ⟨rest, eof || rest.isEmpty⟩) := by
  have here : (word ++ rest).dropWhile isSpace = word ++ rest := by
    obtain ⟨b, others, rfl⟩ := List.exists_cons_of_ne_nil solid.1
    simp [(solid.2 b (List.mem_cons_self ..)).1]
  have inside : ∀ b ∈ word, (!isSpace b) = true := fun b member => by simp [(solid.2 b member).1]
  have stop : ∀ b, rest.head? = some b → (!isSpace b) = false := fun b head => by simp [boundary b head]
  obtain ⟨taken, left⟩ := spanned inside stop
  simp only [fscanfString, dropWhile_blank blank, here, taken, left, solid.1, ↓reduceIte]

theorem NumberLine.cString_eq (small : base ≤ 16) (shape : NumberLine base line n) :
    cString line = line := by
  obtain ⟨blanks, numeral, rest, rfl, blank, denotes, ending⟩ := shape
  apply Stdio.cString_eq
  simp only [List.forall_mem_append]
  exact ⟨blank.nonzero, denotes.nonzero small, ending.nonzero⟩

theorem NumberLine.fscanfNumeral (small : base ≤ 16) (shape : NumberLine base line n) :
    (fscanfNumeral base none (.opened line)).1 = some (false, n) := by
  obtain ⟨blanks, numeral, rest, rfl, blank, denotes, ending⟩ := shape
  rw [Stream.opened, fscanfNumeral_of_denotes small blank denotes ending.boundary]

theorem WordLine.cString_eq (shape : WordLine line word) : cString line = line := by
  obtain ⟨blanks, rest, rfl, blank, solid, ending⟩ := shape
  apply Stdio.cString_eq
  simp only [List.forall_mem_append]
  exact ⟨blank.nonzero, fun b member => (solid.2 b member).2, ending.nonzero⟩

theorem WordLine.fscanfString (shape : WordLine line word) :
    (fscanfString (.opened line)).1 = some word := by
  obtain ⟨blanks, rest, rfl, blank, solid, ending⟩ := shape
  rw [Stream.opened, fscanfString_of_word blank solid ending.boundary]

theorem NumberWordLine.cString_eq (small : base ≤ 16) (shape : NumberWordLine base line n word) :
    cString line = line := by
  obtain ⟨numeral, gap, _, separates, denotes, solid, blanks, rest, rfl, blank, ending⟩ := shape
  apply Stdio.cString_eq
  simp only [List.forall_mem_append]
  exact ⟨blank.nonzero, denotes.nonzero small, separates.nonzero,
    fun b member => (solid.2 b member).2, ending.nonzero⟩

/-- The numeral is read first, and the word from what it leaves. -/
theorem NumberWordLine.scanned (small : base ≤ 16) (shape : NumberWordLine base line n word) :
    ∃ stream, fscanfNumeral base none (.opened line) = (some (false, n), stream) ∧
      (Stdio.fscanfString stream).1 = some word := by
  obtain ⟨numeral, gap, apart, separates, denotes, solid, blanks, rest, rfl, blank, ending⟩ := shape
  have boundary : Boundary (gap ++ (word ++ rest)) := by
    obtain ⟨b, others, rfl⟩ := List.exists_cons_of_ne_nil apart
    exact boundary_cons.mpr (separates b (List.mem_cons_self ..))
  refine ⟨_, fscanfNumeral_of_denotes small blank denotes boundary, ?_⟩
  rw [fscanfString_of_word separates solid ending.boundary]

/-- Of a marked numeral a decimal conversion reads the zero, and the letter begins the next word. -/
theorem MarkedLine.scanned (marked : MarkedLine line) :
    ∃ stream x word, fscanfNumeral 10 none (.opened line) = (some (false, 0), stream) ∧
      (x = ascii 'x' ∨ x = ascii 'X') ∧ (Stdio.fscanfString stream).1 = some (x :: word) := by
  obtain ⟨blanks, x, rest, rfl, blank, letter⟩ := marked
  have here : (ascii '0' :: x :: rest).dropWhile isSpace = ascii '0' :: x :: rest := rfl
  have zero : scanNumeral 10 (ascii '0' :: x :: rest) = (some (false, 0), x :: rest) := by
    rcases letter with rfl | rfl
    · rfl
    · rfl
  refine ⟨⟨x :: rest, false⟩, x, rest.takeWhile (!isSpace ·), ?_, letter, ?_⟩
  · simp only [fscanfNumeral, Stream.opened, dropWhile_blank blank, here, zero, List.drop_length,
      List.append_nil, List.isEmpty_cons, Bool.false_and, Bool.or_self]
  · rcases letter with rfl | rfl
    · rfl
    · rfl

theorem convertSigned_of_lt {width : ℕ} (overflow : Overflow) (small : n < 2 ^ (width - 1)) :
    convertSigned overflow width false n = BitVec.ofNat width n := by
  simp only [convertSigned, Bool.false_eq_true, ↓reduceIte, small]

theorem convert_of_lt {width : ℕ} (overflow : Overflow) (small : n < 2 ^ width) :
    convert overflow width false n = BitVec.ofNat width n := by
  simp only [convert, Bool.false_eq_true, ↓reduceIte, small]

end Stdio
