import Mathlib.Data.BitVec
import Mathlib.Data.List.Infix

/-! # Byte streams

Texts are lists of bytes. A stream that is read character by character is what is left of its text
together with the end-of-file indicator, which the first attempt to read beyond the end sets.
-/

namespace Stdio

abbrev Byte := BitVec 8

abbrev Text := List Byte

/-- The byte of a character of the basic character set. -/
def ascii (c : Char) : Byte := BitVec.ofNat 8 c.toNat

/-- The bytes of a string literal. -/
def literal (chars : List Char) : Text := chars.map ascii

/-- `isspace` in the "C" locale: the blank and the controls from `\t` to `\r`. -/
def isSpace (b : Byte) : Bool := b == ascii ' ' || (9 ≤ b.toNat && b.toNat ≤ 13)

/-- An input stream that is open for reading and has no read error. -/
structure Stream where
  rest : Text
  eof : Bool
deriving DecidableEq, Repr

/-- A stream just opened on a text. -/
def Stream.opened (text : Text) : Stream := ⟨text, false⟩

/-- Only blanks. -/
def Blank (text : Text) : Prop := ∀ b ∈ text, isSpace b = true

instance (text : Text) : Decidable (Blank text) := List.decidableBAll _ _

@[simp] theorem blank_nil : Blank [] := by simp [Blank]

theorem blank_cons {b : Byte} {text : Text} : Blank (b :: text) ↔ isSpace b = true ∧ Blank text := by
  simp [Blank]

theorem blank_append {text other : Text} : Blank (text ++ other) ↔ Blank text ∧ Blank other := by
  simp [Blank, or_imp, forall_and]

/-- Skipping white space passes over a blank text. -/
theorem dropWhile_blank {blanks : Text} (blank : Blank blanks) (rest : Text) :
    (blanks ++ rest).dropWhile isSpace = rest.dropWhile isSpace :=
  List.dropWhile_append_of_pos blank

/-- A run of characters of one class ends where the next character is not of the class. -/
theorem spanned {p : Byte → Bool} {run rest : Text} (inside : ∀ b ∈ run, p b = true)
    (stop : ∀ b, rest.head? = some b → p b = false) :
    (run ++ rest).takeWhile p = run ∧ (run ++ rest).dropWhile p = rest := by
  rw [List.takeWhile_append_of_pos inside, List.dropWhile_append_of_pos inside]
  cases rest with
  | nil => simp
  | cons b rest => simp [stop b rfl]

end Stdio
