import Mathlib.Data.Nat.Digits.Lemmas
import KabyLake.Stdio.Stream

/-! # Numerals of the formatted input and output functions

`printf` writes a number as a numeral, and `scanf` reads the longest beginning of its input that can
be continued to a numeral: an optional sign, for base 16 an optional marker `0x`, and digits. A
numeral that is written reads back as its number, padded with zeros or not.
-/

namespace Stdio

/-- The value of a digit; any other character has a value that is no digit's in any base. -/
def digitValue (b : Byte) : ℕ :=
  if 48 ≤ b.toNat ∧ b.toNat ≤ 57 then b.toNat - 48
  else if 65 ≤ b.toNat ∧ b.toNat ≤ 70 then b.toNat - 55
  else if 97 ≤ b.toNat ∧ b.toNat ≤ 102 then b.toNat - 87
  else 16

/-- The upper-case digits. -/
def digitChar (d : ℕ) : Byte := BitVec.ofNat 8 (if d < 10 then 48 + d else 55 + d)

def isDigit (base : ℕ) (b : Byte) : Bool := digitValue b < base

/-- The number that a sequence of digits denotes, most significant digit first. -/
def numeralValue (base : ℕ) (digits : Text) : ℕ :=
  digits.foldl (fun value b => value * base + digitValue b) 0

/-- The numeral that `printf` writes: no leading zeros, and `0` for zero. -/
def numeral (base n : ℕ) : Text :=
  if n = 0 then [digitChar 0] else ((Nat.digits base n).map digitChar).reverse

/-- The numeral padded with zeros on the left, as by the flag `0` and a field width. -/
def paddedNumeral (base width n : ℕ) : Text := (numeral base n).leftpad width (digitChar 0)

section Value

variable {base : ℕ}

@[simp] theorem digitValue_digitChar {d : ℕ} (small : d < 16) : digitValue (digitChar d) = d := by
  revert d
  decide

theorem isDigit_digitChar {d : ℕ} (bound : d < base) (small : base ≤ 16) :
    isDigit base (digitChar d) = true := by
  rw [isDigit, digitValue_digitChar (by omega), decide_eq_true_eq]
  exact bound

private theorem foldl_value (digits : Text) (start : ℕ) :
    digits.foldl (fun value b => value * base + digitValue b) start =
      start * base ^ digits.length + numeralValue base digits := by
  induction digits generalizing start with
  | nil => simp [numeralValue]
  | cons b rest ih =>
    rw [numeralValue, List.foldl_cons, List.foldl_cons, ih, ih (0 * base + digitValue b),
      List.length_cons, Nat.pow_succ]
    ring

theorem numeralValue_append (digits other : Text) :
    numeralValue base (digits ++ other) =
      numeralValue base digits * base ^ other.length + numeralValue base other := by
  rw [numeralValue, List.foldl_append, foldl_value]
  rfl

/-- Leading zeros do not count. -/
theorem numeralValue_zeros (count : ℕ) (digits : Text) :
    numeralValue base (List.replicate count (digitChar 0) ++ digits) = numeralValue base digits := by
  have zeros : numeralValue base (List.replicate count (digitChar 0)) = 0 := by
    induction count with
    | zero => rfl
    | succ count ih =>
      rw [List.replicate_succ', numeralValue_append, ih]
      simp [numeralValue]
  rw [numeralValue_append, zeros, Nat.zero_mul, Nat.zero_add]

private theorem numeralValue_digits {ds : List ℕ} (small : ∀ d ∈ ds, d < 16) :
    numeralValue base (ds.map digitChar).reverse = Nat.ofDigits base ds := by
  induction ds with
  | nil => rfl
  | cons d rest ih =>
    have first : d < 16 := small d (List.mem_cons_self ..)
    have others := ih fun e member => small e (List.mem_cons_of_mem _ member)
    rw [List.map_cons, List.reverse_cons, numeralValue_append, others, Nat.ofDigits_cons]
    simp only [numeralValue, List.length_singleton, pow_one, List.foldl_cons, List.foldl_nil,
      Nat.zero_mul, Nat.zero_add, digitValue_digitChar first]
    ring

/-- A written numeral denotes its number. -/
theorem numeralValue_numeral (two : 2 ≤ base) (small : base ≤ 16) (n : ℕ) :
    numeralValue base (numeral base n) = n := by
  rcases eq_or_ne n 0 with rfl | positive
  · simp [numeral, numeralValue]
  · have bounded : ∀ d ∈ Nat.digits base n, d < 16 := fun d member =>
      lt_of_lt_of_le (Nat.digits_lt_base two member) small
    rw [numeral, if_neg positive, numeralValue_digits bounded, Nat.ofDigits_digits]

theorem numeral_isDigit (two : 2 ≤ base) (small : base ≤ 16) (n : ℕ) :
    ∀ b ∈ numeral base n, isDigit base b = true := by
  intro b member
  rw [numeral] at member
  split at member
  · obtain rfl := List.mem_singleton.mp member
    exact isDigit_digitChar (by omega) small
  · rw [List.mem_reverse, List.mem_map] at member
    obtain ⟨d, digit, rfl⟩ := member
    exact isDigit_digitChar (Nat.digits_lt_base two digit) small

theorem numeral_ne_nil (base n : ℕ) : numeral base n ≠ [] := by
  rw [numeral]
  split
  · exact List.cons_ne_nil _ _
  · next positive => simp [Nat.digits_eq_nil_iff_eq_zero, positive]

theorem numeralValue_paddedNumeral (two : 2 ≤ base) (small : base ≤ 16) (width n : ℕ) :
    numeralValue base (paddedNumeral base width n) = n := by
  rw [paddedNumeral, List.leftpad, numeralValue_zeros, numeralValue_numeral two small]

theorem paddedNumeral_isDigit (two : 2 ≤ base) (small : base ≤ 16) (width n : ℕ) :
    ∀ b ∈ paddedNumeral base width n, isDigit base b = true := by
  intro b member
  rcases List.mem_append.mp member with zero | digit
  · rw [List.eq_of_mem_replicate zero]
    exact isDigit_digitChar (by omega) small
  · exact numeral_isDigit two small n b digit

theorem paddedNumeral_ne_nil (base width n : ℕ) : paddedNumeral base width n ≠ [] := by
  simp [paddedNumeral, List.leftpad, numeral_ne_nil]

end Value

/-- The sign in front of a numeral and what follows it; `true` stands for a minus sign. -/
def scanSign (text : Text) : Bool × Text :=
  match text with
  | [] => (false, [])
  | b :: rest =>
    if b = ascii '-' then (true, rest)
    else if b = ascii '+' then (false, rest)
    else (false, text)

/-- What follows the marker of a hexadecimal numeral. -/
def scanMarker (text : Text) : Text :=
  match text with
  | zero :: x :: rest => if zero = ascii '0' ∧ (x = ascii 'x' ∨ x = ascii 'X') then rest else text
  | _ => text

/-- The sign and the value of the longest beginning of the text that can be continued to a numeral,
unless it lacks digits, and what follows it. -/
def scanNumeral (base : ℕ) (text : Text) : Option (Bool × ℕ) × Text :=
  let (negative, text) := scanSign text
  let text := if base = 16 then scanMarker text else text
  let digits := text.takeWhile (isDigit base)
  (if digits = [] then none else some (negative, numeralValue base digits),
    text.dropWhile (isDigit base))

/-- One numeral conversion of `fscanf`, with an optional field width. The end of the text is seen
unless the field is used up before it. -/
def fscanfNumeral (base : ℕ) (width : Option ℕ) (stream : Stream) :
    Option (Bool × ℕ) × Stream :=
  let text := stream.rest.dropWhile isSpace
  let field := match width with
    | none => text
    | some w => text.take w
  let (number, rest) := scanNumeral base field
  let short := match width with
    | none => true
    | some w => decide (field.length < w)
  (number, ⟨rest ++ text.drop field.length, stream.eof || rest.isEmpty && short⟩)

/-- What a conversion stores when its object cannot represent the number; the C standard leaves
this open. -/
abbrev Overflow := (width : ℕ) → Bool → ℕ → BitVec width

/-- The object of `width` bits after the conversion of a number; a minus sign negates in the type
of the object. -/
def convert (overflow : Overflow) (width : ℕ) (negative : Bool) (n : ℕ) : BitVec width :=
  if n < 2 ^ width then
    if negative then -BitVec.ofNat width n else BitVec.ofNat width n
  else overflow width negative n

/-- The marker of a hexadecimal numeral, which may be left out. -/
def Marker (base : ℕ) (text : Text) : Prop :=
  text = [] ∨ base = 16 ∧ (text = [ascii '0', ascii 'x'] ∨ text = [ascii '0', ascii 'X'])

/-- The text is an unsigned numeral for `n`. -/
def Denotes (base : ℕ) (text : Text) (n : ℕ) : Prop :=
  ∃ marker digits, Marker base marker ∧ text = marker ++ digits ∧ digits ≠ [] ∧
    (∀ b ∈ digits, isDigit base b = true) ∧ numeralValue base digits = n

/-- Nothing, or a blank comes next. -/
def Boundary (rest : Text) : Prop := ∀ b, rest.head? = some b → isSpace b = true

theorem scanSign_suffix (text : Text) : (scanSign text).2 <:+ text := by
  cases text with
  | nil => exact List.suffix_rfl
  | cons b rest =>
    simp only [scanSign]
    split_ifs
    · exact List.suffix_cons b rest
    · exact List.suffix_cons b rest
    · exact List.suffix_rfl

theorem scanMarker_suffix (text : Text) : scanMarker text <:+ text := by
  simp only [scanMarker]
  split
  · split_ifs
    · exact (List.suffix_cons _ _).trans (List.suffix_cons _ _)
    · exact List.suffix_rfl
  · exact List.suffix_rfl

theorem scanNumeral_suffix (base : ℕ) (text : Text) : (scanNumeral base text).2 <:+ text := by
  apply (List.dropWhile_suffix (isDigit base)).trans
  split
  · exact (scanMarker_suffix _).trans (scanSign_suffix text)
  · exact scanSign_suffix text

/-- A conversion consumes a beginning of what is left of the stream. -/
theorem fscanfNumeral_suffix (base : ℕ) (width : Option ℕ) (stream : Stream) :
    (fscanfNumeral base width stream).2.rest <:+ stream.rest := by
  refine List.IsSuffix.trans ?_ (List.dropWhile_suffix isSpace)
  simp only [fscanfNumeral]
  generalize stream.rest.dropWhile isSpace = text
  obtain ⟨field, split, shape⟩ : ∃ field, field ++ text.drop field.length = text ∧
      (match width with
        | none => text
        | some w => text.take w) = field := by
    cases width with
    | none => exact ⟨text, by simp, rfl⟩
    | some w =>
      refine ⟨text.take w, ?_, rfl⟩
      rcases Nat.le_total w text.length with short | long
      · rw [List.length_take_of_le short, List.take_append_drop]
      · rw [List.take_of_length_le long, List.drop_length, List.append_nil]
  rw [shape]
  obtain ⟨item, consumed⟩ := scanNumeral_suffix base field
  refine ⟨item, ?_⟩
  rw [← List.append_assoc, consumed, split]

section Scan

variable {base : ℕ}

theorem boundary_cons {b : Byte} {rest : Text} : Boundary (b :: rest) ↔ isSpace b = true := by
  simp [Boundary]

theorem digit_bounds {b : Byte} (small : base ≤ 16) (digit : isDigit base b = true) :
    (48 ≤ b.toNat ∧ b.toNat ≤ 57) ∨ (65 ≤ b.toNat ∧ b.toNat ≤ 70) ∨
      (97 ≤ b.toNat ∧ b.toNat ≤ 102) := by
  rw [isDigit, decide_eq_true_eq, digitValue] at digit
  split_ifs at digit <;> omega

theorem space_bounds {b : Byte} (space : isSpace b = true) : b.toNat ≤ 32 := by
  simp only [isSpace, Bool.or_eq_true, beq_iff_eq, Bool.and_eq_true, decide_eq_true_eq] at space
  rcases space with rfl | ⟨_, high⟩
  · decide
  · omega

private theorem digit_ne {b : Byte} {c : Char} (small : base ≤ 16) (digit : isDigit base b = true)
    (other : isDigit 16 (ascii c) = false) : b ≠ ascii c := by
  rintro rfl
  rw [isDigit, decide_eq_true_eq] at digit
  rw [isDigit, decide_eq_false_iff_not] at other
  omega

theorem isDigit_of_space {b : Byte} (small : base ≤ 16) (space : isSpace b = true) :
    isDigit base b = false := by
  rw [← Bool.not_eq_true]
  intro digit
  have low := space_bounds space
  have high := digit_bounds small digit
  omega

private theorem scanSign_of_ne {b : Byte} {rest : Text} (minus : b ≠ ascii '-')
    (plus : b ≠ ascii '+') : scanSign (b :: rest) = (false, b :: rest) := by
  simp only [scanSign, minus, plus, ↓reduceIte]

/-- Digits that end at a boundary are not mistaken for a marker. -/
private theorem scanMarker_digits {digits rest : Text} (small : base ≤ 16)
    (inside : ∀ b ∈ digits, isDigit base b = true) (nonempty : digits ≠ []) (boundary : Boundary rest) :
    scanMarker (digits ++ rest) = digits ++ rest := by
  have plain {x : Byte} (digit : isDigit base x = true ∨ isSpace x = true) :
      ¬ (x = ascii 'x' ∨ x = ascii 'X') := by
    rcases digit with digit | space
    · rintro (marker | marker)
      · exact digit_ne small digit (by decide) marker
      · exact digit_ne small digit (by decide) marker
    · have low := space_bounds space
      rintro (rfl | rfl)
      · exact absurd low (by decide)
      · exact absurd low (by decide)
  match digits, nonempty with
  | [d], _ =>
    cases rest with
    | nil => rfl
    | cons x rest =>
      simp only [List.cons_append, List.nil_append, scanMarker,
        plain (.inr (boundary_cons.mp boundary)), and_false, ↓reduceIte]
  | d :: x :: digits, _ =>
    simp only [List.cons_append, scanMarker, plain (.inl (inside x (by simp))), and_false, ↓reduceIte]

/-- A numeral before a boundary is scanned as a whole. -/
theorem scanNumeral_of_denotes {text rest : Text} {n : ℕ} (small : base ≤ 16)
    (denotes : Denotes base text n) (boundary : Boundary rest) :
    scanNumeral base (text ++ rest) = (some (false, n), rest) := by
  obtain ⟨marker, digits, marked, rfl, nonempty, inside, value⟩ := denotes
  obtain ⟨taken, left⟩ :=
    spanned inside fun b head => isDigit_of_space small (boundary b head)
  rcases marked with rfl | ⟨rfl, marked⟩
  · -- without a marker the first digit is neither a sign nor the beginning of a marker
    have unsigned : scanSign (digits ++ rest) = (false, digits ++ rest) := by
      obtain ⟨d, others, rfl⟩ := List.exists_cons_of_ne_nil nonempty
      have digit := inside d (List.mem_cons_self ..)
      exact scanSign_of_ne (digit_ne small digit (by decide)) (digit_ne small digit (by decide))
    have unmarked := scanMarker_digits small inside nonempty boundary
    simp only [scanNumeral, List.nil_append, unsigned, unmarked, ite_self, taken, left, nonempty,
      ↓reduceIte, value]
  · have skipped : scanMarker (scanSign (marker ++ digits ++ rest)).2 = digits ++ rest ∧
        (scanSign (marker ++ digits ++ rest)).1 = false := by
      rcases marked with rfl | rfl
      · exact ⟨rfl, rfl⟩
      · exact ⟨rfl, rfl⟩
    simp only [scanNumeral, skipped, ↓reduceIte, taken, left, nonempty, value]

theorem denotes_ne_nil {text : Text} {n : ℕ} (denotes : Denotes base text n) : text ≠ [] := by
  obtain ⟨marker, digits, _, rfl, nonempty, _⟩ := denotes
  simp [nonempty]

/-- The characters of a numeral. -/
theorem denotes_bounds {text : Text} {n : ℕ} (small : base ≤ 16) (denotes : Denotes base text n) :
    ∀ b ∈ text, 48 ≤ b.toNat ∧ b.toNat ≤ 120 := by
  obtain ⟨marker, digits, marked, rfl, _, inside, _⟩ := denotes
  intro b member
  rcases List.mem_append.mp member with mark | digit
  · rcases marked with rfl | ⟨_, rfl | rfl⟩
    · contradiction
    · have bounds : ∀ b ∈ [ascii '0', ascii 'x'], 48 ≤ b.toNat ∧ b.toNat ≤ 120 := by decide
      exact bounds b mark
    · have bounds : ∀ b ∈ [ascii '0', ascii 'X'], 48 ≤ b.toNat ∧ b.toNat ≤ 120 := by decide
      exact bounds b mark
  · have := digit_bounds small (inside b digit)
    omega

theorem fscanfNumeral_of_denotes {text rest blanks : Text} {n : ℕ} {eof : Bool} (small : base ≤ 16)
    (blank : Blank blanks) (denotes : Denotes base text n) (boundary : Boundary rest) :
    fscanfNumeral base none ⟨blanks ++ (text ++ rest), eof⟩ =
      (some (false, n), ⟨rest, eof || rest.isEmpty⟩) := by
  have here : (text ++ rest).dropWhile isSpace = text ++ rest := by
    obtain ⟨b, others, rfl⟩ := List.exists_cons_of_ne_nil (denotes_ne_nil denotes)
    have high := (denotes_bounds small denotes b (List.mem_cons_self ..)).1
    have solid : isSpace b = false := by
      rw [← Bool.not_eq_true]
      intro space
      have := space_bounds space
      omega
    simp [solid]
  simp only [fscanfNumeral, dropWhile_blank blank, here, scanNumeral_of_denotes small denotes boundary,
    List.drop_length, List.append_nil, Bool.and_true]

end Scan

/-- What `printf` writes with the marker in front is a numeral. -/
theorem denotes_numeral (n : ℕ) : Denotes 16 (ascii '0' :: ascii 'x' :: numeral 16 n) n :=
  ⟨[ascii '0', ascii 'x'], numeral 16 n, .inr ⟨rfl, .inl rfl⟩, rfl, numeral_ne_nil 16 n,
    numeral_isDigit (by decide) (by decide) n, numeralValue_numeral (by decide) (by decide) n⟩

theorem denotes_paddedNumeral (width n : ℕ) :
    Denotes 16 (ascii '0' :: ascii 'x' :: paddedNumeral 16 width n) n :=
  ⟨[ascii '0', ascii 'x'], paddedNumeral 16 width n, .inr ⟨rfl, .inl rfl⟩, rfl,
    paddedNumeral_ne_nil 16 width n, paddedNumeral_isDigit (by decide) (by decide) width n,
    numeralValue_paddedNumeral (by decide) (by decide) width n⟩

/-- The lower-case letter of an upper-case one. -/
def lowerCase (b : Byte) : Byte := if 65 ≤ b.toNat ∧ b.toNat ≤ 90 then b + 32 else b

/-- The hexadecimal numeral in lower case, padded with zeros. -/
def lowerNumeral (width n : ℕ) : Text := (paddedNumeral 16 width n).map lowerCase

section LowerCase

theorem digitValue_lowerCase {b : Byte} (digit : isDigit 16 b = true) :
    digitValue (lowerCase b) = digitValue b := by
  revert b
  decide

theorem lowerNumeral_isDigit (width n : ℕ) : ∀ b ∈ lowerNumeral width n, isDigit 16 b = true := by
  intro b member
  obtain ⟨digit, written, rfl⟩ := List.mem_map.mp member
  have upper := paddedNumeral_isDigit (by decide) (by decide) width n digit written
  rw [isDigit, digitValue_lowerCase upper]
  exact upper

/-- The case of the digits does not count. -/
theorem numeralValue_lowerNumeral (width n : ℕ) : numeralValue 16 (lowerNumeral width n) = n := by
  have same (digits : Text) (all : ∀ b ∈ digits, isDigit 16 b = true) :
      numeralValue 16 (digits.map lowerCase) = numeralValue 16 digits := by
    induction digits using List.reverseRecOn with
    | nil => rfl
    | append_singleton digits b ih =>
      have last : numeralValue 16 [lowerCase b] = numeralValue 16 [b] := by
        simp only [numeralValue, List.foldl_cons, List.foldl_nil,
          digitValue_lowerCase (all b (by simp))]
      rw [List.map_append, List.map_singleton, numeralValue_append, numeralValue_append, last,
        ih fun c member => all c (List.mem_append_left _ member)]
      rfl
  rw [lowerNumeral, same _ (paddedNumeral_isDigit (by decide) (by decide) width n),
    numeralValue_paddedNumeral (by decide) (by decide)]

end LowerCase

end Stdio
