import KabyLake.Stdio.Numeral

/-! # Fields that can be told apart

A printed text is a sequence of fields. A field is recoverable before what may follow it if two texts that
begin with such fields agree only where the values of the fields do, and the rests. Numerals are
recoverable before anything but a digit, and recoverable fields compose.
-/

namespace Stdio

universe u v

variable {α : Type u} {β : Type v}

/-- Texts of two values followed by anything that `ends` allows differ unless the values are the same. -/
def Recoverable (write : α → Text) (ends : Text → Prop) : Prop :=
  ∀ ⦃a b : α⦄ ⦃rest rest' : Text⦄, ends rest → ends rest' → write a ++ rest = write b ++ rest' →
    a = b ∧ rest = rest'

/-- Anything may follow. -/
def Anything (_ : Text) : Prop := True

/-- A character outside a class comes next, or nothing. -/
def Outside (class_ : Byte → Bool) (rest : Text) : Prop := ∀ b, rest.head? = some b → class_ b = false

theorem outside_cons {class_ : Byte → Bool} {b : Byte} {rest : Text} :
    Outside class_ (b :: rest) ↔ class_ b = false := by
  simp [Outside]

namespace Recoverable

variable {write : α → Text} {write' : β → Text} {ends ends' : Text → Prop}

/-- A text that anything may follow determines its value. -/
theorem injective (recoverable : Recoverable write Anything) : Function.Injective write := by
  intro a b same
  have equal : write a ++ [] = write b ++ [] := by rw [same]
  exact (recoverable trivial trivial equal).1

theorem mono (recoverable : Recoverable write ends') (implied : ∀ rest, ends rest → ends' rest) :
    Recoverable write ends :=
  fun _ _ _ _ stop stop' same => recoverable (implied _ stop) (implied _ stop') same

/-- Fields of one length. -/
theorem of_length (length : ∀ a b, (write a).length = (write b).length)
    (injective : Function.Injective write) : Recoverable write Anything := by
  intro a b rest rest' _ _ same
  obtain ⟨field, others⟩ := List.append_inj same (length a b)
  exact ⟨injective field, others⟩

/-- Fields of which none is the beginning of another one. -/
theorem of_prefixFree (apart : ∀ a b, write a <+: write b → a = b) : Recoverable write Anything := by
  intro a b rest rest' _ _ same
  have begins : write a <+: write b ++ rest' := same ▸ List.prefix_append _ _
  have value : a = b := by
    rcases List.prefix_or_prefix_of_prefix begins (List.prefix_append _ _) with first | second
    · exact apart a b first
    · exact (apart b a second).symm
  subst value
  exact ⟨rfl, List.append_cancel_left same⟩

/-- Fields of characters of one class, before any other character. -/
theorem of_class {class_ : Byte → Bool} (inside : ∀ a, ∀ b ∈ write a, class_ b = true)
    (injective : Function.Injective write) : Recoverable write (Outside class_) := by
  intro a b rest rest' stop stop' same
  have first := spanned (inside a) stop
  have second := spanned (inside b) stop'
  rw [same] at first
  exact ⟨injective (first.1.symm.trans second.1), first.2.symm.trans second.2⟩

/-- A fixed text in front. -/
theorem literal_append (recoverable : Recoverable write ends) (front : Text) :
    Recoverable (fun a => front ++ write a) ends := by
  intro a b rest rest' stop stop' same
  apply recoverable stop stop'
  rw [List.append_assoc, List.append_assoc] at same
  exact List.append_cancel_left same

/-- A fixed text behind. -/
theorem append_literal (recoverable : Recoverable write ends') {back : Text}
    (leads : ∀ rest, ends rest → ends' (back ++ rest)) : Recoverable (fun a => write a ++ back) ends := by
  intro a b rest rest' stop stop' same
  rw [List.append_assoc, List.append_assoc] at same
  obtain ⟨value, others⟩ := recoverable (leads _ stop) (leads _ stop') same
  exact ⟨value, List.append_cancel_left others⟩

/-- One field after another. -/
theorem append (first : Recoverable write ends') (second : Recoverable write' ends)
    (leads : ∀ b rest, ends rest → ends' (write' b ++ rest)) :
    Recoverable (fun pair : α × β => write pair.1 ++ write' pair.2) ends := by
  rintro ⟨a, b⟩ ⟨a', b'⟩ rest rest' stop stop' same
  simp only [List.append_assoc] at same
  obtain ⟨rfl, others⟩ := first (leads _ _ stop) (leads _ _ stop') same
  obtain ⟨rfl, rests⟩ := second stop stop' others
  exact ⟨rfl, rests⟩

theorem comp (recoverable : Recoverable write ends) {f : β → α} (injective : Function.Injective f) :
    Recoverable (fun b => write (f b)) ends := by
  intro a b rest rest' stop stop' same
  obtain ⟨value, rests⟩ := recoverable stop stop' same
  exact ⟨injective value, rests⟩

/-- Fields up to the end of a text. -/
theorem flatMap_injective (recoverable : Recoverable write Anything) (nonempty : ∀ a, write a ≠ []) :
    Function.Injective (List.flatMap write) := by
  intro as
  induction as with
  | nil =>
    intro bs same
    cases bs with
    | nil => rfl
    | cons b bs =>
      rw [List.flatMap_nil, List.flatMap_cons, eq_comm, List.append_eq_nil_iff] at same
      exact (nonempty b same.1).elim
  | cons a as ih =>
    intro bs same
    cases bs with
    | nil =>
      rw [List.flatMap_nil, List.flatMap_cons, List.append_eq_nil_iff] at same
      exact (nonempty a same.1).elim
    | cons b bs =>
      rw [List.flatMap_cons, List.flatMap_cons] at same
      obtain ⟨rfl, others⟩ := recoverable trivial trivial same
      rw [ih others]

/-- A table with one field for each index. -/
theorem table {ι : Type} {write : ι → α → Text} {indices : List ι}
    (recoverable : ∀ i ∈ indices, Recoverable (write i) Anything) {f g : ι → α} {rest rest' : Text}
    (same : indices.flatMap (fun i => write i (f i)) ++ rest =
      indices.flatMap (fun i => write i (g i)) ++ rest') :
    (∀ i ∈ indices, f i = g i) ∧ rest = rest' := by
  induction indices with
  | nil => exact ⟨by simp, same⟩
  | cons i indices ih =>
    simp only [List.flatMap_cons, List.append_assoc] at same
    obtain ⟨here, others⟩ := recoverable i (List.mem_cons_self ..) trivial trivial same
    obtain ⟨there, rests⟩ := ih (fun j member => recoverable j (List.mem_cons_of_mem _ member)) others
    exact ⟨List.forall_mem_cons.mpr ⟨here, there⟩, rests⟩

section Separated

variable {class_ : Byte → Bool} {separator close : Byte} {more : Text}

/-- What follows the first field of a list with separators and a closing character. -/
def following (write : α → Text) (separator : Byte) (more : Text) (close : Byte) : List α → Text
  | [] => [close]
  | a :: as => separator :: more ++ (write a ++ following write separator more close as)

theorem intercalate_cons (a : α) (as : List α) :
    List.intercalate (separator :: more) ((a :: as).map write) ++ [close] =
      write a ++ following write separator more close as := by
  induction as generalizing a with
  | nil => rw [List.map_singleton, List.intercalate_singleton, following]
  | cons b as ih =>
    rw [List.map_cons, List.map_cons, List.intercalate_cons_cons, ← List.map_cons, List.append_assoc, ih,
      following, List.append_assoc]

theorem outside_following (outside : class_ separator = false) (outside' : class_ close = false)
    (as : List α) (rest : Text) : Outside class_ (following write separator more close as ++ rest) := by
  cases as with
  | nil => exact outside_cons.mpr outside'
  | cons a as => exact outside_cons.mpr outside

theorem following_recoverable (recoverable : Recoverable write (Outside class_)) (apart : separator ≠ close)
    (outside : class_ separator = false) (outside' : class_ close = false) :
    Recoverable (following write separator more close) Anything := by
  intro as
  induction as with
  | nil =>
    intro bs rest rest' _ _ same
    cases bs with
    | nil => exact ⟨rfl, (List.cons.inj same).2⟩
    | cons b bs => exact (apart (List.cons.inj same).1.symm).elim
  | cons a as ih =>
    intro bs rest rest' _ _ same
    cases bs with
    | nil => exact (apart (List.cons.inj same).1).elim
    | cons b bs =>
      simp only [following, List.append_assoc] at same
      have fields := List.append_cancel_left same
      obtain ⟨rfl, others⟩ := recoverable (outside_following outside outside' as rest)
        (outside_following outside outside' bs rest') fields
      obtain ⟨rfl, rests⟩ := ih trivial trivial others
      exact ⟨rfl, rests⟩

/-- Fields of one class between separators, up to a closing character. -/
theorem intercalate (inside : ∀ a, ∀ b ∈ write a, class_ b = true) (nonempty : ∀ a, write a ≠ [])
    (injective : Function.Injective write) (apart : separator ≠ close)
    (outside : class_ separator = false) (outside' : class_ close = false) :
    Recoverable (fun as : List α => List.intercalate (separator :: more) (as.map write) ++ [close])
      Anything := by
  have recoverable := of_class inside injective
  have unlike (a : α) (others rest : Text) : write a ++ others ≠ close :: rest := by
    intro same
    obtain ⟨b, field, written⟩ := List.exists_cons_of_ne_nil (nonempty a)
    rw [written, List.cons_append] at same
    have member := inside a b (by rw [written]; exact List.mem_cons_self ..)
    rw [(List.cons.inj same).1, outside'] at member
    contradiction
  intro as bs rest rest' _ _ same
  cases as with
  | nil =>
    cases bs with
    | nil => exact ⟨rfl, (List.cons.inj same).2⟩
    | cons b bs =>
      simp only [intercalate_cons, List.append_assoc] at same
      exact (unlike b _ _ same.symm).elim
  | cons a as =>
    cases bs with
    | nil =>
      simp only [intercalate_cons, List.append_assoc] at same
      exact (unlike a _ _ same).elim
    | cons b bs =>
      simp only [intercalate_cons, List.append_assoc] at same
      obtain ⟨rfl, others⟩ := recoverable (outside_following outside outside' as rest)
        (outside_following outside outside' bs rest') same
      obtain ⟨rfl, rests⟩ := following_recoverable recoverable apart outside outside' trivial trivial others
      exact ⟨rfl, rests⟩

end Separated

end Recoverable

section Numerals

variable {base : ℕ}

theorem numeral_injective (two : 2 ≤ base) (small : base ≤ 16) : Function.Injective (numeral base) :=
  Function.LeftInverse.injective (numeralValue_numeral two small)

theorem paddedNumeral_injective (two : 2 ≤ base) (small : base ≤ 16) (width : ℕ) :
    Function.Injective (paddedNumeral base width) :=
  Function.LeftInverse.injective (numeralValue_paddedNumeral two small width)

/-- A numeral is recoverable before anything but a digit. -/
theorem numeral_recoverable (two : 2 ≤ base) (small : base ≤ 16) :
    Recoverable (numeral base) (Outside (isDigit base)) :=
  .of_class (numeral_isDigit two small) (numeral_injective two small)

theorem paddedNumeral_recoverable (two : 2 ≤ base) (small : base ≤ 16) (width : ℕ) :
    Recoverable (paddedNumeral base width) (Outside (isDigit base)) :=
  .of_class (paddedNumeral_isDigit two small width) (paddedNumeral_injective two small width)

theorem lowerNumeral_recoverable (width : ℕ) : Recoverable (lowerNumeral width) (Outside (isDigit 16)) :=
  .of_class (lowerNumeral_isDigit width) (Function.LeftInverse.injective (numeralValue_lowerNumeral width))

/-- Numbers, each behind its own label. -/
def labelled (base : ℕ) : List Text → List ℕ → Text
  | label :: labels, n :: values => label ++ (numeral base n ++ labelled base labels values)
  | _, _ => []

/-- Behind labels that do not begin with a digit numbers are told apart. -/
theorem labelled_injective (two : 2 ≤ base) (small : base ≤ 16) {labels : List Text} {values others : List ℕ}
    (length : values.length = labels.length) (length' : others.length = labels.length)
    (solid : ∀ label ∈ labels, label ≠ [] ∧ Outside (isDigit base) label)
    (same : labelled base labels values = labelled base labels others) : values = others := by
  have apart (labels : List Text) (solid : ∀ label ∈ labels, label ≠ [] ∧ Outside (isDigit base) label)
      (values : List ℕ) : Outside (isDigit base) (labelled base labels values) := by
    match labels, values with
    | [], _ | _ :: _, [] => exact fun b head => by contradiction
    | label :: labels, n :: values =>
      obtain ⟨nonempty, outside⟩ := solid label (List.mem_cons_self ..)
      obtain ⟨b, rest, rfl⟩ := List.exists_cons_of_ne_nil nonempty
      exact outside_cons.mpr (outside_cons.mp outside)
  induction labels generalizing values others with
  | nil =>
    rw [List.length_nil, List.length_eq_zero_iff] at length length'
    rw [length, length']
  | cons label labels ih =>
    obtain ⟨n, values, rfl⟩ := List.exists_cons_of_length_eq_add_one length
    obtain ⟨m, others, rfl⟩ := List.exists_cons_of_length_eq_add_one length'
    have behind := fun other member => solid other (List.mem_cons_of_mem _ member)
    obtain ⟨rfl, rest⟩ := numeral_recoverable two small (apart labels behind values)
      (apart labels behind others) (List.append_cancel_left same)
    rw [ih (Nat.succ_injective length) (Nat.succ_injective length') behind rest]

end Numerals

end Stdio
