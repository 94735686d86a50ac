import KabyLake.Proofs.MemoryDescription

/-! # What the loader of a memory description gives back

The format of a description is the one in `memory.h`. The loader never assigns the capacity, and it
reads the offsets of the translation pages in decimal, which are given in hexadecimal. Where both
make no difference, the memory is the described one.
-/

namespace KabyLake

open Machine Stdio

structure Description where
  size : ℕ
  pgd : Text
  translation : List (ℕ × Text)
  data : List (ℕ × Text)

/-- The lines are those of a description whose offsets are numerals of the given base. -/
inductive Describes (base : ℕ) : List Text → Description → Prop
  | intro {sizeLine pgdLine countLine pgd : Text} {translationLines dataLines : List Text}
      {size : ℕ} {translation data : List (ℕ × Text)} :
      NumberLine 10 sizeLine size → WordLine pgdLine pgd →
      NumberLine 10 countLine translation.length →
      List.Forall₂ (fun line page => NumberWordLine base line page.1 page.2) translationLines
        translation →
      List.Forall₂ (fun line page => NumberWordLine 16 line page.1 page.2) dataLines data →
      Describes base (sizeLine :: pgdLine :: countLine :: (translationLines ++ dataLines))
        ⟨size, pgd, translation, data⟩

/-- A well-formed master file and the memory it describes: all files exist, all pages fit, and the
tables in the memory so far map the virtual address of each data page. -/
structure Described (files : Text → Option Page) (text : Text) (description : Description)
    (image : MemSpace) : Prop where
  describes : Describes 16 (lines text) description
  size : description.size < 2 ^ 64
  vaddr : ∀ page ∈ description.data, page.1 < 2 ^ 64
  image : ∃ tables, Overwritten files AtOffset ⟨description.size, fun _ => 0⟩
      ((0, description.pgd) :: description.translation) tables ∧
    Overwritten files AtTranslation tables description.data image

/-- The loader succeeds, and the caller has the capacity and the memory of the description. -/
structure Loads (description : Description) (image : MemSpace) (reply : LoadReply) : Prop where
  code : reply.code = .errNone
  capacity : reply.memCapacityInBytes.toNat = description.size
  memory : reply.memory = some image

/-- The allocations succeed, the names fit into their blocks, the lines can be counted by an `int`,
and the lines say the same when the offsets are read in decimal. -/
structure Readable (context : LoadContext) (text : Text) (description : Description) : Prop where
  memory : context.memory = true
  fileName : context.fileName = true
  fileName2 : context.fileName2 = true
  pgd : description.pgd.length < 128
  translation : ∀ page ∈ description.translation, page.1 < 2 ^ 31 ∧ page.2.length < 128
  data : ∀ page ∈ description.data, page.2.length < 128
  lines : (lines text).length < 2 ^ 31
  decimal : Describes 10 (Stdio.lines text) description

variable {files : Text → Option Page} {text : Text} {description : Description} {image : MemSpace}
  {context : LoadContext}

/-- The loop over a description whose offsets `%d` reads builds the memory. -/
theorem linesRead_image (described : Described files text description image)
    (reads : ReadsPages files context.pageFileRead) (readable : Readable context text description)
    (memory : Option MemSpace) :
    ∃ loader, context.linesRead 0 (lines text) ⟨memory, 0, nameBuffer context.fileName2⟩ =
      .ok (.errNone, loader) ∧ loader.memory = some image ∧ 2 ≤ (lines text).length := by
  obtain ⟨tables, translated, placed⟩ := described.image
  have size := described.size
  have counted := readable.lines
  have decimal := readable.decimal
  have block : nameBuffer context.fileName2 = some [] := if_pos readable.fileName2
  rw [block]
  generalize lines text = textLines at counted decimal ⊢
  cases decimal with
  | @intro sizeLine pgdLine countLine pgd translationLines dataLines size' translation data sized named
      numbered translations datas =>
    cases translated with
    | @cons _ _ _ a _ page _ zero file fits translated =>
      obtain rfl : a = 0 := zero
      have lengths := translations.length_eq
      simp only [List.length_cons, List.length_append] at counted
      have few : translation.length + 3 < 2 ^ 31 := by omega
      set tablePage := MemSpace.putPage ⟨size', fun _ => 0⟩ 0 page
      set count := BitVec.ofNat 32 translation.length
      have headerRan : context.linesRead 0
          (sizeLine :: pgdLine :: countLine :: (translationLines ++ dataLines)) ⟨memory, 0, some []⟩ =
          context.linesRead 3 (translationLines ++ dataLines) ⟨some tablePage, count, some []⟩ :=
        LoadContext.linesRead_header reads sized size readable.memory named readable.pgd
          readable.fileName file (by simpa using fits) numbered (by omega)
      obtain ⟨last, translationRan⟩ : ∃ last, context.linesRead 3 (translationLines ++ dataLines)
          ⟨some tablePage, count, some []⟩ =
          context.linesRead (BitVec.ofNat 32 (3 + translationLines.length)) dataLines
            ⟨some tables, count, some last⟩ :=
        LoadContext.linesRead_translation reads few lengths readable.translation translated translations
      obtain ⟨final, dataRan⟩ : ∃ final,
          context.linesRead (BitVec.ofNat 32 (3 + translationLines.length)) dataLines
            ⟨some tables, count, some last⟩ = .ok (.errNone, ⟨some image, count, some final⟩) :=
        LoadContext.linesRead_data reads (by omega) (by omega)
          (fun page member => ⟨described.vaddr page member, readable.data page member⟩) placed datas
      refine ⟨⟨some image, count, some final⟩, ?_, rfl, by simp⟩
      exact headerRan.trans (translationRan.trans dataRan)

theorem memInitFromDescription_capacity {master : Option Text} {memory : Option MemSpace}
    {capacity : BitVec 64} {reply : LoadReply}
    (ran : context.memInitFromDescription master memory capacity = .ok reply) :
    reply.memCapacityInBytes = capacity := by
  cases master with
  | none => contradiction
  | some text =>
    obtain ⟨⟨code, loader⟩, _, last⟩ := bind_eq_ok_iff.mp ran
    dsimp only at last
    split_ifs at last
    · cases last
      rfl
    · cases last
      rfl

/-- The loader sets the capacity for no description. Where the offsets read the same in decimal, it
builds the memory, so that it meets the description exactly when the capacity is there before. -/
theorem memInitFromDescription_never (described : Described files text description image)
    (reads : ReadsPages files context.pageFileRead) (memory : Option MemSpace) :
    (¬ ∀ capacity, ∃ reply, context.memInitFromDescription (some text) memory capacity = .ok reply ∧
        Loads description image reply) ∧
      (Readable context text description → ∀ capacity,
        (∃ reply, context.memInitFromDescription (some text) memory capacity = .ok reply ∧
          Loads description image reply) ↔ capacity.toNat = description.size) := by
  have necessary (capacity : BitVec 64) (loads : ∃ reply,
      context.memInitFromDescription (some text) memory capacity = .ok reply ∧
        Loads description image reply) : capacity.toNat = description.size := by
    obtain ⟨reply, ran, loaded⟩ := loads
    rw [← memInitFromDescription_capacity ran]
    exact loaded.capacity
  constructor
  · intro always
    have zero := necessary 0 (always 0)
    have one := necessary 1 (always 1)
    have different : (0 : BitVec 64).toNat ≠ (1 : BitVec 64).toNat := by decide
    exact different (zero.trans one.symm)
  · intro readable capacity
    refine ⟨necessary capacity, fun size => ?_⟩
    obtain ⟨loader, ran, loaded, enough⟩ := linesRead_image described reads readable memory
    refine ⟨⟨.errNone, loader.memory, capacity⟩, ?_, rfl, size, loaded⟩
    simp only [LoadContext.memInitFromDescription, ran, ok_bind, ne_eq, not_true_eq_false, ↓reduceIte,
      Nat.not_lt.mpr enough, pure_eq_ok]

/-- A description with a marked offset, as the format asks for, is not loaded: `page_file_read` is asked
for a file with the name of the offset. -/
theorem marked_offset_refused (describes : Describes 16 (lines text) description)
    (few : description.translation.length + 3 < 2 ^ 31)
    (missing : ∀ name memory address after, files name = none →
      context.pageFileRead (some name) memory address ≠ .ok (.errNone, after))
    (unnamed : ∀ x word, x = ascii 'x' ∨ x = ascii 'X' → files (x :: word) = none)
    (marked : ∃ i < description.translation.length, ∃ line, (lines text)[i + 3]? = some line ∧
      MarkedLine line) (memory : Option MemSpace) (capacity : BitVec 64) :
    ¬ ∃ reply, context.memInitFromDescription (some text) memory capacity = .ok reply ∧
      Loads description image reply := by
  rintro ⟨reply, ran, loaded⟩
  obtain ⟨⟨code, loader⟩, read, last⟩ := bind_eq_ok_iff.mp ran
  have code : code = .errNone := by
    dsimp only at last
    split_ifs at last with failed short
    · cases last
      exact loaded.code
    · exact not_not.mp failed
  subst code
  generalize lines text = textLines at describes marked read
  cases describes with
  | @intro sizeLine pgdLine countLine pgd translationLines dataLines size' translation data _ _ numbered
      translations =>
    obtain ⟨_, _, read⟩ := LoadContext.linesRead_cons_success read
    obtain ⟨_, _, read⟩ := LoadContext.linesRead_cons_success read
    obtain ⟨next, third, read⟩ := LoadContext.linesRead_cons_success read
    have counted : next.nTranslationPages = BitVec.ofNat 32 translation.length := by
      rw [numbered.cString_eq (by decide)] at third
      have counted := third.symm.trans (LoadContext.countLine_ok numbered (by dsimp only at few; omega))
      exact congrArg (fun result => result.2.nTranslationPages) (Except.ok.inj counted)
    change context.linesRead (BitVec.ofNat 32 3) _ _ = _ at read
    refine LoadContext.linesRead_marked missing unnamed few (by decide) ?_ counted ?_ ?_ read
    · rw [translations.length_eq, Nat.add_comm]
    · intro line member
      obtain ⟨i, inside, rfl⟩ := List.getElem_of_mem member
      exact (translations.get inside (translations.length_eq ▸ inside)).cString_eq (by decide)
    · obtain ⟨i, inside, line, here, mark⟩ := marked
      refine ⟨line, ?_, mark⟩
      have inside' : i < translationLines.length := translations.length_eq ▸ inside
      rw [List.getElem?_cons_succ, List.getElem?_cons_succ, List.getElem?_cons_succ,
        List.getElem?_append_left inside'] at here
      exact List.mem_of_getElem? here

section Examples

private def zeroFiles (name : Text) : Option Page := if name.length = 1 then some fun _ => 0 else none

private def readPage (files : Text → Option Page) : PageFileRead
  | some name, some memory, address =>
    match files name with
    | none => .ok (.errBadParameter, some memory)
    | some page =>
      if address.toNat + 4096 ≤ memory.size then
        .ok (.errNone, some (memory.putPage address.toNat page))
      else .error .memoryBounds
  | _, memory, _ => .ok (.errBadParameter, memory)

private theorem readPage_reads (files : Text → Option Page) : ReadsPages files (readPage files) := by
  intro name page memory address file fits
  simp only [readPage, file, fits, ↓reduceIte]

private def sampleLines (offset : Text) : List Text :=
  [literal ['8', '1', '9', '2', '\n'], literal ['p', '\n'], literal ['1', '\n'],
    offset ++ literal [' ', 't', '\n'], literal ['1', '0', '0', '0', ' ', 'd', '\n']]

private def sampleDescription : Description :=
  ⟨8192, literal ['p'], [(4, literal ['t'])], [(4096, literal ['d'])]⟩

private def zeroPages : MemSpace :=
  ((MemSpace.putPage ⟨8192, fun _ => 0⟩ 0 fun _ => 0).putPage 4 fun _ => 0)

private theorem denotes_digits {base n : ℕ} {digits : Text} (nonempty : digits ≠ [])
    (inside : ∀ b ∈ digits, isDigit base b = true) (value : numeralValue base digits = n) :
    Denotes base digits n :=
  ⟨[], digits, .inl rfl, rfl, nonempty, inside, value⟩

private theorem sample_describes {base : ℕ} {offset : Text} (denotes : Denotes base offset 4) :
    Describes base (sampleLines offset) sampleDescription := by
  have newline : Blank (literal ['\n']) := by decide
  have gap : Blank (literal [' ']) := by decide
  apply @Describes.intro base _ _ _ _ [_] [_]
  · exact ⟨[], literal ['8', '1', '9', '2'], literal ['\n'], rfl, blank_nil,
      denotes_digits (by decide) (by decide) (by decide), newline⟩
  · exact ⟨[], literal ['\n'], rfl, blank_nil, by decide, newline⟩
  · exact ⟨[], literal ['1'], literal ['\n'], rfl, blank_nil,
      denotes_digits (by decide) (by decide) (by decide), newline⟩
  · exact .cons ⟨offset, literal [' '], by decide, gap, denotes, by decide, [], literal ['\n'], rfl,
      blank_nil, newline⟩ .nil
  · exact .cons ⟨literal ['1', '0', '0', '0'], literal [' '], by decide, gap,
      denotes_digits (by decide) (by decide) (by decide), by decide, [], literal ['\n'], rfl,
      blank_nil, newline⟩ .nil

private theorem sample_described {offset text : Text} (denotes : Denotes 16 offset 4)
    (split : lines text = sampleLines offset) :
    Described zeroFiles text sampleDescription (zeroPages.putPage 0 fun _ => 0) where
  describes := split ▸ sample_describes denotes
  size := by decide
  vaddr := by decide
  image := by
    refine ⟨zeroPages, .cons rfl rfl (by decide) (.cons rfl rfl (by decide) .nil),
      .cons ⟨⟨0, 0⟩, ⟨0, 0⟩, ?_, rfl⟩ rfl (by decide) .nil⟩
    decide +kernel

/-- With the offset `4` the memory is built, and the capacity is right if it was so before. -/
theorem memInitFromDescription_never_decimal :
    (¬ ∀ capacity, ∃ reply, (grantedLoad (readPage zeroFiles)).memInitFromDescription
        (some (sampleLines [ascii '4']).flatten) none capacity = .ok reply ∧
      Loads sampleDescription (zeroPages.putPage 0 fun _ => 0) reply) ∧
    ∃ reply, (grantedLoad (readPage zeroFiles)).memInitFromDescription
        (some (sampleLines [ascii '4']).flatten) none 8192 = .ok reply ∧
      Loads sampleDescription (zeroPages.putPage 0 fun _ => 0) reply := by
  have split : lines (sampleLines [ascii '4']).flatten = sampleLines [ascii '4'] := by decide
  have hexadecimal : Denotes 16 [ascii '4'] 4 := denotes_digits (by decide) (by decide) (by decide)
  have decimal : Denotes 10 [ascii '4'] 4 := denotes_digits (by decide) (by decide) (by decide)
  have reads : ReadsPages zeroFiles (grantedLoad (readPage zeroFiles)).pageFileRead := readPage_reads zeroFiles
  obtain ⟨never, sometimes⟩ :=
    memInitFromDescription_never (sample_described hexadecimal split) reads none
  refine ⟨never, (sometimes ?_ 8192).mpr rfl⟩
  constructor
  · rfl
  · rfl
  · rfl
  · decide
  · decide
  · decide
  · rw [split]
    decide
  · exact split ▸ sample_describes decimal

/-- With the offset `0x4` the loader looks for a file `x4`, even if the capacity is right before. -/
theorem hexadecimal_offset_refused :
    Described zeroFiles (sampleLines (literal ['0', 'x', '4'])).flatten sampleDescription
        (zeroPages.putPage 0 fun _ => 0) ∧
      ReadsPages zeroFiles (grantedLoad (readPage zeroFiles)).pageFileRead ∧
      ¬ ∃ reply, (grantedLoad (readPage zeroFiles)).memInitFromDescription
          (some (sampleLines (literal ['0', 'x', '4'])).flatten) none 8192 = .ok reply ∧
        Loads sampleDescription (zeroPages.putPage 0 fun _ => 0) reply := by
  have four : Denotes 16 (literal ['0', 'x', '4']) 4 :=
    ⟨literal ['0', 'x'], [ascii '4'], .inr ⟨rfl, .inl rfl⟩, rfl, by decide, by decide, by decide⟩
  refine ⟨sample_described four (by decide), readPage_reads zeroFiles, ?_⟩
  rintro ⟨reply, ran, loaded⟩
  have refused : ((grantedLoad (readPage zeroFiles)).memInitFromDescription
      (some (sampleLines (literal ['0', 'x', '4'])).flatten) none 8192).map LoadReply.code =
      .ok .errBadParameter := by
    decide +kernel
  rw [ran] at refused
  have code : reply.code = .errBadParameter := Except.ok.inj refused
  rw [loaded.code] at code
  contradiction

end Examples

end KabyLake
