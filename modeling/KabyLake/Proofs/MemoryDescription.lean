import KabyLake.Model.MemoryDescription

/-! # The lines of a memory description

What each kind of line does to the memory that is being built, and what a sequence of page lines
does. The address of a page may depend on the pages before it, so the sequence is a relation between
the memory before and after it.
-/

namespace KabyLake

open Machine Stdio

/-- `page_file_read` copies the bytes of an existing file to a page inside the memory. -/
def ReadsPages (files : Text → Option Page) (pageFileRead : PageFileRead) : Prop :=
  ∀ name page memory address, files name = some page → address.toNat + 4096 ≤ memory.size →
    pageFileRead (some name) (some memory) address =
      .ok (.errNone, some (memory.putPage address.toNat page))

/-- `page_file_read` does not change whether `*memory` is `NULL`. -/
def KeepsPointer (pageFileRead : PageFileRead) : Prop :=
  ∀ name memory address code after, pageFileRead name memory address = .ok (code, after) →
    after.isSome = memory.isSome

/-- The memory is overwritten by the pages of the files in order, each at the address that its number
has in the memory so far. -/
inductive Overwritten (files : Text → Option Page) (locate : MemSpace → ℕ → ℕ → Prop) :
    MemSpace → List (ℕ × Text) → MemSpace → Prop
  | nil {memory : MemSpace} : Overwritten files locate memory [] memory
  | cons {memory final : MemSpace} {n a : ℕ} {name : Text} {page : Page} {rest : List (ℕ × Text)} :
      locate memory n a → files name = some page → a + 4096 ≤ memory.size →
      Overwritten files locate (memory.putPage a page) rest final →
      Overwritten files locate memory ((n, name) :: rest) final

/-- A translation page is at the offset itself. -/
def AtOffset (_ : MemSpace) (offset a : ℕ) : Prop := a = offset

/-- A data page is where the tables of the memory map its virtual address. -/
def AtTranslation (memory : MemSpace) (vaddr a : ℕ) : Prop :=
  ∃ prior target, pageWalk memory (initVirtAddr64 (BitVec.ofNat 64 vaddr)) prior = .ok (.errNone, target) ∧
    (phyAddrTToUint32T target).toNat = a

/-- The walk does not depend on what `paddr` holds before it. -/
theorem AtTranslation.walk {memory : MemSpace} {n a : ℕ} (located : AtTranslation memory n a)
    (prior : PhyAddr) :
    ∃ target, pageWalk memory (initVirtAddr64 (BitVec.ofNat 64 n)) prior = .ok (.errNone, target) ∧
      (phyAddrTToUint32T target).toNat = a := by
  obtain ⟨_, target, walked, address⟩ := located
  rcases pageWalk_result walked with ⟨_, offset⟩ | ⟨failed, _⟩
  · refine ⟨target, (pageWalk_samePage rfl walked prior).trans ?_, address⟩
    rw [if_pos rfl, ← offset]
  · contradiction

/-- What was stored is the word. -/
theorem storeWord_eq {buffer after : Option Text} {word : Text}
    (stored : storeWord buffer word = .ok after) : after = some word := by
  cases buffer with
  | none => contradiction
  | some old =>
    simp only [storeWord] at stored
    split_ifs at stored
    exact (Except.ok.inj stored).symm

theorem scanPageLine_ok {base n : ℕ} {line name old : Text} (small : base ≤ 16)
    (shape : NumberWordLine base line n name) (short : name.length < 128) :
    scanPageLine base line (some old) = .ok (some (false, n), some name) := by
  obtain ⟨stream, number, word⟩ := shape.scanned small
  simp only [scanPageLine, number, word, storeWord, short, ↓reduceIte, ok_bind]

namespace LoadContext

variable {context : LoadContext} {files : Text → Option Page} {line name old : Text} {n a : ℕ}
  {memory : MemSpace} {page : Page} {count : BitVec 32} {loader next : Loader}

theorem sizeLine_ok (shape : NumberLine 10 line n) (small : n < 2 ^ 64)
    (granted : context.memory = true) :
    context.sizeLine line loader = .ok (.errNone, { loader with memory := some ⟨n, fun _ => 0⟩ }) := by
  simp only [sizeLine, shape.fscanfNumeral (by decide), convert_of_lt _ small, granted, ↓reduceIte,
    BitVec.toNat_ofNat, Nat.mod_eq_of_lt small]

theorem countLine_ok (shape : NumberLine 10 line n) (small : n < 2 ^ 31) :
    context.countLine line loader =
      .ok (.errNone, { loader with nTranslationPages := BitVec.ofNat 32 n }) := by
  have converted : convertSigned context.overflow 32 false n = BitVec.ofNat 32 n :=
    convertSigned_of_lt _ small
  simp only [countLine, shape.fscanfNumeral (by decide), converted]

theorem pgdLine_ok (reads : ReadsPages files context.pageFileRead) (shape : WordLine line name)
    (short : name.length < 128) (granted : context.fileName = true) (file : files name = some page)
    (fits : 4096 ≤ memory.size) (present : loader.memory = some memory) :
    context.pgdLine line loader =
      .ok (.errNone, { loader with memory := some (memory.putPage 0 page) }) := by
  have copied : context.pageFileRead (some name) (some memory) 0 =
      .ok (.errNone, some (memory.putPage 0 page)) := reads name page memory 0 file (by simpa using fits)
  simp only [pgdLine, shape.fscanfString, nameBuffer, granted, storeWord, short, ↓reduceIte, present,
    copied, ok_bind, pure_eq_ok]

/-- A translation page whose offset `%d` reads goes to its offset. -/
theorem translationLine_ok (reads : ReadsPages files context.pageFileRead)
    (shape : NumberWordLine 10 line n name) (short : name.length < 128) (small : n < 2 ^ 31)
    (file : files name = some page) (fits : n + 4096 ≤ memory.size) :
    context.translationLine line ⟨some memory, count, some old⟩ =
      .ok (.errNone, ⟨some (memory.putPage n page), count, some name⟩) := by
  have converted : convertSigned context.overflow 32 false n = BitVec.ofNat 32 n :=
    convertSigned_of_lt _ small
  have address : (BitVec.ofNat 32 n).toNat = n := by
    rw [BitVec.toNat_ofNat, Nat.mod_eq_of_lt (by omega)]
  have copied := reads name page memory (BitVec.ofNat 32 n) file (by rwa [address])
  simp only [translationLine, scanPageLine_ok (by decide) shape short, ok_bind,
    converted, copied, address, ↓reduceIte, pure_eq_ok]

/-- A data page goes where the memory so far maps its address. -/
theorem dataLine_ok (reads : ReadsPages files context.pageFileRead)
    (shape : NumberWordLine 16 line n name) (short : name.length < 128) (small : n < 2 ^ 64)
    (located : AtTranslation memory n a) (file : files name = some page)
    (fits : a + 4096 ≤ memory.size) :
    context.dataLine line ⟨some memory, count, some old⟩ =
      .ok (.errNone, ⟨some (memory.putPage a page), count, some name⟩) := by
  obtain ⟨target, walked, rfl⟩ := located.walk context.paddr
  have copied := reads name page memory (phyAddrTToUint32T target) file fits
  simp only [dataLine, scanPageLine_ok (by decide) shape short, ok_bind, convert_of_lt _ small, walked,
    ne_eq, not_true_eq_false, copied, ↓reduceIte, pure_eq_ok]

/-- While the sum does not wrap, the loop compares numbers. -/
theorem slt_count {counter number : ℕ} (small : counter < 2 ^ 31) (few : number + 3 < 2 ^ 31) :
    (BitVec.ofNat 32 counter).slt (BitVec.ofNat 32 number + 3) = true ↔ counter < number + 3 := by
  have left : (BitVec.ofNat 32 counter).toInt = counter := by
    rw [BitVec.toInt_eq_toNat_of_lt (by rw [BitVec.toNat_ofNat]; omega), BitVec.toNat_ofNat]
    omega
  have sum : (BitVec.ofNat 32 number + 3).toNat = number + 3 := by
    rw [BitVec.toNat_add, BitVec.toNat_ofNat, show (3 : BitVec 32).toNat = 3 from rfl]
    omega
  have right : (BitVec.ofNat 32 number + 3).toInt = number + 3 := by
    rw [BitVec.toInt_eq_toNat_of_lt (by omega), sum]
    rfl
  rw [BitVec.slt, left, right, decide_eq_true_iff]
  omega

/-- The lines after the third one are page lines. -/
theorem lineRead_page {counter : ℕ} (after : 3 ≤ counter) (small : counter < 2 ^ 31) :
    context.lineRead (BitVec.ofNat 32 counter) line loader =
      if (BitVec.ofNat 32 counter).slt (loader.nTranslationPages + 3) then context.translationLine line loader
      else context.dataLine line loader := by
  have apart (k : BitVec 32) (below : k.toNat < 3) : BitVec.ofNat 32 counter ≠ k := by
    rintro rfl
    rw [BitVec.toNat_ofNat] at below
    omega
  rw [lineRead, if_neg (apart 0 (by decide)), if_neg (apart 1 (by decide)), if_neg (apart 2 (by decide))]

/-- After the count, that many lines are those of translation pages. -/
theorem lineRead_translation {counter number : ℕ} (after : 3 ≤ counter)
    (before : counter < number + 3) (few : number + 3 < 2 ^ 31)
    (counted : loader.nTranslationPages = BitVec.ofNat 32 number) :
    context.lineRead (BitVec.ofNat 32 counter) line loader = context.translationLine line loader := by
  rw [lineRead_page after (by omega), counted, if_pos ((slt_count (by omega) few).mpr before)]

/-- The lines after them are those of data pages. -/
theorem lineRead_data {counter number : ℕ} (after : number + 3 ≤ counter) (small : counter < 2 ^ 31)
    (counted : loader.nTranslationPages = BitVec.ofNat 32 number) :
    context.lineRead (BitVec.ofNat 32 counter) line loader = context.dataLine line loader := by
  have above := (slt_count small (by omega : number + 3 < 2 ^ 31)).not.mpr (by omega)
  rw [lineRead_page (by omega) small, counted, if_neg above]

theorem linesRead_cons {counter : ℕ} {rest : List Text}
    (read : context.lineRead (BitVec.ofNat 32 counter) (cString line) loader = .ok (.errNone, next)) :
    context.linesRead (BitVec.ofNat 32 counter) (line :: rest) loader =
      context.linesRead (BitVec.ofNat 32 (counter + 1)) rest next := by
  simp only [linesRead, read, ok_bind, ne_eq, not_true_eq_false, ↓reduceIte, BitVec.ofNat_add]
  rfl

/-- The three lines before the page lines. -/
theorem linesRead_header {sizeLine pgdLine countLine : Text} {rest : List Text} {size number : ℕ}
    {prior : Option MemSpace} {start : BitVec 32} {buffer : Option Text}
    (reads : ReadsPages files context.pageFileRead)
    (sized : NumberLine 10 sizeLine size) (representable : size < 2 ^ 64)
    (allocated : context.memory = true) (named : WordLine pgdLine name) (short : name.length < 128)
    (granted : context.fileName = true) (file : files name = some page) (fits : 4096 ≤ size)
    (numbered : NumberLine 10 countLine number) (few : number < 2 ^ 31) :
    context.linesRead 0 (sizeLine :: pgdLine :: countLine :: rest) ⟨prior, start, buffer⟩ =
      context.linesRead 3 rest
        ⟨some (MemSpace.putPage ⟨size, fun _ => 0⟩ 0 page), BitVec.ofNat 32 number, buffer⟩ := by
  set zeros : MemSpace := ⟨size, fun _ => 0⟩
  have first : context.lineRead 0 (cString sizeLine) ⟨prior, start, buffer⟩ =
      .ok (.errNone, ⟨some zeros, start, buffer⟩) := by
    rw [sized.cString_eq (by decide)]
    exact sizeLine_ok sized representable allocated
  have second : context.lineRead 1 (cString pgdLine) ⟨some zeros, start, buffer⟩ =
      .ok (.errNone, ⟨some (zeros.putPage 0 page), start, buffer⟩) := by
    rw [named.cString_eq]
    exact pgdLine_ok reads named short granted file fits rfl
  have third : context.lineRead 2 (cString countLine) ⟨some (zeros.putPage 0 page), start, buffer⟩ =
      .ok (.errNone, ⟨some (zeros.putPage 0 page), BitVec.ofNat 32 number, buffer⟩) := by
    rw [numbered.cString_eq (by decide)]
    exact countLine_ok numbered few
  calc context.linesRead 0 (sizeLine :: pgdLine :: countLine :: rest) ⟨prior, start, buffer⟩
      = context.linesRead 1 (pgdLine :: countLine :: rest) ⟨some zeros, start, buffer⟩ :=
        linesRead_cons first
    _ = context.linesRead 2 (countLine :: rest) ⟨some (zeros.putPage 0 page), start, buffer⟩ :=
        linesRead_cons second
    _ = _ := linesRead_cons third

/-- Page lines that the loop handles in one way overwrite the memory by their pages. -/
theorem linesRead_overwritten {locate : MemSpace → ℕ → ℕ → Prop} {base counter : ℕ}
    {pageLines rest : List Text} {pages : List (ℕ × Text)} {final : MemSpace} (small : base ≤ 16)
    (step : ∀ i, counter ≤ i → i < counter + pageLines.length → ∀ {line n name memory a page old},
      NumberWordLine base line n name → (n, name) ∈ pages → locate memory n a →
      files name = some page → a + 4096 ≤ memory.size →
      context.lineRead (BitVec.ofNat 32 i) line ⟨some memory, count, some old⟩ =
        .ok (.errNone, ⟨some (memory.putPage a page), count, some name⟩))
    (overwritten : Overwritten files locate memory pages final)
    (shapes : List.Forall₂ (fun line page => NumberWordLine base line page.1 page.2) pageLines pages) :
    ∃ last, context.linesRead (BitVec.ofNat 32 counter) (pageLines ++ rest)
        ⟨some memory, count, some old⟩ =
      context.linesRead (BitVec.ofNat 32 (counter + pageLines.length)) rest
        ⟨some final, count, some last⟩ := by
  induction overwritten generalizing counter pageLines old with
  | nil =>
    cases shapes
    exact ⟨old, rfl⟩
  | @cons memory final n a name page pages located file fits _ ih =>
    cases shapes with
    | @cons line _ pageLines _ shape others =>
      rw [List.length_cons] at step
      have read : context.lineRead (BitVec.ofNat 32 counter) (cString line)
          ⟨some memory, count, some old⟩ =
          .ok (.errNone, ⟨some (memory.putPage a page), count, some name⟩) := by
        rw [shape.cString_eq small]
        exact step counter (by omega) (by omega) shape (List.mem_cons_self ..) located file fits
      have later : ∃ last, context.linesRead (BitVec.ofNat 32 (counter + 1)) (pageLines ++ rest)
          ⟨some (memory.putPage a page), count, some name⟩ =
          context.linesRead (BitVec.ofNat 32 (counter + 1 + pageLines.length)) rest
            ⟨some final, count, some last⟩ :=
        ih (fun i after before _ _ _ _ _ _ _ shape member =>
          step i (by omega) (by omega) shape (List.mem_cons_of_mem _ member)) others
      obtain ⟨last, ran⟩ := later
      refine ⟨last, (linesRead_cons read).trans (ran.trans ?_)⟩
      rw [List.length_cons, Nat.add_assoc, Nat.add_comm 1]

section Pages

variable {pageLines rest : List Text} {pages : List (ℕ × Text)} {final : MemSpace} {counter number : ℕ}
  (reads : ReadsPages files context.pageFileRead)

include reads

theorem linesRead_translation (few : number + 3 < 2 ^ 31) (counted : pageLines.length = number)
    (fit : ∀ page ∈ pages, page.1 < 2 ^ 31 ∧ page.2.length < 128)
    (translated : Overwritten files AtOffset memory pages final)
    (shapes : List.Forall₂ (fun line page => NumberWordLine 10 line page.1 page.2) pageLines pages) :
    ∃ last, context.linesRead 3 (pageLines ++ rest) ⟨some memory, BitVec.ofNat 32 number, some old⟩ =
      context.linesRead (BitVec.ofNat 32 (3 + pageLines.length)) rest
        ⟨some final, BitVec.ofNat 32 number, some last⟩ := by
  apply @linesRead_overwritten context files old memory _ AtOffset 10 3 _ _ _ _ (by decide) _ translated shapes
  intro i after before line n name memory a page old shape member located file fits
  obtain rfl : a = n := located
  obtain ⟨small, short⟩ := fit _ member
  rw [lineRead_translation after (by omega) few rfl]
  exact translationLine_ok reads shape short small file fits

theorem linesRead_data (after : number + 3 ≤ counter) (small : counter + pageLines.length < 2 ^ 31)
    (fit : ∀ page ∈ pages, page.1 < 2 ^ 64 ∧ page.2.length < 128)
    (placed : Overwritten files AtTranslation memory pages final)
    (shapes : List.Forall₂ (fun line page => NumberWordLine 16 line page.1 page.2) pageLines pages) :
    ∃ last, context.linesRead (BitVec.ofNat 32 counter) pageLines
        ⟨some memory, BitVec.ofNat 32 number, some old⟩ =
      .ok (.errNone, ⟨some final, BitVec.ofNat 32 number, some last⟩) := by
  rw [← List.append_nil pageLines]
  apply linesRead_overwritten (by decide) _ placed shapes
  intro i from' before line n name memory a page old shape member located file fits
  obtain ⟨representable, short⟩ := fit _ member
  rw [lineRead_data (after.trans from') (before.trans small) rfl]
  exact dataLine_ok reads shape short representable located file fits

end Pages

/-- A loop that ends well has read its first line well. -/
theorem linesRead_cons_success {counter : BitVec 32} {rest : List Text} {final : Loader}
    (ran : context.linesRead counter (line :: rest) loader = .ok (.errNone, final)) :
    ∃ next, context.lineRead counter (cString line) loader = .ok (.errNone, next) ∧
      context.linesRead (counter + 1) rest next = .ok (.errNone, final) := by
  obtain ⟨⟨code, next⟩, read, later⟩ := bind_eq_ok_iff.mp ran
  dsimp only at later
  split_ifs at later with failed
  · exact absurd (congrArg Prod.fst (Except.ok.inj later)) failed
  · rw [not_not] at failed
    exact ⟨next, failed ▸ read, later⟩

/-- The line of a translation page does not change their number. -/
theorem translationLine_count {code : ErrorCode}
    (read : context.translationLine line loader = .ok (code, next)) :
    next.nTranslationPages = loader.nTranslationPages := by
  obtain ⟨⟨number, fileName2⟩, _, read⟩ := bind_eq_ok_iff.mp read
  cases number with
  | none =>
    cases read
    rfl
  | some number =>
    obtain ⟨⟨code, memory⟩, _, read⟩ := bind_eq_ok_iff.mp read
    cases read
    rfl

section Pointer

variable (keeps : KeepsPointer context.pageFileRead)

include keeps

theorem pgdLine_isSome {code : ErrorCode} (read : context.pgdLine line loader = .ok (code, next)) :
    next.memory.isSome = loader.memory.isSome := by
  rw [pgdLine] at read
  cases word : (fscanfString (.opened line)).1 with
  | none =>
    rw [word] at read
    cases read
    rfl
  | some word' =>
    rw [word] at read
    obtain ⟨fileName, _, read⟩ := bind_eq_ok_iff.mp read
    obtain ⟨⟨code, memory⟩, called, read⟩ := bind_eq_ok_iff.mp read
    cases read
    exact keeps _ _ _ _ _ called

theorem translationLine_isSome {code : ErrorCode}
    (read : context.translationLine line loader = .ok (code, next)) :
    next.memory.isSome = loader.memory.isSome := by
  obtain ⟨⟨number, fileName2⟩, _, read⟩ := bind_eq_ok_iff.mp read
  cases number with
  | none =>
    cases read
    rfl
  | some number =>
    obtain ⟨⟨code, memory⟩, called, read⟩ := bind_eq_ok_iff.mp read
    cases read
    exact keeps _ _ _ _ _ called

theorem dataLine_isSome {code : ErrorCode}
    (read : context.dataLine line loader = .ok (code, next)) :
    next.memory.isSome = loader.memory.isSome := by
  obtain ⟨⟨number, fileName2⟩, _, read⟩ := bind_eq_ok_iff.mp read
  cases number with
  | none =>
    cases read
    rfl
  | some number =>
    cases present : loader.memory with
    | none =>
      simp only [present] at read
      cases read
      rfl
    | some memory =>
      simp only [present] at read
      obtain ⟨⟨code, paddr⟩, _, read⟩ := bind_eq_ok_iff.mp read
      dsimp only at read
      split_ifs at read with failed
      · cases read
        rfl
      · obtain ⟨⟨code, memory⟩, called, read⟩ := bind_eq_ok_iff.mp read
        cases read
        exact keeps _ _ _ _ _ called

/-- No line after the first one changes whether `*memory` is `NULL`. -/
theorem lineRead_isSome {counter : BitVec 32} {code : ErrorCode} (later : counter ≠ 0)
    (read : context.lineRead counter line loader = .ok (code, next)) :
    next.memory.isSome = loader.memory.isSome := by
  rw [lineRead, if_neg later] at read
  split_ifs at read
  · exact pgdLine_isSome keeps read
  · rw [countLine] at read
    split at read <;> (cases read; rfl)
  · exact translationLine_isSome keeps read
  · exact dataLine_isSome keeps read

theorem linesRead_isSome {counter : BitVec 32} {rest : List Text} {code : ErrorCode} (later : counter ≠ 0)
    (few : counter.toNat + rest.length ≤ 2 ^ 32)
    (ran : context.linesRead counter rest loader = .ok (code, next)) :
    next.memory.isSome = loader.memory.isSome := by
  induction rest generalizing counter loader with
  | nil =>
    cases ran
    rfl
  | cons line rest ih =>
    obtain ⟨⟨code, middle⟩, read, ran⟩ := bind_eq_ok_iff.mp ran
    have kept := lineRead_isSome keeps later read
    dsimp only at ran
    split_ifs at ran
    · cases ran
      exact kept
    · cases rest with
      | nil =>
        cases ran
        exact kept
      | cons second more =>
        -- the counter does not come back to zero
        rw [List.length_cons, List.length_cons] at few
        have next : (counter + 1).toNat = counter.toNat + 1 := by
          rw [BitVec.toNat_add, show (1 : BitVec 32).toNat = 1 from rfl]
          omega
        have later' : counter + 1 ≠ 0 := by
          intro zero
          rw [zero] at next
          contradiction
        refine (ih later' ?_ ran).trans kept
        rw [next, List.length_cons]
        omega

end Pointer

section Marked

variable (missing : ∀ name memory address after, files name = none →
    context.pageFileRead (some name) memory address ≠ .ok (.errNone, after))
  (unnamed : ∀ x word, x = ascii 'x' ∨ x = ascii 'X' → files (x :: word) = none)

include missing unnamed

/-- The page of a marked offset is looked for in a file that is not the one of the line. -/
theorem translationLine_marked (marked : MarkedLine line) :
    context.translationLine line loader ≠ .ok (.errNone, next) := by
  intro read
  obtain ⟨stream, x, word, zero, letter, left⟩ := marked.scanned
  obtain ⟨⟨number, fileName2⟩, scanned, read⟩ := bind_eq_ok_iff.mp read
  simp only [scanPageLine, zero, left] at scanned
  obtain ⟨stored, store, scanned⟩ := bind_eq_ok_iff.mp scanned
  obtain ⟨rfl, rfl⟩ := Prod.mk.inj (Except.ok.inj scanned)
  obtain ⟨⟨code, memory⟩, called, read⟩ := bind_eq_ok_iff.mp read
  rw [storeWord_eq store] at called
  have refused : code ≠ .errNone := by
    rintro rfl
    exact missing _ _ _ _ (unnamed x word letter) called
  have returned := congrArg Prod.fst (Except.ok.inj read)
  rw [if_neg refused] at returned
  contradiction

theorem linesRead_marked {counter number : ℕ} {pageLines rest : List Text} {final : Loader}
    (few : number + 3 < 2 ^ 31) (after : 3 ≤ counter) (before : counter + pageLines.length ≤ number + 3)
    (counted : loader.nTranslationPages = BitVec.ofNat 32 number)
    (strings : ∀ line ∈ pageLines, cString line = line) (marked : ∃ line ∈ pageLines, MarkedLine line) :
    context.linesRead (BitVec.ofNat 32 counter) (pageLines ++ rest) loader ≠ .ok (.errNone, final) := by
  intro ran
  induction pageLines generalizing counter loader with
  | nil =>
    obtain ⟨line, member, _⟩ := marked
    contradiction
  | cons line others ih =>
    rw [List.length_cons] at before
    obtain ⟨next, read, later⟩ := linesRead_cons_success ran
    rw [strings line (List.mem_cons_self ..), lineRead_translation after (by omega) few counted] at read
    obtain ⟨marked', member, mark⟩ := marked
    rcases List.mem_cons.mp member with rfl | elsewhere
    · exact translationLine_marked missing unnamed mark read
    · rw [show BitVec.ofNat 32 counter + 1 = BitVec.ofNat 32 (counter + 1) from
        (BitVec.ofNat_add counter 1).symm] at later
      exact ih (by omega) (by omega) ((translationLine_count read).trans counted)
        (fun line member => strings line (List.mem_cons_of_mem _ member)) ⟨marked', elsewhere, mark⟩
        later

end Marked

end LoadContext

/-- All allocations of a call succeed, and no number is out of range. -/
def grantedLoad (pageFileRead : PageFileRead) : LoadContext :=
  ⟨fun _ _ _ => 0, pageFileRead, true, true, true, ⟨0, 0⟩⟩

end KabyLake
