import KabyLake.Model.Printing
import KabyLake.Proofs.CacheAccess
import KabyLake.Stdio.Fields

/-! # What the dump of a cache shows

`cache_dump` prints every way of every line: whether it is valid, and the age, the tag and the words of
a valid one. Two caches print alike exactly if they agree in that, and then they answer every lookup
alike.
-/

namespace KabyLake

open Machine Stdio

variable {type : CacheType} {cache other : Cache}

def Entry.shown (type : CacheType) (entry : Entry) : Option (ℕ × ℕ × Line) :=
  if entry.v then some (entry.age type, entry.tag type, entry.line) else none

theorem Entry.shown_eq_iff {entry entry' : Entry} : entry.shown type = entry'.shown type ↔
    entry.v = entry'.v ∧
    (entry.v = true → entry.age type = entry'.age type ∧ entry.tag type = entry'.tag type ∧
      entry.line = entry'.line) := by
  cases valid : entry.v <;> cases valid' : entry'.v <;> simp [Entry.shown, valid, valid']

section Lines

def wordsText (line : Line) : Text :=
  (List.range 4).flatMap fun i => literal ['0', 'x'] ++ lowerNumeral 8 (line.word i).toNat ++ literal [' ']

def valuesText (line : Line) : Text :=
  literal [',', ' ', 'v', 'a', 'l', 'u', 'e', 's', ':', ' ', '(', ' '] ++
    (wordsText line ++ literal [')', '\n'])

theorem wordsText_recoverable : Recoverable wordsText Anything := by
  have blank (rest : Text) : Outside (isDigit 16) (literal [' '] ++ rest) := outside_cons.mpr (by decide)
  have word : Recoverable (fun w : BitVec 32 => literal ['0', 'x'] ++ lowerNumeral 8 w.toNat ++ literal [' '])
      Anything :=
    (((lowerNumeral_recoverable 8).comp fun _ _ => BitVec.eq_of_toNat_eq).literal_append _).append_literal
      fun rest _ => blank rest
  intro line other rest rest' _ _ same
  obtain ⟨words, rests⟩ := Recoverable.table (fun _ _ => word) same
  exact ⟨Line.ext_word fun k bound => words k (List.mem_range.mpr bound), rests⟩

theorem valuesText_recoverable : Recoverable valuesText Anything := by
  have words : Recoverable (fun line => wordsText line ++ literal [')', '\n']) Anything :=
    wordsText_recoverable.append_literal fun _ _ => trivial
  exact words.literal_append _

def fieldsText (fields : ℕ × ℕ × Line) : Text :=
  literal [',', ' ', 'A', 'G', 'E', ':', ' '] ++ (lowerNumeral 1 fields.1 ++
    (literal [',', ' ', 'T', 'A', 'G', ':', ' ', '0', 'x'] ++
      (lowerNumeral 3 fields.2.1 ++ valuesText fields.2.2)))

theorem fieldsText_recoverable : Recoverable fieldsText Anything := by
  have comma (rest : Text) : Outside (isDigit 16) (ascii ',' :: rest) := outside_cons.mpr (by decide)
  have tagged := (lowerNumeral_recoverable 3).append valuesText_recoverable fun line rest _ => comma _
  have labelled := tagged.literal_append (literal [',', ' ', 'T', 'A', 'G', ':', ' ', '0', 'x'])
  have aged := (lowerNumeral_recoverable 1).append labelled fun fields rest _ => comma _
  exact aged.literal_append (literal [',', ' ', 'A', 'G', 'E', ':', ' '])

def dashesText : Text :=
  literal [',', ' ', 'A', 'G', 'E', ':', ' ', '-', ',', ' ', 'T', 'A', 'G', ':', ' ', '-', '-', '-', '-',
    '-', ',', ' ', 'v', 'a', 'l', 'u', 'e', 's', ':', ' ', '(', ' '] ++
    ((List.range 4).flatMap (fun _ => literal ['-', '-', '-', '-', '-', '-', '-', '-', '-', '-', ' ']) ++
      literal [')', '\n'])

def shownText : Option (ℕ × ℕ × Line) → Text
  | some fields => literal ['V', ':', ' '] ++ (lowerNumeral 1 1 ++ fieldsText fields)
  | none => literal ['V', ':', ' '] ++ (lowerNumeral 1 0 ++ dashesText)

theorem printCacheLine_eq (entry : Entry) : printCacheLine type entry = shownText (entry.shown type) := by
  by_cases valid : entry.v = true
  · rw [printCacheLine, Entry.shown, if_pos valid, if_pos valid]
    simp only [shownText, fieldsText, valuesText, wordsText, List.append_assoc]
  · rw [printCacheLine, Entry.shown, if_neg valid, if_neg valid]
    simp only [shownText, dashesText, List.append_assoc]

theorem shownText_recoverable : Recoverable shownText Anything := by
  have comma (rest : Text) : Outside (isDigit 16) (ascii ',' :: rest) := outside_cons.mpr (by decide)
  have bit := lowerNumeral_recoverable 1
  intro shown shown' rest rest' _ _ same
  cases shown with
  | none =>
    cases shown' with
    | none => exact ⟨rfl, List.append_cancel_left same⟩
    | some fields =>
      simp only [shownText, List.append_assoc] at same
      obtain ⟨impossible, _⟩ := bit (comma _) (comma _) (List.append_cancel_left same)
      contradiction
  | some fields =>
    cases shown' with
    | none =>
      simp only [shownText, List.append_assoc] at same
      obtain ⟨impossible, _⟩ := bit (comma _) (comma _) (List.append_cancel_left same)
      contradiction
    | some fields' =>
      simp only [shownText, List.append_assoc] at same
      obtain ⟨_, behind⟩ := bit (comma _) (comma _) (List.append_cancel_left same)
      obtain ⟨rfl, rests⟩ := fieldsText_recoverable trivial trivial behind
      exact ⟨rfl, rests⟩

end Lines

section Dump

theorem mem_positions {position : ℕ × ℕ} :
    position ∈ type.positions ↔ position.1 < type.lines ∧ position.2 < type.ways := by
  obtain ⟨index, way⟩ := position
  simp [CacheType.positions]

/-- Two caches agree in what a dump prints of them. -/
structure Cache.Shows (type : CacheType) (cache other : Cache) : Prop where
  room : cache.Room type
  room' : other.Room type
  slot : ∀ s < type.lines, ∀ i < type.ways,
    (cache.slot type s i).shown type = (other.slot type s i).shown type

def dumpText (type : CacheType) (cache : Cache) : Text :=
  literal ['W', 'A', 'Y', '/', 'L', 'I', 'N', 'E', ':', ' ', 'V', ':', ' ', 'A', 'G', 'E', ':', ' ', 'T',
    'A', 'G', ':', ' ', 'W', 'O', 'R', 'D', 'S', '\n'] ++
    type.positions.flatMap (fun position => printPosition position.2 position.1 ++
      shownText ((cache.slot type position.1 position.2).shown type)) ++ literal ['\n']

theorem cacheDump_eq (room : cache.Room type) : cacheDump cache type = .ok (.errNone, dumpText type cache) := by
  have dumped : ∀ position ∈ type.positions, dumpCacheEntry type cache position =
      .ok (printPosition position.2 position.1 ++
        shownText ((cache.slot type position.1 position.2).shown type)) := by
    intro position member
    obtain ⟨line, way⟩ := mem_positions.mp member
    rw [dumpCacheEntry, Cache.load_slot room line way, ok_bind, printCacheLine_eq]
    rfl
  rw [cacheDump, mapM_ok dumped]
  simp only [ok_bind, pure_eq_ok, dumpText, List.flatMap_def]

theorem Cache.room_of_load {entry : Entry}
    (loaded : cache.load (cacheEntry type.ways (type.lines - 1) (type.ways - 1)) = .ok entry) :
    cache.Room type := by
  rw [Cache.load] at loaded
  split at loaded
  · next bound => cases type <;> exact bound
  · contradiction

/-- A dump succeeds exactly if the array has all the entries of its type. -/
theorem cacheDump_ok_iff : (∃ result, cacheDump cache type = .ok result) ↔ cache.Room type := by
  constructor
  · rintro ⟨result, dumped⟩
    obtain ⟨texts, printed, _⟩ := bind_eq_ok_iff.mp dumped
    have last : (type.lines - 1, type.ways - 1) ∈ type.positions := by
      rw [mem_positions]
      cases type <;> decide
    obtain ⟨text, entry⟩ := exists_of_mapM_ok printed _ last
    obtain ⟨entry, loaded, _⟩ := bind_eq_ok_iff.mp entry
    exact Cache.room_of_load loaded
  · intro room
    exact ⟨_, cacheDump_eq room⟩

/-- Two caches print alike exactly if they agree in the validity of every entry and in the age, the tag
and the words of every valid one. -/
theorem cacheDump_eq_iff {result : ErrorCode × Text} (dumped : cacheDump cache type = .ok result) :
    cacheDump other type = .ok result ↔ cache.Shows type other := by
  have room := cacheDump_ok_iff.mp ⟨result, dumped⟩
  rw [cacheDump_eq room] at dumped
  obtain rfl := Except.ok.inj dumped
  constructor
  · intro printed
    have room' := cacheDump_ok_iff.mp ⟨_, printed⟩
    rw [cacheDump_eq room'] at printed
    have texts := (Prod.mk.inj (Except.ok.inj printed)).2
    simp only [dumpText, List.append_assoc] at texts
    have fields : ∀ position ∈ type.positions,
        Recoverable (fun shown => printPosition position.2 position.1 ++ shownText shown) Anything :=
      fun position _ => shownText_recoverable.literal_append _
    obtain ⟨entries, _⟩ := Recoverable.table fields (List.append_cancel_left texts)
    exact ⟨room, room', fun s hs i hi => (entries (s, i) (mem_positions.mpr ⟨hs, hi⟩)).symm⟩
  · intro shows
    have same : dumpText type other = dumpText type cache := by
      simp only [dumpText]
      congr 2
      apply List.flatMap_congr
      intro position member
      obtain ⟨hs, hi⟩ := mem_positions.mp member
      rw [shows.slot position.1 hs position.2 hi]
    rw [cacheDump_eq shows.room', same]

/-- Two caches print alike exactly if the same entries are valid and every valid one has the same age, tag
and words in both. -/
theorem printed_caches_iff (room : cache.Room type) (room' : other.Room type) :
    cacheDump cache type = cacheDump other type ↔ ∀ s < type.lines, ∀ i < type.ways,
      (cache.slot type s i).v = (other.slot type s i).v ∧ ((cache.slot type s i).v = true →
        (cache.slot type s i).age type = (other.slot type s i).age type ∧
          (cache.slot type s i).tag type = (other.slot type s i).tag type ∧
          (cache.slot type s i).line = (other.slot type s i).line) := by
  have dumped := cacheDump_eq room
  rw [dumped, eq_comm, cacheDump_eq_iff dumped]
  constructor
  · intro shows s hs i hi
    exact Entry.shown_eq_iff.mp (shows.slot s hs i hi)
  · intro same
    exact ⟨room, room', fun s hs i hi => Entry.shown_eq_iff.mpr (same s hs i hi)⟩

theorem printed_caches_iff_ones : cacheDump ⟨512 * 8, fun _ => ⟨0#32, Line.zero⟩⟩ .L2_CACHE =
    cacheDump ⟨512 * 8, fun _ => ⟨0xFFFFFFFE#32, Line.zero⟩⟩ .L2_CACHE := by
  apply (printed_caches_iff (le_refl _) (le_refl _)).mpr
  intro s _ i _
  have cleared : (⟨0#32, Line.zero⟩ : Entry).v = false := by simp [Entry.v]
  have ones : (⟨0xFFFFFFFE#32, Line.zero⟩ : Entry).v = false := by simp [Entry.v]
  exact ⟨cleared.trans ones.symm, fun valid => absurd (cleared.symm.trans valid) (by decide)⟩

end Dump

end KabyLake
