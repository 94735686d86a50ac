import KabyLake.Proofs.CacheMng

/-! # One step of the cache system

`Outcome` lists what one command may do to the memory and the caches, for the commands whose
address is aligned to a block and for the reads that find their block in L1. `executeCommand_cases`
derives it from the code once, and every invariant of the system is a case analysis on it.
-/

namespace KabyLake

open Machine

/-- No allocation of the call returns `NULL`. -/
structure Allocations.Succeed (allocations : Allocations) : Prop where
  pLine : allocations.pLine = true
  pLine2 : allocations.pLine2 = true
  newLine : allocations.newLine = true
  memLine : allocations.memLine = true
  newentry : allocations.newentry ≠ none
  newd : allocations.newd ≠ none
  oldEntry : allocations.oldEntry ≠ none

/-- Every allocation succeeds, and `malloc` hands out a valid bit and lines of ones. -/
def granted : Allocations :=
  ⟨true, true, true, true, some ⟨1#32, Vector.replicate 4 1⟩, some ⟨1#32, Vector.replicate 4 1⟩,
    some ⟨1#32, Vector.replicate 4 1⟩⟩

theorem granted_succeed : granted.Succeed := ⟨rfl, rfl, rfl, rfl, by decide, by decide, by decide⟩

namespace CacheSystem

variable {system : CacheSystem} {access other : MemAccess} {l1 : Cache}

@[simp] theorem l1Cache_withL1Cache_self : (system.withL1Cache access l1).l1Cache access = l1 := by
  cases access <;> rfl

theorem l1Cache_withL1Cache_of_ne (different : other ≠ access) :
    (system.withL1Cache access l1).l1Cache other = system.l1Cache other := by
  cases access <;> cases other <;> first | contradiction | rfl

@[simp] theorem memSpace_withL1Cache : (system.withL1Cache access l1).memSpace = system.memSpace := by
  cases access <;> rfl

@[simp] theorem l2Cache_withL1Cache : (system.withL1Cache access l1).l2Cache = system.l2Cache := by
  cases access <;> rfl

private theorem withL1Cache_l1Cache :
    { system.withL1Cache access (system.l1Cache access) with l2Cache := system.l2Cache } = system := by
  cases access <;> rfl

private theorem withL1Cache_l2Cache :
    { system.withL1Cache access l1 with l2Cache := system.l2Cache } = system.withL1Cache access l1 := by
  cases access <;> rfl

end CacheSystem

/-- The invariant of the code: well-formed L1 caches, and an L2 cache that is never populated. -/
structure Sound (system : CacheSystem) : Prop where
  formed : ∀ access, Formed access.cacheType (system.l1Cache access)
  quiet : Quiet system.l2Cache

/-- The commands that `cache_entry_init` is made for, and the reads that do not need it. -/
inductive Admitted (system : CacheSystem) (call : CacheCall) : Prop
  | aligned : call.paddr.address % 16 = 0 → Admitted system call
  | readHit {access : MemAccess} {w : ℕ} : call.operation = .read access →
      Holds access.cacheType (system.l1Cache access) call.paddr.address w → Admitted system call

/-- The kind of access of a call; writes use the data cache. -/
def CacheCall.access (call : CacheCall) : MemAccess :=
  match call.operation with
  | .read access => access
  | .write => .DATA

/-- The line and the tag that a call addresses. -/
abbrev CacheCall.lineIn (call : CacheCall) (access : MemAccess) : ℕ :=
  access.cacheType.lineOf call.paddr.address

abbrev CacheCall.tagIn (call : CacheCall) (access : MemAccess) : ℕ :=
  access.cacheType.tagOf call.paddr.address

/-- What one command does. -/
inductive Outcome (system : CacheSystem) (call : CacheCall) : CacheSystem → CacheReply → Prop
  | refused : ¬ call.allocations.Succeed → Outcome system call system ⟨.errBadParameter, call.word⟩
  | readHit {access : MemAccess} {w : ℕ} {after : Cache} : call.operation = .read access →
      Holds access.cacheType (system.l1Cache access) call.paddr.address w →
      Accessed access.cacheType (call.lineIn access) w (call.tagIn access)
        (((system.l1Cache access).slot access.cacheType (call.lineIn access) w).age access.cacheType)
        ((system.l1Cache access).slot access.cacheType (call.lineIn access) w).line
        (system.l1Cache access) after →
      Outcome system call (system.withL1Cache access after) ⟨.errNone,
        ((system.l1Cache access).slot access.cacheType (call.lineIn access) w).line.word
          (wordOf call.paddr.address)⟩
  | readFill {access : MemAccess} {w : ℕ} {after : Cache} : call.operation = .read access →
      (∀ w, ¬ Holds access.cacheType (system.l1Cache access) call.paddr.address w) →
      call.paddr.address % 16 = 0 →
      Free access.cacheType (system.l1Cache access) (call.lineIn access) w ∨
        Eldest access.cacheType (system.l1Cache access) (call.lineIn access) w →
      Accessed access.cacheType (call.lineIn access) w (call.tagIn access) 0
        (system.memSpace.line call.paddr.address) (system.l1Cache access) after →
      Outcome system call (system.withL1Cache access after) ⟨.errNone,
        (system.memSpace.line call.paddr.address).word (wordOf call.paddr.address)⟩
  | writeRefused {w bound : ℕ} {after : Cache} : call.operation = .write →
      Holds .L1_DCACHE system.l1DCache call.paddr.address w →
      Aged .L1_DCACHE (call.lineIn .DATA) w bound system.l1DCache after →
      call.allocations.newLine = false →
      Outcome system call { system with l1DCache := after } ⟨.errBadParameter, call.word⟩
  | writeHit {w : ℕ} {after : Cache} : call.operation = .write →
      Holds .L1_DCACHE system.l1DCache call.paddr.address w → call.paddr.address % 16 = 0 →
      Accessed .L1_DCACHE (call.lineIn .DATA) w (call.tagIn .DATA)
        ((system.l1DCache.slot .L1_DCACHE (call.lineIn .DATA) w).age .L1_DCACHE)
        (patched (system.l1DCache.slot .L1_DCACHE (call.lineIn .DATA) w).line call.paddr call.word)
        system.l1DCache after →
      Outcome system call { system with
        memSpace := system.memSpace.putLine call.paddr.address (patched
          (system.l1DCache.slot .L1_DCACHE (call.lineIn .DATA) w).line call.paddr call.word)
        l1DCache := after } ⟨.errNone, call.word⟩
  | writeFill {w : ℕ} {after : Cache} : call.operation = .write →
      (∀ w, ¬ Holds .L1_DCACHE system.l1DCache call.paddr.address w) → call.paddr.address % 16 = 0 →
      Free .L1_DCACHE system.l1DCache (call.lineIn .DATA) w →
      Settled call.allocations.newd .L1_DCACHE (call.lineIn .DATA) w (call.tagIn .DATA)
        (CacheType.L1_DCACHE.ways - 1)
        (patched (system.memSpace.line call.paddr.address) call.paddr call.word)
        system.l1DCache after →
      Outcome system call { system with
        memSpace := system.memSpace.putLine call.paddr.address
          (patched (system.memSpace.line call.paddr.address) call.paddr call.word)
        l1DCache := after } ⟨.errNone, call.word⟩
  | writeReplace {w : ℕ} {after l2 : Cache} : call.operation = .write →
      (∀ w, ¬ Holds .L1_DCACHE system.l1DCache call.paddr.address w) → call.paddr.address % 16 = 0 →
      Eldest .L1_DCACHE system.l1DCache (call.lineIn .DATA) w → Quiet l2 →
      Settled call.allocations.newd .L1_DCACHE (call.lineIn .DATA) w (call.tagIn .DATA) 0
        (patched (system.memSpace.line call.paddr.address) call.paddr call.word)
        system.l1DCache after →
      Outcome system call { system with
        memSpace := system.memSpace.putLine call.paddr.address
          (patched (system.memSpace.line call.paddr.address) call.paddr call.word)
        l1DCache := after, l2Cache := l2 } ⟨.errNone, call.word⟩

variable {system : CacheSystem} {call : CacheCall}

/-- A read miss outside the memory does not return. -/
private theorem notHitL1OrL2_outside {type : CacheType} {paddr : PhyAddr} {l1 l2 : Cache} {s k : ℕ}
    {word : BitVec 32} {garbage : Entry} (aligned : paddr.address % 16 = 0)
    (outside : ¬ paddr.address + 16 ≤ system.memSpace.size) :
    notHitL1OrL2 type system.memSpace paddr l1 l2 s k word (some garbage) = .error .memoryBounds := by
  simp only [notHitL1OrL2, cacheEntryInit, aligned, ne_eq, not_true_eq_false, ↓reduceIte,
    MemSpace.readLine, outside, error_bind]

private theorem read_cases {access : MemAccess} (sound : Sound system)
    (admitted : Admitted system call) (operation : call.operation = .read access) :
    (∃ next reply, executeCommand system call = .ok (next, reply) ∧ Outcome system call next reply) ∨
      ((∃ fault, executeCommand system call = .error fault) ∧
        ¬ call.paddr.address + 16 ≤ system.memSpace.size) := by
  have formed := sound.formed access
  cases pLine : call.allocations.pLine with
  | false =>
    refine .inl ⟨_, _, ?_, .refused fun succeed => by simp [succeed.pLine] at pLine⟩
    simp only [executeCommand, operation, cacheRead, pLine, Bool.not_false, ↓reduceIte, pure_eq_ok,
      ok_bind, CacheSystem.withL1Cache_l1Cache]
  | true =>
    by_cases held : ∃ w, Holds access.cacheType (system.l1Cache access) call.paddr.address w
    · obtain ⟨w, holds⟩ := held
      obtain ⟨after, ran, accessed⟩ := cacheRead_first system.memSpace call.word
        system.l2Cache formed.room pLine (holds.found formed)
      refine .inl ⟨_, _, ?_, .readHit operation holds accessed⟩
      simp only [executeCommand, operation, ran, ok_bind, CacheSystem.withL1Cache_l2Cache, pure_eq_ok]
    · have absent := not_exists.mp held
      have aligned : call.paddr.address % 16 = 0 := by
        cases admitted with
        | aligned aligned => exact aligned
        | readHit same holds =>
          rw [operation] at same
          cases same
          exact (absent _ holds).elim
      have ran := cacheRead_absent system.memSpace call.word formed sound.quiet absent pLine
      cases newentry : call.allocations.newentry with
      | none =>
        refine .inl ⟨_, _, ?_, .refused fun succeed => succeed.newentry newentry⟩
        simp only [executeCommand, operation, ran, newentry, notHitL1OrL2, pure_eq_ok, ok_bind,
          CacheSystem.withL1Cache_l1Cache]
      | some garbage =>
        rw [newentry] at ran
        by_cases inside : call.paddr.address + 16 ≤ system.memSpace.size
        · obtain ⟨w, after, filled, place, accessed⟩ := notHitL1OrL2_fill system.memSpace call.word
            system.l2Cache garbage formed.room aligned inside
          refine .inl ⟨_, _, ?_, .readFill operation absent aligned place accessed⟩
          simp only [executeCommand, operation, ran, filled, ok_bind,
            CacheSystem.withL1Cache_l2Cache, pure_eq_ok]
        · refine .inr ⟨⟨.memoryBounds, ?_⟩, inside⟩
          simp only [executeCommand, operation, ran, notHitL1OrL2_outside aligned inside, error_bind]

/-- A write of a block that L1 holds, after the two lookups got their lines. -/
private theorem write_held (sound : Sound system) (aligned : call.paddr.address % 16 = 0)
    (operation : call.operation = .write) (pLine : call.allocations.pLine = true)
    (pLine2 : call.allocations.pLine2 = true) {w : ℕ}
    (holds : Holds .L1_DCACHE system.l1DCache call.paddr.address w) :
    (∃ next reply, executeCommand system call = .ok (next, reply) ∧ Outcome system call next reply) ∨
      ((∃ fault, executeCommand system call = .error fault) ∧
        ¬ (call.allocations.Succeed ∧ call.paddr.address + 16 ≤ system.memSpace.size)) := by
  have formed : Formed .L1_DCACHE system.l1DCache := sound.formed .DATA
  cases newLine : call.allocations.newLine with
  | false =>
    obtain ⟨bound, after, ran, aged⟩ := cacheWrite_refused system.memSpace call.word
      system.l2Cache formed holds pLine pLine2 newLine
    refine .inl ⟨_, _, ?_, .writeRefused operation holds aged newLine⟩
    simp only [executeCommand, operation, ran, ok_bind, pure_eq_ok]
  | true =>
    obtain ⟨after, ran, accessed⟩ := cacheWrite_hit system.memSpace call.word system.l2Cache
      formed holds pLine pLine2 newLine rfl
    by_cases inside : call.paddr.address + 16 ≤ system.memSpace.size
    · refine .inl ⟨_, _, ?_, .writeHit operation holds aligned accessed⟩
      simp only [executeCommand, operation, ran, MemSpace.writeLine_ok inside, ok_bind, pure_eq_ok]
      rfl
    · refine .inr ⟨⟨.memoryBounds, ?_⟩, fun both => inside both.2⟩
      simp only [executeCommand, operation, ran, MemSpace.writeLine, inside, ↓reduceIte, error_bind]

/-- A write of a block that L1 does not hold. -/
private theorem write_absent (sound : Sound system) (aligned : call.paddr.address % 16 = 0)
    (operation : call.operation = .write) (pLine : call.allocations.pLine = true)
    (pLine2 : call.allocations.pLine2 = true)
    (absent : ∀ w, ¬ Holds .L1_DCACHE system.l1DCache call.paddr.address w) :
    (∃ next reply, executeCommand system call = .ok (next, reply) ∧ Outcome system call next reply) ∨
      ((∃ fault, executeCommand system call = .error fault) ∧
        ¬ (call.allocations.Succeed ∧ call.paddr.address + 16 ≤ system.memSpace.size)) := by
  have formed : Formed .L1_DCACHE system.l1DCache := sound.formed .DATA
  have ran := cacheWrite_absent system.memSpace call.word formed sound.quiet absent pLine pLine2
  have faults (lacks : call.allocations.memLine = false ∨
      ¬ call.paddr.address + 16 ≤ system.memSpace.size ∨ call.allocations.oldEntry = none ∧
        Full .L1_DCACHE system.l1DCache (call.lineIn .DATA)) :
      ∃ fault, executeCommand system call = .error fault := by
    obtain ⟨fault, stopped⟩ := writeMiss_faults system.memSpace call.word system.l2Cache
      formed.room aligned lacks
    exact ⟨fault, by simp only [executeCommand, operation, ran, stopped, error_bind]⟩
  by_cases inside : call.paddr.address + 16 ≤ system.memSpace.size
  swap
  · exact .inr ⟨faults (.inr (.inl inside)), fun both => inside both.2⟩
  cases memLine : call.allocations.memLine with
  | false => exact .inr ⟨faults (.inl memLine), fun both => by simp [both.1.memLine] at memLine⟩
  | true =>
  rcases full_or_free .L1_DCACHE system.l1DCache (call.lineIn .DATA) with full | ⟨w, free⟩
  · by_cases oldEntry : call.allocations.oldEntry = none
    · exact .inr ⟨faults (.inr (.inr ⟨oldEntry, full⟩)), fun both => both.1.oldEntry oldEntry⟩
    · obtain ⟨w, after, l2, eldest, replaced, quiet, settled⟩ := writeMiss_full system.memSpace
        call.word formed.room sound.quiet aligned inside memLine oldEntry full rfl
      refine .inl ⟨_, _, ?_, .writeReplace operation absent aligned eldest quiet settled⟩
      simp only [executeCommand, operation, ran, replaced, ok_bind, pure_eq_ok]
  · obtain ⟨after, filled, settled⟩ := writeMiss_free system.memSpace call.word system.l2Cache
      formed.room aligned inside memLine free rfl
    refine .inl ⟨_, _, ?_, .writeFill operation absent aligned free settled⟩
    simp only [executeCommand, operation, ran, filled, ok_bind, pure_eq_ok]

private theorem write_cases (sound : Sound system) (aligned : call.paddr.address % 16 = 0)
    (operation : call.operation = .write) :
    (∃ next reply, executeCommand system call = .ok (next, reply) ∧ Outcome system call next reply) ∨
      ((∃ fault, executeCommand system call = .error fault) ∧
        ¬ (call.allocations.Succeed ∧ call.paddr.address + 16 ≤ system.memSpace.size)) := by
  have early (missing : call.allocations.pLine = false ∨ call.allocations.pLine2 = false) :
      executeCommand system call = .ok (system, ⟨.errBadParameter, call.word⟩) := by
    rcases missing with pLine | pLine2
    · simp only [executeCommand, operation, cacheWrite, pLine, Bool.not_false, ↓reduceIte, pure_eq_ok,
        ok_bind]
    · simp only [executeCommand, operation, cacheWrite, pLine2, Bool.not_false, ↓reduceIte, pure_eq_ok,
        ok_bind, ite_self]
  cases pLine : call.allocations.pLine with
  | false =>
    exact .inl ⟨_, _, early (.inl pLine), .refused fun succeed => by simp [succeed.pLine] at pLine⟩
  | true =>
  cases pLine2 : call.allocations.pLine2 with
  | false =>
    exact .inl ⟨_, _, early (.inr pLine2), .refused fun succeed => by simp [succeed.pLine2] at pLine2⟩
  | true =>
  by_cases held : ∃ w, Holds .L1_DCACHE system.l1DCache call.paddr.address w
  · obtain ⟨w, holds⟩ := held
    exact write_held sound aligned operation pLine pLine2 holds
  · exact write_absent sound aligned operation pLine pLine2 (not_exists.mp held)

/-- An admitted command takes one of the paths, or it lacks memory. -/
theorem executeCommand_cases (sound : Sound system) (admitted : Admitted system call) :
    (∃ next reply, executeCommand system call = .ok (next, reply) ∧ Outcome system call next reply) ∨
      ((∃ fault, executeCommand system call = .error fault) ∧
        ¬ (call.allocations.Succeed ∧ call.paddr.address + 16 ≤ system.memSpace.size)) := by
  cases operation : call.operation with
  | read access =>
    rcases read_cases sound admitted operation with ran | ⟨fault, outside⟩
    · exact .inl ran
    · exact .inr ⟨fault, fun both => outside both.2⟩
  | write =>
    refine write_cases sound ?_ operation
    cases admitted with
    | aligned aligned => exact aligned
    | readHit same _ =>
      rw [operation] at same
      contradiction

theorem Sound.outcome (sound : Sound system) (admitted : Admitted system call) {next : CacheSystem}
    {reply : CacheReply} (stepped : executeCommand system call = .ok (next, reply)) :
    Outcome system call next reply := by
  rcases executeCommand_cases sound admitted with ⟨next', reply', ran, outcome⟩ | ⟨⟨fault, ran⟩, _⟩
  · obtain ⟨rfl, rfl⟩ := Prod.mk.inj (Except.ok.inj (stepped.symm.trans ran))
    exact outcome
  · rw [ran] at stepped
    contradiction

/-- With all allocations granted a command that returns reports no error. -/
theorem Outcome.success {next : CacheSystem} {reply : CacheReply}
    (outcome : Outcome system call next reply) (allocated : call.allocations.Succeed) :
    reply.code = .errNone := by
  cases outcome with
  | refused lacks => exact (lacks allocated).elim
  | writeRefused _ _ _ newLine =>
    rw [allocated.newLine] at newLine
    contradiction
  | readHit | readFill | writeHit | writeFill | writeReplace => rfl

/-- Where a successful command accesses its line, and the bound it ages the other ways with. -/
inductive Placed (system : CacheSystem) (call : CacheCall) (w bound : ℕ) : Prop
  | held : Holds call.access.cacheType (system.l1Cache call.access) call.paddr.address w →
      bound = ((system.l1Cache call.access).slot call.access.cacheType
        (call.lineIn call.access) w).age call.access.cacheType → Placed system call w bound
  | free : (∀ w, ¬ Holds call.access.cacheType (system.l1Cache call.access) call.paddr.address w) →
      Free call.access.cacheType (system.l1Cache call.access) (call.lineIn call.access) w →
      (call.operation = .write → bound = call.access.cacheType.ways - 1) → Placed system call w bound
  | eldest : (∀ w, ¬ Holds call.access.cacheType (system.l1Cache call.access) call.paddr.address w) →
      Eldest call.access.cacheType (system.l1Cache call.access) (call.lineIn call.access) w →
      bound = 0 → Placed system call w bound

theorem Placed.way {w bound : ℕ} (placed : Placed system call w bound) :
    w < call.access.cacheType.ways := by
  cases placed with
  | held holds _ => exact holds.way
  | free _ free _ => exact free.way
  | eldest _ eldest _ => exact eldest.way

/-- A successful command is one access to the L1 cache of its kind, unless a write gets no memory
for its new entry. -/
theorem Outcome.accessed {next : CacheSystem} {reply : CacheReply}
    (outcome : Outcome system call next reply)
    (newd : call.operation = .write → call.allocations.newd ≠ none) (success : reply.code = .errNone) :
    (∃ w bound line, Placed system call w bound ∧
      Accessed call.access.cacheType (call.lineIn call.access) w (call.tagIn call.access) bound line
        (system.l1Cache call.access) (next.l1Cache call.access)) ∧
    ∀ other, other ≠ call.access → next.l1Cache other = system.l1Cache other := by
  have ofRead {access : MemAccess} (operation : call.operation = .read access) :
      call.access = access := by rw [CacheCall.access, operation]
  have ofWrite (operation : call.operation = .write) : call.access = .DATA := by
    rw [CacheCall.access, operation]
  have others {memSpace : MemSpace} {after l2 : Cache} (other : MemAccess) (different : other ≠ .DATA) :
      CacheSystem.l1Cache ⟨memSpace, system.l1ICache, after, l2⟩ other = system.l1Cache other := by
    cases other with
    | INSTRUCTION => rfl
    | DATA => contradiction
  cases outcome with
  | refused | writeRefused => contradiction
  | readHit operation holds accessed =>
    obtain rfl := ofRead operation
    rw [CacheSystem.l1Cache_withL1Cache_self]
    exact ⟨⟨_, _, _, .held holds rfl, accessed⟩, fun _ => CacheSystem.l1Cache_withL1Cache_of_ne⟩
  | readFill operation absent _ place accessed =>
    obtain rfl := ofRead operation
    rw [CacheSystem.l1Cache_withL1Cache_self]
    refine ⟨⟨_, 0, _, ?_, accessed⟩, fun _ => CacheSystem.l1Cache_withL1Cache_of_ne⟩
    rcases place with free | eldest
    · exact .free absent free fun write => by rw [operation] at write; contradiction
    · exact .eldest absent eldest rfl
  | writeHit operation holds _ accessed =>
    have access := ofWrite operation
    have placed : Placed system call _ _ := .held (by rw [access]; exact holds) rfl
    rw [access] at placed ⊢
    exact ⟨⟨_, _, _, placed, accessed⟩, others⟩
  | writeFill operation absent _ free settled =>
    have access := ofWrite operation
    obtain ⟨entry, available⟩ := Option.ne_none_iff_exists'.mp (newd operation)
    rw [available] at settled
    rw [access]
    refine ⟨⟨_, _, _, .free ?_ ?_ fun _ => ?_, settled⟩, others⟩
    · rwa [access]
    · rwa [access]
    · rw [access]
      rfl
  | writeReplace operation absent _ eldest _ settled =>
    have access := ofWrite operation
    obtain ⟨entry, available⟩ := Option.ne_none_iff_exists'.mp (newd operation)
    rw [available] at settled
    rw [access]
    refine ⟨⟨_, _, _, .eldest ?_ ?_ rfl, settled⟩, others⟩
    · rwa [access]
    · rwa [access]

/-- Inside the memory and with all allocations granted, an admitted command returns. -/
theorem Sound.progress (sound : Sound system) (admitted : Admitted system call)
    (allocated : call.allocations.Succeed)
    (inside : call.paddr.address + 16 ≤ system.memSpace.size) :
    ∃ next reply, executeCommand system call = .ok (next, reply) ∧ reply.code = .errNone := by
  rcases executeCommand_cases sound admitted with ⟨next, reply, ran, outcome⟩ | ⟨_, lacks⟩
  · exact ⟨next, reply, ran, outcome.success allocated⟩
  · exact (lacks ⟨allocated, inside⟩).elim

end KabyLake
