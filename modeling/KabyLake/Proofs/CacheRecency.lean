import KabyLake.Math.AgeCounters
import KabyLake.Proofs.CacheCoherent

/-! # The ages of an L1 line and the order of its accesses

The ways of a line are a bank of age counters, and every access touches one of them. The ages
therefore never contradict the order of the last accesses, whatever bound an access ages with. They
decide it as long as no miss clears an age without ageing the other ways, which is what
`LRU_age_update` does after `cache_insert` has stored the age zero.
-/

namespace KabyLake

open AgeCounters

variable {type : CacheType} {cache before after : Cache} {s tag bound : ℕ} {line : Line}

/-- The ways of a line with their tags and ages. -/
def Cache.bank (cache : Cache) (type : CacheType) (s : ℕ) : Bank (Fin type.ways) ℕ where
  live i := (cache.slot type s i).v = true
  key i := (cache.slot type s i).tag type
  age i := (cache.slot type s i).age type

/-- An access that leaves the cache well formed touches its way. -/
theorem Accessed.touched {w : Fin type.ways} (accessed : Accessed type s w tag bound line before after)
    (formed : Formed type after) (hs : s < type.lines) :
    Touched (before.bank type s) w tag bound (after.bank type s) where
  here := accessed.v
  key := accessed.tag
  age := accessed.age
  live i other := by
    simp only [Cache.bank]
    rw [(accessed.block i i.isLt (Fin.val_ne_of_ne other)).v]
  kept i other _ := (accessed.block i i.isLt (Fin.val_ne_of_ne other)).tag
  other i other valid same := by
    apply other
    apply Fin.ext
    exact formed.distinct s hs i i.isLt w w.isLt valid accessed.v (same.trans accessed.tag.symm)
  rises i other _ := accessed.ages i i.isLt (Fin.val_ne_of_ne other)

theorem Accessed.bank_other {t w : ℕ} (accessed : Accessed type s w tag bound line before after)
    (other : t ≠ s) : after.bank type t = before.bank type t := by
  unfold Cache.bank
  congr 1 <;> funext i <;> rw [accessed.slot_other other i.isLt]

/-- The tags of the successful accesses to one line of one L1 cache, newest first. -/
def accesses (access : MemAccess) (s : ℕ) (history : List (CacheCall × CacheReply)) : List ℕ :=
  (history.filter fun event =>
    event.2.code = .errNone ∧ event.1.access = access ∧ event.1.lineIn access = s).map
    fun event => event.1.tagIn access

/-- The calls at block-aligned addresses, except for writes that get no memory after their lookup. -/
structure CacheCall.Served (call : CacheCall) : Prop where
  aligned : call.paddr.address % 16 = 0
  newLine : call.operation = .write → call.allocations.newLine = true
  newd : call.operation = .write → call.allocations.newd ≠ none

variable {system next : CacheSystem} {call : CacheCall} {reply : CacheReply}
  {history : List (CacheCall × CacheReply)} {access : MemAccess}

theorem accesses_cons_self (success : reply.code = .errNone) :
    accesses call.access (call.lineIn call.access) ((call, reply) :: history) =
      call.tagIn call.access :: accesses call.access (call.lineIn call.access) history := by
  simp [accesses, success]

theorem accesses_cons_other
    (other : ¬ (reply.code = .errNone ∧ call.access = access ∧ call.lineIn access = s)) :
    accesses access s ((call, reply) :: history) = accesses access s history := by
  simp [accesses, other]

/-- A served call that reports an error changes nothing. -/
theorem Outcome.unchanged (outcome : Outcome system call next reply) (served : call.Served)
    (failure : reply.code ≠ .errNone) : next = system := by
  cases outcome with
  | refused => rfl
  | writeRefused operation _ _ newLine =>
    rw [served.newLine operation] at newLine
    contradiction
  | readHit | readFill | writeHit | writeFill | writeReplace => contradiction

/-- One served call: what holds of all lines and their accesses still holds, if it holds after the
access that the call makes. -/
theorem Outcome.bank_invariant (inv : ∀ type : CacheType, Bank (Fin type.ways) ℕ → List ℕ → Prop)
    (outcome : Outcome system call next reply) (served : call.Served)
    (holds : ∀ access s, inv access.cacheType ((system.l1Cache access).bank access.cacheType s)
      (accesses access s history))
    (touches : ∀ w bound line, Placed system call w bound →
      Accessed call.access.cacheType (call.lineIn call.access) w (call.tagIn call.access) bound line
        (system.l1Cache call.access) (next.l1Cache call.access) →
      inv call.access.cacheType
        ((next.l1Cache call.access).bank call.access.cacheType (call.lineIn call.access))
        (call.tagIn call.access :: accesses call.access (call.lineIn call.access) history))
    (access : MemAccess) (s : ℕ) :
    inv access.cacheType ((next.l1Cache access).bank access.cacheType s)
      (accesses access s ((call, reply) :: history)) := by
  rcases eq_or_ne reply.code .errNone with success | failure
  · obtain ⟨⟨w, bound, line, placed, accessed⟩, others⟩ := outcome.accessed served.newd success
    rcases eq_or_ne access call.access with rfl | cacheOther
    · rcases eq_or_ne s (call.lineIn call.access) with rfl | lineOther
      · rw [accesses_cons_self success]
        exact touches w bound line placed accessed
      · rw [accessed.bank_other lineOther, accesses_cons_other fun same => lineOther same.2.2.symm]
        exact holds _ s
    · rw [others access cacheOther, accesses_cons_other fun same => cacheOther same.2.1.symm]
      exact holds access s
  · rw [outcome.unchanged served failure, accesses_cons_other fun same => failure same.1]
    exact holds access s

/-- One served call keeps the ages of all lines from contradicting their accesses. -/
theorem Outcome.ranked (outcome : Outcome system call next reply) (served : call.Served)
    (sound : Sound next)
    (ranked : ∀ access s, Ranked ((system.l1Cache access).bank access.cacheType s)
      (accesses access s history)) (access : MemAccess) (s : ℕ) :
    Ranked ((next.l1Cache access).bank access.cacheType s)
      (accesses access s ((call, reply) :: history)) := by
  apply outcome.bank_invariant (fun _ => Ranked) served ranked
  intro w bound line placed accessed
  have touched := Accessed.touched (w := ⟨w, placed.way⟩) accessed (sound.formed _)
    (CacheType.lineOf_lt _ _)
  exact touched.ranked (ranked _ _)

/-- The calls that keep the ages graded: hits, writes that find an invalid way, and first accesses
to a line. -/
inductive Gradual (system : CacheSystem) (call : CacheCall) : Prop
  | hit {w : ℕ} : Holds call.access.cacheType (system.l1Cache call.access) call.paddr.address w →
      Gradual system call
  | write {w : ℕ} : call.operation = .write →
      Free call.access.cacheType (system.l1Cache call.access) (call.lineIn call.access) w →
      Gradual system call
  | first : Free call.access.cacheType (system.l1Cache call.access) (call.lineIn call.access) 0 →
      Gradual system call

/-- One gradual call keeps the ages of all lines graded. -/
theorem Outcome.graded (outcome : Outcome system call next reply) (served : call.Served)
    (gradual : Gradual system call) (sound : Sound system)
    (graded : ∀ access s, Graded ((system.l1Cache access).bank access.cacheType s)
      (accesses access s history)) (access : MemAccess) (s : ℕ) :
    Graded ((next.l1Cache access).bank access.cacheType s)
      (accesses access s ((call, reply) :: history)) := by
  apply outcome.bank_invariant (fun _ => Graded) served graded
  intro w bound line placed accessed
  have hs : call.lineIn call.access < call.access.cacheType.lines := CacheType.lineOf_lt _ _
  have touched := Accessed.touched (w := ⟨w, placed.way⟩) accessed ((outcome.sound sound).formed _) hs
  have before := graded call.access (call.lineIn call.access)
  cases placed with
  | held holds own => exact touched.graded_of_live before holds.v holds.tag own
  | free absent free above =>
    apply touched.graded_of_first before
    · exact fun i earlier => free.first i earlier
    · simp [Cache.bank, free.invalid]
    · intro i live
      cases gradual with
      | hit holds => exact (absent _ holds).elim
      | write operation _ =>
        rw [above operation]
        have young := before.age_lt (w := ⟨w, free.way⟩) live (by simp [Cache.bank, free.invalid])
        have := free.way
        omega
      | first first => exact ((sound.formed _).empty hs first i.isLt live).elim
  | eldest absent eldest _ =>
    cases gradual with
    | hit holds => exact (absent _ holds).elim
    | write _ free | first free => exact (free.not_full eldest.full).elim

end KabyLake
