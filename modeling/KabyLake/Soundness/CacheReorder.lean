import KabyLake.Machine.Reordering
import KabyLake.Soundness.CacheCommute

/-! # Only the order within a set matters

Commands of different sets commute, so that a sequence of aligned commands may be reordered freely as
long as the commands of each L1 set keep their order: each command replies what it replied before, and
the memory and the caches are the same at the end.
-/

namespace KabyLake

open Machine

def CacheCall.set (call : CacheCall) : ℕ := call.paddr.address / 16 % 64

variable {memSpace : MemSpace} {system : CacheSystem} {history : List (CacheCall × CacheReply)}

private theorem commutes_of_run {middle final : CacheSystem} {first second : CacheCall}
    {reply reply' : CacheReply}
    (run : Run executeCommand (fun _ call => call.paddr.address % 16 = 0) (.zero memSpace) history system)
    (aligned : first.paddr.address % 16 = 0) (aligned' : second.paddr.address % 16 = 0)
    (apart : second.set ≠ first.set) (stepped : executeCommand system first = .ok (middle, reply))
    (stepped' : executeCommand middle second = .ok (final, reply')) :
    ∃ other, executeCommand system second = .ok (other, reply') ∧
      executeCommand other first = .ok (final, reply) := by
  obtain ⟨sound, _⟩ := coherent_of_run (run.mono fun _ _ aligned => .aligned aligned)
  have both := executeBoth_iff.mpr ⟨middle, stepped, stepped'⟩
  exact executeBoth_iff.mp (sound.executeBoth_swap aligned aligned' apart.symm both)

/-- Every sequence of commands that has the commands of each set in the order of a run of aligned
commands is a run to the same system, in which each command has the reply it had before. -/
theorem run_reorder {calls : List CacheCall}
    (run : Run executeCommand (fun _ call => call.paddr.address % 16 = 0) (.zero memSpace) history system)
    (same : ∀ s, (history.map Prod.fst).filter (·.set = s) = calls.filter (·.set = s)) :
    ∃ reordered, Run executeCommand (fun _ call => call.paddr.address % 16 = 0) (.zero memSpace)
        reordered system ∧ reordered.map Prod.fst = calls ∧
      ∀ s, reordered.filter (·.1.set = s) = history.filter (·.1.set = s) := by
  obtain ⟨reordered, labels, shuffled⟩ := (Shuffle.of_filter_eq CacheCall.set same).lift
  refine ⟨reordered, ?_, labels, fun s => (shuffled.filter_eq s).symm⟩
  refine Run.shuffle (fun first second : CacheCall => first.set ≠ second.set) ?_ run shuffled
  intro history state middle final first second reply reply' run
  exact commutes_of_run run

theorem run_reorder_front : ∃ system reply reply' reordered,
    Run executeCommand (fun _ call => call.paddr.address % 16 = 0) (.zero blankMemory)
        [(dataRead 32, reply'), (dataRead 16, reply), (dataWrite 16 7, ⟨.errNone, 7⟩)] system ∧
      Run executeCommand (fun _ call => call.paddr.address % 16 = 0) (.zero blankMemory) reordered
        system ∧ reordered.map Prod.fst = [dataRead 16, dataWrite 16 7, dataRead 32] := by
  obtain ⟨system, reply, reply', run⟩ : ∃ system reply reply',
      Run executeCommand (fun _ call => call.paddr.address % 16 = 0) (.zero blankMemory)
        [(dataRead 32, reply'), (dataRead 16, reply), (dataWrite 16 7, ⟨.errNone, 7⟩)] system :=
    ⟨_, _, _, .snoc (.snoc (.snoc .nil rfl rfl) rfl rfl) rfl rfl⟩
  have front : (dataRead 16).set = 1 ∧ (dataWrite 16 7).set = 1 ∧ (dataRead 32).set = 2 := by decide
  have same (s : ℕ) : [dataRead 32, dataRead 16, dataWrite 16 7].filter (·.set = s) =
      [dataRead 16, dataWrite 16 7, dataRead 32].filter (·.set = s) := by
    simp only [List.filter_cons, List.filter_nil, front, decide_eq_true_eq]
    split <;> split <;> first | rfl | omega
  obtain ⟨reordered, again, labels, _⟩ := run_reorder run same
  exact ⟨system, reply, reply', reordered, run, again, labels⟩

end KabyLake
