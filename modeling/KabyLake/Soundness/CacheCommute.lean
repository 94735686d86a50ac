import KabyLake.Proofs.CacheFootprint
import KabyLake.Soundness.CacheTransparency

/-! # Accesses to different sets commute

A command touches the bytes of its block, one line of the L1 cache of its kind and one line of L2.
Where the sets of two aligned commands differ these are apart, so the two orders end in the same
system with the same replies.
-/

namespace KabyLake

open Machine

/-- The cells of the system: the sizes of its arrays and what the arrays hold. -/
inductive CacheCell where
  | memorySize
  | byte (x : ℕ)
  | l1Size (access : MemAccess)
  | l1Entry (access : MemAccess) (k : ℕ)
  | l2Size
  | l2Entry (k : ℕ)

def CacheCell.Value : CacheCell → Type
  | memorySize | l1Size _ | l2Size => ℕ
  | byte _ => BitVec 8
  | l1Entry _ _ | l2Entry _ => Entry

def CacheSystem.cell (system : CacheSystem) : (cell : CacheCell) → cell.Value
  | .memorySize => system.memSpace.size
  | .byte x => system.memSpace.byte x
  | .l1Size access => (system.l1Cache access).size
  | .l1Entry access k => (system.l1Cache access).entry k
  | .l2Size => system.l2Cache.size
  | .l2Entry k => system.l2Cache.entry k

theorem CacheSystem.cell_injective : Function.Injective CacheSystem.cell := by
  have memories {left right : MemSpace} (sizes : left.size = right.size)
      (bytes : ∀ x, left.byte x = right.byte x) : left = right := by
    cases left
    cases right
    congr
    exact funext bytes
  have arrays {left right : Cache} (sizes : left.size = right.size)
      (entries : ∀ k, left.entry k = right.entry k) : left = right := by
    cases left
    cases right
    congr
    exact funext entries
  intro system other same
  have memory : system.memSpace = other.memSpace :=
    memories (congrFun same .memorySize) fun x => congrFun same (.byte x)
  have l1 (access : MemAccess) : system.l1Cache access = other.l1Cache access :=
    arrays (congrFun same (.l1Size access)) fun k => congrFun same (.l1Entry access k)
  have l2 : system.l2Cache = other.l2Cache :=
    arrays (congrFun same .l2Size) fun k => congrFun same (.l2Entry k)
  cases system
  cases other
  congr
  · exact l1 .INSTRUCTION
  · exact l1 .DATA

/-- The cells that a command may write. -/
inductive CacheCall.Touches (call : CacheCall) : CacheCell → Prop
  | byte {x : ℕ} : x ∈ lineBytes call.paddr.address → Touches call (.byte x)
  | l1Entry {access : MemAccess} {k : ℕ} : access = call.access →
      k ∈ lineCells access.cacheType (call.lineIn access) → Touches call (.l1Entry access k)
  | l2Entry {k : ℕ} : k ∈ lineCells .L2_CACHE (l2Index call.paddr) → Touches call (.l2Entry k)

/-- The cells that a command may read. -/
inductive CacheCall.Sees (call : CacheCall) : CacheCell → Prop
  | touched {cell : CacheCell} : call.Touches cell → Sees call cell
  | memorySize : Sees call .memorySize
  | l1Size (access : MemAccess) : Sees call (.l1Size access)
  | l2Size : Sees call .l2Size

section Footprint

variable {call : CacheCall} {system system' next next' : CacheSystem}

/-- What happened to the memory, to one L1 cache and to L2 is what happened to the cells. -/
private theorem twin_cells (agree : ∀ cell ∈ {cell | call.Sees cell}, system.cell cell = system'.cell cell)
    (memory : MemSpace.Twin call.paddr.address system.memSpace system'.memSpace next.memSpace
      next'.memSpace)
    (l1 : Cache.Twin (lineCells call.access.cacheType (call.lineIn call.access))
      (system.l1Cache call.access) (system'.l1Cache call.access) (next.l1Cache call.access)
      (next'.l1Cache call.access))
    (l2 : Cache.Twin (lineCells .L2_CACHE (l2Index call.paddr)) system.l2Cache system'.l2Cache
      next.l2Cache next'.l2Cache)
    (others : ∀ other, other ≠ call.access → next.l1Cache other = system.l1Cache other ∧
      next'.l1Cache other = system'.l1Cache other) :
    Twin {cell | call.Touches cell} system.cell system'.cell next.cell next'.cell := by
  have sizes : system.memSpace.size = system'.memSpace.size := agree .memorySize .memorySize
  have sizes1 : (system.l1Cache call.access).size = (system'.l1Cache call.access).size :=
    agree (.l1Size _) (.l1Size _)
  have sizes2 : system.l2Cache.size = system'.l2Cache.size := agree .l2Size .l2Size
  refine ⟨?_, ?_, ?_⟩
  · rintro _ (inside | ⟨rfl, inside⟩ | inside)
    · exact memory.byte.inside _ inside
    · exact l1.entry.inside _ inside
    · exact l2.entry.inside _ inside
  · intro cell outside
    cases cell with
    | memorySize => exact memory.size
    | byte x => exact memory.byte.outside x fun inside => outside (.byte inside)
    | l1Size access =>
      rcases eq_or_ne access call.access with rfl | other
      · exact l1.size
      · exact congrArg Cache.size (others access other).1
    | l1Entry access k =>
      rcases eq_or_ne access call.access with rfl | other
      · exact l1.entry.outside k fun inside => outside (.l1Entry rfl inside)
      · exact congrArg (Cache.entry · k) (others access other).1
    | l2Size => exact l2.size
    | l2Entry k => exact l2.entry.outside k fun inside => outside (.l2Entry inside)
  · intro cell outside
    cases cell with
    | memorySize => exact memory.size'.trans sizes
    | byte x => exact memory.byte.outside' x fun inside => outside (.byte inside)
    | l1Size access =>
      rcases eq_or_ne access call.access with rfl | other
      · exact l1.size'.trans sizes1
      · exact congrArg Cache.size (others access other).2
    | l1Entry access k =>
      rcases eq_or_ne access call.access with rfl | other
      · exact l1.entry.outside' k fun inside => outside (.l1Entry rfl inside)
      · exact congrArg (Cache.entry · k) (others access other).2
    | l2Size => exact l2.size'.trans sizes2
    | l2Entry k => exact l2.entry.outside' k fun inside => outside (.l2Entry inside)

private theorem l1Cache_read (system : CacheSystem) (access other : MemAccess) (l1 l2 : Cache) :
    CacheSystem.l1Cache { system.withL1Cache access l1 with l2Cache := l2 } other =
      if other = access then l1 else system.l1Cache other := by
  cases access <;> cases other <;> rfl

/-- In a sound system an aligned command keeps to its cells. -/
theorem executeCommand_footprint (aligned : call.paddr.address % 16 = 0) :
    Footprint CacheSystem.cell Sound {cell | call.Sees cell} {cell | call.Touches cell}
      (fun system => executeCommand system call) where
  seen _ touched := .touched touched
  keeps _ _ _ sound stepped := (sound.outcome (.aligned aligned) stepped).sound sound
  twin system system' sound sound' agree := by
    have room : (system.l1Cache call.access).Room call.access.cacheType :=
      (sound.formed call.access).room
    have memory : MemSpace.Twin call.paddr.address system.memSpace system'.memSpace system.memSpace
        system'.memSpace :=
      .initial (agree .memorySize .memorySize).symm fun x inside =>
        agree (.byte x) (.touched (.byte inside))
    have l1 : Cache.Twin (lineCells call.access.cacheType (call.lineIn call.access))
        (system.l1Cache call.access) (system'.l1Cache call.access) (system.l1Cache call.access)
        (system'.l1Cache call.access) :=
      .initial (agree (.l1Size _) (.l1Size _)).symm fun k inside =>
        agree (.l1Entry _ k) (.touched (.l1Entry rfl inside))
    have l2 : Cache.Twin (lineCells .L2_CACHE (l2Index call.paddr)) system.l2Cache system'.l2Cache
        system.l2Cache system'.l2Cache :=
      .initial (agree .l2Size .l2Size).symm fun k inside =>
        agree (.l2Entry k) (.touched (.l2Entry inside))
    cases operation : call.operation with
    | read access =>
      obtain rfl : call.access = access := by rw [CacheCall.access, operation]
      simp only [executeCommand, operation]
      refine (cacheRead_twin call.word sound.quiet sound'.quiet memory call.access room l1).bind ?_
      intro reply reply' both
      refine .ok ⟨by rw [both.code, both.word.of_same], twin_cells agree ?_ ?_ ?_ fun other different => ?_⟩
      · simpa only [CacheSystem.memSpace_withL1Cache] using memory
      · simpa only [l1Cache_read, ↓reduceIte] using both.l1Cache
      · simpa only [both.l2Cache, both.l2Cache'] using l2
      · simp only [l1Cache_read, different, ↓reduceIte, and_self]
    | write =>
      have access : call.access = .DATA := by rw [CacheCall.access, operation]
      simp only [executeCommand, operation]
      rw [access] at room l1
      refine (cacheWrite_twin call.word sound.quiet sound'.quiet memory room l1 l2).bind ?_
      intro reply reply' both
      refine .ok ⟨by rw [both.code], twin_cells agree both.memSpace ?_ both.l2Cache fun other different => ?_⟩
      · rw [access]
        exact both.l1Cache
      · rw [access] at different
        cases other with
        | INSTRUCTION => exact ⟨rfl, rfl⟩
        | DATA => exact (different rfl).elim

end Footprint

section Commute

variable {first second : CacheCall}

theorem l2Index_eq (paddr : PhyAddr) : l2Index paddr = paddr.address / 16 % 512 := by
  rw [l2Index, BitVec.toNat_and, BitVec.toNat_ushiftRight, Nat.shiftRight_eq_div_pow]
  exact Nat.and_two_pow_sub_one_eq_mod _ 9

theorem lineCells_apart {type : CacheType} {s t : ℕ} (different : s ≠ t) :
    ∀ k ∈ lineCells type s, k ∉ lineCells type t := by
  rintro _ ⟨i, hi, rfl⟩ ⟨j, hj, same⟩
  exact different ((Cache.cacheEntry_inj hi hj).mp same).1

/-- Commands of different sets do not see what the other one touches. -/
theorem touches_apart (aligned : first.paddr.address % 16 = 0)
    (aligned' : second.paddr.address % 16 = 0)
    (different : first.paddr.address / 16 % 64 ≠ second.paddr.address / 16 % 64) :
    ∀ cell ∈ {cell | first.Touches cell}, cell ∉ {cell | second.Sees cell} := by
  rintro _ (inside | ⟨rfl, inside⟩ | inside) (seen | _ | _ | _)
  · cases seen with
    | byte inside' =>
      obtain ⟨low, high⟩ := inside
      obtain ⟨low', high'⟩ := inside'
      omega
  · cases seen with
    | l1Entry _ inside' =>
      refine lineCells_apart ?_ _ inside inside'
      simpa only [CacheCall.lineIn, MemAccess.lineOf_cacheType] using different
  · cases seen with
    | l2Entry inside' =>
      refine lineCells_apart ?_ _ inside inside'
      rw [l2Index_eq, l2Index_eq]
      omega

def executeBoth (system : CacheSystem) (first second : CacheCall) :
    Exec (CacheSystem × CacheReply × CacheReply) := do
  let (system, reply) ← executeCommand system first
  let (system, reply') ← executeCommand system second
  return (system, reply, reply')

theorem executeBoth_iff {system next : CacheSystem} {reply reply' : CacheReply} :
    executeBoth system first second = .ok (next, reply, reply') ↔
      ∃ middle, executeCommand system first = .ok (middle, reply) ∧
        executeCommand middle second = .ok (next, reply') := by
  constructor
  · intro both
    obtain ⟨⟨middle, _⟩, stepped, rest⟩ := bind_eq_ok_iff.mp both
    obtain ⟨⟨last, _⟩, stepped', result⟩ := bind_eq_ok_iff.mp rest
    cases result
    exact ⟨middle, stepped, stepped'⟩
  · rintro ⟨middle, stepped, stepped'⟩
    simp only [executeBoth, stepped, stepped', ok_bind, pure_eq_ok]

/-- Sound systems do not tell the order of aligned commands of different sets. -/
theorem Sound.executeBoth_swap {system next : CacheSystem} {reply reply' : CacheReply}
    (sound : Sound system) (aligned : first.paddr.address % 16 = 0)
    (aligned' : second.paddr.address % 16 = 0)
    (different : first.paddr.address / 16 % 64 ≠ second.paddr.address / 16 % 64)
    (ran : executeBoth system first second = .ok (next, reply, reply')) :
    executeBoth system second first = .ok (next, reply', reply) := by
  obtain ⟨middle, stepped, stepped'⟩ := executeBoth_iff.mp ran
  obtain ⟨other, early, late⟩ := (executeCommand_footprint aligned).commute
    CacheSystem.cell_injective (executeCommand_footprint aligned')
    (touches_apart aligned aligned' different)
    (touches_apart aligned' aligned different.symm) sound stepped stepped'
  exact executeBoth_iff.mpr ⟨other, early, late⟩

variable {memSpace : MemSpace} {system : CacheSystem} {history : List (CacheCall × CacheReply)}

/-- After every run of aligned commands, two aligned commands of different sets have the same effect
and the same replies in either order; inside the memory and with all allocations granted both orders
succeed. -/
theorem executeBoth_comm_of_run
    (run : Run executeCommand (fun _ call => call.paddr.address % 16 = 0) (.zero memSpace) history system)
    (aligned : first.paddr.address % 16 = 0) (aligned' : second.paddr.address % 16 = 0)
    (different : first.paddr.address / 16 % 64 ≠ second.paddr.address / 16 % 64) :
    (∀ next reply reply', executeBoth system first second = .ok (next, reply, reply') ↔
      executeBoth system second first = .ok (next, reply', reply)) ∧
    (first.allocations.Succeed → first.paddr.address + 16 ≤ system.memSpace.size →
      second.allocations.Succeed → second.paddr.address + 16 ≤ system.memSpace.size →
      ∃ next reply reply', executeBoth system first second = .ok (next, reply, reply') ∧
        reply.code = .errNone ∧ reply'.code = .errNone) := by
  obtain ⟨sound, _⟩ := coherent_of_run (run.mono fun _ _ aligned => .aligned aligned)
  refine ⟨fun next reply reply' => ⟨?_, ?_⟩, fun allocated inside allocated' inside' => ?_⟩
  · exact sound.executeBoth_swap aligned aligned' different
  · exact sound.executeBoth_swap aligned' aligned different.symm
  · obtain ⟨middle, reply, stepped, success⟩ := sound.progress (.aligned aligned) allocated inside
    have footprint := executeCommand_footprint aligned
    have size : middle.memSpace.size = system.memSpace.size :=
      footprint.frame sound stepped (i := .memorySize) (by rintro ⟨⟩)
    obtain ⟨next, reply', stepped', success'⟩ := (footprint.keeps _ _ _ sound stepped).progress
      (.aligned aligned') allocated' (size ▸ inside')
    exact ⟨next, reply, reply', executeBoth_iff.mpr ⟨middle, stepped, stepped'⟩, success, success'⟩

theorem executeBoth_comm_of_run_neighbours : ∃ next reply reply',
    executeBoth (.zero blankMemory) (dataWrite 0 7) (dataRead 16) = .ok (next, reply, reply') ∧
      executeBoth (.zero blankMemory) (dataRead 16) (dataWrite 0 7) = .ok (next, reply', reply) ∧
      reply.code = .errNone ∧ reply'.code = .errNone := by
  have start : Run executeCommand (fun _ call => call.paddr.address % 16 = 0) (.zero blankMemory) []
      (.zero blankMemory) := .nil
  have aligned : (dataWrite 0 7).paddr.address % 16 = 0 := by decide
  have aligned' : (dataRead 16).paddr.address % 16 = 0 := by decide
  obtain ⟨order, progress⟩ := executeBoth_comm_of_run start aligned aligned' (by decide)
  obtain ⟨next, reply, reply', ran, success, success'⟩ :=
    progress granted_succeed (by decide) granted_succeed (by decide)
  exact ⟨next, reply, reply', ran, (order _ _ _).mp ran, success, success'⟩

end Commute

end KabyLake
