import Mathlib.Data.List.Nodup

/-! # A least-recently-used buffer that may lose slots

The slots of a buffer in the order of their last use, the oldest one first. Using an entry moves it to
the end, and a new entry replaces what the oldest slot holds. Where moving the oldest slot fails the
slot is lost instead, as long as it is not the only one.
-/

namespace LruBuffer

variable {κ ν : Type*}

/-- The slots, the oldest one first; an empty slot holds no entry. -/
abbrev Slots (κ ν : Type*) := List (Option (κ × ν))

/-- The keys of the entries. -/
def keys (slots : Slots κ ν) : List κ := slots.filterMap (Option.map Prod.fst)

/-- The entry of `k` is used. If `failed` says so, the oldest slot is lost on the way. -/
inductive Used (k : κ) (v : ν) (failed : Prop) : Slots κ ν → Slots κ ν → Prop
  | moved {older newer : Slots κ ν} : ¬ (failed ∧ older = [] ∧ newer ≠ []) →
      Used k v failed (older ++ some (k, v) :: newer) (older ++ newer ++ [some (k, v)])
  | lost {newer : Slots κ ν} : failed → newer ≠ [] → Used k v failed (some (k, v) :: newer) newer

/-- An entry for `k` takes the oldest slot. If `failed` says so, the slot is lost on the way. -/
inductive Entered (k : κ) (v : ν) (failed : Prop) : Slots κ ν → Slots κ ν → Prop
  | replaced {slot : Option (κ × ν)} {rest : Slots κ ν} : ¬ (failed ∧ rest ≠ []) →
      Entered k v failed (slot :: rest) (rest ++ [some (k, v)])
  | lost {slot : Option (κ × ν)} {rest : Slots κ ν} : failed → rest ≠ [] →
      Entered k v failed (slot :: rest) rest

section

variable {before after : Slots κ ν} {k : κ} {v : ν} {failed : Prop} {entry : κ × ν}

@[simp] theorem keys_nil : keys ([] : Slots κ ν) = [] := rfl

@[simp] theorem keys_cons_none (slots : Slots κ ν) : keys (none :: slots) = keys slots := rfl

@[simp] theorem keys_cons_some (slots : Slots κ ν) : keys (some entry :: slots) = entry.1 :: keys slots := rfl

@[simp] theorem keys_append (front back : Slots κ ν) : keys (front ++ back) = keys front ++ keys back :=
  List.filterMap_append

theorem mem_keys : k ∈ keys before ↔ ∃ v, some (k, v) ∈ before := by
  simp only [keys, List.mem_filterMap, Option.map_eq_some_iff, Prod.exists]
  constructor
  · rintro ⟨_, member, _, value, rfl, rfl⟩
    exact ⟨value, member⟩
  · rintro ⟨value, member⟩
    exact ⟨_, member, k, value, rfl, rfl⟩

/-- The slot was there before. -/
theorem Used.found (used : Used k v failed before after) : some (k, v) ∈ before := by
  cases used with
  | moved => exact List.mem_append_right _ (List.mem_cons_self ..)
  | lost => exact List.mem_cons_self ..

/-- Using an entry brings no other one in. -/
theorem Used.mem (used : Used k v failed before after) (member : some entry ∈ after) :
    some entry ∈ before := by
  cases used with
  | moved =>
    simp only [List.append_assoc, List.mem_append, List.mem_cons, List.not_mem_nil, or_false] at member ⊢
    tauto
  | lost => exact List.mem_cons_of_mem _ member

theorem Used.keys_nodup (used : Used k v failed before after) (distinct : (keys before).Nodup) :
    (keys after).Nodup := by
  cases used with
  | @moved older newer =>
    rw [keys_append, keys_cons_some] at distinct
    rw [keys_append, keys_append, keys_cons_some, keys_nil]
    refine List.Perm.nodup ?_ distinct
    rw [List.append_assoc]
    exact ((List.perm_append_singleton _ _).symm).append_left _
  | lost =>
    rw [keys_cons_some] at distinct
    exact distinct.of_cons

/-- A new entry comes in at most. -/
theorem Entered.mem (entered : Entered k v failed before after) (member : some entry ∈ after) :
    some entry ∈ before ∨ entry = (k, v) := by
  cases entered with
  | replaced =>
    rcases List.mem_append.mp member with old | new
    · exact .inl (List.mem_cons_of_mem _ old)
    · exact .inr (by simpa using new)
  | lost => exact .inl (List.mem_cons_of_mem _ member)

theorem Entered.keys_nodup (entered : Entered k v failed before after) (absent : k ∉ keys before)
    (distinct : (keys before).Nodup) : (keys after).Nodup := by
  have tail {slot : Option (κ × ν)} {rest : Slots κ ν} : (keys rest).Sublist (keys (slot :: rest)) :=
    (List.sublist_cons_self slot rest).filterMap _
  cases entered with
  | replaced =>
    rw [keys_append, keys_cons_some, keys_nil]
    refine List.nodup_append.mpr ⟨distinct.sublist tail, List.nodup_singleton _, ?_⟩
    rintro key member _ new rfl
    obtain rfl := List.mem_singleton.mp new
    exact absent (tail.subset member)
  | lost => exact distinct.sublist tail

/-- A buffer loses a slot only where moving it failed, and never the last one. -/
theorem Used.length (used : Used k v failed before after) : after ≠ [] ∧
    (after.length = before.length ∨ failed ∧ after.length + 1 = before.length) := by
  cases used with
  | moved => exact ⟨by simp, .inl (by simp)⟩
  | lost failed several => exact ⟨several, .inr ⟨failed, rfl⟩⟩

theorem Entered.length (entered : Entered k v failed before after) : after ≠ [] ∧
    (after.length = before.length ∨ failed ∧ after.length + 1 = before.length) := by
  cases entered with
  | replaced => exact ⟨by simp, .inl (by simp)⟩
  | lost failed several => exact ⟨several, .inr ⟨failed, rfl⟩⟩

end

end LruBuffer
