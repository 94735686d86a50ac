import Mathlib.Data.BitVec

/-! # Bit-fields packed in one storage unit

A C compiler lays several bit-fields of a structure out in one machine word. A field is a range
`[lo, lo + w)` of bits of that word: reading extracts the range, and assignment replaces it and
leaves every other bit alone. Two views of one word may cut it into different ranges, so fields
are ranges of a shared word here and not components of a record.
-/

namespace BitVec

variable {n w v : ℕ}

/-- Assign the bit-field of width `w` that starts at bit `lo`. -/
def setField (x : BitVec n) (lo : ℕ) (value : BitVec w) : BitVec n :=
  (x &&& ~~~((BitVec.allOnes w).setWidth n <<< lo)) ||| (value.setWidth n <<< lo)

theorem getLsbD_setField (x : BitVec n) (lo : ℕ) (value : BitVec w) (i : ℕ) (inside : i < n) :
    (x.setField lo value).getLsbD i =
      if lo ≤ i ∧ i < lo + w then value.getLsbD (i - lo) else x.getLsbD i := by
  simp only [setField, getLsbD_or, getLsbD_and, getLsbD_not, getLsbD_shiftLeft, getLsbD_setWidth,
    getLsbD_allOnes, inside, decide_true, Bool.true_and]
  have below : i - lo < n := by omega
  by_cases start : i < lo
  · simp [start]
  · by_cases stop : i < lo + w
    · simp [start, stop, below, show lo ≤ i by omega, show i - lo < w by omega]
    · have beyond : value.getLsbD (i - lo) = false := getLsbD_of_ge _ _ (by omega)
      simp [start, stop, below, beyond, show ¬ i - lo < w by omega]

/-- An assigned field reads back as the assigned value. -/
theorem extractLsb'_setField (x : BitVec n) (lo : ℕ) (value : BitVec w) (fits : lo + w ≤ n) :
    (x.setField lo value).extractLsb' lo w = value := by
  apply eq_of_getLsbD_eq
  intro i bound
  rw [getLsbD_extractLsb', getLsbD_setField _ _ _ _ (by omega)]
  simp [bound]

/-- Assignment to one field leaves every disjoint field as it was. -/
theorem extractLsb'_setField_of_disjoint (x : BitVec n) (lo : ℕ) (value : BitVec w) (start : ℕ)
    (disjoint : start + v ≤ lo ∨ lo + w ≤ start) :
    (x.setField lo value).extractLsb' start v = x.extractLsb' start v := by
  apply eq_of_getLsbD_eq
  intro i bound
  rw [getLsbD_extractLsb', getLsbD_extractLsb']
  by_cases inside : start + i < n
  · rw [getLsbD_setField _ _ _ _ inside, if_neg (by omega)]
  · rw [getLsbD_of_ge _ _ (by omega), getLsbD_of_ge _ _ (by omega)]

/-- A single bit below a field is not changed by assignment to the field. -/
theorem getLsbD_setField_of_lt (x : BitVec n) (lo : ℕ) (value : BitVec w) (i : ℕ) (below : i < lo) :
    (x.setField lo value).getLsbD i = x.getLsbD i := by
  by_cases inside : i < n
  · rw [getLsbD_setField _ _ _ _ inside, if_neg (by omega)]
  · rw [getLsbD_of_ge _ _ (by omega), getLsbD_of_ge _ _ (by omega)]

end BitVec
