import Mathlib.Data.BitVec

/-! # Little-endian words over a byte-addressed store

A 32-bit word at byte address `a` is made of the bytes at `a` to `a + 3`, the least significant
one first. The store is any function from addresses to bytes.
-/

namespace LittleEndian

/-- The word assembled from the four bytes at `a`. -/
def word (bytes : ℕ → BitVec 8) (a : ℕ) : BitVec 32 :=
  bytes (a + 3) ++ bytes (a + 2) ++ bytes (a + 1) ++ bytes a

/-- Byte `k` of a word, counted from the least significant one. -/
def byte (w : BitVec 32) (k : ℕ) : BitVec 8 := w.extractLsb' (8 * k) 8

variable {bytes other : ℕ → BitVec 8} {a b : ℕ}

/-- Byte `k` of the assembled word is the byte stored at `a + k`. -/
theorem byte_word (k : ℕ) (bound : k < 4) : byte (word bytes a) k = bytes (a + k) := by
  obtain rfl | rfl | rfl | rfl : k = 0 ∨ k = 1 ∨ k = 2 ∨ k = 3 := by omega
  all_goals
    apply BitVec.eq_of_getLsbD_eq
    intro i inside
    simp only [byte, word, BitVec.getLsbD_extractLsb', BitVec.getLsbD_append, inside, decide_true,
      Bool.true_and]
  · simp [inside]
  · simp [show ¬ 8 + i < 8 by omega, show 8 + i - 8 = i by omega, inside]
  · simp [show ¬ 16 + i < 8 by omega, show ¬ 16 + i - 8 < 8 by omega,
      show 16 + i - 8 - 8 = i by omega, inside]
  · simp [show ¬ 24 + i < 8 by omega, show ¬ 24 + i - 8 < 8 by omega,
      show ¬ 24 + i - 8 - 8 < 8 by omega, show 24 + i - 8 - 8 - 8 = i by omega]

/-- Words with the same four bytes are equal. -/
theorem eq_of_byte_eq {x y : BitVec 32} (same : ∀ k < 4, byte x k = byte y k) : x = y := by
  apply BitVec.eq_of_getLsbD_eq
  intro i inside
  have at_byte := congrArg (fun piece => BitVec.getLsbD piece (i % 8)) (same (i / 8) (by omega))
  simpa only [byte, BitVec.getLsbD_extractLsb', Nat.mod_lt i (by decide : 8 > 0), decide_true,
    Bool.true_and, Nat.div_add_mod] using at_byte

/-- The word at `a` only depends on the four bytes stored there. -/
theorem word_congr (same : ∀ k < 4, bytes (a + k) = other (b + k)) :
    word bytes a = word other b := by
  apply eq_of_byte_eq
  intro k bound
  rw [byte_word k bound, byte_word k bound, same k bound]

/-- Storing the bytes of a word at `a` makes it the word at `a`. -/
theorem word_eq_of_bytes {w : BitVec 32} (stored : ∀ k < 4, bytes (a + k) = byte w k) :
    word bytes a = w := by
  apply eq_of_byte_eq
  intro k bound
  rw [byte_word k bound, stored k bound]

/-- Merging a byte into a word at byte `k` changes that byte only. -/
theorem byte_or_shiftLeft (w : BitVec 32) (b : BitVec 8) {k j : ℕ} (bound : j < 4) :
    byte (w ||| b.setWidth 32 <<< (8 * k)) j = if j = k then byte w j ||| b else byte w j := by
  apply BitVec.eq_of_getLsbD_eq
  intro i inside
  have fits : 8 * j + i < 32 := by omega
  rcases Nat.lt_trichotomy j k with before | rfl | after
  · have below : 8 * j + i < 8 * k := by omega
    simp [byte, before.ne, inside, fits, below]
  · have own : ¬ 8 * j + i < 8 * j := by omega
    simp [byte, inside, fits, own]
  · have above : ¬ 8 * j + i < 8 * k := by omega
    have outside : b.getLsbD (8 * j + i - 8 * k) = false := BitVec.getLsbD_of_ge _ _ (by omega)
    simp [byte, after.ne', inside, fits, above, outside]

/-- A word shifted down to byte `k` and masked. -/
theorem setWidth_shiftRight_and (w : BitVec 32) (k : ℕ) :
    ((w >>> (k * 8)) &&& 0b11111111#32).setWidth 8 = byte w k := by
  apply BitVec.eq_of_getLsbD_eq
  intro i inside
  have mask : (0b11111111#32).getLsbD i = true := by
    rw [show (0b11111111#32) = BitVec.setWidth 32 (BitVec.allOnes 8) from rfl,
      BitVec.getLsbD_setWidth, BitVec.getLsbD_allOnes]
    simp only [inside, decide_true, Bool.and_true, decide_eq_true_eq]
    omega
  rw [BitVec.getLsbD_setWidth, BitVec.getLsbD_and, mask, BitVec.getLsbD_ushiftRight, byte,
    BitVec.getLsbD_extractLsb', Nat.mul_comm k 8, Bool.and_true]

end LittleEndian
