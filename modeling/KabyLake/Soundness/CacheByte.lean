import KabyLake.Model.CacheByte
import KabyLake.Proofs.CacheSystem

/-! # Bytes over words

Over any memory of words, `cache_read_byte` returns the byte at its address. `cache_write_byte` merges
the byte into the one that is there, so that it writes the byte exactly if this has no other bit set.
-/

namespace KabyLake

variable {σ : Type}

def byteAt (words : ℕ → BitVec 32) (a : ℕ) : BitVec 8 := LittleEndian.byte (words (a / 4)) (a % 4)

/-- The word functions read and replace the word that contains the byte address, in the memory that
`words` sees in a state. -/
structure WordLayer.Contract (layer : WordLayer σ) (words : σ → ℕ → BitVec 32) : Prop where
  cacheRead : ∀ state paddr access word, ∃ next,
    layer.cacheRead state paddr access word = .ok (.errNone, next, words state (paddr.address / 4)) ∧
      words next = words state
  cacheWrite : ∀ state paddr word, ∃ next, layer.cacheWrite state paddr word = .ok (.errNone, next) ∧
    words next = Function.update (words state) (paddr.address / 4) word

def ReadsByte (layer : WordLayer σ) (state : σ) (paddr : PhyAddr) (byte : BitVec 8) : Prop :=
  ∀ access prior garbage, ∃ next,
    cacheReadByte layer state paddr access prior (some garbage) = .ok (.errNone, next, byte)

/-- The byte at the address is replaced and all others stay, in the memory and as they are read. -/
structure ByteWritten (layer : WordLayer σ) (words : σ → ℕ → BitVec 32) (state next : σ)
    (paddr : PhyAddr) (byte : BitVec 8) : Prop where
  here : byteAt (words next) paddr.address = byte
  others : ∀ a, a ≠ paddr.address → byteAt (words next) a = byteAt (words state) a
  readHere : ReadsByte layer next paddr byte
  readOthers : ∀ other content, other.address ≠ paddr.address → ReadsByte layer state other content →
    ReadsByte layer next other content

variable {layer : WordLayer σ} {words : σ → ℕ → BitVec 32}

theorem WordLayer.Contract.readsByte (contract : layer.Contract words) (state : σ) (paddr : PhyAddr) :
    ReadsByte layer state paddr (byteAt (words state) paddr.address) := by
  intro access prior garbage
  obtain ⟨next, read, _⟩ := contract.cacheRead state paddr access garbage
  refine ⟨next, ?_⟩
  simp only [cacheReadByte, read, Machine.ok_bind, ne_eq, not_true_eq_false, ↓reduceIte,
    byteSelect_toNat, LittleEndian.setWidth_shiftRight_and, Machine.pure_eq_ok]
  rfl

theorem ReadsByte.unique {state : σ} {paddr : PhyAddr} {byte other : BitVec 8}
    (left : ReadsByte layer state paddr byte) (right : ReadsByte layer state paddr other) :
    byte = other := by
  obtain ⟨next, first⟩ := left .DATA 0 0
  obtain ⟨next', second⟩ := right .DATA 0 0
  have same := Except.ok.inj (first.symm.trans second)
  simp only [Prod.mk.injEq] at same
  exact same.2.2

/-- `cache_write_byte` merges the byte into the one at its address and leaves the others. -/
theorem WordLayer.Contract.cacheWriteByte (contract : layer.Contract words) (state : σ)
    (paddr : PhyAddr) (byte : BitVec 8) (garbage : BitVec 32) :
    ∃ next, cacheWriteByte layer state paddr byte (some garbage) = .ok (.errNone, next) ∧
      ∀ a, byteAt (words next) a =
        if a = paddr.address then byteAt (words state) a ||| byte else byteAt (words state) a := by
  obtain ⟨middle, read, kept⟩ := contract.cacheRead state paddr .DATA garbage
  obtain ⟨next, written, replaced⟩ := contract.cacheWrite middle paddr
    (words state (paddr.address / 4) ||| byte.setWidth 32 <<< (8 * (paddr.address % 4)))
  refine ⟨next, ?_, fun a => ?_⟩
  · simp only [KabyLake.cacheWriteByte, read, Machine.ok_bind, ne_eq, not_true_eq_false, ↓reduceIte,
      byteSelect_toNat, written, Machine.pure_eq_ok]
  · rw [byteAt, replaced, kept]
    rcases eq_or_ne (a / 4) (paddr.address / 4) with word | other
    · rw [word, Function.update_self, LittleEndian.byte_or_shiftLeft _ _ (Nat.mod_lt _ (by decide)),
        byteAt, word]
      have same : a % 4 = paddr.address % 4 ↔ a = paddr.address := by omega
      simp only [same]
    · rw [Function.update_of_ne other, if_neg, byteAt]
      rintro rfl
      exact other rfl

/-- A byte write replaces the byte at its address and nothing else if and only if the byte that is
there has no bit set that the new byte has not. -/
theorem byteWritten_iff (contract : layer.Contract words) (state : σ) (paddr : PhyAddr)
    (byte : BitVec 8) (garbage : BitVec 32) :
    (∃ next, cacheWriteByte layer state paddr byte (some garbage) = .ok (.errNone, next) ∧
      ByteWritten layer words state next paddr byte) ↔
      byteAt (words state) paddr.address ||| byte = byte := by
  obtain ⟨next, written, bytes⟩ := contract.cacheWriteByte state paddr byte garbage
  constructor
  · rintro ⟨next', written', replaced⟩
    obtain rfl : next = next' := (Prod.mk.inj (Except.ok.inj (written.symm.trans written'))).2
    have here := replaced.here
    rwa [bytes, if_pos rfl] at here
  · intro covered
    have here : byteAt (words next) paddr.address = byte := by rw [bytes, if_pos rfl, covered]
    have others : ∀ a, a ≠ paddr.address → byteAt (words next) a = byteAt (words state) a :=
      fun a other => by rw [bytes, if_neg other]
    refine ⟨next, written, here, others, ?_, ?_⟩
    · have read := contract.readsByte next paddr
      rwa [here] at read
    · intro other content apart before
      have read := contract.readsByte next other
      rwa [others _ apart, (contract.readsByte state other).unique before] at read

private def plainLayer : WordLayer (ℕ → BitVec 32) where
  cacheRead state paddr _ _ := .ok (.errNone, state, state (paddr.address / 4))
  cacheWrite state paddr word := .ok (.errNone, Function.update state (paddr.address / 4) word)

private theorem plainLayer_contract : plainLayer.Contract id where
  cacheRead state _ _ _ := ⟨state, rfl, rfl⟩
  cacheWrite _ _ _ := ⟨_, rfl, rfl⟩

theorem byteWritten_iff_plain : ∃ next,
    cacheWriteByte plainLayer (fun _ => 0x0800#32) ⟨0, 1⟩ 0xAA#8 (some 0) = .ok (.errNone, next) ∧
      ByteWritten plainLayer id (fun _ => 0x0800#32) next ⟨0, 1⟩ 0xAA#8 :=
  (byteWritten_iff plainLayer_contract _ _ _ _).mpr (by decide)

/-- Writing `0x02` over the `0x01` at address 1 gives `0x03`. -/
theorem byte_merged : ∃ next,
    cacheWriteByte plainLayer (fun _ => 0x0100#32) ⟨0, 1⟩ 0x02#8 (some 0) = .ok (.errNone, next) ∧
      byteAt next 1 = 0x03#8 ∧
      ¬ ByteWritten plainLayer id (fun _ => 0x0100#32) next ⟨0, 1⟩ 0x02#8 := by
  refine ⟨_, rfl, by decide, fun written => ?_⟩
  exact absurd written.here (by decide)

example : (cacheWriteByte (CacheSystem.wordLayer granted granted)
    (.zero ⟨16, fun _ => 0x01#8⟩) ⟨0, 0⟩ 0x02#8 (some 0)).map
      (fun result => result.2.memSpace.byte 0) = .ok 0x03#8 := by decide +kernel

end KabyLake
