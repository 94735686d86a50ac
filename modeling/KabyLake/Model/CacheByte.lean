import KabyLake.Model.CacheMng

/-! # Reading and writing bytes through the cache hierarchy

`cache_read_byte` and `cache_write_byte` only reach the caches through `cache_read` and
`cache_write`, which are a parameter here: a memory of words with any state.
-/

namespace KabyLake

/-- The two functions on words, with what they leave in the state and in `*word`. -/
structure WordLayer (σ : Type) where
  cacheRead : σ → PhyAddr → MemAccess → BitVec 32 → Exec (ErrorCode × σ × BitVec 32)
  cacheWrite : σ → PhyAddr → BitVec 32 → Exec (ErrorCode × σ)

variable {σ : Type}

/-- `cache_read_byte`; `byte` is what `*p_byte` holds before it, and `word` is what `malloc` hands out. -/
def cacheReadByte (layer : WordLayer σ) (state : σ) (paddr : PhyAddr) (access : MemAccess)
    (byte : BitVec 8) (word : Option (BitVec 32)) : Exec (ErrorCode × σ × BitVec 8) := do
  let byteSelect := (phyAddrTToUint32T paddr &&& 0b11#32).toNat
  match word with
  | none => return (.errBadParameter, state, byte)
  | some word =>
    let (err, state, word) ← layer.cacheRead state paddr access word
    if err ≠ .errNone then return (.errBadParameter, state, byte)
    else return (.errNone, state, ((word >>> (byteSelect * 8)) &&& 0b11111111#32).setWidth 8)

/-- `cache_write_byte`: the byte is combined with the word that was read by `|=`. -/
def cacheWriteByte (layer : WordLayer σ) (state : σ) (paddr : PhyAddr) (byte : BitVec 8)
    (word : Option (BitVec 32)) : Exec (ErrorCode × σ) := do
  let byteSelect := (phyAddrTToUint32T paddr &&& 0b11#32).toNat
  match word with
  | none => return (.errBadParameter, state)
  | some word =>
    let (err, state, word) ← layer.cacheRead state paddr .DATA word
    if err ≠ .errNone then return (.errBadParameter, state)
    else
      let (err, state) ← layer.cacheWrite state paddr (word ||| byte.setWidth 32 <<< (8 * byteSelect))
      if err ≠ .errNone then return (.errBadParameter, state)
      else return (.errNone, state)

/-- The word functions of the caches, with the outcomes of their allocations. -/
def CacheSystem.wordLayer (reading writing : Allocations) : WordLayer CacheSystem where
  cacheRead system paddr access word := do
    let reply ← cacheRead system.memSpace paddr access (system.l1Cache access) system.l2Cache word
      reading
    return (reply.code, { system.withL1Cache access reply.l1Cache with l2Cache := reply.l2Cache },
      reply.word)
  cacheWrite system paddr word := do
    let reply ← cacheWrite system.memSpace paddr system.l1DCache system.l2Cache word writing
    return (reply.code, { system with
      memSpace := reply.memSpace, l1DCache := reply.l1Cache, l2Cache := reply.l2Cache })

end KabyLake
