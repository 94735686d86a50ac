import KabyLake.Machine.Run

/-! # Error codes and faults

The library reports expected failures through the codes of `error.h`. What the C language leaves
undefined is kept apart: an access outside an object, a dereference of `NULL` or of a freed node,
and a traversal that never ends are faults, and a fault ends the execution without a result.
-/

namespace KabyLake

/-- The internal error codes of `error.h`. -/
inductive ErrorCode where
  | errNone | errMem | errIo | errBadParameter | errEof | errAddr | errSize | errPolicy | errLast
deriving DecidableEq, Repr

/-- The ways in which an execution leaves defined behaviour. -/
inductive Fault where
  /-- a byte of `mem_space` outside the memory -/
  | memoryBounds
  /-- an entry outside the array of a cache or of a TLB -/
  | arrayBounds
  | nullPointer
  /-- a list node that is not allocated, or is freed a second time -/
  | danglingPointer
  /-- a loop over a cyclic list -/
  | divergence
deriving DecidableEq, Repr

/-- Computations that may fault. -/
abbrev Exec := Except Fault

end KabyLake
