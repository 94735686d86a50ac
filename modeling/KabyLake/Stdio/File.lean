import KabyLake.Stdio.Stream

/-! # Binary files

A file on the disk is what reading it shows: its bytes, whether a position can be set in it, and
where a read error occurs. The functions on an open file return what the C standard says they
return, zero for success and minus one for failure where they have a status.
-/

namespace Stdio

/-- A file that can be opened for reading. Its positions are numbers of type `long`. -/
structure DiskFile where
  bytes : Text
  seekable : Bool
  /-- the number of bytes that can be read before a read error -/
  readable : ℕ
  small : bytes.length < 2 ^ 63

/-- A file opened with `"rb"`. -/
structure BinaryStream where
  file : DiskFile
  position : ℕ

/-- `fopen` of a file that can be opened. -/
def fopen (file : DiskFile) : BinaryStream := ⟨file, 0⟩

namespace BinaryStream

variable (stream : BinaryStream)

/-- `fseek(stream, 0, SEEK_END)`. -/
def fseekEnd : ℤ × BinaryStream :=
  if stream.file.seekable then (0, { stream with position := stream.file.bytes.length })
  else (-1, stream)

/-- `ftell`. -/
def ftell : ℤ := if stream.file.seekable then stream.position else -1

/-- `rewind`, which has no status. -/
def rewind : BinaryStream := if stream.file.seekable then { stream with position := 0 } else stream

/-- The bytes that `fread` transfers when it is asked for `count` of them. -/
def fread (count : ℕ) : Text :=
  ((stream.file.bytes.take stream.file.readable).drop stream.position).take count

/-- `fseek` never returns a positive number. -/
theorem fseekEnd_status : stream.fseekEnd.1 ≤ 0 := by
  rw [fseekEnd]
  split
  · exact le_rfl
  · exact (by decide : (-1 : ℤ) ≤ 0)

end BinaryStream

variable (file : DiskFile)

/-- The size of a file is its position after `fseek` to the end. -/
theorem ftell_fseekEnd :
    (fopen file).fseekEnd.2.ftell = if file.seekable then (file.bytes.length : ℤ) else -1 := by
  cases seekable : file.seekable with
  | true => simp [BinaryStream.fseekEnd, BinaryStream.ftell, fopen, seekable]
  | false => simp [BinaryStream.fseekEnd, BinaryStream.ftell, fopen, seekable]

theorem rewind_fseekEnd : (fopen file).fseekEnd.2.rewind = fopen file := by
  cases seekable : file.seekable with
  | true => simp [BinaryStream.fseekEnd, BinaryStream.rewind, fopen, seekable]
  | false => simp [BinaryStream.fseekEnd, BinaryStream.rewind, fopen, seekable]

/-- A read of at least one byte transfers nothing if the file is empty or cannot be read. -/
theorem fread_fopen_eq_nil {count : ℕ} (positive : 0 < count) :
    (fopen file).fread count = [] ↔ file.bytes = [] ∨ file.readable = 0 := by
  simp only [BinaryStream.fread, fopen, List.drop_zero, List.take_eq_nil_iff, positive.ne', false_or]
  exact Or.comm

end Stdio
