import KabyLake.Model.MemoryDescription
import KabyLake.Stdio.File

/-! # Reading memory from binary files

`page_file_read` and `mem_init_from_dumpfile` of `memory.c`. A name that cannot be opened has no
file, and `fread` to a block transfers its bytes or faults.
-/

namespace KabyLake

open Stdio

/-- Replace the bytes from `a` on. -/
def MemSpace.putBytes (memory : MemSpace) (a : ℕ) (bytes : Text) : MemSpace where
  size := memory.size
  byte x := if a ≤ x ∧ x < a + bytes.length then bytes.getD (x - a) 0 else memory.byte x

/-- What `fread` to `memory + a` does with the bytes that it transfers. -/
def storeBytes (memory : Option MemSpace) (a : ℕ) (bytes : Text) : Exec (Option MemSpace) :=
  if bytes = [] then .ok memory
  else match memory with
    | none => .error .nullPointer
    | some memory =>
      if a + bytes.length ≤ memory.size then .ok (some (memory.putBytes a bytes))
      else .error .memoryBounds

/-- `page_file_read`. The result of its `fread` is not looked at. -/
def pageFileRead (files : Text → Option DiskFile) (filename : Option Text)
    (memory : Option MemSpace) (address : BitVec 32) : Exec (ErrorCode × Option MemSpace) :=
  match filename with
  | none => .ok (.errBadParameter, memory)
  | some filename => match files filename with
    | none => .ok (.errBadParameter, memory)
    | some file =>
      let (status, stream) := (fopen file).fseekEnd
      if ¬ status > 0 then .ok (.errBadParameter, memory)
      else
        let memCapacityInBytes := BitVec.ofInt 64 stream.ftell
        let stream := stream.rewind
        if memCapacityInBytes ≠ 4096 then .ok (.errIo, memory)
        else do
          let memory ← storeBytes memory address.toNat (stream.fread memCapacityInBytes.toNat)
          return (.errNone, memory)

/-- `mem_init_from_dumpfile`, with the outcome of its `malloc`. A file of `none` cannot be opened, and
is closed all the same. The pointer that `malloc` returns is not looked at. -/
def memInitFromDumpfile (file : Option DiskFile) (outcome : Option (ℕ → Byte)) : Exec LoadReply :=
  match file with
  | none => .error .nullPointer
  | some file => do
    let stream := (fopen file).fseekEnd.2
    let memCapacityInBytes := BitVec.ofInt 64 stream.ftell
    let stream := stream.rewind
    let memory := outcome.map fun garbage => ⟨memCapacityInBytes.toNat, garbage⟩
    let bytes := stream.fread memCapacityInBytes.toNat
    let memory ← storeBytes memory 0 bytes
    if ¬ bytes.length > 0 then return ⟨.errBadParameter, memory, memCapacityInBytes⟩
    else return ⟨.errNone, memory, memCapacityInBytes⟩

/-- `fseek` never returns a positive number, so no page is ever read. -/
theorem pageFileRead_eq (files : Text → Option DiskFile) (filename : Option Text)
    (memory : Option MemSpace) (address : BitVec 32) :
    pageFileRead files filename memory address = .ok (.errBadParameter, memory) := by
  cases filename with
  | none => rfl
  | some filename =>
    cases opened : files filename with
    | none => simp only [pageFileRead, opened]
    | some file =>
      simp only [pageFileRead, opened]
      exact if_pos (not_lt.mpr (fopen file).fseekEnd_status)

end KabyLake
