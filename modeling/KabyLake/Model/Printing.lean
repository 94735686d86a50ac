import KabyLake.Model.Cache
import KabyLake.Stdio.Numeral

/-! # Printing addresses and caches

The printing functions of `addr_mng.c` and `cache_mng.c`, each with what it appends to its stream. The
width macros of the format strings only say how an argument is passed; every number is printed whole.
-/

namespace KabyLake

open Stdio

/-- `print_virtual_address`; it returns the number of characters. -/
def printVirtualAddress (vaddr : VirtAddr) : ℕ × Text :=
  let text := literal ['P', 'G', 'D', '=', '0', 'x'] ++ numeral 16 vaddr.pgdEntry.toNat ++
    literal [';', ' ', 'P', 'U', 'D', '=', '0', 'x'] ++ numeral 16 vaddr.pudEntry.toNat ++
    literal [';', ' ', 'P', 'M', 'D', '=', '0', 'x'] ++ numeral 16 vaddr.pmdEntry.toNat ++
    literal [';', ' ', 'P', 'T', 'E', '=', '0', 'x'] ++ numeral 16 vaddr.pteEntry.toNat ++
    literal [';', ' ', 'o', 'f', 'f', 's', 'e', 't', '=', '0', 'x'] ++ numeral 16 vaddr.pageOffset.toNat
  (text.length, text)

/-- `print_physical_address`; it returns the number of characters. -/
def printPhysicalAddress (paddr : PhyAddr) : ℕ × Text :=
  let text := literal ['p', 'a', 'g', 'e', ' ', 'n', 'u', 'm', '=', '0', 'x'] ++
    numeral 16 paddr.phyPageNum.toNat ++
    literal [';', ' ', 'o', 'f', 'f', 's', 'e', 't', '=', '0', 'x'] ++ numeral 16 paddr.pageOffset.toNat
  (text.length, text)

/-- `PRINT_CACHE_LINE` for a valid line and `PRINT_INVALID_CACHE_LINE` for any other. -/
def printCacheLine (type : CacheType) (entry : Entry) : Text :=
  if entry.v then
    literal ['V', ':', ' '] ++ lowerNumeral 1 1 ++
      literal [',', ' ', 'A', 'G', 'E', ':', ' '] ++ lowerNumeral 1 (entry.age type) ++
      literal [',', ' ', 'T', 'A', 'G', ':', ' ', '0', 'x'] ++ lowerNumeral 3 (entry.tag type) ++
      literal [',', ' ', 'v', 'a', 'l', 'u', 'e', 's', ':', ' ', '(', ' '] ++
      (List.range 4).flatMap (fun i =>
        literal ['0', 'x'] ++ lowerNumeral 8 (entry.line.word i).toNat ++ literal [' ']) ++
      literal [')', '\n']
  else
    literal ['V', ':', ' '] ++ lowerNumeral 1 0 ++
      literal [',', ' ', 'A', 'G', 'E', ':', ' ', '-', ',', ' ', 'T', 'A', 'G', ':', ' ', '-', '-', '-',
        '-', '-', ',', ' ', 'v', 'a', 'l', 'u', 'e', 's', ':', ' ', '(', ' '] ++
      (List.range 4).flatMap (fun _ =>
        literal ['-', '-', '-', '-', '-', '-', '-', '-', '-', '-', ' ']) ++
      literal [')', '\n']

/-- `"%02" PRIx8 "/%04" PRIx16 ": "` for the way and the line. -/
def printPosition (way index : ℕ) : Text :=
  lowerNumeral 2 way ++ literal ['/'] ++ lowerNumeral 4 index ++ literal [':', ' ']

/-- The ways of all lines, in the order of the loops of `DUMP_CACHE_TYPE`. -/
def CacheType.positions (type : CacheType) : List (ℕ × ℕ) :=
  (List.range type.lines).flatMap fun index => (List.range type.ways).map fun way => (index, way)

/-- The body of the loops of `DUMP_CACHE_TYPE`. -/
def dumpCacheEntry (type : CacheType) (cache : Cache) (position : ℕ × ℕ) : Exec Text := do
  let entry ← cache.load (cacheEntry type.ways position.1 position.2)
  return printPosition position.2 position.1 ++ printCacheLine type entry

/-- `cache_dump`. -/
def cacheDump (cache : Cache) (type : CacheType) : Exec (ErrorCode × Text) := do
  let texts ← type.positions.mapM (dumpCacheEntry type cache)
  return (.errNone, literal ['W', 'A', 'Y', '/', 'L', 'I', 'N', 'E', ':', ' ', 'V', ':', ' ', 'A', 'G', 'E',
    ':', ' ', 'T', 'A', 'G', ':', ' ', 'W', 'O', 'R', 'D', 'S', '\n'] ++ texts.flatten ++ literal ['\n'])

end KabyLake
