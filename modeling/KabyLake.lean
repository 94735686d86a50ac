import KabyLake.Soundness.Addr
import KabyLake.Soundness.CacheBounds
import KabyLake.Soundness.CacheByte
import KabyLake.Soundness.CacheByteRun
import KabyLake.Soundness.CacheCommute
import KabyLake.Soundness.CacheContainment
import KabyLake.Soundness.CacheDump
import KabyLake.Soundness.CacheLookup
import KabyLake.Soundness.CacheLru
import KabyLake.Soundness.CacheMove
import KabyLake.Soundness.CacheObservation
import KabyLake.Soundness.CacheReorder
import KabyLake.Soundness.CacheSnapshot
import KabyLake.Soundness.CacheTransparency
import KabyLake.Soundness.CacheVictim
import KabyLake.Soundness.CacheWriteMove
import KabyLake.Soundness.CommandFaults
import KabyLake.Soundness.FlatMemory
import KabyLake.Soundness.LinkedList
import KabyLake.Soundness.LruAges
import KabyLake.Soundness.MallocContents
import KabyLake.Soundness.MemoryBounds
import KabyLake.Soundness.MemoryDescription
import KabyLake.Soundness.MemoryDump
import KabyLake.Soundness.MemoryFile
import KabyLake.Soundness.PageWalk
import KabyLake.Soundness.PrintedPage
import KabyLake.Soundness.PrintedText
import KabyLake.Soundness.Program
import KabyLake.Soundness.ProgramAdmission
import KabyLake.Soundness.ProgramExecution
import KabyLake.Soundness.ProgramLife
import KabyLake.Soundness.ProgramRead
import KabyLake.Soundness.Tlb
import KabyLake.Soundness.TlbBuffer
import KabyLake.Soundness.TlbHrchy
import KabyLake.Soundness.TlbHrchyTables
import KabyLake.Soundness.TlbInvalidation
import KabyLake.Soundness.TranslationRun
