import OS161.FlatMemory
import OS161.Exclusive
import OS161.Teardown
import OS161.SwapSpace
import OS161.UserMemory
import OS161.Writeback
import OS161.Process
import OS161.ProcWait
import OS161.Stats
import OS161.TlbCount
import OS161.DemandLoad
import OS161.AccessRights
import OS161.Livelock
import OS161.Emu
import OS161.KmallocSafe
import OS161.Semaphore
import OS161.Semfs
import OS161.VfsNames
import OS161.SfsCalls
import OS161.SfsOffsets
import OS161.SfsCut
import OS161.SfsSync
import OS161.Lhd
import OS161.SfsExtend
import OS161.SfsRuns
import OS161.SfsBytes
import OS161.BitmapSet
import OS161.Hangman
import OS161.Iovec
import OS161.CopyFaults
import OS161.KmallocKernel
import OS161.SemfsListing
import OS161.Snprintf
import OS161.PrintfNumbers
import OS161.ArrayGrow
import OS161.ConsoleInput
