import FindataEngine.Types
import FindataEngine.Calls
import FindataEngine.StdLib
import FindataEngine.MemoryLayer
import FindataEngine.MemoryInvariant
import FindataEngine.MemoryConcurrency
import FindataEngine.BatchInsert
import FindataEngine.FileNames
import FindataEngine.DiskLayer
import FindataEngine.DiskCompaction
import FindataEngine.DiskInvariant
import FindataEngine.DiskRead
import FindataEngine.Recovery
import FindataEngine.Engine
import FindataEngine.FlushReads
import FindataEngine.DiskConcurrency
import FindataEngine.EngineConcurrency
import FindataEngine.EngineQueries
import FindataEngine.LRUCache
import FindataEngine.LRURefinement
import FindataEngine.BufferBound
import FindataEngine.DeltaCodec
import FindataEngine.SeriesCodec
import FindataEngine.SeriesRoundTrip
import FindataEngine.MemoryInterleavings
import FindataEngine.Durability
import FindataEngine.BatchEquivalence
import FindataEngine.DiskInterleavings
import FindataEngine.MappedFile
import FindataEngine.EngineSymbols
import FindataEngine.EngineInterleavings
