import Lzmalloc.PointerChain
import Lzmalloc.DoublyLinked
import Lzmalloc.StepSystem
import Lzmalloc.ByteMemory
import Lzmalloc.SizeClasses
import Lzmalloc.BootstrapAllocator
import Lzmalloc.PosixHooks
import Lzmalloc.HeapState
import Lzmalloc.VirtualMemoryManager
import Lzmalloc.Engines
import Lzmalloc.ThreadHeap
import Lzmalloc.PublicApi
import Lzmalloc.Mappings
import Lzmalloc.HeapInvariant
import Lzmalloc.InvariantFacts
import Lzmalloc.SlabBlocks
import Lzmalloc.BinLists
import Lzmalloc.ChunkCaches
import Lzmalloc.RegionTrimming
import Lzmalloc.VmmRaces
import Lzmalloc.VmmContracts
import Lzmalloc.RadixTree
import Lzmalloc.RadixTreeRaces
import Lzmalloc.RemoteRaces
import Lzmalloc.DeliveryContracts
import Lzmalloc.HeapOwnership
import Lzmalloc.ChunkRoles
import Lzmalloc.ChunkTransfer
import Lzmalloc.ClientView
import Lzmalloc.SlabLifecycle
import Lzmalloc.SlabAllocation
import Lzmalloc.SpanPages
import Lzmalloc.SpanLifecycle
import Lzmalloc.RemoteFree
import Lzmalloc.ThreadFrames
import Lzmalloc.FreeFootprint
import Lzmalloc.ObjectRanges
import Lzmalloc.HeapOperations
import Lzmalloc.ConcreteView
import Lzmalloc.TelemetryBooks
import Lzmalloc.EngineRuns
import Lzmalloc.SlabContracts
import Lzmalloc.SpanContracts
import Lzmalloc.DirectObjects
import Lzmalloc.ThreadLifecycle
import Lzmalloc.ApiOperations
import Lzmalloc.ApiRuns
import Lzmalloc.SpanPlacement
import Lzmalloc.SlabPlacement
import Lzmalloc.CallParts
import Lzmalloc.Collection
import Lzmalloc.CollectionContracts
import Lzmalloc.ObjectContracts
import Lzmalloc.ChunkContracts
import Lzmalloc.DirectContracts
import Lzmalloc.AlignedContracts
import Lzmalloc.ClientBytes
import Lzmalloc.ReservationContracts
import Lzmalloc.ReapContracts
import Lzmalloc.PayloadContracts
import Lzmalloc.HookRuns
import Lzmalloc.ReallocContracts
import Lzmalloc.RegistrationFrames
import Lzmalloc.UsablePointers
import Lzmalloc.TelemetryLedger
import Lzmalloc.TelemetryContracts
import Lzmalloc.SingleThreadTelemetry
import Lzmalloc.AbstractHeap
import Lzmalloc.HeapRefinement
import Lzmalloc.HookRefinement
import Lzmalloc.MappingContracts
import Lzmalloc.LockedBlocks
import Lzmalloc.VmmLocks
import Lzmalloc.MemoryBlind
import Lzmalloc.TwinStates
import Lzmalloc.Noninterference
