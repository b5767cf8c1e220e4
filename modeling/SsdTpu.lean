import SsdTpu.Loop
import SsdTpu.Greedy
import SsdTpu.Scheduler
import SsdTpu.Conservation
import SsdTpu.Verify
import SsdTpu.Adapter
import SsdTpu.ToyModel
import SsdTpu.GemmaAdapter
import SsdTpu.SpecCache
import SsdTpu.Priors
import SsdTpu.Metrics
import SsdTpu.DraftWorker
import SsdTpu.Engine
import SsdTpu.Lossless
import SsdTpu.KvAlignment
import SsdTpu.Generate
import SsdTpu.Lifecycle
import SsdTpu.Transparency
import SsdTpu.Isolation
import SsdTpu.Agreement
import SsdTpu.Resample
import SsdTpu.VerifySample
import SsdTpu.QueueDiscipline
import SsdTpu.CacheHistory
import SsdTpu.Branches
import SsdTpu.BatchServing
import SsdTpu.Incremental
import SsdTpu.Proposals
import SsdTpu.Prediction
import SsdTpu.PageTables
import SsdTpu.AsyncProtocol
import SsdTpu.Rollback
import SsdTpu.AdmissionFailure
import SsdTpu.Chunked
import SsdTpu.Delivery
import SsdTpu.KvCache
import SsdTpu.LogitsCompress
import SsdTpu.Retrieval
import SsdTpu.ModelCache
import SsdTpu.Throughput
import SsdTpu.BranchExpansion
import SsdTpu.Masks
import SsdTpu.MeshAllocator
import SsdTpu.Streaming
import SsdTpu.Rounds
import SsdTpu.Synchrony
import SsdTpu.Gemma4Adapter
import SsdTpu.Starvation
import SsdTpu.PagedMemory
import SsdTpu.KvIsolation
import SsdTpu.Driven
import SsdTpu.Threads
import SsdTpu.PrefixAttention
import SsdTpu.ResampleChain
import SsdTpu.RowLaw
import SsdTpu.Drafting
import SsdTpu.GemmaServing
import SsdTpu.ToyServing
import SsdTpu.Returns
