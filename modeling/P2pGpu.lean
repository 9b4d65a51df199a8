import P2pGpu.Data.Table
import P2pGpu.Data.Tiling
import P2pGpu.Data.Reach
import P2pGpu.Protocol.Error
import P2pGpu.Protocol.Ids
import P2pGpu.Protocol.Invariants
import P2pGpu.Coordinator.TaskState
import P2pGpu.Coordinator.Affinity
import P2pGpu.Coordinator.Composite
import P2pGpu.Coordinator.Job
import P2pGpu.Coordinator.Job.Carve
import P2pGpu.Coordinator.Job.Partition
import P2pGpu.Coordinator.Job.Queue
import P2pGpu.Coordinator.Job.Peek
import P2pGpu.Coordinator.Store
import P2pGpu.Coordinator.Store.Durable
import P2pGpu.Coordinator.Store.LastWrite
import P2pGpu.Coordinator.Store.Restart
import P2pGpu.Coordinator.Job.Siblings
import P2pGpu.Coordinator.Server.Sound
import P2pGpu.Coordinator.Server.Leases
import P2pGpu.Coordinator.Server.Family
import P2pGpu.Coordinator.Server.Standing
import P2pGpu.Coordinator.Server.Presence
import P2pGpu.Coordinator.Server.Fraction
import P2pGpu.Coordinator.Job.Speculation
import P2pGpu.Coordinator.Server.Operated
import P2pGpu.Coordinator.Server.Voters
import P2pGpu.Coordinator.Server.Connections
import P2pGpu.Coordinator.Server.Published
import P2pGpu.Coordinator.Server.GroundTruth
import P2pGpu.Coordinator.Server.Render
import P2pGpu.Coordinator.Quorum.Voters
import P2pGpu.Coordinator.Reputation.Tokens
import P2pGpu.Coordinator.Reputation.Probation
import P2pGpu.Coordinator.Server.Starvation
import P2pGpu.Coordinator.Store.Mirror
import P2pGpu.Coordinator.Job.Partials
import P2pGpu.Coordinator.Server.Lifetimes
import P2pGpu.Protocol.Frame
import P2pGpu.Worker.KernelHost
import P2pGpu.Kernels.BruteSearch.Keyspace
import P2pGpu.Kernels.BruteSearch.Chunks
import P2pGpu.Kernels.PathtraceTile.Work
import P2pGpu.Coordinator.Composite.Render
import P2pGpu.Worker.Fetch.Transfer
import P2pGpu.Scene.Build.Tree
import P2pGpu.Kernels.PathtraceTile
import P2pGpu.Coordinator.Server.Signals
import P2pGpu.Coordinator.Server.Corrections
import P2pGpu.Worker.Fetch.Purity
import P2pGpu.Worker.Fetch.Servers
import P2pGpu.Worker.Fetch.Addresses
import P2pGpu.Worker.Loop.Parked
import P2pGpu.Worker.Loop.Lease
import P2pGpu.Worker.Inbox
import P2pGpu.Coordinator.Validator.Ulp
import P2pGpu.Coordinator.Validator.Same
import P2pGpu.Coordinator.Sizer.Bounds
import P2pGpu.Coordinator.Metrics.Document
import P2pGpu.Worker.AssetCache
import P2pGpu.Kernels.PathtraceTile.Scenes
import P2pGpu.Kernels.PathtraceTile.Accumulate
import P2pGpu.Coordinator.Server.Revokes
import P2pGpu.Grid.Accounts
import P2pGpu.Grid.Blameless
