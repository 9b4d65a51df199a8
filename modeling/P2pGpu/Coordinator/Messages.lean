import P2pGpu.Coordinator.Assets
import P2pGpu.Coordinator.Job
import P2pGpu.Coordinator.KernelRegistry

namespace P2pGpu.Coordinator

open P2pGpu.Protocol

def kProtocolVersion : UInt32 := 1
def kChunkBytes : Nat := 16 * 1024
def kMaxSignalBytes : Nat := 16 * 1024

-- What a verified frame holds. A field that may be left out is an option.
structure AdapterInfo where
  vendor : Option WireString
  device : Option WireString
  backend : Option WireString

structure Hello where
  protocolVersion : UInt32
  resumeToken : Option WireString
  adapter : Option AdapterInfo
  cachedAssets : Option (List WireString)

structure LeaseRequest where
  maxTasks : UInt32
  cachedAssets : Option (List WireString)

structure ProgressReport where
  taskId : Option TaskId
  requestRenew : Bool

structure TaskStats where
  assetSource : AssetSource
  iceGathered : UInt8
  peerAttempts : UInt8
  peerConnected : Bool

structure ResultHeader where
  taskId : Option TaskId
  payloadBytes : UInt32
  checksum : UInt64
  stats : Option TaskStats
  sequence : UInt32
  unitsDone : UInt64

structure AssetRequest where
  hash : Option Hash32
  chunkFrom : UInt32
  chunkTo : UInt32

structure Signal where
  peer : Option WorkerId
  payload : Option (List UInt8)

inductive Body (F : Type) where
  | hello (m : Hello)
  | leaseRequest (m : LeaseRequest)
  | resultHeader (m : ResultHeader)
  | release (taskId : Option TaskId)
  | progress (m : ProgressReport)
  | goodbye
  | assetRequest (m : AssetRequest)
  -- AssetChunk and AssetMiss
  | assetData
  | benchmarkResult (score : F)
  | throttle (level : UInt32)
  | signal (m : Signal)
  -- every body that only the coordinator sends, and none at all
  | coordinatorOnly

structure KernelDescriptor where
  kernelId : String
  entryPoint : String
  workgroupSize : UInt32 × UInt32 × UInt32
  determinism : Determinism
  relEps : UInt32
  absEps : UInt32
  outputBytes : UInt32
  outputInit : List UInt8
  accumulates : Bool
  minIterations : UInt64
  flopPerUnit : UInt64
deriving DecidableEq, Repr

structure TaskEnvelope where
  taskId : TaskId
  jobId : JobId
  kernelId : String
  seed : UInt64
  params : List UInt8
  startUnit : UInt64
  workUnits : UInt64
  input : Option (Hash32 × UInt64)
  outputBytes : UInt32
  leaseMs : UInt32
deriving DecidableEq, Repr

-- What the coordinator says.
inductive Reply where
  | welcome (workerId : WorkerId) (sessionToken : WireString) (heartbeatMs : UInt32)
      (kernels : List KernelDescriptor) (iceServers : List WireString)
  | benchmarkRequest (kernelId : String) (targetMs : UInt32)
  | peerList (peers : List WorkerId)
  | taskGrant (envelope : TaskEnvelope)
  | revoke (taskId : TaskId)
  | error (e : Error)
  | assetChunk (hash : Hash32) (index total : UInt32) (bytes : List UInt8)
  | assetMiss (hash : Hash32)
deriving DecidableEq, Repr

-- A frame that is passed on to another connection.
structure Relay where
  target : WorkerId
  source : WorkerId
  payload : List UInt8
deriving DecidableEq, Repr

structure Reaction where
  replies : List Reply := []
  relay : Option Relay := none
  close : Bool := false
deriving DecidableEq, Repr

end P2pGpu.Coordinator
