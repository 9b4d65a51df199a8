import P2pGpu.Coordinator.Fleet
import P2pGpu.Coordinator.Messages
import P2pGpu.Coordinator.Params
import P2pGpu.Coordinator.Quorum
import P2pGpu.Coordinator.Sizer
import P2pGpu.Coordinator.SpotCheck

namespace P2pGpu.Coordinator

open P2pGpu.Protocol

def kHeartbeatMs : UInt32 := 15000
def kCalibrationKernel : String := "calibrate_v1"
def kBenchmarkTargetMs : UInt32 := 200
def kTargetTaskMs : UInt32 := 2000
def kMaxSignalsPerWindow : UInt32 := 64
def kMaxPeersPerList : Nat := 8
def kMaxChunksPerRequest : UInt32 := 64
def kMaxLabel : Nat := 64

-- What is fixed while the coordinator runs.
structure Config (F : Type) where
  kernels : KernelRegistry
  leaseMs : UInt32 := 30000
  workerTimeoutMs : UInt32 := 45000
  quorum : QuorumConfig := {}
  speculation : Bool := true
  disableP2p : Bool := false
  iceServers : List WireString := []
  assets : Option AssetStore := none
  blake3 : Payload → UInt64

-- What all connections share.
structure Shared (F : Type) [Double F] where
  jobs : JobManager := {}
  fleet : Fleet F := {}
  reputation : Option (ReputationTable F) := none
  spotChecks : Option (SpotCheckPool F) := none
  compositor : Option (Compositor F) := none
  assetServed : UInt64 := 0

-- One connection.
structure Session where
  connId : Nat
  nowMs : UInt64 := 0
  handshaked : Bool := false
  workerId : WorkerId := Id.nil
  signalsThisWindow : UInt32 := 0
  abusive : Bool := false
  completed : List TaskId := []
  -- Nothing is ever put here.
  inFlightResults : List TaskId := []

section

variable {F : Type} [Double F]

def kMaxBenchmarkScore : F := 1.0e15

-- What a handler leaves: what it says, and the two states.
structure Turn (F : Type) [Double F] where
  reaction : Reaction
  session : Session
  shared : Shared F

namespace Session

def quiet (s : Session) (w : Shared F) : Turn F := ⟨{}, s, w⟩

def fatal (s : Session) (w : Shared F) (code : ErrorCode) (message : String) : Turn F :=
  ⟨{ replies := [.error ⟨code, message, true⟩], close := true }, s, w⟩

def nonFatal (s : Session) (w : Shared F) (code : ErrorCode) (message : String) : Turn F :=
  ⟨{ replies := [.error ⟨code, message, false⟩] }, s, w⟩

def editRecord (s : Session) (w : Shared F) (edit : WorkerRecord F → WorkerRecord F) : Shared F :=
  { w with fleet := w.fleet.mutable s.workerId edit }

-- A label from the network: bounded, and without control characters.
def takeLabel (v : Option WireString) : List UInt8 :=
  ((v.getD []).take kMaxLabel).map fun c => if c < 0x20 then 63 else c

def describe (spec : KernelSpec) : KernelDescriptor where
  kernelId := spec.id
  entryPoint := spec.entryPoint
  workgroupSize := spec.workgroupSize
  determinism := spec.determinism
  relEps := if spec.determinism = .tolerant then spec.relEps else 0
  absEps := if spec.determinism = .tolerant then spec.absEps else 0
  outputBytes := spec.outputBytes
  outputInit := buildOutputInit spec
  accumulates := spec.accumulates
  minIterations := spec.minIterations
  flopPerUnit := spec.flopPerUnit

-- The identity a token stands for, and a new one for any other connection.
def identify (s : Session) (w : Shared F) (hello : Hello) : WorkerId :=
  let own : WorkerId := ⟨s.connId, 0⟩
  match w.reputation, hello.resumeToken with
  | some reputation, some token => (reputation.resolveToken token).getD own
  | _, _ => own

-- The token is what the random device draws for it.
def onHello (cfg : Config F) (s : Session) (w : Shared F) (hello : Hello) (token : Token) :
    Turn F :=
  if s.handshaked then s.nonFatal w .malformedMessage "duplicate Hello"
  else if hello.protocolVersion ≠ kProtocolVersion then
    s.fatal w .versionMismatch "protocol version mismatch"
  else
    let s := { s with handshaked := true, workerId := s.identify w hello }
    let w := { w with fleet := w.fleet.join s.workerId s.connId s.nowMs }
    let w := s.editRecord w fun r => { r with cachedAssets := adoptCachedAssets hello.cachedAssets }
    let w :=
      match hello.adapter with
      | none => w
      | some a => s.editRecord w fun r =>
          { r with
            adapterVendor := takeLabel a.vendor
            adapterDevice := takeLabel a.device
            adapterBackend := takeLabel a.backend }
    let minted := w.reputation.map fun rep => rep.mintToken s.workerId token
    let welcome := Reply.welcome s.workerId (if w.reputation.isSome then token else [])
      kHeartbeatMs (cfg.kernels.kernels.map describe) cfg.iceServers
    ⟨{ replies := [welcome, .benchmarkRequest kCalibrationKernel kBenchmarkTargetMs] }, s,
      { w with reputation := minted }⟩

def onBenchmarkResult (s : Session) (w : Shared F) (score : F) : Turn F :=
  match w.fleet.find s.workerId with
  | none => s.quiet w
  | some _ =>
      if !decide (0.0 < score) || !Double.isFinite score then
        s.nonFatal w .malformedMessage "unusable benchmark score"
      else
        s.quiet (s.editRecord w fun r =>
          { r with scoreOpsPerSec := Double.min score kMaxBenchmarkScore })

def onThrottle (s : Session) (w : Shared F) (level : UInt32) : Turn F :=
  s.quiet (s.editRecord w fun r =>
    { r with throttle := Double.clamp (Double.ofFloat32 level) 0.0 1.0 })

-- The kernel of a task, by way of its job.
def kernelOf (cfg : Config F) (m : JobManager) (task : Task) : Option (Job × KernelSpec) :=
  match m.findJob task.job with
  | none => none
  | some job => (cfg.kernels.find job.kernelId).map fun spec => (job, spec)

def opsPerUnit (spec : Option KernelSpec) : F :=
  match spec with
  | none => 1.0
  | some spec => if 0 < spec.flopPerUnit then Double.ofUInt64 spec.flopPerUnit else 1.0

def sizing (cfg : Config F) (rec : WorkerRecord F) (next : Job) : SizingInputs F :=
  let spec := cfg.kernels.find next.kernelId
  { score := rec.scoreOpsPerSec / opsPerUnit spec
    correction := rec.correction
    throttle := rec.throttle
    targetMs := kTargetTaskMs
    leaseMs := cfg.leaseMs
    r5MinUnits := (spec.map KernelSpec.r5MinUnits).getD 0
    remainingUnits := next.remainingUnits
    coldStart := rec.tasksCompleted = 0 }

def grantSized (cfg : Config F) (s : Session) (nowMs : UInt64) (rec : WorkerRecord F)
    (w : Shared F) : Option Task × Shared F :=
  match w.jobs.peekNextJob with
  | none => (none, w)
  | some next =>
      let (task, jobs) := w.jobs.grant s.workerId nowMs cfg.leaseMs
        (computeTaskSize (sizing cfg rec next)) rec.cachedAssets
      (task, { w with jobs })

-- The range a task is displaced by, drawn from its identifier.
def drawProbe (s : Session) (w : Shared F) (task : Task) : Option Known :=
  match w.spotChecks, w.reputation with
  | some pool, some reputation =>
      let h : UInt64 := UInt64.ofNat task.id.lo * 2654435761
      let roll : F := Double.ofUInt64 (h % 10000) / 10000.0
      pool.maybe (reputation.scoreOf s.workerId) roll (h >>> 16)
  | _, _ => none

-- Sometimes a range is handed out whose answer is known. The real task is given
-- back first.
def injectProbe (cfg : Config F) (s : Session) (nowMs : UInt64) (w : Shared F) (task : Task) :
    Task × Shared F :=
  match s.drawProbe w task with
  | none => (task, w)
  | some pick =>
      match w.jobs.issueKnownRange s.workerId nowMs cfg.leaseMs pick.startUnit pick.unitCount with
      | (none, jobs) => (task, { w with jobs })
      | (some probe, jobs) =>
          (probe, { w with
            jobs := (jobs.requeue task.id .release).2
            spotChecks := w.spotChecks.map fun pool => pool.markIssued probe.id pick.checksum })

def kSpeculationThreshold : F := 0.95

def speculate (cfg : Config F) (s : Session) (nowMs : UInt64) (w : Shared F) :
    Option Task × Shared F :=
  if cfg.speculation then
    let (task, jobs) := w.jobs.issueSpeculative s.workerId nowMs cfg.leaseMs
      (kSpeculationThreshold : F)
    (task, { w with jobs })
  else (none, w)

def drawTask (cfg : Config F) (s : Session) (nowMs : UInt64) (rec : WorkerRecord F)
    (w : Shared F) : Option Task × Shared F :=
  match grantSized cfg s nowMs rec w with
  | (none, w) => s.speculate cfg nowMs w
  | (some task, w) =>
      let (task, w) := s.injectProbe cfg nowMs w task
      (some task, w)

def tileOutputBytes (tile : TileGrid.Tile) : UInt32 := tile.w * tile.h * 16

-- A render's output is the size of its tile, and a short tile's is smaller.
def outputBytes (spec : KernelSpec) (job : Job) (task : Task) : UInt32 :=
  match job.render with
  | none => spec.outputBytes
  | some render =>
      match render.grid.tileAt (task.startUnit / render.samplesPerTile).toUInt32 with
      | none => spec.outputBytes
      | some tile => tileOutputBytes tile

def inputOf (cfg : Config F) (job : Job) : Option (Hash32 × UInt64) :=
  job.inputRef.map fun id =>
    let bytes :=
      match cfg.assets.bind fun store => store.find id.address with
      | none => 0
      | some blob => UInt64.ofNat blob.length
    (id.toHash32, bytes)

def envelope (cfg : Config F) (spec : KernelSpec) (job : Job) (task : Task)
    (params : List UInt8) : TaskEnvelope where
  taskId := task.id
  jobId := task.job
  kernelId := spec.id
  seed := job.seed
  params
  startUnit := task.startUnit
  workUnits := task.unitCount
  input := inputOf cfg job
  outputBytes := outputBytes spec job task
  leaseMs := cfg.leaseMs

-- Who may have the input that this worker lacks.
def peersFor (cfg : Config F) (s : Session) (rec : WorkerRecord F) (w : Shared F) (job : Job) :
    List Reply :=
  match job.inputRef with
  | none => []
  | some input =>
      if cfg.disableP2p || hasAsset rec.cachedAssets input then []
      else
        let peers := w.fleet.peersHolding input s.workerId kMaxPeersPerList
        if peers = [] then [] else [.peerList peers]

-- The frames of one grant, or nothing where the task cannot be described.
def sendTask (cfg : Config F) (s : Session) (nowMs : UInt64) (rec : WorkerRecord F)
    (w : Shared F) (task : Task) : Option (List Reply) × Shared F :=
  match kernelOf cfg w.jobs task with
  | none => (none, { w with jobs := (w.jobs.requeue task.id .release).2 })
  | some (job, spec) =>
      match buildParams spec job task with
      | .error _ => (none, { w with jobs := (w.jobs.requeue task.id .release).2 })
      | .ok params =>
          let replies := peersFor cfg s rec w job ++
            [.taskGrant (envelope cfg spec job task params)]
          (some replies, s.editRecord w fun r =>
            { r with
              predictedMs := 1000.0 * Double.ofUInt64 task.unitCount /
                (rec.scoreOpsPerSec / opsPerUnit (some spec))
              grantedAtMs := nowMs
              firstGrantMs := if r.firstGrantMs = 0 then nowMs else r.firstGrantMs })

def grantOne (cfg : Config F) (s : Session) (nowMs : UInt64) (rec : WorkerRecord F)
    (w : Shared F) : Option (List Reply) × Shared F :=
  match s.drawTask cfg nowMs rec w with
  | (none, w) => (none, w)
  | (some task, w) => s.sendTask cfg nowMs rec w task

def grantLoop (cfg : Config F) (s : Session) (nowMs : UInt64) (rec : WorkerRecord F) :
    Nat → Shared F → List Reply × Shared F
  | 0, w => ([], w)
  | n + 1, w =>
      match s.grantOne cfg nowMs rec w with
      | (none, w) => ([], w)
      | (some replies, w) =>
          let (more, w) := grantLoop cfg s nowMs rec n w
          (replies ++ more, w)

-- The worker asks whether, never how much.
def onLeaseRequest (cfg : Config F) (s : Session) (w : Shared F) (req : LeaseRequest)
    (nowMs : UInt64) : Turn F :=
  let want := (min (max req.maxTasks 1) 4).toNat
  let w := s.editRecord w fun r => { r with cachedAssets := adoptCachedAssets req.cachedAssets }
  match w.fleet.find s.workerId with
  | none => s.quiet w
  | some rec =>
      if !decide (0.0 < rec.scoreOpsPerSec) then s.quiet w
      else if s.abusive then s.quiet w
      else
        let barred := w.reputation.map fun rep => rep.isBlacklisted s.workerId nowMs
        let w := { w with reputation := barred.map Prod.snd }
        if (barred.map Prod.fst).getD false then s.quiet w
        else
          let (replies, w) := s.grantLoop cfg nowMs rec want w
          ⟨{ replies }, s, w⟩

def drainRevokes (s : Session) (w : Shared F) : List Reply × Shared F :=
  match w.fleet.find s.workerId with
  | none => ([], w)
  | some rec =>
      (rec.pendingRevokes.map Reply.revoke, s.editRecord w fun r => { r with pendingRevokes := [] })

def onProgress (cfg : Config F) (s : Session) (w : Shared F) (progress : ProgressReport)
    (nowMs : UInt64) : Turn F :=
  match progress.taskId with
  | none => s.nonFatal w .malformedMessage "Progress has no task_id"
  | some taskId =>
      if !progress.requestRenew then s.quiet w
      else
        match w.jobs.renewLease s.workerId taskId nowMs cfg.leaseMs with
        | (.error _, jobs) => s.nonFatal { w with jobs } .leaseNotHeld "no lease on that task"
        | (.ok _, jobs) => s.quiet { w with jobs }

-- Bounded and never parsed. What became of it is not told.
def onSignal (s : Session) (w : Shared F) (signal : Signal) : Turn F :=
  let s := { s with signalsThisWindow := s.signalsThisWindow + 1 }
  if kMaxSignalsPerWindow < s.signalsThisWindow then
    s.nonFatal w .malformedMessage "signalling rate limit"
  else
    match signal.peer, signal.payload with
    | some target, some payload =>
        if kMaxSignalBytes < payload.length then
          s.nonFatal w .malformedMessage "signal payload too large"
        else if target = s.workerId then
          s.nonFatal w .malformedMessage "cannot signal yourself"
        else ⟨{ relay := some ⟨target, s.workerId, payload⟩ }, s, w⟩
    | _, _ => s.nonFatal w .malformedMessage "Signal without a peer or payload"

def chunkAt (blob : List UInt8) (hash : Hash32) (total i : UInt32) : Reply :=
  .assetChunk hash i total ((blob.drop (i.toNat * kChunkBytes)).take kChunkBytes)

-- The chunks of one request, up to the end of the blob.
def chunks (blob : List UInt8) (hash : Hash32) (total start finish : UInt32) : List Reply :=
  ((List.range' start.toNat (finish.toNat - start.toNat)).takeWhile fun i =>
    i * kChunkBytes < blob.length).map fun i => chunkAt blob hash total (UInt32.ofNat i)

def servedBytes : List Reply → Nat
  | [] => 0
  | .assetChunk _ _ _ bytes :: rest => bytes.length + servedBytes rest
  | _ :: rest => servedBytes rest

def onAssetRequest (cfg : Config F) (s : Session) (w : Shared F) (req : AssetRequest) : Turn F :=
  match req.hash with
  | none => s.nonFatal w .malformedMessage "AssetRequest has no hash"
  | some hash =>
      let miss : Turn F := ⟨{ replies := [.assetMiss hash] }, s, w⟩
      match cfg.assets.bind fun store => store.find hash.address with
      | none => miss
      | some blob =>
          let totalChunks := (blob.length + kChunkBytes - 1) / kChunkBytes
          if totalChunks = 0 ∨ 0xFFFFFFFF < totalChunks then miss
          else
            let finish := UInt32.ofNat (min req.chunkTo.toNat totalChunks)
            if finish ≤ req.chunkFrom then miss
            else
              let finish := min finish (req.chunkFrom + kMaxChunksPerRequest)
              let out := chunks blob hash (UInt32.ofNat totalChunks) req.chunkFrom finish
              ⟨{ replies := out }, s,
                { w with assetServed := w.assetServed + UInt64.ofNat (servedBytes out) }⟩

def onGoodbye (s : Session) (w : Shared F) : Turn F :=
  s.quiet { w with
    jobs := (w.jobs.releaseAllHeldBy s.workerId).2
    fleet := w.fleet.leave s.workerId }

def onRelease (s : Session) (w : Shared F) (taskId : Option TaskId) : Turn F :=
  match taskId with
  | none => s.nonFatal w .malformedMessage "Release has no task_id"
  | some taskId =>
      match w.jobs.checkLease s.workerId taskId with
      | .error _ => s.nonFatal w .leaseNotHeld "no lease on that task"
      | .ok _ =>
          match w.jobs.requeue taskId .release with
          | (.error _, jobs) => s.nonFatal { w with jobs } .internal "could not requeue"
          | (.ok _, jobs) => s.quiet { w with jobs }

end Session

end

end P2pGpu.Coordinator
