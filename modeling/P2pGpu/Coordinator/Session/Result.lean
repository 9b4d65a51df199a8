import P2pGpu.Coordinator.Session

namespace P2pGpu.Coordinator

open P2pGpu.Protocol

namespace Session

section

variable {F : Type} [Double F]

-- What the worker says of its input. Recorded and never acted on.
def recordStats (s : Session) (w : Shared F) (stats : Option TaskStats) : Shared F :=
  match stats with
  | none => w
  | some stats =>
      let jobs := (w.jobs.recordAssetSource stats.assetSource).recordIceOutcome stats.iceGathered
        stats.peerAttempts stats.peerConnected
      s.editRecord { w with jobs } fun r =>
        { r with iceGathered := r.iceGathered ||| stats.iceGathered }

-- A result proves that the worker holds the input.
def creditAsset (s : Session) (w : Shared F) (taskId : TaskId) : Shared F :=
  match w.jobs.find taskId with
  | none => w
  | some done =>
      match (w.jobs.findJob done.job).bind Job.inputRef with
      | none => w
      | some input => s.editRecord w fun r =>
          { r with
            cachedAssets :=
              if hasAsset r.cachedAssets input then r.cachedAssets else r.cachedAssets ++ [input] }

def kSpotCheckSeverity : F := 4.0

-- The answer of a probe is known, so one result convicts.
def checkProbe (s : Session) (w : Shared F) (taskId : TaskId) (checksum : UInt64) : Shared F :=
  match w.spotChecks with
  | none => w
  | some pool =>
      match pool.expectedFor taskId with
      | none => w
      | some expected =>
          let judged := w.reputation.map fun rep =>
            if checksum = expected then rep.recordAccepted s.workerId
            else ((rep.recordRejected s.workerId kSpotCheckSeverity true).maybeBlacklist s.workerId
              s.nowMs).2
          { w with spotChecks := some (pool.forget taskId), reputation := judged }

-- Agreement is credited in full, and dissent is charged by how far it is off.
def settleReputation (q : QuorumResult F) (nowMs : UInt64) (rep : ReputationTable F) :
    ReputationTable F :=
  let credited := q.agreeing.foldl (fun rep w => rep.recordAccepted w) rep
  let severity := severityFromDeviation q.dissentMaxUlp q.dissentMaxRel
  q.dissenting.foldl
    (fun rep w => ((rep.recordRejected w severity false).maybeBlacklist w nowMs).2) credited

-- An answer that at least two agreed on may be asked for again.
def rememberAnswer (q : QuorumResult F) (done : Task) (checksum : UInt64)
    (pool : SpotCheckPool F) : SpotCheckPool F :=
  if 2 ≤ q.agreeing.length then pool.remember done.startUnit done.unitCount checksum else pool

-- Into the image, where the task belongs to a render.
def compositeTile (job : Option Job) (done : Task) (payload : Payload) (c : Compositor F) :
    Compositor F :=
  match job.bind Job.render with
  | none => c
  | some render =>
      if 0 < render.samplesPerTile then
        (c.acceptTile (done.startUnit / render.samplesPerTile).toUInt32 payload).2
      else c

-- What is done with an accepted answer, before its task is final.
def publish (w : Shared F) (taskId : TaskId) (q : QuorumResult F) (checksum : UInt64)
    (payload : Payload) : Shared F :=
  match w.jobs.find taskId with
  | none => w
  | some done =>
      { w with
        spotChecks := w.spotChecks.map (rememberAnswer q done checksum)
        compositor := w.compositor.map (compositeTile (w.jobs.findJob done.job) done payload) }

-- Every loser is told to stop, on its own connection.
def notifyLosers (fleet : Fleet F) (revoked : List Revocation) : Fleet F :=
  revoked.foldl
    (fun fleet rev => fleet.mutable rev.holder fun r =>
      { r with pendingRevokes := r.pendingRevokes ++ [rev.task] }) fleet

def kAlpha : F := 0.3

-- The prediction is corrected by what was observed.
def observeCompletion (nowMs : UInt64) (done : Option Task) (r : WorkerRecord F) :
    WorkerRecord F :=
  if 0.0 < r.predictedMs ∧ 0 < r.grantedAtMs then
    let actualMs : F := Double.ofUInt64 (nowMs - r.grantedAtMs)
    let r :=
      { r with
        correction := updateCorrection r.correction r.predictedMs actualMs kAlpha
        predictedMs := 0.0
        firstResultMs := if r.firstResultMs = 0 then nowMs else r.firstResultMs }
    match done with
    | none => r
    | some done =>
        { r with
          unitsCompleted := r.unitsCompleted + done.unitCount
          observedMsTotal := r.observedMsTotal + actualMs }
  else r

-- The first result wins, and its siblings are cancelled.
def complete (s : Session) (w : Shared F) (taskId : TaskId) : Turn F :=
  let (revoked, jobs) := w.jobs.cancelSiblingsOf taskId
  let fleet := ((notifyLosers w.fleet revoked).recordCompletion s.workerId).mutable s.workerId
    (observeCompletion s.nowMs (jobs.find taskId))
  quiet { s with completed := s.completed ++ [taskId] } { w with jobs, fleet }

def acceptResult (s : Session) (w : Shared F) (taskId : TaskId) (q : QuorumResult F)
    (checksum : UInt64) (payload : Payload) : Turn F :=
  let w := { w with reputation := w.reputation.map (settleReputation q s.nowMs) }
  let w := publish w taskId q checksum payload
  match w.jobs.finish taskId true with
  | (.error _, jobs) => s.nonFatal { w with jobs } .internal "task could not be finalised"
  | (.ok _, jobs) => s.complete { w with jobs } taskId

-- What this submitter's answer needs.
def quorumFor (cfg : Config F) (s : Session) (reputation : Option (ReputationTable F)) :
    QuorumConfig :=
  match reputation with
  | none => cfg.quorum
  | some rep =>
      { cfg.quorum with
        requiredAgreement := requiredAgreementFor cfg.quorum rep s.workerId s.nowMs }

def submissionsOf (m : JobManager) (taskId : TaskId) : List Submission :=
  match m.find taskId with
  | none => []
  | some task => task.submissions

-- The payload is only kept where a checksum cannot answer what is close enough.
def retained (spec : KernelSpec) (payload : Payload) : Payload :=
  if spec.determinism = .exact then [] else payload

def landed (s : Session) (taskId : TaskId) : Session :=
  { s with inFlightResults := s.inFlightResults.filter fun id => id ≠ taskId }

-- Judged by what the others said.
def judge (cfg : Config F) (s : Session) (w : Shared F) (taskId : TaskId) (spec : KernelSpec)
    (checksum : UInt64) (payload : Payload) : Turn F :=
  let w := { w with
    jobs := w.jobs.recordSubmission taskId s.workerId checksum (retained spec payload) }
  let q : QuorumResult F :=
    Quorum.decide spec (quorumFor cfg s w.reputation) (submissionsOf w.jobs taskId)
  match q.action with
  | .needMoreReplicas =>
      match w.jobs.requestReplica taskId with
      | (.error _, jobs) => s.nonFatal { w with jobs } .internal "could not issue replica"
      | (.ok _, jobs) => (s.landed taskId).quiet { w with jobs }
  | .inconclusive =>
      match w.jobs.restartValidation taskId with
      | (.error _, jobs) => s.nonFatal { w with jobs } .internal "could not restart validation"
      | (.ok _, jobs) => (s.landed taskId).quiet { w with jobs }
  | .accept => s.acceptResult w taskId q checksum payload

-- What comes before the judgement, for a task that was just submitted.
def prepare (s : Session) (w : Shared F) (taskId : TaskId) (header : ResultHeader) : Shared F :=
  s.checkProbe (s.creditAsset (s.recordStats w header.stats) taskId) taskId header.checksum

def kernelFor (cfg : Config F) (m : JobManager) (taskId : TaskId) : Option KernelSpec :=
  (m.find taskId).bind fun task => (kernelOf cfg m task).map Prod.snd

-- Zero units mean all of them.
def isComplete (m : JobManager) (taskId : TaskId) (unitsDone : UInt64) : Bool :=
  unitsDone = 0 ||
    match m.find taskId with
    | none => false
    | some task => task.unitCount ≤ unitsDone

-- A complete result, once its task was submitted.
def weigh (cfg : Config F) (s : Session) (w : Shared F) (taskId : TaskId) (header : ResultHeader)
    (payload : Payload) : Turn F :=
  match kernelFor cfg w.jobs taskId with
  | none => s.nonFatal w .internal "kernel missing for task"
  | some spec => s.judge cfg w taskId spec header.checksum payload

-- A result whose bytes were read correctly.
def onReadable (cfg : Config F) (s : Session) (w : Shared F) (taskId : TaskId)
    (header : ResultHeader) (payload : Payload) : Turn F :=
  if !isComplete w.jobs taskId header.unitsDone then
    s.quiet { w with
      jobs := (w.jobs.recordPartial s.workerId taskId header.sequence header.unitsDone payload
        s.nowMs cfg.leaseMs).2 }
  else
    match w.jobs.submit s.workerId taskId with
    | (.error _, jobs) => s.nonFatal { w with jobs } .leaseNotHeld "no lease on that task"
    | (.ok _, jobs) =>
        s.weigh cfg (s.prepare { w with jobs } taskId header) taskId header payload

def onResultHeader (cfg : Config F) (s : Session) (w : Shared F) (header : ResultHeader)
    (payload : Payload) : Turn F :=
  match header.taskId with
  | none => s.nonFatal w .malformedMessage "ResultHeader has no task_id"
  | some taskId =>
      if taskId ∈ s.completed then s.quiet w
      else
        match checkSingleInFlightResult (s.inFlightResults.contains taskId) with
        | .error _ => s.nonFatal w .orphanPayload "result already in flight"
        | .ok _ =>
            match checkPayloadLength header.payloadBytes payload.length with
            | .error _ =>
                s.nonFatal w .malformedMessage "payload_bytes disagrees with the payload"
            | .ok _ =>
                match w.jobs.checkLease s.workerId taskId with
                | .error _ => s.nonFatal w .leaseNotHeld "no lease on that task"
                | .ok _ =>
                    match checkPayloadChecksum header.checksum (cfg.blake3 payload) with
                    -- Corruption is no wrong answer: the task goes back as it came.
                    | .error _ =>
                        s.nonFatal { w with jobs := (w.jobs.requeue taskId .release).2 }
                          .checksumMismatch "payload checksum mismatch"
                    | .ok _ => s.onReadable cfg w taskId header payload

def dispatch (cfg : Config F) (s : Session) (w : Shared F) (body : Body F) (payload : Payload)
    (token : Token) : Turn F :=
  match body with
  | .hello m => s.onHello cfg w m token
  | .leaseRequest m => s.onLeaseRequest cfg w m s.nowMs
  | .resultHeader m => s.onResultHeader cfg w m payload
  | .release taskId => s.onRelease w taskId
  | .progress m => s.onProgress cfg w m s.nowMs
  | .goodbye => s.onGoodbye w
  | .assetRequest m => s.onAssetRequest cfg w m
  | .assetData =>
      s.nonFatal w .malformedMessage "workers do not send asset data to the coordinator"
  | .benchmarkResult score => s.onBenchmarkResult w score
  | .throttle level => s.onThrottle w level
  | .signal m => s.onSignal w m
  | .coordinatorOnly => s.nonFatal w .malformedMessage "message is coordinator-to-worker only"

def isHello : Body F → Bool
  | .hello _ => true
  | _ => false

-- Every frame of a worker that has said who it is is proof of life.
def receive (cfg : Config F) (s : Session) (w : Shared F) (body : Body F) (payload : Payload)
    (nowMs : UInt64) (token : Token) : Turn F :=
  let s := { s with nowMs }
  if !s.handshaked && !isHello body then s.fatal w .internal "first message must be Hello"
  else
    let w := if s.handshaked then { w with fleet := w.fleet.touch s.workerId nowMs } else w
    s.dispatch cfg w body payload token

def onMessage (cfg : Config F) (s : Session) (w : Shared F) (body : Body F) (payload : Payload)
    (nowMs : UInt64) (token : Token) : Turn F :=
  let turn := s.receive cfg w body payload nowMs token
  if turn.session.handshaked then
    let (revokes, shared) := turn.session.drainRevokes turn.shared
    { turn with
      shared
      reaction := { turn.reaction with replies := turn.reaction.replies ++ revokes } }
  else turn

def onDisconnect (s : Session) (w : Shared F) : Shared F :=
  if s.handshaked then
    { w with
      fleet := w.fleet.leave s.workerId
      jobs := (w.jobs.releaseAllHeldBy s.workerId).2 }
  else w

end

end Session

end P2pGpu.Coordinator
