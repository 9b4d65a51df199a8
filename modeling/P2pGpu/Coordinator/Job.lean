import Mathlib.Data.UInt
import P2pGpu.Coordinator.Affinity
import P2pGpu.Coordinator.Composite
import P2pGpu.Coordinator.TaskState
import P2pGpu.Data.Table
import P2pGpu.Data.Tiling
import P2pGpu.Protocol.Invariants

namespace P2pGpu.Coordinator

open P2pGpu.Protocol

-- One worker's answer, kept until the group resolves.
structure Submission where
  worker : WorkerId
  checksum : UInt64
  payload : Payload
deriving DecidableEq, Repr

structure Task where
  id : TaskId
  job : JobId
  state : TaskState := .queued
  startUnit : UInt64 := 0
  unitCount : UInt64 := 0
  -- Nil unless the task is leased.
  holder : WorkerId := Id.nil
  leaseExpiresAtMs : UInt64 := 0
  -- Nil for an original.
  replicaOf : TaskId := Id.nil
  submissions : List Submission := []
  priorWorkers : List WorkerId := []
deriving DecidableEq, Repr

namespace Task

def span (t : Task) : Span := ⟨t.startUnit.toNat, t.unitCount.toNat⟩

-- The recovery policy: what was under way is queued again.
def inFlight (t : Task) : Bool := t.state == .leased || t.state == .validating

def recovered (t : Task) : Task :=
  { t with
    state := if t.inFlight then .queued else t.state
    holder := Id.nil
    leaseExpiresAtMs := 0 }

def isLeasedTo (t : Task) (worker : WorkerId) : Bool :=
  t.state == .leased && t.holder == worker

end Task

abbrev Vec3 : Type := UInt32 × UInt32 × UInt32

structure Camera where
  origin : Vec3
  lowerLeft : Vec3
  horizontal : Vec3
  vertical : Vec3
deriving DecidableEq, Repr

structure RenderConfig where
  grid : TileGrid
  samplesPerTile : UInt64
  camera : Camera
  maxBounces : UInt32 := 8
  rrStartBounce : UInt32 := 3
  nodeCount : UInt32
  primCount : UInt32
  materialCount : UInt32
deriving DecidableEq, Repr

structure Job where
  id : JobId
  kernelId : String
  seed : UInt64
  totalUnits : UInt64
  nextUnit : UInt64 := 0
  unitsPerGroup : UInt64
  inputRef : Option AssetId := none
  render : Option RenderConfig := none
  -- Samples granted, not accepted, of each tile.
  tileGranted : List UInt64 := []
  tasks : List TaskId := []
deriving DecidableEq, Repr

namespace Job

def keyspaceExhausted (job : Job) : Bool := job.totalUnits ≤ job.nextUnit

def remainingUnits (job : Job) : UInt64 :=
  if job.keyspaceExhausted then 0 else job.totalUnits - job.nextUnit

-- The first tile with the fewest samples granted among those below the budget.
def leastGranted (budget : UInt64) : List UInt64 → Nat → UInt64 → Option Nat → Option Nat
  | [], _, _, best => best
  | granted :: rest, i, fewest, best =>
      if budget ≤ granted then leastGranted budget rest (i + 1) fewest best
      else if granted < fewest then leastGranted budget rest (i + 1) granted (some i)
      else leastGranted budget rest (i + 1) fewest best

-- A render job is carved tile by tile, any other one at its cursor.
def byTile (job : Job) : Option UInt64 :=
  match job.render with
  | none => none
  | some render =>
      if 0 < render.samplesPerTile ∧ job.tileGranted ≠ [] then some render.samplesPerTile
      else none

-- Where the next task starts, and the tile it takes its samples from.
def carveStart (job : Job) : Option (Option Nat × UInt64) :=
  match job.byTile with
  | none => some (none, job.nextUnit)
  | some samplesPerTile =>
      (leastGranted samplesPerTile job.tileGranted 0 0xFFFFFFFFFFFFFFFF none).map fun tile =>
        (some tile, UInt64.ofNat tile * samplesPerTile + job.tileGranted.getD tile 0)

-- Never past the end, and never across a group boundary.
def carveCount (job : Job) (units start : UInt64) : UInt64 :=
  let count := min units job.remainingUnits
  if job.unitsPerGroup ≠ 0 then min count (job.unitsPerGroup - start % job.unitsPerGroup)
  else count

def carved (job : Job) (id : TaskId) (tile : Option Nat) (count : UInt64) : Job :=
  { job with
    tileGranted :=
      match tile with
      | none => job.tileGranted
      | some i => job.tileGranted.modify i (· + count)
    nextUnit := job.nextUnit + count
    tasks := job.tasks ++ [id] }

end Job

structure PartialResult where
  worker : WorkerId
  sequence : UInt32
  unitsDone : UInt64
  payload : Payload
  receivedAtMs : UInt64
deriving DecidableEq, Repr

inductive AssetSource where
  | none
  | cached
  | peer
  | coordinator
deriving DecidableEq, Repr

structure AssetSourceCounts where
  none : UInt64 := 0
  cached : UInt64 := 0
  peer : UInt64 := 0
  coordinator : UInt64 := 0
deriving DecidableEq, Repr

structure IceCounts where
  fetchesWithPeerAttempt : UInt64 := 0
  peerConnected : UInt64 := 0
  hostGathered : UInt64 := 0
  srflxGathered : UInt64 := 0
  relayGathered : UInt64 := 0
deriving DecidableEq, Repr

structure JobManager where
  partials : Table TaskId PartialResult := ∅
  assetSources : AssetSourceCounts := {}
  iceCounts : IceCounts := {}
  assetGrants : UInt64 := 0
  assetGrantsHit : UInt64 := 0
  dirtyTasks : List TaskId := []
  dirtyJobs : List JobId := []
  tasks : Table TaskId Task := ∅
  jobs : Table JobId Job := ∅
  queue : List TaskId := []
  nextId : Nat := 1
  wastedUnits : UInt64 := 0

structure Expiry where
  task : TaskId
  holder : WorkerId
  unitCount : UInt64
deriving DecidableEq, Repr

structure Revocation where
  task : TaskId
  holder : WorkerId
  wastedUnits : UInt64
deriving DecidableEq, Repr

namespace JobManager

def find (m : JobManager) (id : TaskId) : Option Task := m.tasks.lookup id

def findJob (m : JobManager) (id : JobId) : Option Job := m.jobs.lookup id

def markTaskDirty (m : JobManager) (id : TaskId) : JobManager :=
  { m with dirtyTasks := m.dirtyTasks.insert id }

def markJobDirty (m : JobManager) (id : JobId) : JobManager :=
  { m with dirtyJobs := m.dirtyJobs.insert id }

def dirtyJobRows (m : JobManager) : List Job := m.dirtyJobs.filterMap m.findJob

def dirtyTaskRows (m : JobManager) : List Task := m.dirtyTasks.filterMap m.find

def clearDirty (m : JobManager) : JobManager := { m with dirtyTasks := [], dirtyJobs := [] }

def hasDirty (m : JobManager) : Bool := !m.dirtyJobs.isEmpty || !m.dirtyTasks.isEmpty

def createJob (m : JobManager) (kernelId : String) (totalUnits seed unitsPerGroup : UInt64) :
    JobId × JobManager :=
  let id : JobId := ⟨0, m.nextId⟩
  let job : Job := { id, kernelId, seed, totalUnits, unitsPerGroup }
  (id, { m with jobs := m.jobs.emplace id job, nextId := m.nextId + 1 }.markJobDirty id)

-- Mutable access to a job's own metadata.
def mutableJob (m : JobManager) (id : JobId) (edit : Job → Job) : JobManager :=
  { m with jobs := m.jobs.modify id edit }

def kRenderKernel : String := "pathtrace_tile_v1"

-- How a render is queued: the job, and then the metadata that makes it one.
def seedRender (m : JobManager) (render : RenderConfig) (inputRef : AssetId) :
    JobId × JobManager :=
  let tiles := render.grid.tileCount
  let (id, m) := m.createJob kRenderKernel (tiles.toUInt64 * render.samplesPerTile) 42
    render.samplesPerTile
  (id, m.mutableJob id fun job =>
    { job with
      render := some render
      tileGranted := List.replicate tiles.toNat 0
      inputRef := some inputRef })

-- Writes back a task that was looked up under `id`.
def put (m : JobManager) (id : TaskId) (task : Task) : JobManager :=
  { m with tasks := m.tasks.modify id fun _ => task }

-- Every transition goes through here. A task is stored under its own identifier.
def apply (m : JobManager) (id : TaskId) (task : Task) (ev : TaskEvent) :
    Except Error (Task × JobManager) :=
  match advance task.state ev with
  | .error e => .error e
  | .ok next =>
      let task := { task with state := next }
      .ok (task, (m.put id task).markTaskDirty id)

def grantOrder (m : JobManager) (cached : List AssetId) : List Nat :=
  let needs := m.queue.map fun id =>
    match m.find id with
    | none => none
    | some task =>
        match m.findJob task.job with
        | none => none
        | some job => job.inputRef
  match preferCached needs cached with
  | none => List.range m.queue.length
  | some preferred =>
      preferred :: (List.range m.queue.length).filter fun i => i ≠ preferred

-- Requeued work, at the first place of the order that may go to this worker.
def grantQueued (m : JobManager) (worker : WorkerId) (nowMs : UInt64) (leaseMs : UInt32) :
    List Nat → Option (Task × JobManager)
  | [] => none
  | idx :: order =>
      match m.queue[idx]? with
      | none => grantQueued m worker nowMs leaseMs order
      | some id =>
          match m.find id with
          | none => grantQueued m worker nowMs leaseMs order
          | some task =>
              if (checkReplicaAssignment task.priorWorkers worker).isOk then
                match m.apply id task .grant with
                | .error _ => grantQueued m worker nowMs leaseMs order
                | .ok (task, m) =>
                    let task := { task with
                      holder := worker
                      leaseExpiresAtMs := nowMs + leaseMs.toUInt64 }
                    some (task, { m.put id task with queue := m.queue.eraseIdx idx })
              else grantQueued m worker nowMs leaseMs order

-- The jobs whose input the worker holds come first, and then every job.
def carveOrder (m : JobManager) (cached : List AssetId) : List (Sigma fun _ : JobId => Job) :=
  let affine := m.jobs.entries.filter fun e =>
    match e.2.inputRef with
    | none => false
    | some inputRef => hasAsset cached inputRef
  (if cached.isEmpty then [] else affine) ++ m.jobs.entries

def countAssetGrant (m : JobManager) (job : Job) (cached : List AssetId) : JobManager :=
  match job.inputRef with
  | none => m
  | some inputRef =>
      { m with
        assetGrants := m.assetGrants + 1
        assetGrantsHit :=
          if hasAsset cached inputRef then m.assetGrantsHit + 1 else m.assetGrantsHit }

-- Enters a task under the identifier minted for it.
def addTask (m : JobManager) (task : Task) : JobManager :=
  { m with tasks := m.tasks.emplace task.id task }.markTaskDirty task.id

def mint (m : JobManager) : TaskId × JobManager := (⟨0, m.nextId⟩, { m with nextId := m.nextId + 1 })

def carveFrom (worker : WorkerId) (nowMs : UInt64) (leaseMs : UInt32) (units : UInt64)
    (cached : List AssetId) :
    List (Sigma fun _ : JobId => Job) → JobManager → Option Task × JobManager
  | [], m => (none, m)
  | ⟨jobId, job⟩ :: rest, m =>
      if job.keyspaceExhausted then carveFrom worker nowMs leaseMs units cached rest m
      else
        -- The identifier is spent even where the job has nothing to give.
        let (id, m) := m.mint
        match job.carveStart with
        | none => carveFrom worker nowMs leaseMs units cached rest m
        | some (tile, start) =>
            let count := job.carveCount units start
            if count = 0 then carveFrom worker nowMs leaseMs units cached rest m
            else
              let task : Task :=
                { id, job := jobId, state := .leased, startUnit := start, unitCount := count
                  holder := worker, leaseExpiresAtMs := nowMs + leaseMs.toUInt64 }
              let m := (m.mutableJob jobId fun job => job.carved id tile count).markJobDirty jobId
              (some task, (m.addTask task).countAssetGrant job cached)

def grant (m : JobManager) (worker : WorkerId) (nowMs : UInt64) (leaseMs : UInt32)
    (units : UInt64) (cached : List AssetId) : Option Task × JobManager :=
  match m.grantQueued worker nowMs leaseMs (m.grantOrder cached) with
  | some (task, m) => (some task, m)
  | none =>
      if units = 0 then (none, m)
      else carveFrom worker nowMs leaseMs units cached (m.carveOrder cached) m

-- The task, for the worker that holds it.
def heldTask (m : JobManager) (worker : WorkerId) (taskId : TaskId) : Except Error Task :=
  match m.find taskId with
  | none => .error (makeError .leaseNotHeld "unknown task")
  | some task =>
      if task.state ≠ .leased ∨ task.holder ≠ worker then
        .error (makeError .leaseNotHeld "worker does not hold the lease on this task")
      else
        match checkLeaseHeld [task.id] taskId with
        | .error e => .error e
        | .ok _ => .ok task

def checkLease (m : JobManager) (worker : WorkerId) (taskId : TaskId) : Status :=
  match m.heldTask worker taskId with
  | .error e => .error e
  | .ok _ => .ok ()

def submit (m : JobManager) (worker : WorkerId) (taskId : TaskId) : Status × JobManager :=
  match m.heldTask worker taskId with
  | .error e => (.error e, m)
  | .ok task =>
      match m.apply taskId task .submit with
      | .error e => (.error e, m)
      | .ok (task, m) =>
          -- The worker is recorded before its result is judged.
          (.ok (), m.put taskId { task with
            priorWorkers := task.priorWorkers ++ [worker]
            holder := Id.nil })

def renewLease (m : JobManager) (worker : WorkerId) (taskId : TaskId) (nowMs : UInt64)
    (leaseMs : UInt32) : Status × JobManager :=
  match m.heldTask worker taskId with
  | .error e => (.error e, m)
  | .ok task =>
      match m.apply taskId task .renew with
      | .error e => (.error e, m)
      | .ok (task, m) =>
          (.ok (), m.put taskId { task with leaseExpiresAtMs := nowMs + leaseMs.toUInt64 })

-- Strictly newer, or stale.
def stale (m : JobManager) (taskId : TaskId) (sequence : UInt32) : Bool :=
  match m.partials.lookup taskId with
  | none => false
  | some held => sequence ≤ held.sequence

def recordPartial (m : JobManager) (worker : WorkerId) (taskId : TaskId) (sequence : UInt32)
    (unitsDone : UInt64) (payload : Payload) (nowMs : UInt64) (leaseMs : UInt32) :
    Status × JobManager :=
  match m.checkLease worker taskId with
  | .error e => (.error e, m)
  | .ok _ =>
      if m.stale taskId sequence then
        (.error (makeError .internal "partial result is not newer than the one held"), m)
      else
        match m.renewLease worker taskId nowMs leaseMs with
        | (.error e, m) => (.error e, m)
        | (.ok _, m) =>
            let slot : PartialResult := ⟨worker, sequence, unitsDone, payload, nowMs⟩
            (.ok (), { m with partials := AList.insert taskId slot m.partials })

def latestPartial (m : JobManager) (taskId : TaskId) : Option PartialResult :=
  m.partials.lookup taskId

def recordAssetSource (m : JobManager) (source : AssetSource) : JobManager :=
  let c := m.assetSources
  { m with assetSources :=
      match source with
      | .none => { c with none := c.none + 1 }
      | .cached => { c with cached := c.cached + 1 }
      | .peer => { c with peer := c.peer + 1 }
      | .coordinator => { c with coordinator := c.coordinator + 1 } }

def recordIceOutcome (m : JobManager) (gathered attempts : UInt8) (connected : Bool) :
    JobManager :=
  if attempts = 0 then m
  else
    let c := m.iceCounts
    let bit (mask : UInt8) : UInt64 := if gathered &&& mask ≠ 0 then 1 else 0
    { m with iceCounts :=
      { fetchesWithPeerAttempt := c.fetchesWithPeerAttempt + 1
        peerConnected := c.peerConnected + if connected then 1 else 0
        hostGathered := c.hostGathered + bit 1
        srflxGathered := c.srflxGathered + bit 2
        relayGathered := c.relayGathered + bit 4 } }

-- Back to the queue, held by nobody.
def release (m : JobManager) (id : TaskId) (task : Task) : JobManager :=
  { m.put id { task with holder := Id.nil, leaseExpiresAtMs := 0 } with
    queue := m.queue ++ [id] }

def sweepFrom (nowMs : UInt64) : List TaskId → JobManager → List Expiry × JobManager
  | [], m => ([], m)
  | id :: rest, m =>
      match m.find id with
      | none => sweepFrom nowMs rest m
      | some task =>
          -- A lease is valid strictly before its deadline.
          if task.state ≠ .leased ∨ nowMs < task.leaseExpiresAtMs then sweepFrom nowMs rest m
          else
            match m.apply id task .leaseExpired with
            | .error _ => sweepFrom nowMs rest m
            | .ok (task, m) =>
                let (expired, m) := sweepFrom nowMs rest (m.release id task)
                (⟨id, task.holder, task.unitCount⟩ :: expired, m)

def sweepExpiredLeases (m : JobManager) (nowMs : UInt64) : List Expiry × JobManager :=
  sweepFrom nowMs m.tasks.keys m

def requeue (m : JobManager) (taskId : TaskId) (why : TaskEvent) : Status × JobManager :=
  match m.find taskId with
  | none => (.error (makeError .internal "unknown task"), m)
  | some task =>
      match m.apply taskId task why with
      | .error e => (.error e, m)
      | .ok (task, m) => (.ok (), m.release taskId task)

def heldBy (m : JobManager) (worker : WorkerId) : List TaskId :=
  (m.tasks.entries.filter fun e => e.2.isLeasedTo worker).map Sigma.fst

def releaseFrom : List TaskId → JobManager → Nat × JobManager
  | [], m => (0, m)
  | id :: rest, m =>
      match m.requeue id .release with
      | (.error _, m) => releaseFrom rest m
      | (.ok _, m) =>
          let (released, m) := releaseFrom rest m
          (released + 1, m)

def releaseAllHeldBy (m : JobManager) (worker : WorkerId) : Nat × JobManager :=
  releaseFrom (m.heldBy worker) m

def finish (m : JobManager) (taskId : TaskId) (accepted : Bool) : Status × JobManager :=
  match m.find taskId with
  | none => (.error (makeError .internal "unknown task"), m)
  | some task =>
      match m.apply taskId task (if accepted then .accept else .reject) with
      | .error e => (.error e, m)
      | .ok (task, m) =>
          (.ok (), { m.put taskId { task with submissions := [] } with
            partials := m.partials.erase taskId })

def recordSubmission (m : JobManager) (taskId : TaskId) (worker : WorkerId)
    (checksum : UInt64) (payload : Payload) : JobManager :=
  match m.find taskId with
  | none => m
  | some task =>
      (m.put taskId { task with
        submissions := task.submissions ++ [⟨worker, checksum, payload⟩] }).markTaskDirty taskId

def requestReplica (m : JobManager) (taskId : TaskId) : Status × JobManager :=
  match m.find taskId with
  | none => (.error (makeError .internal "unknown task"), m)
  | some task =>
      match m.apply taskId task .disagreement with
      | .error e => (.error e, m)
      | .ok (task, m) =>
          match m.apply taskId task .issueReplica with
          | .error e => (.error e, m)
          | .ok (task, m) => (.ok (), m.release taskId task)

def restartValidation (m : JobManager) (taskId : TaskId) : Status × JobManager :=
  match m.find taskId with
  | none => (.error (makeError .internal "unknown task"), m)
  | some task =>
      match m.apply taskId task .disagreement with
      | .error e => (.error e, m)
      | .ok (task, m) =>
          match m.apply taskId task .issueReplica with
          | .error e => (.error e, m)
          | .ok (task, m) => (.ok (), m.release taskId { task with submissions := [] })

-- The first job that has room for the range. The sum wraps.
def knownRangeJob (m : JobManager) (startUnit unitCount : UInt64) :
    Option (Sigma fun _ : JobId => Job) :=
  m.jobs.entries.find? fun e => startUnit + unitCount ≤ e.2.totalUnits

def issueKnownRange (m : JobManager) (worker : WorkerId) (nowMs : UInt64) (leaseMs : UInt32)
    (startUnit unitCount : UInt64) : Option Task × JobManager :=
  if unitCount = 0 then (none, m)
  else
    match m.knownRangeJob startUnit unitCount with
    | none => (none, m)
    | some ⟨jobId, _⟩ =>
        let (id, m) := m.mint
        let task : Task :=
          { id, job := jobId, state := .leased, startUnit, unitCount
            holder := worker, leaseExpiresAtMs := nowMs + leaseMs.toUInt64 }
        -- Neither the job's task list nor its cursor knows of it.
        (some task, m.addTask task)

def peekNextJob (m : JobManager) : Option Job :=
  match m.queue.findSome? m.find with
  | some task => m.findJob task.job
  | none => (m.jobs.entries.find? fun e => !e.2.keyspaceExhausted).map Sigma.snd

def acceptedUnits (m : JobManager) (job : Job) : UInt64 :=
  (job.tasks.filterMap fun id =>
    match m.find id with
    | none => none
    | some task =>
        if task.state = .accepted ∧ task.replicaOf = Id.nil then some task.unitCount
        else none).sum

def completionFraction (F : Type) [Double F] (m : JobManager) (jobId : JobId) : F :=
  match m.findJob jobId with
  | none => 0.0
  | some job =>
      if job.totalUnits = 0 then 0.0
      else Double.ofUInt64 (m.acceptedUnits job) / Double.ofUInt64 job.totalUnits

def hasLiveReplica (m : JobManager) (job : Job) (id : TaskId) : Bool :=
  job.tasks.any fun t =>
    match m.find t with
    | none => false
    | some candidate => candidate.replicaOf = id && !isTerminal candidate.state

-- An original that another worker still holds, and nobody races yet.
def speculable (m : JobManager) (worker : WorkerId) (job : Job) (id : TaskId) : Option Task :=
  match m.find id with
  | none => none
  | some original =>
      if original.state = .leased ∧ original.replicaOf = Id.nil ∧
          original.holder ≠ worker ∧
          (checkReplicaAssignment original.priorWorkers worker).isOk ∧
          !m.hasLiveReplica job id then some original
      else none

def issueSpeculative {F : Type} [Double F] (m : JobManager) (worker : WorkerId) (nowMs : UInt64)
    (leaseMs : UInt32) (threshold : F) : Option Task × JobManager :=
  let target := m.jobs.entries.findSome? fun ⟨jobId, job⟩ =>
    if !job.keyspaceExhausted ∨ m.completionFraction F jobId < threshold then none
    else job.tasks.findSome? fun id =>
      (m.speculable worker job id).map fun original => (jobId, id, original)
  match target with
  | none => (none, m)
  | some (jobId, originalId, original) =>
      let (id, m) := m.mint
      let replica : Task :=
        { id, job := jobId, replicaOf := originalId, startUnit := original.startUnit
          unitCount := original.unitCount, state := .leased
          holder := worker, leaseExpiresAtMs := nowMs + leaseMs.toUInt64 }
      let m := m.mutableJob jobId fun job => { job with tasks := job.tasks ++ [id] }
      (some replica, m.addTask replica)

def cancelFrom (taskId root : TaskId) : List TaskId → JobManager → List Revocation × JobManager
  | [], m => ([], m)
  | id :: rest, m =>
      if id = taskId then cancelFrom taskId root rest m
      else
        match m.find id with
        | none => cancelFrom taskId root rest m
        | some sibling =>
            if ¬ (id = root ∨ sibling.replicaOf = root) ∨ isTerminal sibling.state then
              cancelFrom taskId root rest m
            else
              match m.apply id sibling .cancel with
              | .error _ => cancelFrom taskId root rest m
              | .ok (sibling, m) =>
                  let (out, m) := cancelFrom taskId root rest
                    { m.put id { sibling with holder := Id.nil, leaseExpiresAtMs := 0 } with
                      wastedUnits := m.wastedUnits + sibling.unitCount
                      queue := m.queue.filter fun q => q ≠ id }
                  (⟨id, sibling.holder, sibling.unitCount⟩ :: out, m)

def cancelSiblingsOf (m : JobManager) (taskId : TaskId) : List Revocation × JobManager :=
  match m.find taskId with
  | none => ([], m)
  | some winner =>
      let root := if winner.replicaOf = Id.nil then taskId else winner.replicaOf
      match m.findJob winner.job with
      | none => ([], m)
      | some job => cancelFrom taskId root job.tasks m

def jobComplete (m : JobManager) (jobId : JobId) : Bool :=
  match m.findJob jobId with
  | none => false
  | some job =>
      job.keyspaceExhausted && job.tasks.all fun t =>
        match m.find t with
        | none => false
        | some task => isTerminal task.state

def allComplete (m : JobManager) : Bool :=
  !m.jobs.entries.isEmpty && m.jobs.entries.all fun e => m.jobComplete e.1

-- The order in which a hash table is iterated may change between operations.
structure Rehashed (m m' : JobManager) : Prop where
  tasks : m.tasks.entries.Perm m'.tasks.entries
  jobs : m.jobs.entries.Perm m'.jobs.entries
  partials : m.partials.entries.Perm m'.partials.entries
  dirtyTasks : m.dirtyTasks.Perm m'.dirtyTasks
  dirtyJobs : m.dirtyJobs.Perm m'.dirtyJobs
  rest : m' = { m with
    tasks := m'.tasks, jobs := m'.jobs, partials := m'.partials
    dirtyTasks := m'.dirtyTasks, dirtyJobs := m'.dirtyJobs }

-- One task that was read back. Its holder was talking to another process.
def adoptTask (m : JobManager) (task : Task) : JobManager :=
  let m := m.mutableJob task.job fun job => { job with tasks := job.tasks ++ [task.id] }
  { m with
    queue := if task.inFlight then m.queue ++ [task.id] else m.queue
    tasks := m.tasks.emplace task.id task.recovered }

-- Replaces all state by what was read back.
def adoptRecovered (m : JobManager) (jobs : List Job) (tasks : List Task) (nextId : Nat) :
    JobManager :=
  let cleared := { m with jobs := ∅, tasks := ∅, queue := [], nextId }.clearDirty
  let withJobs := jobs.foldl
    (fun m job => { m with jobs := m.jobs.emplace job.id { job with tasks := [] } }) cleared
  tasks.foldl adoptTask withJobs

end JobManager

end P2pGpu.Coordinator
