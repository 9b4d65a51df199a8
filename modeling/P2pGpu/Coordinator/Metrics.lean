import P2pGpu.Coordinator.Double
import P2pGpu.Coordinator.TaskState

namespace P2pGpu.Coordinator

-- The enumerator that a byte converts to, where it is one.
def TaskState.ofByte : UInt8 → Option TaskState
  | 0 => some .queued
  | 1 => some .leased
  | 2 => some .validating
  | 3 => some .needsReplica
  | 4 => some .accepted
  | 5 => some .rejected
  | 6 => some .cancelled
  | _ => none

def TaskState.toString : Option TaskState → String
  | some .queued => "Queued"
  | some .leased => "Leased"
  | some .validating => "Validating"
  | some .needsReplica => "NeedsReplica"
  | some .accepted => "Accepted"
  | some .rejected => "Rejected"
  | some .cancelled => "Cancelled"
  | none => "?"

structure WorkerMetrics (F : Type) [Double F] where
  workerId : UInt64 := 0
  tasksCompleted : UInt32 := 0
  scoreOpsPerSec : F := 0.0
  correction : F := 1.0
  throttle : F := 1.0
  observedUnitsPerSec : F := 0.0
  -- As the worker sent them, so any bytes.
  adapterVendor : List UInt8 := []
  adapterDevice : List UInt8 := []
  adapterBackend : List UInt8 := []
  iceGathered : UInt32 := 0
  msToFirstGrant : F := 0.0 - 1.0
  msToFirstResult : F := 0.0 - 1.0

structure Snapshot (F : Type) [Double F] where
  timestampMs : UInt64 := 0
  workers : UInt64 := 0
  queueDepth : UInt64 := 0
  totalTasks : UInt64 := 0
  tasksByState : List UInt64 := []
  unitsTotal : UInt64 := 0
  unitsRemaining : UInt64 := 0
  wastedUnits : UInt64 := 0
  assetGrants : UInt64 := 0
  assetGrantsHit : UInt64 := 0
  assetFromPeer : UInt64 := 0
  assetFromCoordinator : UInt64 := 0
  assetFromCache : UInt64 := 0
  coordinatorAssetEgress : UInt64 := 0
  iceFetches : UInt64 := 0
  iceConnected : UInt64 := 0
  iceHost : UInt64 := 0
  iceSrflx : UInt64 := 0
  iceRelay : UInt64 := 0
  rejectedFrames : UInt64 := 0
  fleet : List (WorkerMetrics F) := []

-- The bytes of characters that are all ASCII.
def bytes (l : List Char) : List UInt8 := l.map fun c => UInt8.ofNat c.toNat

def literal (s : String) : List UInt8 := bytes s.toList

def decimal (n : Nat) : List UInt8 := literal (toString n)

-- In front of every turn of a loop but the first it puts a comma.
def separated {α : Type} (write : Nat → α → List UInt8) (out : List UInt8) (items : List α) :
    List UInt8 :=
  items.zipIdx.foldl (fun out e =>
    (if 0 < e.2 then out ++ literal "," else out) ++ write e.2 e.1) out

def quote (v : List UInt8) : List UInt8 :=
  v.foldl (fun out c =>
    if c = 34 ∨ c = 92 then out ++ [92] ++ [c]
    else if 0x20 ≤ c ∧ c < 0x7F then out ++ [c]
    else out) (literal "\"") ++ literal "\""

section

-- What `%.6g` prints of a number. It is shorter than the buffer it is printed to.
variable {F : Type} [Double F] (print : F → List UInt8)

def num (v : F) : List UInt8 :=
  if !Double.isFinite v then literal "null"
  else
    let text := print v
    if 0 < text.length then text else literal "null"

def workerToJson (w : WorkerMetrics F) : List UInt8 :=
  literal "\x7b\"worker_id\":" ++ decimal w.workerId.toNat ++
  literal ",\"tasks_completed\":" ++ decimal w.tasksCompleted.toNat ++
  literal ",\"score_ops_per_sec\":" ++ num print w.scoreOpsPerSec ++
  literal ",\"correction\":" ++ num print w.correction ++
  literal ",\"throttle\":" ++ num print w.throttle ++
  literal ",\"observed_units_per_sec\":" ++ num print w.observedUnitsPerSec ++
  literal ",\"adapter_vendor\":" ++ quote w.adapterVendor ++
  literal ",\"adapter_device\":" ++ quote w.adapterDevice ++
  literal ",\"adapter_backend\":" ++ quote w.adapterBackend ++
  literal ",\"ice_gathered\":" ++ decimal w.iceGathered.toNat ++
  literal ",\"ice_host\":" ++ literal (if w.iceGathered &&& 1 ≠ 0 then "true" else "false") ++
  literal ",\"ice_srflx\":" ++ literal (if w.iceGathered &&& 2 ≠ 0 then "true" else "false") ++
  literal ",\"ice_relay\":" ++ literal (if w.iceGathered &&& 4 ≠ 0 then "true" else "false") ++
  literal ",\"ms_to_first_grant\":" ++ num print w.msToFirstGrant ++
  literal ",\"ms_to_first_result\":" ++ num print w.msToFirstResult ++
  literal "\x7d"

def toJson (snap : Snapshot F) : List UInt8 :=
  let out := literal "\x7b"
  let out := out ++ literal "\"timestamp_ms\":" ++ decimal snap.timestampMs.toNat
  let out := out ++ literal ",\"workers\":" ++ decimal snap.workers.toNat
  let out := out ++ literal ",\"queue_depth\":" ++ decimal snap.queueDepth.toNat
  let out := out ++ literal ",\"total_tasks\":" ++ decimal snap.totalTasks.toNat
  let out := out ++ literal ",\"units_total\":" ++ decimal snap.unitsTotal.toNat
  let out := out ++ literal ",\"units_remaining\":" ++ decimal snap.unitsRemaining.toNat
  let out := out ++ literal ",\"wasted_units\":" ++ decimal snap.wastedUnits.toNat
  let out := out ++ literal ",\"asset_grants\":" ++ decimal snap.assetGrants.toNat
  let out := out ++ literal ",\"asset_grants_hit\":" ++ decimal snap.assetGrantsHit.toNat
  let out := out ++ literal ",\"asset_from_peer\":" ++ decimal snap.assetFromPeer.toNat
  let out := out ++ literal ",\"asset_from_coordinator\":" ++
    decimal snap.assetFromCoordinator.toNat
  let out := out ++ literal ",\"asset_from_cache\":" ++ decimal snap.assetFromCache.toNat
  let out := out ++ literal ",\"coordinator_asset_egress\":" ++
    decimal snap.coordinatorAssetEgress.toNat
  let out := out ++ literal ",\"ice_fetches\":" ++ decimal snap.iceFetches.toNat
  let out := out ++ literal ",\"ice_connected\":" ++ decimal snap.iceConnected.toNat
  let out := out ++ literal ",\"ice_host\":" ++ decimal snap.iceHost.toNat
  let out := out ++ literal ",\"ice_srflx\":" ++ decimal snap.iceSrflx.toNat
  let out := out ++ literal ",\"ice_relay\":" ++ decimal snap.iceRelay.toNat
  let out := out ++ literal ",\"rejected_frames\":" ++ decimal snap.rejectedFrames.toNat
  let out := out ++ literal ",\"tasks_by_state\":["
  let out := separated (fun _ n => decimal n.toNat) out snap.tasksByState
  let out := out ++ literal "]"
  let out := out ++ literal ",\"state_names\":["
  let out := separated (fun i _ =>
    literal "\"" ++ literal (TaskState.toString (TaskState.ofByte (UInt8.ofNat i))) ++
      literal "\"") out snap.tasksByState
  let out := out ++ literal "]"
  let out := out ++ literal ",\"fleet\":["
  let out := separated (fun _ w => workerToJson print w) out snap.fleet
  out ++ literal "]\x7d"

end

end P2pGpu.Coordinator
