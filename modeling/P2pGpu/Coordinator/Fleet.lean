import P2pGpu.Coordinator.Affinity
import P2pGpu.Coordinator.Double
import P2pGpu.Data.Table
import P2pGpu.Protocol.Ids

namespace P2pGpu.Coordinator

open P2pGpu.Protocol

-- A connected worker. All of its times are the coordinator's.
structure WorkerRecord (F : Type) [Double F] where
  id : WorkerId
  connId : Nat
  lastSeenMs : UInt64
  tasksCompleted : UInt32 := 0
  adapterVendor : List UInt8 := []
  adapterDevice : List UInt8 := []
  adapterBackend : List UInt8 := []
  iceGathered : UInt8 := 0
  joinedMs : UInt64
  firstGrantMs : UInt64 := 0
  firstResultMs : UInt64 := 0
  scoreOpsPerSec : F := 0.0
  correction : F := 1.0
  throttle : F := 1.0
  unitsCompleted : UInt64 := 0
  observedMsTotal : F := 0.0
  predictedMs : F := 0.0
  grantedAtMs : UInt64 := 0
  pendingRevokes : List TaskId := []
  cachedAssets : List AssetId := []

structure Fleet (F : Type) [Double F] where
  workers : Table WorkerId (WorkerRecord F) := ∅

namespace Fleet

variable {F : Type} [Double F]

def find (f : Fleet F) (id : WorkerId) : Option (WorkerRecord F) := f.workers.lookup id

def join (f : Fleet F) (id : WorkerId) (connId : Nat) (nowMs : UInt64) : Fleet F :=
  ⟨f.workers.insert id { id, connId, lastSeenMs := nowMs, joinedMs := nowMs }⟩

def leave (f : Fleet F) (id : WorkerId) : Fleet F := ⟨f.workers.erase id⟩

-- Mutable access to the record of one worker, where there is one.
def «mutable» (f : Fleet F) (id : WorkerId) (edit : WorkerRecord F → WorkerRecord F) : Fleet F :=
  ⟨f.workers.modify id edit⟩

def touch (f : Fleet F) (id : WorkerId) (nowMs : UInt64) : Fleet F :=
  f.mutable id fun r => { r with lastSeenMs := nowMs }

-- Absence is not malice: this only reports.
def findLost (f : Fleet F) (nowMs : UInt64) (timeoutMs : UInt32) : List WorkerId :=
  (f.workers.entries.filter fun e => e.2.lastSeenMs + timeoutMs.toUInt64 < nowMs).map Sigma.fst

def recordCompletion (f : Fleet F) (id : WorkerId) : Fleet F :=
  f.mutable id fun r => { r with tasksCompleted := r.tasksCompleted + 1 }

def peersHolding (f : Fleet F) (asset : AssetId) (exclude : WorkerId) (most : Nat) :
    List WorkerId :=
  if most = 0 then []
  else
    let holders := (f.workers.entries.filter fun e =>
      e.1 ≠ exclude && hasAsset e.2.cachedAssets asset).map Sigma.fst
    (holders.mergeSort fun a b => if a.hi ≠ b.hi then a.hi < b.hi else a.lo ≤ b.lo).take most

section

variable (f : Fleet F) (id i : WorkerId)

@[simp] theorem find_mutable (edit : WorkerRecord F → WorkerRecord F) :
    (f.mutable id edit).find i = if i = id then (f.find i).map edit else f.find i :=
  Table.lookup_modify f.workers id i edit

@[simp] theorem find_touch (nowMs : UInt64) :
    (f.touch id nowMs).find i =
      if i = id then (f.find i).map fun r => { r with lastSeenMs := nowMs } else f.find i :=
  find_mutable f id i _

@[simp] theorem find_recordCompletion :
    (f.recordCompletion id).find i =
      if i = id then (f.find i).map fun r => { r with tasksCompleted := r.tasksCompleted + 1 }
      else f.find i :=
  find_mutable f id i _

theorem find_join_ne (connId : Nat) (nowMs : UInt64) (h : i ≠ id) :
    (f.join id connId nowMs).find i = f.find i :=
  AList.lookup_insert_ne h

theorem find_leave_ne (h : i ≠ id) : (f.leave id).find i = f.find i :=
  AList.lookup_erase_ne h

end

end Fleet

end P2pGpu.Coordinator
