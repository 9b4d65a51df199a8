import P2pGpu.Protocol.Error
import P2pGpu.Protocol.Ids

namespace P2pGpu.Protocol

def kMaxParamsBytes : Nat := 4 * 1024
def kMaxOutputBytes : Nat := 8 * 1024 * 1024

def checkParamsSize (paramsBytes : Nat) : Status :=
  if paramsBytes > kMaxParamsBytes then
    .error (makeError .payloadTooLarge "params exceed kMaxParamsBytes")
  else .ok ()

def checkSingleInFlightResult (alreadyInFlight : Bool) : Status :=
  if alreadyInFlight then
    .error (makeError .orphanPayload "result header already in flight for this task")
  else .ok ()

def checkLeaseHeld (heldLeases : List TaskId) (taskId : TaskId) : Status :=
  if heldLeases.any (· == taskId) then .ok ()
  else .error (makeError .leaseNotHeld "worker does not hold a lease on this task")

def checkReplicaAssignment (priorWorkers : List WorkerId) (candidate : WorkerId) : Status :=
  if priorWorkers.any (· == candidate) then
    .error (makeError .internal "replica would go to a worker that computed a sibling")
  else .ok ()

def checkPayloadChecksum (declared computed : UInt64) : Status :=
  if declared != computed then
    .error (makeError .checksumMismatch "payload checksum mismatch")
  else .ok ()

def checkPayloadLength (declared : UInt32) (actual : Nat) : Status :=
  if declared.toNat ≠ actual then
    .error (makeError .malformedMessage "declared payload_bytes does not match actual payload")
  else .ok ()

@[simp] theorem checkReplicaAssignment_isOk {priorWorkers : List WorkerId} {candidate : WorkerId} :
    (checkReplicaAssignment priorWorkers candidate).isOk = true ↔
      candidate ∉ priorWorkers := by
  unfold checkReplicaAssignment
  split
  · rename_i h
    simpa using h
  · rename_i h
    simpa using h

@[simp] theorem checkLeaseHeld_self (taskId : TaskId) :
    checkLeaseHeld [taskId] taskId = .ok () := by
  simp [checkLeaseHeld]

end P2pGpu.Protocol
