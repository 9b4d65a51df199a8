import P2pGpu.Coordinator.Params
import P2pGpu.Data.LittleEndian

namespace P2pGpu.Worker

open P2pGpu.LittleEndian
open P2pGpu.Coordinator (KernelSpec Task)

-- The limits of a device that the host asks for.
structure DeviceLimits where
  maxStorageBufferBindingSize : UInt64
  maxUniformBufferBindingSize : UInt64
  maxComputeWorkgroupsPerDimension : UInt32

-- Limits of which none is below what every device of the interface has.
structure Limits extends DeviceLimits where
  storage : 134217728 ≤ maxStorageBufferBindingSize
  uniform : 65536 ≤ maxUniformBufferBindingSize
  groups : 65535 ≤ maxComputeWorkgroupsPerDimension

instance : Coe Limits DeviceLimits := ⟨Limits.toDeviceLimits⟩

structure TaskRequest where
  params : List UInt8
  startUnit : UInt64 := 0
  unitCount : UInt64 := 0
  outputBytes : UInt32 := 0
  workgroupSize : UInt32 := 64
  workgroupSizeY : UInt32 := 1
  invocationsX : UInt32 := 0
  invocationsY : UInt32 := 1
  outputInit : List UInt8 := []
deriving DecidableEq, Repr

def kUniformAlign : Nat := 16

def roundUpTo (n multiple : Nat) : Nat := (n + multiple - 1) / multiple * multiple

-- Bytes 0 to 7 are the window. What is past them is left as it was.
def writeChunkWindow (params : List UInt8) (startUnit unitCount : UInt32) : List UInt8 :=
  writeU32LE startUnit ++ writeU32LE unitCount ++ params.drop 8

-- The most units that a device takes in one dispatch.
def maxUnitsPerDispatch (limits : DeviceLimits) (req : TaskRequest) : UInt64 :=
  limits.maxComputeWorkgroupsPerDimension.toUInt64 * req.workgroupSize.toUInt64

def chunkUnits (limits : DeviceLimits) (req : TaskRequest) (unitsPerChunk : UInt64) : UInt64 :=
  let chunk := if unitsPerChunk = 0 then req.unitCount else unitsPerChunk
  min (min chunk req.unitCount) (maxUnitsPerDispatch limits req)

-- A grid of workgroups is filled up to whole groups.
def groupsX (req : TaskRequest) (units : UInt64) : UInt32 :=
  let span := if req.invocationsX ≠ 0 then req.invocationsX.toUInt64 else units
  ((span + req.workgroupSize.toUInt64 - 1) / req.workgroupSize.toUInt64).toUInt32

def groupsY (req : TaskRequest) : UInt32 :=
  ((req.invocationsY.toUInt64 + req.workgroupSizeY.toUInt64 - 1) /
    req.workgroupSizeY.toUInt64).toUInt32

def paramsImage (req : TaskRequest) : List UInt8 :=
  req.params ++ List.replicate (roundUpTo req.params.length kUniformAlign - req.params.length) 0

section

variable {σ : Type}

-- One dispatch after the other. `done` grows by a chunk each time, so that as
-- many rounds as there are units are enough.
def chunkLoop (req : TaskRequest) (chunk : UInt64)
    (dispatch : List UInt8 → UInt32 → UInt32 → σ → σ) : Nat → UInt64 → σ → σ
  | 0, _, s => s
  | fuel + 1, done, s =>
      if done < req.unitCount then
        let units := min chunk (req.unitCount - done)
        let start := req.startUnit + done
        let image := writeChunkWindow (paramsImage req) start.toUInt32 units.toUInt32
        chunkLoop req chunk dispatch fuel (done + units)
          (dispatch image (groupsX req units) (groupsY req) s)
      else s

-- Nothing of the device fails on the way. The output is set up once a task.
def runTask (limits : DeviceLimits) (req : TaskRequest) (unitsPerChunk : UInt64)
    (dispatch : List UInt8 → UInt32 → UInt32 → σ → σ) (load : List UInt8 → σ) : Option σ :=
  if req.unitCount = 0 ∨ req.outputBytes = 0 ∨ req.workgroupSize = 0 then none
  else if req.params.length < 8 then none
  else if req.outputInit ≠ [] ∧ req.outputInit.length ≠ req.outputBytes.toNat then none
  else if limits.maxStorageBufferBindingSize < req.outputBytes.toUInt64 then none
  else if limits.maxUniformBufferBindingSize.toNat < roundUpTo req.params.length kUniformAlign then
    none
  else
    let chunk := chunkUnits limits req unitsPerChunk
    if chunk = 0 then none
    else
      let output := if req.outputInit ≠ [] then req.outputInit
        else List.replicate req.outputBytes.toNat 0
      some (chunkLoop req chunk dispatch req.unitCount.toNat 0 (load output))

end

-- What the worker asks of the host for a task it was granted. A kernel with rows
-- of workgroups takes its grid from the parameters, at bytes 16 and 20.
def taskRequest (spec : KernelSpec) (params outputInit : List UInt8) (task : Task) : TaskRequest :=
  let (x, y, _) := spec.workgroupSize
  let workgroupSizeY := if y ≠ 0 then y else 1
  let rows := 1 < workgroupSizeY ∧ 24 ≤ params.length
  { params
    startUnit := task.startUnit
    unitCount := task.unitCount
    outputBytes := spec.outputBytes
    workgroupSize := if x ≠ 0 then x else 64
    workgroupSizeY
    invocationsX := if rows then (readWords params).getD 4 0 else 0
    invocationsY := if rows then (readWords params).getD 5 0 else 1
    outputInit }

section

variable {σ : Type} {req : TaskRequest} {chunk : UInt64}
  {dispatch : List UInt8 → UInt32 → UInt32 → σ → σ}

-- What every dispatch carries on holds of the whole task.
theorem chunkLoop_invariant (P : Nat → σ → Prop) (hchunk : 0 < chunk.toNat)
    (hstep : ∀ (done units : UInt64) (s : σ), P done.toNat s →
      done.toNat + units.toNat ≤ req.unitCount.toNat → 0 < units.toNat → units ≤ chunk →
      P (done.toNat + units.toNat) (dispatch
        (writeChunkWindow (paramsImage req) (req.startUnit + done).toUInt32 units.toUInt32)
        (groupsX req units) (groupsY req) s)) :
    ∀ (fuel : Nat) (done : UInt64) (s : σ), req.unitCount.toNat ≤ done.toNat + fuel →
      done.toNat ≤ req.unitCount.toNat → P done.toNat s →
      P req.unitCount.toNat (chunkLoop req chunk dispatch fuel done s) := by
  intro fuel
  induction fuel with
  | zero =>
      intro done s hfuel hle hp
      have hdone : done.toNat = req.unitCount.toNat := by omega
      rw [← hdone]
      exact hp
  | succ fuel ih =>
      intro done s hfuel hle hp
      rw [chunkLoop]
      by_cases hlt : done < req.unitCount
      · rw [if_pos hlt]
        have hltNat := UInt64.lt_iff_toNat_lt.mp hlt
        have hleft : (req.unitCount - done).toNat = req.unitCount.toNat - done.toNat :=
          UInt64.toNat_sub_of_le _ _ (UInt64.le_iff_toNat_le.mpr hle)
        have hunits : (min chunk (req.unitCount - done)).toNat =
            min chunk.toNat (req.unitCount.toNat - done.toNat) := by
          rw [toNat_minU64, hleft]
        have hbound := req.unitCount.toNat_lt
        have hnext : (done + min chunk (req.unitCount - done)).toNat =
            done.toNat + (min chunk (req.unitCount - done)).toNat := by
          rw [UInt64.toNat_add]
          apply Nat.mod_eq_of_lt
          omega
        have hle' : min chunk (req.unitCount - done) ≤ chunk := by
          rw [UInt64.le_iff_toNat_le]
          omega
        have hp' := hstep done (min chunk (req.unitCount - done)) s hp (by omega) (by omega) hle'
        rw [← hnext] at hp'
        exact ih _ _ (by omega) (by omega) hp'
      · rw [if_neg hlt]
        have hge : req.unitCount.toNat ≤ done.toNat := by
          rw [UInt64.lt_iff_toNat_lt] at hlt
          omega
        have hdone : done.toNat = req.unitCount.toNat := by omega
        rw [← hdone]
        exact hp

end

end P2pGpu.Worker
