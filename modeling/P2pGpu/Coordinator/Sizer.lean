import P2pGpu.Coordinator.Double

namespace P2pGpu.Coordinator

def kProbeDivisor : UInt64 := 8
def kMaxUnitsPerTask : UInt64 := 0xFFFFFFFF

section

variable {F : Type} [Double F]

def kLeaseHeadroom : F := 0.5
def kMinCorrection : F := 0.1
def kMaxCorrection : F := 1000.0

structure SizingInputs (F : Type) [Double F] where
  score : F := 0.0
  correction : F := 1.0
  throttle : F := 1.0
  targetMs : UInt32 := 2000
  leaseMs : UInt32 := 30000
  r5MinUnits : UInt64 := 0
  remainingUnits : UInt64 := 0
  coldStart : Bool := false

-- Units of work in so many seconds of this worker's time.
def unitsIn (inputs : SizingInputs F) (seconds correction throttle : F) : F :=
  let probe : F := if inputs.coldStart then Double.ofUInt64 kProbeDivisor else 1.0
  seconds * inputs.score * throttle / (correction * probe)

def computeTaskSize (inputs : SizingInputs F) : UInt64 :=
  if inputs.remainingUnits = 0 then 0
  else if !decide (0.0 < inputs.score) || !Double.isFinite inputs.score then 0
  else
    let correction :=
      if 0.0 < inputs.correction ∧ Double.isFinite inputs.correction then inputs.correction
      else 1.0
    let throttle := Double.clamp inputs.throttle 0.0 1.0
    if Double.beq throttle 0.0 then 0
    else
      let seconds := Double.ofUInt64 inputs.targetMs.toUInt64 / 1000.0
      let leaseSeconds := Double.ofUInt64 inputs.leaseMs.toUInt64 / 1000.0 * kLeaseHeadroom
      let units := Double.min (unitsIn inputs seconds correction throttle)
        (unitsIn inputs leaseSeconds correction throttle)
      let units := if !decide (1.0 ≤ units) || !Double.isFinite units then 1.0 else units
      -- The floor of the kernel wins over the lease, and the last task may be smaller.
      min (min (max (Double.toUInt64 units) inputs.r5MinUnits) kMaxUnitsPerTask)
        inputs.remainingUnits

def correctionOf (inputs : SizingInputs F) : F :=
  if 0.0 < inputs.correction ∧ Double.isFinite inputs.correction then inputs.correction else 1.0

-- The units that a worker should manage, before they are narrowed.
def manageable (inputs : SizingInputs F) : F :=
  let throttle := Double.clamp inputs.throttle 0.0 1.0
  let seconds := Double.ofUInt64 inputs.targetMs.toUInt64 / 1000.0
  let leaseSeconds := Double.ofUInt64 inputs.leaseMs.toUInt64 / 1000.0 * kLeaseHeadroom
  let units := Double.min (unitsIn inputs seconds (correctionOf inputs) throttle)
    (unitsIn inputs leaseSeconds (correctionOf inputs) throttle)
  if !decide (1.0 ≤ units) || !Double.isFinite units then 1.0 else units

-- The score comes to a positive number of units.
structure Sized (inputs : SizingInputs F) : Prop where
  positive : 0.0 < inputs.score
  finite : Double.isFinite inputs.score = true
  narrowed : Double.toUInt64 (manageable inputs) ≠ 0 ∨ inputs.r5MinUnits ≠ 0

def updateCorrection (current predictedMs actualMs alpha : F) : F :=
  if !decide (0.0 < predictedMs) || !decide (0.0 < actualMs) ||
      !Double.isFinite predictedMs || !Double.isFinite actualMs then current
  else
    let ratio := actualMs / predictedMs
    let clamped := Double.clamp ratio kMinCorrection kMaxCorrection
    let a := Double.clamp alpha 0.0 1.0
    Double.clamp ((1.0 - a) * current + a * clamped) kMinCorrection kMaxCorrection

end

end P2pGpu.Coordinator
