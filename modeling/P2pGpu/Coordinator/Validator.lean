import P2pGpu.Coordinator.Composite
import P2pGpu.Coordinator.KernelRegistry

namespace P2pGpu.Coordinator

inductive Verdict where
  | matched
  | mismatch
  -- There is no comparator, or the payloads are malformed for it.
  | unsupported
deriving DecidableEq, Repr

structure Comparison (F : Type) where
  verdict : Verdict
  elements : Nat
  differingElements : Nat
  firstDifferingIndex : Nat
  maxAbsDiff : F
  maxRelDiff : F
  maxUlpDiff : UInt32
  detail : String
deriving DecidableEq

section

variable {F : Type} [Double F]

def Comparison.init : Comparison F where
  verdict := .unsupported
  elements := 0
  differingElements := 0
  firstDifferingIndex := 0
  maxAbsDiff := 0.0
  maxRelDiff := 0.0
  maxUlpDiff := 0
  detail := ""

def Comparison.differAt (c : Comparison F) (i : Nat) : Comparison F :=
  { c with
    differingElements := c.differingElements + 1
    firstDifferingIndex := Nat.min c.firstDifferingIndex i }

def Comparison.decided (c : Comparison F) : Comparison F :=
  { c with verdict := if c.differingElements = 0 then .matched else .mismatch }

-- Where a `float` stands among its like, from its bits as a signed number.
def toOrdered (bits : UInt32) : Int :=
  if bits.toNat < 2 ^ 31 then bits.toNat else 0x80000000 - ((bits.toNat : Int) - 2 ^ 32)

def ulpDistance (F : Type) [Double F] (a b : UInt32) : UInt32 :=
  let x : F := Double.ofFloat32 a
  let y : F := Double.ofFloat32 b
  if Double.beq x y then 0
  else if !Double.isFinite x || !Double.isFinite y then 0xFFFFFFFF
  else
    let mag := (toOrdered a - toOrdered b).natAbs
    if 0xFFFFFFFF < mag then 0xFFFFFFFF else UInt32.ofNat mag

-- All the bytes that differ are counted.
def compareExact (a b : Payload) : Comparison F :=
  let start : Comparison F :=
    { Comparison.init with elements := a.length, firstDifferingIndex := a.length }
  let c := (List.range a.length).foldl
    (fun c i => if a[i]? = b[i]? then c else c.differAt i) start
  c.decided

def tolerantStep (spec : KernelSpec) (a b : Payload) (c : Comparison F) (i : Nat) :
    Comparison F :=
  let rawA := readFloat32 a (i * 4)
  let rawB := readFloat32 b (i * 4)
  let va : F := Double.ofFloat32 rawA
  let vb : F := Double.ofFloat32 rawB
  if Double.isNaN va && Double.isNaN vb then c
  else if Double.isNaN va != Double.isNaN vb then
    { c.differAt i with maxUlpDiff := 0xFFFFFFFF, maxAbsDiff := Double.infinity }
  else
    let absDiff := Double.abs (va - vb)
    let denom := Double.abs vb
    let relDiff := if 0.0 < denom then absDiff / denom else 0.0
    let c :=
      { c with
        maxAbsDiff := Double.max c.maxAbsDiff absDiff
        maxRelDiff := Double.max c.maxRelDiff relDiff
        maxUlpDiff := max c.maxUlpDiff (ulpDistance F rawA rawB) }
    let allowed := Double.ofFloat32 spec.absEps + Double.ofFloat32 spec.relEps * denom
    if allowed < absDiff then c.differAt i else c

def compareTolerant (spec : KernelSpec) (a b : Payload) : Comparison F :=
  if a.length % 4 ≠ 0 then
    { Comparison.init with
      elements := a.length
      detail := "Tolerant payload is not a multiple of 4 bytes (assumes f32)" }
  else
    let n := a.length / 4
    let start : Comparison F := { Comparison.init with elements := n, firstDifferingIndex := n }
    ((List.range n).foldl (tolerantStep spec a b) start).decided

def kSigmaCutoff : F := 6.0
def kMaxOutlierFraction : F := 0.03
def kAggregateCutoff : F := 12.0
def kScaleFloorRel : F := 1e-3
def kScaleQuantile : F := 0.99
def kHalfNormalQuantile : F := 2.5758

def quantile (v : List F) (p : F) : F :=
  if v = [] then 0.0
  else
    let place := (Double.toUInt64 (p * Double.ofUInt64 (UInt64.ofNat (v.length - 1)))).toNat
    (v.mergeSort fun x y => !decide (y < x)).getD place 0.0

-- What is gathered over the pixels, channel by channel.
structure Channels (F : Type) where
  d : List F := []
  magnitude : List F := []
  sumA : F
  sumB : F
  sumPooledSq : F

def addChannel (a b : Payload) (c : Comparison F) (i : Nat) (na nb pooled : F)
    (s : Channels F) (k : Nat) : Except (Comparison F) (Channels F) :=
  let pa : F := Double.ofFloat32 (readFloat32 a (i * kStride + k * 4))
  let pb : F := Double.ofFloat32 (readFloat32 b (i * kStride + k * 4))
  if !Double.isFinite pa || !Double.isFinite pb then
    .error { c with
      verdict := .mismatch
      differingElements := 1
      firstDifferingIndex := i * 3 + k
      detail := "non-finite radiance" }
  else
    let ma := pa / na
    let mb := pb / nb
    .ok { s with
      d := s.d ++ [(ma - mb) / pooled]
      magnitude := s.magnitude ++ [Double.abs mb]
      sumA := s.sumA + ma
      sumB := s.sumB + mb }

def addPixel (a b : Payload) (c : Comparison F) (s : Channels F) (i : Nat) :
    Except (Comparison F) (Channels F) :=
  let na : F := Double.ofFloat32 (readFloat32 a (i * kStride + 12))
  let nb : F := Double.ofFloat32 (readFloat32 b (i * kStride + 12))
  if !decide (0.0 < na) || !decide (0.0 < nb) || !Double.isFinite na || !Double.isFinite nb then
    -- No count, no estimate of precision.
    .error { c with
      verdict := .unsupported
      detail := "a pixel reports a non-positive or non-finite sample count" }
  else
    let pooled := Double.sqrt (1.0 / na + 1.0 / nb)
    (List.range 3).foldlM (addChannel a b c i na nb pooled)
      { s with sumPooledSq := s.sumPooledSq + pooled * pooled }

-- The channels that are out, and the one that is furthest out.
structure Outliers (F : Type) where
  count : Nat := 0
  worst : F
  worstIndex : Nat

def countOutliers (scale : F) : List F → Nat → Outliers F → Outliers F
  | [], _, o => o
  | v :: rest, i, o =>
      let z := Double.abs v / scale
      let o := if o.worst < z then { o with worst := z, worstIndex := i } else o
      countOutliers scale rest (i + 1)
        (if kSigmaCutoff < z then { o with count := o.count + 1 } else o)

def judgeChannels (c : Comparison F) (s : Channels F) : Comparison F :=
  let n : F := Double.ofUInt64 (UInt64.ofNat s.d.length)
  let typical := quantile s.magnitude 0.5
  let scale := Double.max (quantile (s.d.map Double.abs) kScaleQuantile / kHalfNormalQuantile)
    (kScaleFloorRel * Double.max typical 1e-9)
  let o := countOutliers scale s.d 0 { worst := 0.0, worstIndex := s.d.length }
  -- A uniform error scales the estimate too, so the means are compared as well.
  let meanDiff := (s.sumA - s.sumB) / n
  let aggregateSe := scale * Double.sqrt (s.sumPooledSq / n) / Double.sqrt n
  let zAggregate := if 0.0 < aggregateSe then Double.abs meanDiff / aggregateSe else 0.0
  let c :=
    { c with
      differingElements := o.count
      firstDifferingIndex := o.worstIndex
      maxAbsDiff := o.worst
      maxRelDiff := zAggregate }
  let outlierFraction : F := Double.ofUInt64 (UInt64.ofNat o.count) / n
  if kMaxOutlierFraction < outlierFraction then
    { c with verdict := .mismatch, detail := "too many per-pixel outliers" }
  else if kAggregateCutoff < zAggregate then
    { c with verdict := .mismatch, detail := "tile means disagree beyond sampling error" }
  else { c with verdict := .matched }

def compareStatistical (a b : Payload) : Comparison F :=
  if a.length % kStride ≠ 0 then
    { Comparison.init with
      detail := "statistical payload is not a whole number of RGBA f32 pixels" }
  else
    let pixels := a.length / kStride
    let c : Comparison F := { Comparison.init with elements := pixels * 3 }
    match (List.range pixels).foldlM (addPixel a b c)
        { sumA := 0.0, sumB := 0.0, sumPooledSq := 0.0 } with
    | .error c => c
    | .ok s => if s.d = [] then { c with verdict := .matched } else judgeChannels c s

def compare (spec : KernelSpec) (a b : Payload) : Comparison F :=
  -- The length comes first, for every class.
  if a.length ≠ b.length then
    { Comparison.init with
      verdict := .mismatch
      elements := max a.length b.length
      differingElements := max a.length b.length
      detail := "payload lengths differ: " ++ toString a.length ++ " vs " ++ toString b.length }
  else if a = [] then { Comparison.init with verdict := .matched }
  else
    match spec.determinism with
    | .exact => compareExact a b
    | .tolerant => compareTolerant spec a b
    | .statistical => compareStatistical a b

end

end P2pGpu.Coordinator
