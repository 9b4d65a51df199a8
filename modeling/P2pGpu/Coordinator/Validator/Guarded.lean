import P2pGpu.Coordinator.Validator
import P2pGpu.Data.Checked
import P2pGpu.Data.LittleEndian

namespace P2pGpu.Coordinator

open P2pGpu.LittleEndian

-- The comparators again, with every read out of an array and every division watched:
-- a fault is a read outside of the array or a division by zero.
namespace Guarded

section

variable {F : Type} [Double F] {ε : Type}

def divide (x y : F) : Checked ε F := if Double.beq y 0.0 then Checked.fault else .ok (x / y)

-- The conditional with which the source divides by what may be zero.
def quotient (x y : F) : Checked ε F := if 0.0 < y then divide x y else .ok 0.0

def floatAt (payload : Payload) (i : Nat) : Checked ε UInt32 := do
  let b₀ ← Checked.read payload i
  let b₁ ← Checked.read payload (i + 1)
  let b₂ ← Checked.read payload (i + 2)
  let b₃ ← Checked.read payload (i + 3)
  return readU32LE b₀ b₁ b₂ b₃

def exactStep (a b : Payload) (c : Comparison F) (i : Nat) : Checked ε (Comparison F) := do
  let x ← Checked.read a i
  let y ← Checked.read b i
  return if x = y then c else c.differAt i

def compareExact (a b : Payload) : Checked ε (Comparison F) := do
  let start : Comparison F :=
    { Comparison.init with elements := a.length, firstDifferingIndex := a.length }
  let c ← Checked.loop a.length (exactStep a b) start
  return c.decided

def tolerantStep (spec : KernelSpec) (a b : Payload) (c : Comparison F) (i : Nat) :
    Checked ε (Comparison F) := do
  let rawA ← floatAt a (i * 4)
  let rawB ← floatAt b (i * 4)
  let va : F := Double.ofFloat32 rawA
  let vb : F := Double.ofFloat32 rawB
  if Double.isNaN va && Double.isNaN vb then return c
  else if Double.isNaN va != Double.isNaN vb then
    return { c.differAt i with maxUlpDiff := 0xFFFFFFFF, maxAbsDiff := Double.infinity }
  else
    let absDiff := Double.abs (va - vb)
    let denom := Double.abs vb
    let relDiff ← quotient absDiff denom
    let c :=
      { c with
        maxAbsDiff := Double.max c.maxAbsDiff absDiff
        maxRelDiff := Double.max c.maxRelDiff relDiff
        maxUlpDiff := max c.maxUlpDiff (ulpDistance F rawA rawB) }
    let allowed := Double.ofFloat32 spec.absEps + Double.ofFloat32 spec.relEps * denom
    return if allowed < absDiff then c.differAt i else c

def compareTolerant (spec : KernelSpec) (a b : Payload) : Checked ε (Comparison F) :=
  if a.length % 4 ≠ 0 then
    return { Comparison.init with
      elements := a.length
      detail := "Tolerant payload is not a multiple of 4 bytes (assumes f32)" }
  else do
    let n := a.length / 4
    let start : Comparison F := { Comparison.init with elements := n, firstDifferingIndex := n }
    let c ← Checked.loop n (tolerantStep spec a b) start
    return c.decided

-- The place is one that the iterator may be moved to and read at.
def quantile (v : List F) (p : F) : Checked ε F :=
  if v = [] then return 0.0
  else
    let place := (Double.toUInt64 (p * Double.ofUInt64 (UInt64.ofNat (v.length - 1)))).toNat
    Checked.read (v.mergeSort fun x y => !decide (y < x)) place

def pixelAt (payload : Payload) (i : Nat) : Checked ε (List UInt32) := do
  let r ← floatAt payload (i * kStride + 0 * 4)
  let g ← floatAt payload (i * kStride + 1 * 4)
  let b ← floatAt payload (i * kStride + 2 * 4)
  let samples ← floatAt payload (i * kStride + 3 * 4)
  return [r, g, b, samples]

def addChannel (pa pb : List UInt32) (c : Comparison F) (i : Nat) (na nb pooled : F)
    (s : Channels F) (k : Nat) : Checked (Comparison F) (Channels F) := do
  let rawA ← Checked.read pa k
  let rawB ← Checked.read pb k
  let x : F := Double.ofFloat32 rawA
  let y : F := Double.ofFloat32 rawB
  if !Double.isFinite x || !Double.isFinite y then
    Checked.refuse { c with
      verdict := .mismatch
      differingElements := 1
      firstDifferingIndex := i * 3 + k
      detail := "non-finite radiance" }
  else
    let ma ← divide x na
    let mb ← divide y nb
    let d ← divide (ma - mb) pooled
    return { s with
      d := s.d ++ [d]
      magnitude := s.magnitude ++ [Double.abs mb]
      sumA := s.sumA + ma
      sumB := s.sumB + mb }

def addPixel (a b : Payload) (c : Comparison F) (s : Channels F) (i : Nat) :
    Checked (Comparison F) (Channels F) := do
  let pa ← pixelAt a i
  let pb ← pixelAt b i
  let rawA ← Checked.read pa 3
  let rawB ← Checked.read pb 3
  let na : F := Double.ofFloat32 rawA
  let nb : F := Double.ofFloat32 rawB
  if !decide (0.0 < na) || !decide (0.0 < nb) || !Double.isFinite na || !Double.isFinite nb then
    Checked.refuse { c with
      verdict := .unsupported
      detail := "a pixel reports a non-positive or non-finite sample count" }
  else
    let oneA ← divide 1.0 na
    let oneB ← divide 1.0 nb
    let pooled := Double.sqrt (oneA + oneB)
    Checked.loop 3 (addChannel pa pb c i na nb pooled)
      { s with sumPooledSq := s.sumPooledSq + pooled * pooled }

def countOutliers (scale : F) : List F → Nat → Outliers F → Checked ε (Outliers F)
  | [], _, o => return o
  | v :: rest, i, o => do
      let z ← divide (Double.abs v) scale
      let o := if o.worst < z then { o with worst := z, worstIndex := i } else o
      countOutliers scale rest (i + 1)
        (if kSigmaCutoff < z then { o with count := o.count + 1 } else o)

def judgeChannels (c : Comparison F) (s : Channels F) : Checked ε (Comparison F) := do
  let n : F := Double.ofUInt64 (UInt64.ofNat s.d.length)
  let typical ← quantile s.magnitude 0.5
  let high ← quantile (s.d.map Double.abs) kScaleQuantile
  let sigma ← divide high kHalfNormalQuantile
  let scale := Double.max sigma (kScaleFloorRel * Double.max typical 1e-9)
  let o ← countOutliers scale s.d 0 { worst := 0.0, worstIndex := s.d.length }
  let meanDiff ← divide (s.sumA - s.sumB) n
  let pooledSq ← divide s.sumPooledSq n
  let aggregateSe ← divide (scale * Double.sqrt pooledSq) (Double.sqrt n)
  let zAggregate ← quotient (Double.abs meanDiff) aggregateSe
  let c :=
    { c with
      differingElements := o.count
      firstDifferingIndex := o.worstIndex
      maxAbsDiff := o.worst
      maxRelDiff := zAggregate }
  let outlierFraction ← divide (Double.ofUInt64 (UInt64.ofNat o.count) : F) n
  return if kMaxOutlierFraction < outlierFraction then
      { c with verdict := .mismatch, detail := "too many per-pixel outliers" }
    else if kAggregateCutoff < zAggregate then
      { c with verdict := .mismatch, detail := "tile means disagree beyond sampling error" }
    else { c with verdict := .matched }

def compareStatistical (a b : Payload) : Checked ε (Comparison F) :=
  if a.length % kStride ≠ 0 then
    return { Comparison.init with
      detail := "statistical payload is not a whole number of RGBA f32 pixels" }
  else
    let pixels := a.length / kStride
    let c : Comparison F := { Comparison.init with elements := pixels * 3 }
    match Checked.loop pixels (addPixel a b c) { sumA := 0.0, sumB := 0.0, sumPooledSq := 0.0 } with
    | .error (.refused c) => return c
    | .error .fault => Checked.fault
    | .ok s => if s.d = [] then return { c with verdict := .matched } else judgeChannels c s

def compare (spec : KernelSpec) (a b : Payload) : Checked ε (Comparison F) :=
  if a.length ≠ b.length then
    return { Comparison.init with
      verdict := .mismatch
      elements := max a.length b.length
      differingElements := max a.length b.length
      detail := "payload lengths differ: " ++ toString a.length ++ " vs " ++ toString b.length }
  else if a = [] then return { Comparison.init with verdict := .matched }
  else
    match spec.determinism with
    | .exact => compareExact a b
    | .tolerant => compareTolerant spec a b
    | .statistical => compareStatistical a b

theorem floatAt_eq {payload : Payload} {i : Nat} (h : i + 4 ≤ payload.length) :
    (floatAt payload i : Checked ε UInt32) = .ok (readFloat32 payload i) := by
  unfold floatAt
  rw [Checked.read_getD (show i < _ by omega) 0, Checked.read_getD (show i + 1 < _ by omega) 0,
    Checked.read_getD (show i + 2 < _ by omega) 0, Checked.read_getD (show i + 3 < _ by omega) 0]
  rfl

theorem divide_eq {x y : F} (h : Double.beq y 0.0 = false) :
    (divide x y : Checked ε F) = .ok (x / y) := by
  unfold divide
  rw [h]
  rfl

theorem quotient_eq (hzero : ∀ y : F, 0.0 < y → Double.beq y 0.0 = false) (x y : F) :
    (quotient x y : Checked ε F) = .ok (if 0.0 < y then x / y else 0.0) := by
  unfold quotient
  split
  · rename_i hpos
    exact divide_eq (hzero y hpos)
  · rfl

theorem compareExact_eq {a b : Payload} (hlength : a.length = b.length) :
    (compareExact a b : Checked ε (Comparison F)) = .ok (P2pGpu.Coordinator.compareExact a b) := by
  have hstep : ∀ i < a.length, ∀ c : Comparison F, (exactStep a b c i : Checked ε _) =
      .ok (if a[i]? = b[i]? then c else c.differAt i) := by
    intro i hi c
    have hib : i < b.length := hlength ▸ hi
    unfold exactStep Checked.read
    rw [List.getElem?_eq_getElem hi, List.getElem?_eq_getElem hib]
    simp only [Option.some.injEq]
    rfl
  show (Checked.loop a.length (exactStep a b) _ >>= fun c => pure c.decided :
    Checked ε (Comparison F)) = _
  rw [Checked.loop_pure hstep]
  rfl

theorem tolerantStep_eq (hzero : ∀ y : F, 0.0 < y → Double.beq y 0.0 = false) (spec : KernelSpec)
    {a b : Payload} (hlength : a.length = b.length) {i : Nat} (hi : i < a.length / 4)
    (c : Comparison F) : (tolerantStep spec a b c i : Checked ε (Comparison F)) =
      .ok (P2pGpu.Coordinator.tolerantStep spec a b c i) := by
  unfold tolerantStep P2pGpu.Coordinator.tolerantStep
  rw [floatAt_eq (show i * 4 + 4 ≤ a.length by omega),
    floatAt_eq (show i * 4 + 4 ≤ b.length by omega)]
  simp only [bind, Except.bind, pure, Except.pure, quotient_eq hzero]
  split
  · rfl
  split
  · rfl
  · rfl

theorem compareTolerant_eq (hzero : ∀ y : F, 0.0 < y → Double.beq y 0.0 = false)
    (spec : KernelSpec) {a b : Payload} (hlength : a.length = b.length) :
    (compareTolerant spec a b : Checked ε (Comparison F)) =
      .ok (P2pGpu.Coordinator.compareTolerant spec a b) := by
  unfold compareTolerant P2pGpu.Coordinator.compareTolerant
  split
  · rfl
  · show (Checked.loop (a.length / 4) (tolerantStep spec a b) _ >>= fun c => pure c.decided :
      Checked ε (Comparison F)) = _
    rw [Checked.loop_pure fun i hi c => tolerantStep_eq hzero spec hlength hi c]
    rfl

theorem pixelAt_eq {payload : Payload} {i : Nat} (h : (i + 1) * kStride ≤ payload.length) :
    (pixelAt payload i : Checked ε (List UInt32)) =
      .ok ((List.range 4).map fun k => readFloat32 payload (i * kStride + k * 4)) := by
  have hstride : (i + 1) * kStride = i * kStride + 16 := Nat.succ_mul i 16
  unfold pixelAt
  have hfloat : ∀ k < 4, (floatAt payload (i * kStride + k * 4) : Checked ε UInt32) =
      .ok (readFloat32 payload (i * kStride + k * 4)) := fun k hk => floatAt_eq (by omega)
  rw [hfloat 0 (by decide), hfloat 1 (by decide), hfloat 2 (by decide), hfloat 3 (by decide)]
  rfl

theorem read_pixel (payload : Payload) (i : Nat) {k : Nat} (hk : k < 4) :
    (Checked.read ((List.range 4).map fun k => readFloat32 payload (i * kStride + k * 4)) k :
      Checked ε UInt32) = .ok (readFloat32 payload (i * kStride + k * 4)) := by
  unfold Checked.read
  rw [List.getElem?_map, List.getElem?_range hk]
  rfl

theorem addChannel_eq {a b : Payload} {c : Comparison F} {i k : Nat} {na nb pooled : F}
    (hna : Double.beq na 0.0 = false) (hnb : Double.beq nb 0.0 = false)
    (hpooled : Double.beq pooled 0.0 = false) (hk : k < 3) (s : Channels F) :
    addChannel ((List.range 4).map fun k => readFloat32 a (i * kStride + k * 4))
      ((List.range 4).map fun k => readFloat32 b (i * kStride + k * 4)) c i na nb pooled s k =
      Checked.lift (P2pGpu.Coordinator.addChannel a b c i na nb pooled s k) := by
  unfold addChannel P2pGpu.Coordinator.addChannel
  rw [read_pixel a i (show k < 4 by omega), read_pixel b i (show k < 4 by omega)]
  show (if _ then _ else divide _ na >>= _ : Checked (Comparison F) (Channels F)) = _
  simp only [divide_eq hna, divide_eq hnb]
  split
  · rfl
  · show (divide _ pooled >>= _ : Checked (Comparison F) (Channels F)) = _
    rw [divide_eq hpooled]
    rfl

end

end Guarded

end P2pGpu.Coordinator
