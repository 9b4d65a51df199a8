import P2pGpu.Kernels.BruteSearch
import P2pGpu.Kernels.PathtraceTile.Nearest

namespace P2pGpu.Kernels.PathtraceTile

open P2pGpu.Scene V3
open P2pGpu.Coordinator (PathTraceParams float32Value)
open P2pGpu.LittleEndian (readWords)
open P2pGpu.Kernels.BruteSearch (pcgHash)

-- What the shader has beside the arithmetic of a field.
class Trigonometric (K : Type) where
  cos : K → K
  sin : K → K

-- The words of the uniform buffer, as the shader's struct lays them out.
def readParams (buffer : List UInt8) : PathTraceParams :=
  let word := (readWords buffer).getD
  { startUnit := word 0 0
    unitCount := word 1 0
    tileX := word 2 0
    tileY := word 3 0
    tileW := word 4 0
    tileH := word 5 0
    imageW := word 6 0
    imageH := word 7 0
    camOrigin := (word 8 0, word 9 0, word 10 0)
    seed := word 11 0
    camLowerLeft := (word 12 0, word 13 0, word 14 0)
    maxBounces := word 15 0
    camHorizontal := (word 16 0, word 17 0, word 18 0)
    nodeCount := word 19 0
    camVertical := (word 20 0, word 21 0, word 22 0)
    primCount := word 23 0
    materialCount := word 24 0
    rrStartBounce := word 25 0 }

def randU32 (p : PathTraceParams) (pixelIndex sampleIndex purpose : UInt32) : UInt32 :=
  let h := pcgHash (p.seed ^^^ pixelIndex)
  let h := pcgHash (h ^^^ sampleIndex)
  pcgHash (h ^^^ purpose)

-- What the two guards of the loop let the shader see of the arrays.
def visible (p : PathTraceParams) (b : Bvh) : Bvh :=
  { b with nodes := b.nodes.take p.nodeCount.toNat, prims := b.prims.take p.primCount.toNat }

section

variable {K : Type} [Field K]

instance : Mul (V3 K) := ⟨fun a b => ⟨a.x * b.x, a.y * b.y, a.z * b.z⟩⟩

-- The same number in each component.
def V3.splat (x : K) : V3 K := ⟨x, x, x⟩

def ofTriple (v : Coordinator.Vec3) : V3 K :=
  ⟨float32Value v.1, float32Value v.2.1, float32Value v.2.2⟩

-- 24 bits of a word, as a fraction of all.
def randF32 (p : PathTraceParams) (pixelIndex sampleIndex purpose : UInt32) : K :=
  (randU32 p pixelIndex sampleIndex purpose >>> 8).toNat * (1 / 16777216)

def reflect (v n : V3 K) : V3 K := v - n.scale (2 * dot n v)

def pi : K := 3.14159265358979

end

section

variable {K : Type} [Field K] [LinearOrder K] [SquareRoot K] [Trigonometric K]

open Trigonometric

def cosineHemisphere (n : V3 K) (r₁ r₂ : K) : V3 K :=
  let up : V3 K := if 0.9 < |n.x| then ⟨0, 1, 0⟩ else ⟨1, 0, 0⟩
  let tangent := normalize (cross up n)
  let bitangent := cross n tangent
  let phi := 2 * pi * r₁
  let cosTheta := SquareRoot.sqrt (1 - r₂)
  let sinTheta := SquareRoot.sqrt r₂
  normalize ((tangent.scale (cos phi)).scale sinTheta + (bitangent.scale (sin phi)).scale sinTheta +
    n.scale cosTheta)

def sky (dir : V3 K) : V3 K :=
  let t := 0.5 * ((normalize dir).y + 1)
  V3.scale ⟨1, 1, 1⟩ (1 - t) + V3.scale ⟨0.5, 0.7, 1⟩ t

-- A walk does not run out of turns, so what is read of it is always there.
def traceRay (p : PathTraceParams) (b : Bvh) (origin dir : V3 K) : Hit K :=
  match trace (rayOf origin dir) (visible p b) (visible p b).nodes.length with
  | some t => t.best
  | none => miss tracer

-- Where a ray goes on from a surface, unless it is absorbed there.
def scatter (p : PathTraceParams) (m : BvhMaterial) (pixelIndex sampleIndex base : UInt32)
    (dir normal : V3 K) : Option (V3 K) :=
  if m.kind = MaterialKind.metal.toU32 then
    let reflected := reflect (normalize dir) normal
    let f₁ := randF32 p pixelIndex sampleIndex (base + 0)
    let f₂ := randF32 p pixelIndex sampleIndex (base + 1)
    let jitter := (cosineHemisphere normal f₁ f₂).scale (float32Value m.fuzz)
    let dir := normalize (reflected + jitter)
    if dot dir normal ≤ 0 then none else some dir
  else
    let r₁ := randF32 p pixelIndex sampleIndex (base + 0)
    let r₂ := randF32 p pixelIndex sampleIndex (base + 1)
    some (cosineHemisphere normal r₁ r₂)

-- The bounces that are left, with the number of the next one.
def bounces (p : PathTraceParams) (b : Bvh) (pixelIndex sampleIndex : UInt32) :
    Nat → UInt32 → V3 K → V3 K → V3 K → V3 K → V3 K
  | 0, _, _, _, _, out => out
  | left + 1, bounce, origin, dir, throughput, out =>
      let h := traceRay p b origin dir
      if h.hit = false then out + throughput * sky dir
      else
        let m := b.materials.getD (min h.material (p.materialCount - 1)).toNat {}
        if m.kind = MaterialKind.emissive.toU32 then out + throughput * ofBits m.albedo
        else
          match scatter p m pixelIndex sampleIndex (bounce * 4) dir h.normal with
          | none => out
          | some dir =>
              let throughput := throughput * ofBits m.albedo
              if p.rrStartBounce ≤ bounce then
                let survival :=
                  min (max (max throughput.x (max throughput.y throughput.z)) 0.05) 0.95
                let r : K := randF32 p pixelIndex sampleIndex (bounce * 4 + 2)
                if survival < r then out
                else bounces p b pixelIndex sampleIndex left (bounce + 1) h.position dir
                  (throughput.divide survival) out
              else bounces p b pixelIndex sampleIndex left (bounce + 1) h.position dir throughput out

def radiance (p : PathTraceParams) (b : Bvh) (pixelIndex sampleIndex : UInt32)
    (origin dir : V3 K) : V3 K :=
  bounces p b pixelIndex sampleIndex p.maxBounces.toNat 0 origin dir ⟨1, 1, 1⟩ ⟨0, 0, 0⟩

-- One sample of a pixel of the tile.
def sampleAt (p : PathTraceParams) (b : Bvh) (gidX gidY sampleIndex : UInt32) : V3 K :=
  let px := p.tileX + gidX
  let py := p.tileY + gidY
  let pixelGlobal := py * p.imageW + px
  let jx : K := randF32 p pixelGlobal sampleIndex 0xF00
  let jy : K := randF32 p pixelGlobal sampleIndex 0xF01
  let u := (px.toNat + jx) / p.imageW.toNat
  let v := 1 - (py.toNat + jy) / p.imageH.toNat
  let dir := ofTriple p.camLowerLeft + (ofTriple p.camHorizontal).scale u +
    (ofTriple p.camVertical).scale v - ofTriple p.camOrigin
  radiance p b pixelGlobal sampleIndex (ofTriple p.camOrigin) (normalize dir)

end

end P2pGpu.Kernels.PathtraceTile
