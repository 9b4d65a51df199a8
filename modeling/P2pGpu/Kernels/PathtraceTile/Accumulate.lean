import P2pGpu.Kernels.PathtraceReference
import P2pGpu.Kernels.PathtraceTile.Shade
import P2pGpu.Worker.KernelHost.Windows

namespace P2pGpu.Kernels.PathtraceTile

open P2pGpu.Scene P2pGpu.LittleEndian P2pGpu.Worker
open P2pGpu.Coordinator
open P2pGpu.Kernels.BruteSearch (Schedule inRows)

-- What the accumulator has of a pixel: the sum of its samples, and how many they are.
@[ext]
structure Texel (K : Type) where
  rgb : V3 K
  w : K
deriving DecidableEq, Repr

section

variable {K : Type} [Field K]

def Texel.zero : Texel K := ⟨⟨0, 0, 0⟩, 0⟩

instance : Add (Texel K) := ⟨fun a b => ⟨a.rgb + b.rgb, a.w + b.w⟩⟩

-- The accumulator as it is set up, in words of four to a pixel.
def load (output : List UInt8) : List (Texel K) :=
  let word := (readWords output).getD
  (List.range (output.length / 16)).map fun i =>
    ⟨⟨float32Value (word (i * 4) 0), float32Value (word (i * 4 + 1) 0),
      float32Value (word (i * 4 + 2) 0)⟩, float32Value (word (i * 4 + 3) 0)⟩

variable [LinearOrder K] [SquareRoot K] [Trigonometric K]

-- The samples from one index on.
def samples (p : PathTraceParams) (b : Bvh) (gidX gidY start : UInt32) (n : Nat) : V3 K :=
  (List.range n).foldl (fun sum s => sum + sampleAt p b gidX gidY (start + UInt32.ofNat s))
    ⟨0, 0, 0⟩

-- One invocation. The grid is rounded up to whole workgroups and overhangs.
def main (p : PathTraceParams) (b : Bvh) (accum : List (Texel K)) (gidX gidY : UInt32) :
    List (Texel K) :=
  if p.tileW ≤ gidX ∨ p.tileH ≤ gidY then accum
  else
    let pixelLocal := gidY * p.tileW + gidX
    let sum := samples p b gidX gidY p.startUnit p.unitCount.toNat
    accum.modify pixelLocal.toNat fun prev => ⟨prev.rgb + sum, prev.w + p.unitCount.toNat⟩

def dispatch (b : Bvh) (schedule : Schedule) (image : List UInt8) (groupsX groupsY : UInt32)
    (accum : List (Texel K)) : List (Texel K) :=
  (schedule.order image (groupsX.toNat * 8) (groupsY.toNat * 8)).foldl
    (fun accum gid =>
      main (readParams image) b accum (UInt32.ofNat gid.1) (UInt32.ofNat gid.2)) accum

-- What a range of samples comes to at a place of the accumulator.
def estimate (p : PathTraceParams) (b : Bvh) (start : UInt32) (n k : Nat) : Texel K :=
  if k < p.tileW.toNat * p.tileH.toNat then
    ⟨samples p b (UInt32.ofNat (k % p.tileW.toNat)) (UInt32.ofNat (k / p.tileW.toNat)) start n, n⟩
  else Texel.zero

end

-- A task of a tile, as its worker is given it.
structure Renders (req : TaskRequest) (p : PathTraceParams) : Prop where
  params : req.params = Coordinator.toBytes p.words
  bound : req.unitCount.toNat < 2 ^ 32
  outputInit : req.outputInit = []
  fits : p.tileW.toNat * p.tileH.toNat * 16 ≤ req.outputBytes.toNat
  width : p.tileW ≠ 0
  workgroupSize : req.workgroupSize = 8
  workgroupSizeY : req.workgroupSizeY = 8
  invocationsX : req.invocationsX = p.tileW
  invocationsY : req.invocationsY = p.tileH

section

variable {K : Type} [Field K]

variable [LinearOrder K] [SquareRoot K] [Trigonometric K]
  {p : PathTraceParams} {b : Bvh} {gidX gidY start : UInt32} {n m k : Nat}

-- What the shader reads is what the coordinator wrote, but for the window.
theorem readParams_window (p : PathTraceParams) (start units : UInt32) :
    readParams (writeChunkWindow (Coordinator.toBytes p.words) start units) =
      { p with startUnit := start, unitCount := units } := by
  have hdrop : (Coordinator.toBytes p.words).drop 8 =
      (p.words.drop 2).flatMap writeU32LE := by
    rw [Coordinator.toBytes_eq]
    rfl
  have hwords : readWords (writeChunkWindow (Coordinator.toBytes p.words) start units) =
      start :: units :: p.words.drop 2 := by
    rw [writeChunkWindow, hdrop, List.append_assoc, readWords_write_append,
      readWords_write_append, readWords_flatMap_write]
  rw [readParams, hwords]
  rfl

end

namespace Renders

variable {req : TaskRequest} {p : PathTraceParams}

theorem image (h : Renders req p) : paramsImage req = Coordinator.toBytes p.words := by
  have hlength : req.params.length = 112 := by
    rw [h.params, Coordinator.toBytes_eq]
    rfl
  have hpad : roundUpTo req.params.length kUniformAlign - req.params.length = 0 := by
    rw [hlength]
    rfl
  rw [paramsImage, hpad, h.params, List.replicate_zero, List.append_nil]

-- Groups of eight in both directions reach over the tile.
theorem groups (h : Renders req p) (units : UInt64) :
    (groupsX req units).toNat = (p.tileW.toNat + 7) / 8 ∧
      (groupsY req).toNat = (p.tileH.toNat + 7) / 8 := by
  have hceil : ∀ n : UInt32, ((n.toUInt64 + 8 - 1) / 8).toUInt32.toNat = (n.toNat + 7) / 8 := by
    intro n
    have hlt := n.toNat_lt
    have hadd : (n.toUInt64 + 8).toNat = n.toNat + 8 := by
      rw [UInt64.toNat_add, UInt32.toNat_toUInt64]
      exact Nat.mod_eq_of_lt (by show n.toNat + 8 < 2 ^ 64; omega)
    have hsub : (n.toUInt64 + 8 - 1).toNat = n.toNat + 7 := by
      rw [UInt64.toNat_sub_of_le, hadd]
      · rfl
      · rw [UInt64.le_iff_toNat_le, hadd]
        show 1 ≤ n.toNat + 8
        omega
    have hdiv : ((n.toUInt64 + 8 - 1) / 8).toNat = (n.toNat + 7) / 8 := by
      rw [UInt64.toNat_div, hsub]
      rfl
    rw [UInt64.toNat_toUInt32, hdiv]
    exact Nat.mod_eq_of_lt (by omega)
  constructor
  · rw [groupsX, h.invocationsX, if_pos h.width, h.workgroupSize]
    exact hceil p.tileW
  · rw [groupsY, h.invocationsY, h.workgroupSizeY]
    exact hceil p.tileH

end Renders

section

variable {job : Job} {task : Task} {params : List UInt8}

end

section

variable {K : Type} [Field K]

end

section

variable {K : Type} [Field K] [LinearOrder K] [SquareRoot K] [Trigonometric K]
  {limits : DeviceLimits} {req : TaskRequest} {unitsPerChunk : UInt64} {p : PathTraceParams}

end

noncomputable instance : Trigonometric ℝ := ⟨Real.cos, Real.sin⟩

end P2pGpu.Kernels.PathtraceTile
