import P2pGpu.Coordinator.Job
import P2pGpu.Coordinator.KernelRegistry

namespace P2pGpu.Coordinator

open P2pGpu.Protocol

-- Little-endian, as every reader of the buffer has it.
def wordBytes (v : UInt32) : List UInt8 :=
  [v.toUInt8, (v >>> 8).toUInt8, (v >>> 16).toUInt8, (v >>> 24).toUInt8]

def toBytes (words : List UInt32) : List UInt8 := words.flatMap wordBytes

structure BruteSearchParams where
  startLo : UInt32 := 0
  unitCount : UInt32 := 0
  baseHi : UInt32 := 0
  seed : UInt32 := 0
  targetBits : UInt32 := 0
  mask : UInt32 := 0
  rounds : UInt32 := 8
deriving DecidableEq, Repr

def BruteSearchParams.words (p : BruteSearchParams) : List UInt32 :=
  [p.startLo, p.unitCount, p.baseHi, p.seed, p.targetBits, p.mask, p.rounds, 0]

-- What a search starts from: nothing found, and the identity of a minimum.
def bruteSearchResult : List UInt32 := [0, 0xFFFFFFFF, 0, 0, 0, 0, 0, 0]

structure PathTraceParams where
  startUnit : UInt32 := 0
  unitCount : UInt32 := 0
  tileX : UInt32 := 0
  tileY : UInt32 := 0
  tileW : UInt32 := 0
  tileH : UInt32 := 0
  imageW : UInt32 := 0
  imageH : UInt32 := 0
  camOrigin : Vec3
  seed : UInt32 := 0
  camLowerLeft : Vec3
  maxBounces : UInt32 := 8
  camHorizontal : Vec3
  nodeCount : UInt32 := 0
  camVertical : Vec3
  primCount : UInt32 := 0
  materialCount : UInt32 := 0
  rrStartBounce : UInt32 := 3
deriving DecidableEq, Repr

def Vec3.words (v : Vec3) : List UInt32 := [v.1, v.2.1, v.2.2]

def PathTraceParams.words (p : PathTraceParams) : List UInt32 :=
  [p.startUnit, p.unitCount, p.tileX, p.tileY, p.tileW, p.tileH, p.imageW, p.imageH] ++
    Vec3.words p.camOrigin ++ [p.seed] ++ Vec3.words p.camLowerLeft ++ [p.maxBounces] ++
    Vec3.words p.camHorizontal ++ [p.nodeCount] ++ Vec3.words p.camVertical ++
    [p.primCount, p.materialCount, p.rrStartBounce, 0, 0]

structure CalibrateParams where
  iterations : UInt32 := 2048
  seed : UInt32 := 0
deriving DecidableEq, Repr

def CalibrateParams.words (p : CalibrateParams) : List UInt32 := [p.iterations, p.seed]

def mix32 (x : UInt64) : UInt32 :=
  let x := x + 0x9E3779B97F4A7C15
  let x := (x ^^^ (x >>> 30)) * 0xBF58476D1CE4E5B9
  let x := (x ^^^ (x >>> 27)) * 0x94D049BB133111EB
  ((x ^^^ (x >>> 31)) >>> 32).toUInt32

-- Refused, never narrowed.
def buildBruteSearch (job : Job) (task : Task) : Except Error (List UInt8) :=
  if 0xFFFFFFFF < task.unitCount then
    .error (makeError .internal ("task of " ++ toString task.unitCount ++
      " units exceeds what BruteSearchParams can express (2^32-1)"))
  else
    let mask : UInt32 := 0x00000FFF
    let p : BruteSearchParams :=
      { startLo := (task.startUnit &&& 0xFFFFFFFF).toUInt32
        unitCount := task.unitCount.toUInt32
        baseHi := (task.startUnit >>> 32).toUInt32
        seed := mix32 (job.seed ^^^ task.startUnit)
        mask
        targetBits := mix32 job.seed &&& mask
        rounds := 8 }
    .ok (toBytes p.words)

def buildPathTrace (job : Job) (task : Task) : Except Error (List UInt8) :=
  match job.render with
  | none => .error (makeError .internal "pathtrace task on a job with no render config")
  | some r =>
      if r.samplesPerTile = 0 then
        .error (makeError .internal "render job has 0 samples per tile")
      else
        let tileIndex := task.startUnit / r.samplesPerTile
        let sampleOffset := task.startUnit % r.samplesPerTile
        match r.grid.tileAt tileIndex.toUInt32 with
        | none => .error (makeError .internal "task maps to a tile outside the render grid")
        | some tile =>
            if r.samplesPerTile < sampleOffset + task.unitCount then
              .error (makeError .internal "task spans more than one tile")
            else
              let p : PathTraceParams :=
                { startUnit := sampleOffset.toUInt32
                  unitCount := task.unitCount.toUInt32
                  tileX := tile.x
                  tileY := tile.y
                  tileW := tile.w
                  tileH := tile.h
                  imageW := r.grid.imageW
                  imageH := r.grid.imageH
                  camOrigin := r.camera.origin
                  camLowerLeft := r.camera.lowerLeft
                  camHorizontal := r.camera.horizontal
                  camVertical := r.camera.vertical
                  maxBounces := r.maxBounces
                  rrStartBounce := r.rrStartBounce
                  nodeCount := r.nodeCount
                  primCount := r.primCount
                  materialCount := r.materialCount
                  -- Of the job, so that the samples do not depend on the carving.
                  seed := mix32 job.seed }
              .ok (toBytes p.words)

def buildParams (spec : KernelSpec) (job : Job) (task : Task) : Except Error (List UInt8) :=
  if spec.paramLayout = "BruteSearchParams" then buildBruteSearch job task
  else if spec.paramLayout = "PathTraceParams" then buildPathTrace job task
  else if spec.paramLayout = "CalibrateParams" then
    .ok (toBytes { iterations := 2048, seed := mix32 (job.seed ^^^ task.startUnit) :
      CalibrateParams }.words)
  else .error (makeError .internal ("no params builder for layout: " ++ spec.paramLayout))

def buildOutputInit (spec : KernelSpec) : List UInt8 :=
  if spec.paramLayout = "BruteSearchParams" then toBytes bruteSearchResult else []

end P2pGpu.Coordinator
