import P2pGpu.Data.Checked
import P2pGpu.Data.Chunks
import P2pGpu.Data.LittleEndian
import P2pGpu.Protocol.Error

namespace P2pGpu.Scene

open P2pGpu.Protocol

def kBvhMagic : UInt32 := 0x56423250
def kBvhVersion : UInt32 := 1

def kMaxBvhNodes : UInt32 := 8388608
def kMaxBvhPrims : UInt32 := 4194304
def kMaxBvhMaterials : UInt32 := 65536

def kLeafFlag : UInt32 := 0x80000000

def kPrimSphere : UInt32 := 0
def kPrimTriangle : UInt32 := 1

inductive MaterialKind where
  | lambertian
  | metal
  | emissive
deriving DecidableEq, Repr

def MaterialKind.toU32 : MaterialKind → UInt32
  | .lambertian => 0
  | .metal => 1
  | .emissive => 2

-- Three values of type `float`, by their bits.
structure Vec3 where
  x : UInt32 := 0
  y : UInt32 := 0
  z : UInt32 := 0
deriving DecidableEq, Repr

structure BvhHeader where
  magic : UInt32
  version : UInt32
  nodeCount : UInt32
  primCount : UInt32
  materialCount : UInt32
  nodeOffset : UInt32
  primOffset : UInt32
  materialOffset : UInt32
  totalBytes : UInt32
  reserved : List UInt32
deriving DecidableEq, Repr

structure BvhNode where
  bmin : Vec3 := {}
  leftOrFirst : UInt32 := 0
  bmax : Vec3 := {}
  countAndLeaf : UInt32 := 0
deriving DecidableEq, Repr

structure BvhPrim where
  kind : UInt32 := 0
  material : UInt32 := 0
  pad0 : UInt32 := 0
  pad1 : UInt32 := 0
  a : Vec3 := {}
  radius : UInt32 := 0
  b : Vec3 := {}
  pad2 : UInt32 := 0
  c : Vec3 := {}
  pad3 : UInt32 := 0
deriving DecidableEq, Repr

structure BvhMaterial where
  albedo : Vec3 := {}
  fuzz : UInt32 := 0
  kind : UInt32 := 0
  pad : Vec3 := {}
deriving DecidableEq, Repr

structure Bvh where
  nodes : List BvhNode := []
  prims : List BvhPrim := []
  materials : List BvhMaterial := []
  maxDepth : UInt32 := 0
  maxLeafPrims : UInt32 := 0
deriving DecidableEq, Repr

-- How a record lies in memory, word by word.
class Layout (α : Type) where
  width : Nat
  words : α → List UInt32
  ofWords : List UInt32 → α

def Vec3.words (v : Vec3) : List UInt32 := [v.x, v.y, v.z]

def Vec3.ofWords (w : List UInt32) : Vec3 := ⟨w.getD 0 0, w.getD 1 0, w.getD 2 0⟩

instance : Layout BvhHeader where
  width := 16
  words h := [h.magic, h.version, h.nodeCount, h.primCount, h.materialCount, h.nodeOffset,
    h.primOffset, h.materialOffset, h.totalBytes] ++ h.reserved
  ofWords w := ⟨w.getD 0 0, w.getD 1 0, w.getD 2 0, w.getD 3 0, w.getD 4 0, w.getD 5 0,
    w.getD 6 0, w.getD 7 0, w.getD 8 0, (w.drop 9).take 7⟩

instance : Layout BvhNode where
  width := 8
  words n := n.bmin.words ++ [n.leftOrFirst] ++ n.bmax.words ++ [n.countAndLeaf]
  ofWords w := ⟨Vec3.ofWords w, w.getD 3 0, Vec3.ofWords (w.drop 4), w.getD 7 0⟩

instance : Layout BvhPrim where
  width := 16
  words p := [p.kind, p.material, p.pad0, p.pad1] ++ p.a.words ++ [p.radius] ++ p.b.words ++
    [p.pad2] ++ p.c.words ++ [p.pad3]
  ofWords w := ⟨w.getD 0 0, w.getD 1 0, w.getD 2 0, w.getD 3 0, Vec3.ofWords (w.drop 4),
    w.getD 7 0, Vec3.ofWords (w.drop 8), w.getD 11 0, Vec3.ofWords (w.drop 12), w.getD 15 0⟩

instance : Layout BvhMaterial where
  width := 8
  words m := m.albedo.words ++ [m.fuzz, m.kind] ++ m.pad.words
  ofWords w := ⟨Vec3.ofWords w, w.getD 3 0, w.getD 4 0, Vec3.ofWords (w.drop 5)⟩

-- In bytes.
def byteSize (α : Type) [Layout α] : Nat := Layout.width α * 4

-- Records that are copied to memory, and out of it.
def toBytes {α : Type} [Layout α] (xs : List α) : List UInt8 :=
  (xs.flatMap Layout.words).flatMap LittleEndian.writeU32LE

def ofBytes (α : Type) [Layout α] (count : Nat) (bytes : List UInt8) : List α :=
  (List.range count).map fun i =>
    Layout.ofWords (Chunks.piece (Layout.width α) (LittleEndian.readWords bytes) i)

namespace BvhNode

def isLeaf (n : BvhNode) : Bool := n.countAndLeaf &&& kLeafFlag != 0

def count (n : BvhNode) : UInt32 := n.countAndLeaf &&& ~~~kLeafFlag

end BvhNode

namespace LoadBvh

open Checked

def failure (message : String) : Error := makeError .internal message

-- The checks of one node. What is kept is the largest leaf so far.
def checkNode (h : BvhHeader) (nodes : List BvhNode) (maxLeafPrims : UInt32) (i : Nat) :
    Checked Error UInt32 := do
  let n ← read nodes i
  let count := n.count
  if n.isLeaf then
    let last ← addU64 n.leftOrFirst.toUInt64 count.toUInt64
    refuseIf (count = 0 ∨ h.primCount.toUInt64 < last)
      (failure "bvh: a leaf spans outside the primitive array")
    return max maxLeafPrims count
  else
    refuseIf (count ≠ 0) (failure "bvh: an internal node declares a primitive count")
    let left := n.leftOrFirst.toUInt64
    let right ← addU64 left 1
    refuseIf (left ≤ UInt64.ofNat i ∨ h.nodeCount.toUInt64 ≤ right)
      (failure "bvh: a child index is out of range or does not increase")
    return maxLeafPrims

def checkPrim (h : BvhHeader) (prims : List BvhPrim) (i : Nat) : Checked Error Unit := do
  let p ← read prims i
  refuseIf (p.kind ≠ kPrimSphere ∧ p.kind ≠ kPrimTriangle)
    (failure "bvh: a primitive has an unknown kind")
  refuseIf (h.materialCount ≤ p.material)
    (failure "bvh: a primitive references an out-of-range material")

def checkMaterial (materials : List BvhMaterial) (i : Nat) : Checked Error Unit := do
  let m ← read materials i
  refuseIf (MaterialKind.emissive.toU32 < m.kind) (failure "bvh: a material has an unknown kind")

def markChild (inDegree : List UInt8) (child : UInt32) : Checked Error (List UInt8) := do
  let twice := failure
    "bvh: a node has two parents, or the root is a child — the graph is not a tree"
  refuseIf (child = 0) twice
  let d ← read inDegree child.toNat
  refuseIf (d ≠ 0) twice
  write inDegree child.toNat 1

-- Each child is marked, and no child twice.
def markChildren (nodes : List BvhNode) (inDegree : List UInt8) (i : Nat) :
    Checked Error (List UInt8) := do
  let n ← read nodes i
  if n.isLeaf then return inDegree
  let right ← addU32 n.leftOrFirst 1
  let inDegree ← markChild inDegree n.leftOrFirst
  markChild inDegree right

def checkReached (inDegree : List UInt8) (i : Nat) : Checked Error Unit := do
  let d ← read inDegree i
  refuseIf (d = 0) (failure "bvh: a node is unreachable from the root")

-- The depths of the children of one node, and the greatest depth so far.
def measure (nodes : List BvhNode) (state : List UInt32 × UInt32) (i : Nat) :
    Checked Error (List UInt32 × UInt32) := do
  let (depth, maxDepth) := state
  let n ← read nodes i
  let d ← read depth i
  let maxDepth := max maxDepth d
  if n.isLeaf then return (depth, maxDepth)
  let depth ← write depth n.leftOrFirst.toNat (d + 1)
  let right ← addU32 n.leftOrFirst 1
  let d ← read depth i
  let depth ← write depth right.toNat (d + 1)
  return (depth, maxDepth)

end LoadBvh

section

open Checked LoadBvh

-- The header and the three arrays of a blob whose sizes agree.
def parse (bytes : List UInt8) :
    Checked Error (BvhHeader × List BvhNode × List BvhPrim × List BvhMaterial) := do
  refuseIf (bytes.length < byteSize BvhHeader) (failure "bvh: shorter than its header")
  let head ← slice bytes 0 (byteSize BvhHeader)
  let h : BvhHeader := Layout.ofWords (LittleEndian.readWords head)
  refuseIf (h.magic ≠ kBvhMagic) (failure "bvh: bad magic")
  refuseIf (h.version ≠ kBvhVersion) (failure "bvh: unsupported version")
  refuseIf (∃ r ∈ h.reserved, r ≠ 0) (failure "bvh: reserved field is non-zero")
  refuseIf (h.nodeCount = 0 ∨ kMaxBvhNodes < h.nodeCount)
    (failure "bvh: node_count is zero or over kMaxBvhNodes")
  refuseIf (h.primCount = 0 ∨ kMaxBvhPrims < h.primCount)
    (failure "bvh: prim_count is zero or over kMaxBvhPrims")
  refuseIf (h.materialCount = 0 ∨ kMaxBvhMaterials < h.materialCount)
    (failure "bvh: material_count is zero or over kMaxBvhMaterials")
  let n64 ← mulU64 h.nodeCount.toUInt64 (UInt64.ofNat (byteSize BvhNode))
  let p64 ← mulU64 h.primCount.toUInt64 (UInt64.ofNat (byteSize BvhPrim))
  let m64 ← mulU64 h.materialCount.toUInt64 (UInt64.ofNat (byteSize BvhMaterial))
  let wantNodeOff := UInt64.ofNat (byteSize BvhHeader)
  let wantPrimOff ← addU64 wantNodeOff n64
  let wantMatOff ← addU64 wantPrimOff p64
  let wantTotal ← addU64 wantMatOff m64
  refuseIf (h.nodeOffset.toUInt64 ≠ wantNodeOff ∨ h.primOffset.toUInt64 ≠ wantPrimOff ∨
      h.materialOffset.toUInt64 ≠ wantMatOff ∨ h.totalBytes.toUInt64 ≠ wantTotal)
    (failure "bvh: section offsets disagree with the declared counts")
  refuseIf (bytes.length ≠ wantTotal.toNat)
    (failure "bvh: buffer length disagrees with the declared total_bytes")
  let nodeBytes ← slice bytes h.nodeOffset.toNat n64.toNat
  let primBytes ← slice bytes h.primOffset.toNat p64.toNat
  let materialBytes ← slice bytes h.materialOffset.toNat m64.toNat
  return (h, ofBytes BvhNode h.nodeCount.toNat nodeBytes,
    ofBytes BvhPrim h.primCount.toNat primBytes,
    ofBytes BvhMaterial h.materialCount.toNat materialBytes)

-- Every index, and that it is a tree. What is returned is the depth of the tree and the
-- largest leaf.
def validate (h : BvhHeader) (nodes : List BvhNode) (prims : List BvhPrim)
    (materials : List BvhMaterial) : Checked Error (UInt32 × UInt32) := do
  let maxLeafPrims ← loop h.nodeCount.toNat (checkNode h nodes) 0
  loop h.primCount.toNat (fun _ i => checkPrim h prims i) ()
  loop h.materialCount.toNat (fun _ i => checkMaterial materials i) ()
  let inDegree ← loop h.nodeCount.toNat (markChildren nodes)
    (List.replicate h.nodeCount.toNat 0)
  -- From the node after the root on.
  loop (h.nodeCount.toNat - 1) (fun _ i => checkReached inDegree (i + 1)) ()
  let depth ← write (List.replicate h.nodeCount.toNat 0) 0 1
  let (_, maxDepth) ← loop h.nodeCount.toNat (measure nodes) (depth, 0)
  return (maxDepth, maxLeafPrims)

-- Takes a blob that anybody may have written.
def loadBvh (bytes : List UInt8) : Checked Error Bvh := do
  let (h, nodes, prims, materials) ← parse bytes
  let (maxDepth, maxLeafPrims) ← validate h nodes prims materials
  return { nodes, prims, materials, maxDepth, maxLeafPrims }

end

-- The header that goes with the counts. Sums wrap as those of the format do.
def headerOf (bvh : Bvh) : BvhHeader :=
  let nodeOffset := UInt32.ofNat (byteSize BvhHeader)
  let primOffset := nodeOffset + UInt32.ofNat (bvh.nodes.length * byteSize BvhNode)
  let materialOffset := primOffset + UInt32.ofNat (bvh.prims.length * byteSize BvhPrim)
  { magic := kBvhMagic
    version := kBvhVersion
    nodeCount := UInt32.ofNat bvh.nodes.length
    primCount := UInt32.ofNat bvh.prims.length
    materialCount := UInt32.ofNat bvh.materials.length
    nodeOffset
    primOffset
    materialOffset
    totalBytes := materialOffset + UInt32.ofNat (bvh.materials.length * byteSize BvhMaterial)
    reserved := List.replicate 7 0 }

-- A copy into a buffer of which nothing is written outside.
def put (out : List UInt8) (start : Nat) (src : List UInt8) : Checked Error (List UInt8) :=
  if start + src.length ≤ out.length then .ok (Chunks.overwrite out start src)
  else Checked.fault

def serializeBvh (bvh : Bvh) : Checked Error (List UInt8) := do
  let h := headerOf bvh
  let out := List.replicate h.totalBytes.toNat 0
  let out ← put out 0 (toBytes [h])
  let out ← put out h.nodeOffset.toNat (toBytes bvh.nodes)
  let out ← put out h.primOffset.toNat (toBytes bvh.prims)
  put out h.materialOffset.toNat (toBytes bvh.materials)

end P2pGpu.Scene
