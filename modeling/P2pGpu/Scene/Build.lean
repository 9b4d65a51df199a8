import P2pGpu.Data.Chunks
import P2pGpu.Scene.Parse

namespace P2pGpu.Scene

-- How `std::partition` may order a range: those that pass are first.
structure Partitioning (α : Type) where
  run : (α → Bool) → List α → List α × List α
  perm : ∀ p xs, ((run p xs).1 ++ (run p xs).2).Perm xs
  passes : ∀ p xs, ∀ a ∈ (run p xs).1, p a = true
  fails : ∀ p xs, ∀ a ∈ (run p xs).2, p a = false

def kSahBins : Nat := 12
def kMaxLeafPrims : Nat := 4

def kInf : UInt32 := 0x7F800000
def kNegInf : UInt32 := 0xFF800000

structure Aabb where
  mn : Vec3 := ⟨kInf, kInf, kInf⟩
  mx : Vec3 := ⟨kNegInf, kNegInf, kNegInf⟩
deriving DecidableEq, Repr

structure BuildPrim where
  prim : BvhPrim := {}
  box : Aabb := {}
  centroid : Vec3 := {}
deriving DecidableEq, Repr

def Vec3.axis (v : Vec3) : Nat → UInt32
  | 0 => v.x
  | 1 => v.y
  | _ => v.z

-- What is built, with the items in the order that the partitions left them in.
structure Builder where
  items : List BuildPrim
  out : Bvh

section

variable [Single]

namespace Single

-- The standard library's, with its answer when the arguments do not compare.
def min (a b : UInt32) : UInt32 := if lt b a then b else a

def max (a b : UInt32) : UInt32 := if lt a b then b else a

end Single

open Single (lt le add sub mul div)

namespace Aabb

def extend (b : Aabb) (mn mx : Vec3) : Aabb where
  mn := ⟨Single.min b.mn.x mn.x, Single.min b.mn.y mn.y, Single.min b.mn.z mn.z⟩
  mx := ⟨Single.max b.mx.x mx.x, Single.max b.mx.y mx.y, Single.max b.mx.z mx.z⟩

def extendPoint (b : Aabb) (p : Vec3) : Aabb := b.extend p p

def extendBox (b o : Aabb) : Aabb := b.extend o.mn o.mx

def surfaceArea (b : Aabb) : UInt32 :=
  let dx := sub b.mx.x b.mn.x
  let dy := sub b.mx.y b.mn.y
  let dz := sub b.mx.z b.mn.z
  if lt dx Single.zero || lt dy Single.zero || lt dz Single.zero then Single.zero
  else mul Single.two (add (add (mul dx dy) (mul dy dz)) (mul dz dx))

def longestAxis (b : Aabb) : Nat :=
  let dx := sub b.mx.x b.mn.x
  let dy := sub b.mx.y b.mn.y
  let dz := sub b.mx.z b.mn.z
  if lt dy dx && lt dz dx then 0 else if lt dz dy then 1 else 2

end Aabb

def sphereBox (s : Sphere) : Aabb :=
  let p₀ : Vec3 := ⟨sub s.center.x s.radius, sub s.center.y s.radius, sub s.center.z s.radius⟩
  let p₁ : Vec3 := ⟨add s.center.x s.radius, add s.center.y s.radius, add s.center.z s.radius⟩
  (({} : Aabb).extendPoint p₀).extendPoint p₁

def triangleBox (t : Triangle) : Aabb :=
  ((({} : Aabb).extendPoint t.a).extendPoint t.b).extendPoint t.c

-- The bins of a range: their boxes, and how many items each has.
structure Bins where
  boxes : List Aabb := List.replicate kSahBins {}
  counts : List UInt32 := List.replicate kSahBins 0

def binOf (axis : Nat) (lo scale : UInt32) (p : BuildPrim) : Nat :=
  (max 0 (min (Single.toInt (mul (sub (p.centroid.axis axis) lo) scale)) (kSahBins - 1))).toNat

def fillBins (bin : BuildPrim → Nat) (range : List BuildPrim) : Bins :=
  range.foldl (fun bins p =>
    { boxes := bins.boxes.modify (bin p) fun b => b.extendBox p.box
      counts := bins.counts.modify (bin p) (· + 1) }) {}

-- The sweep from the left: what lies before each plane, its area and its count.
def sweepLeft (bins : Bins) : List (UInt32 × UInt32) :=
  ((List.range (kSahBins - 1)).foldl (fun (state : Aabb × UInt32 × List (UInt32 × UInt32)) i =>
    let acc := state.1.extendBox (bins.boxes.getD i {})
    let n := state.2.1 + bins.counts.getD i 0
    (acc, n, state.2.2 ++ [(acc.surfaceArea, n)])) ({}, 0, [])).2.2

-- The sweep from the right, which keeps the cheapest of the planes and its cost.
def sweepRight (bins : Bins) (left : List (UInt32 × UInt32)) : Option Nat × UInt32 :=
  ((List.range (kSahBins - 1)).reverse.foldl
    (fun (state : Aabb × UInt32 × Option Nat × UInt32) li =>
      let acc := state.1.extendBox (bins.boxes.getD (li + 1) {})
      let n := state.2.1 + bins.counts.getD (li + 1) 0
      let (area, count) := left.getD li (0, 0)
      let cost := add (mul area (Single.ofU32 count)) (mul acc.surfaceArea (Single.ofU32 n))
      if lt cost state.2.2.2 && decide (0 < count) && decide (0 < n) then
        (acc, n, some (li + 1), cost)
      else (acc, n, state.2.2)) ({}, 0, none, kInf)).2.2

def boundsOf (range : List BuildPrim) : Aabb :=
  range.foldl (fun b p => b.extendBox p.box) {}

-- Where a range is cut: the items on the left side. None where a leaf is as good.
def plane (range : List BuildPrim) : Option (BuildPrim → Bool) :=
  let centroidBounds := range.foldl (fun b p => b.extendPoint p.centroid) ({} : Aabb)
  let axis := centroidBounds.longestAxis
  let lo := centroidBounds.mn.axis axis
  let hi := centroidBounds.mx.axis axis
  if range.length ≤ kMaxLeafPrims then none
  else if lt lo hi = false then none
  else
    let scale := div (Single.ofU32 (UInt32.ofNat kSahBins)) (sub hi lo)
    let bin := binOf axis lo scale
    let bins := fillBins bin range
    let (bestPlane, bestCost) := sweepRight bins (sweepLeft bins)
    let leafCost := mul (boundsOf range).surfaceArea (Single.ofU32 (UInt32.ofNat range.length))
    match bestPlane with
    | none => none
    | some best => if le leafCost bestCost then none else some fun p => bin p < best

def makeLeaf (nodeIndex start count : Nat) (bounds : Aabb) (s : Builder) : Builder :=
  let node : BvhNode := {
    bmin := bounds.mn
    leftOrFirst := UInt32.ofNat start
    bmax := bounds.mx
    countAndLeaf := kLeafFlag ||| UInt32.ofNat count }
  { s with out := { s.out with
      nodes := s.out.nodes.set nodeIndex node
      maxLeafPrims := max s.out.maxLeafPrims (UInt32.ofNat count) } }

-- Both children are appended before either of their trees is.
def addChildren (nodeIndex : Nat) (bounds : Aabb) (s : Builder) : Builder :=
  let left := s.out.nodes.length
  let node : BvhNode := {
    bmin := bounds.mn
    leftOrFirst := UInt32.ofNat left
    bmax := bounds.mx
    countAndLeaf := 0 }
  let fresh : List BvhNode := [{}, {}]
  { s with out := { s.out with nodes := (s.out.nodes ++ fresh).set nodeIndex node } }

def build (part : Partitioning BuildPrim) : Nat → Nat → Nat → Nat → Nat → Builder → Option Builder
  | 0, _, _, _, _, _ => none
  | fuel + 1, nodeIndex, start, stop, depth, s =>
      let s := { s with out := { s.out with
        maxDepth := max s.out.maxDepth (UInt32.ofNat (depth + 1)) } }
      let range := (s.items.drop start).take (stop - start)
      let bounds := boundsOf range
      match plane range with
      | none => some (makeLeaf nodeIndex start (stop - start) bounds s)
      | some onLeft =>
          let (passing, failing) := part.run onLeft range
          let s := { s with items := Chunks.overwrite s.items start (passing ++ failing) }
          let split := start + passing.length
          if split = start ∨ split = stop then
            some (makeLeaf nodeIndex start (stop - start) bounds s)
          else
            let left := s.out.nodes.length
            match build part fuel left start split (depth + 1) (addChildren nodeIndex bounds s) with
            | none => none
            | some s => build part fuel (left + 1) split stop (depth + 1) s

def ofSphere (s : Sphere) : BuildPrim where
  prim := { kind := kPrimSphere, material := s.material, a := s.center, radius := s.radius }
  box := sphereBox s
  centroid := s.center

def ofTriangle (t : Triangle) : BuildPrim :=
  let box := triangleBox t
  let mid (lo hi : UInt32) : UInt32 := mul Single.half (add lo hi)
  { prim := { kind := kPrimTriangle, material := t.material, a := t.a, b := t.b, c := t.c }
    box
    centroid := ⟨mid box.mn.x box.mx.x, mid box.mn.y box.mx.y, mid box.mn.z box.mx.z⟩ }

def ofMaterial (m : Material) : BvhMaterial :=
  { albedo := m.albedo, fuzz := m.fuzz, kind := m.kind.toU32 }

def itemsOf (scene : Scene) : List BuildPrim :=
  scene.spheres.map ofSphere ++ scene.triangles.map ofTriangle

-- Each turn of the recursion takes of the fuel, and no turn but the last may run out of it.
def buildBvh (part : Partitioning BuildPrim) (fuel : Nat) (scene : Scene) : Option Bvh :=
  let materials := scene.materials.map ofMaterial
  let items := itemsOf scene
  if items = [] then some { materials }
  else
    match build part fuel 0 0 items.length 0 ⟨items, { nodes := [{}], materials }⟩ with
    | none => none
    | some s => some { s.out with prims := s.items.map BuildPrim.prim }

end

end P2pGpu.Scene
