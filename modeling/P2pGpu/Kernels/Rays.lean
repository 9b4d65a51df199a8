import Mathlib.Algebra.Order.Field.Basic
import Mathlib.Algebra.Order.Ring.Abs
import Mathlib.Tactic.Linarith
import P2pGpu.Coordinator.Double
import P2pGpu.Data.Nearest
import P2pGpu.Scene.Bvh

namespace P2pGpu.Kernels

open P2pGpu.Scene
open P2pGpu.Coordinator (float32Value)

@[ext]
structure V3 (K : Type) where
  x : K
  y : K
  z : K
deriving DecidableEq, Repr

class SquareRoot (K : Type) [Field K] [LinearOrder K] where
  sqrt : K → K
  sqrt_nonneg : ∀ x, 0 ≤ x → 0 ≤ sqrt x
  mul_self_sqrt : ∀ x, 0 ≤ x → sqrt x * sqrt x = x

structure Hit (K : Type) where
  t : K
  position : V3 K
  normal : V3 K
  material : UInt32
  hit : Bool
deriving DecidableEq, Repr

-- Where a hit counts, when a ray is taken as parallel to a triangle, and what becomes of
-- the direction from a sphere's centre and of that across a triangle.
structure Tracer (K : Type) where
  tMin : K
  tMax : K
  parallel : K
  sphereNormal : V3 K → K → V3 K
  faceNormal : V3 K → V3 K → V3 K

section

variable {K : Type} [Field K]

namespace V3

instance : Add (V3 K) := ⟨fun a b => ⟨a.x + b.x, a.y + b.y, a.z + b.z⟩⟩

instance : Sub (V3 K) := ⟨fun a b => ⟨a.x - b.x, a.y - b.y, a.z - b.z⟩⟩

instance : Neg (V3 K) := ⟨fun a => ⟨-a.x, -a.y, -a.z⟩⟩

def scale (a : V3 K) (s : K) : V3 K := ⟨a.x * s, a.y * s, a.z * s⟩

def divide (a : V3 K) (s : K) : V3 K := ⟨a.x / s, a.y / s, a.z / s⟩

def dot (a b : V3 K) : K := a.x * b.x + a.y * b.y + a.z * b.z

def cross (a b : V3 K) : V3 K :=
  ⟨a.y * b.z - a.z * b.y, a.z * b.x - a.x * b.z, a.x * b.y - a.y * b.x⟩

-- The numbers that the bits stand for.
def ofBits (v : Vec3) : V3 K := ⟨float32Value v.x, float32Value v.y, float32Value v.z⟩

variable (a b : V3 K) (s : K)

@[simp] theorem add_x : (a + b).x = a.x + b.x := rfl
@[simp] theorem add_y : (a + b).y = a.y + b.y := rfl
@[simp] theorem add_z : (a + b).z = a.z + b.z := rfl
@[simp] theorem sub_x : (a - b).x = a.x - b.x := rfl
@[simp] theorem sub_y : (a - b).y = a.y - b.y := rfl
@[simp] theorem sub_z : (a - b).z = a.z - b.z := rfl
@[simp] theorem scale_x : (a.scale s).x = a.x * s := rfl
@[simp] theorem scale_y : (a.scale s).y = a.y * s := rfl
@[simp] theorem scale_z : (a.scale s).z = a.z * s := rfl

theorem zero_sum : ⟨0, 0, 0⟩ + a = a := V3.ext (zero_add _) (zero_add _) (zero_add _)

end V3

end

section

variable {K : Type} [Field K] [LinearOrder K] [SquareRoot K]

open V3

-- The record of a hit at a distance.
def hitAt (origin dir normal : V3 K) (material : UInt32) (t : K) : Hit K :=
  { t, position := origin + dir.scale t, normal, material, hit := true }

-- What the two roots at a sphere are made of.
structure Quadratic (K : Type) where
  a : K
  halfB : K
  c : K

namespace Quadratic

def ofSphere (p : BvhPrim) (origin dir : V3 K) : Quadratic K :=
  let oc := origin - ofBits p.a
  { a := dot dir dir
    halfB := dot oc dir
    c := dot oc oc - float32Value p.radius * float32Value p.radius }

def disc (q : Quadratic K) : K := q.halfB * q.halfB - q.a * q.c

def near (q : Quadratic K) : K := (-q.halfB - SquareRoot.sqrt q.disc) / q.a

def far (q : Quadratic K) : K := (-q.halfB + SquareRoot.sqrt q.disc) / q.a

end Quadratic

def sphereHit (T : Tracer K) (p : BvhPrim) (origin dir : V3 K) (root : K) : Hit K :=
  hitAt origin dir (T.sphereNormal (origin + dir.scale root - ofBits p.a) (float32Value p.radius))
    p.material root

def hitSphere (T : Tracer K) (p : BvhPrim) (origin dir : V3 K) (tMax : K) : Option (Hit K) :=
  let q := Quadratic.ofSphere p origin dir
  if q.disc < 0 then none
  else if q.near < T.tMin ∨ tMax < q.near then
    if q.far < T.tMin ∨ tMax < q.far then none else some (sphereHit T p origin dir q.far)
  else some (sphereHit T p origin dir q.near)

def hitTriangle (T : Tracer K) (p : BvhPrim) (origin dir : V3 K) (tMax : K) : Option (Hit K) :=
  let e₁ : V3 K := ofBits p.b - ofBits p.a
  let e₂ : V3 K := ofBits p.c - ofBits p.a
  let h := cross dir e₂
  let det := dot e₁ h
  if |det| < T.parallel then none
  else
    let inv := 1 / det
    let s := origin - ofBits p.a
    let u := inv * dot s h
    if u < 0 ∨ 1 < u then none
    else
      let q := cross s e₁
      let v := inv * dot dir q
      if v < 0 ∨ 1 < u + v then none
      else
        let t := inv * dot e₂ q
        if t < T.tMin ∨ tMax < t then none
        else some (hitAt origin dir (T.faceNormal (cross e₁ e₂) dir) p.material t)

def hitPrim (T : Tracer K) (p : BvhPrim) (origin dir : V3 K) (tMax : K) : Option (Hit K) :=
  if p.kind = kPrimSphere then hitSphere T p origin dir tMax else hitTriangle T p origin dir tMax

-- The best hit after one more primitive was tried.
def closer (T : Tracer K) (origin dir : V3 K) (p : BvhPrim) (best : Hit K) : Hit K :=
  match hitPrim T p origin dir best.t with
  | some candidate => if candidate.t < best.t then candidate else best
  | none => best

def miss (T : Tracer K) : Hit K :=
  { t := T.tMax, position := ⟨0, 0, 0⟩, normal := ⟨0, 0, 0⟩, material := 0, hit := false }

-- What a primitive is hit in by itself.
def strike (T : Tracer K) (origin dir : V3 K) (p : BvhPrim) : Option (Hit K) :=
  hitPrim T p origin dir T.tMax

end

section

variable {K : Type} [LinearOrder K] {m m' : K}

-- A hit that is near enough for the lesser bound is one of the greater.
theorem single_filter {t tMin : K} {found : K → Hit K} (hfound : (found t).t = t) (hm : m ≤ m') :
    (if t < tMin ∨ m < t then none else some (found t)) =
      (if t < tMin ∨ m' < t then none else some (found t)).filter fun h => decide (h.t ≤ m) := by
  by_cases hout : t < tMin ∨ m' < t
  · have hout' : t < tMin ∨ m < t := hout.imp_right hm.trans_lt
    rw [if_pos hout, if_pos hout']
    rfl
  · rw [if_neg hout, Option.filter_some, hfound]
    by_cases hnear : m < t
    · have hnear' : t < tMin ∨ m < t := .inr hnear
      rw [if_pos hnear', decide_eq_false hnear.not_ge]
      rfl
    · have hin : ¬ (t < tMin ∨ m < t) := not_or.mpr ⟨(not_or.mp hout).1, hnear⟩
      rw [if_neg hin, decide_eq_true (not_lt.mp hnear)]
      rfl

-- The further of two roots counts only where the nearer lies before the least distance.
theorem roots_filter {near far tMin : K} {found : K → Hit K} (hfound : ∀ t, (found t).t = t)
    (hle : near ≤ far) (hm : m ≤ m') :
    (if near < tMin ∨ m < near then
      if far < tMin ∨ m < far then none else some (found far)
    else some (found near)) =
    (if near < tMin ∨ m' < near then
      if far < tMin ∨ m' < far then none else some (found far)
    else some (found near)).filter fun h => decide (h.t ≤ m) := by
  by_cases hout : near < tMin ∨ m' < near
  · have hout' : near < tMin ∨ m < near := hout.imp_right hm.trans_lt
    rw [if_pos hout, if_pos hout']
    exact single_filter (hfound far) hm
  · rw [if_neg hout, Option.filter_some, hfound]
    by_cases hnear : m < near
    · have hfar : far < tMin ∨ m < far := .inr (hnear.trans_le hle)
      have hnear' : near < tMin ∨ m < near := .inr hnear
      rw [if_pos hnear', if_pos hfar, decide_eq_false hnear.not_ge]
      rfl
    · have hin : ¬ (near < tMin ∨ m < near) := not_or.mpr ⟨(not_or.mp hout).1, hnear⟩
      rw [if_neg hin, decide_eq_true (not_lt.mp hnear)]
      rfl

end

section

variable {K : Type} [Field K] [LinearOrder K] {T : Tracer K} {p : BvhPrim} {origin dir : V3 K}
  {m m' : K}

theorem hitTriangle_filter (hm : m ≤ m') :
    hitTriangle T p origin dir m =
      (hitTriangle T p origin dir m').filter fun h => decide (h.t ≤ m) := by
  unfold hitTriangle
  dsimp only
  split
  · rfl
  · split
    · rfl
    · split
      · rfl
      · exact single_filter rfl hm

end

section

variable {K : Type} [Field K] [LinearOrder K] [IsStrictOrderedRing K] [SquareRoot K] {T : Tracer K}
  {p : BvhPrim} {origin dir : V3 K} {m m' : K} {h best : Hit K}

open V3

theorem Quadratic.near_le_far {q : Quadratic K} (hdisc : 0 ≤ q.disc) (ha : 0 < q.a) :
    q.near ≤ q.far := by
  have hsqrt := SquareRoot.sqrt_nonneg q.disc hdisc
  apply div_le_div_of_nonneg_right _ ha.le
  linarith

theorem hitSphere_filter (hd : 0 < dot dir dir) (hm : m ≤ m') :
    hitSphere T p origin dir m =
      (hitSphere T p origin dir m').filter fun h => decide (h.t ≤ m) := by
  unfold hitSphere
  dsimp only
  split
  · rfl
  · rename_i hdisc
    exact roots_filter (fun _ => rfl) (Quadratic.near_le_far (not_lt.mp hdisc) hd) hm

theorem hitPrim_filter (hd : 0 < dot dir dir) (hm : m ≤ m') :
    hitPrim T p origin dir m = (hitPrim T p origin dir m').filter fun h => decide (h.t ≤ m) := by
  unfold hitPrim
  split
  · exact hitSphere_filter hd hm
  · exact hitTriangle_filter hm

-- Though a primitive is tried with the best distance so far, what comes of it is the nearer.
theorem closer_eq (hd : 0 < dot dir dir) (hbest : best.t ≤ T.tMax) :
    closer T origin dir p best = nearer (strike T origin dir) Hit.t p best := by
  unfold closer nearer strike
  rw [hitPrim_filter hd hbest]
  cases hitPrim T p origin dir T.tMax with
  | none => rfl
  | some h =>
      rw [Option.filter_some]
      by_cases hle : h.t ≤ best.t
      · rw [if_pos (decide_eq_true hle)]
      · rw [if_neg (by rw [decide_eq_true_iff]; exact hle)]
        exact (if_neg (mt le_of_lt hle)).symm

end

end P2pGpu.Kernels
