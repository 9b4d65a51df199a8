import P2pGpu.Kernels.PathtraceTile.Pruning
import P2pGpu.Kernels.Rays.Points

namespace P2pGpu.Kernels

open P2pGpu.Scene V3
open P2pGpu.Coordinator (float32Value)

namespace PathtraceTile

section

variable {K : Type} [Field K] [LinearOrder K] [SquareRoot K]

def normalize (v : V3 K) : V3 K := v.divide (SquareRoot.sqrt (dot v v))

-- The numbers are those that the kernel names.
def tracer : Tracer K where
  tMin := 1e-3
  tMax := 1e30
  parallel := 1e-8
  sphereNormal v radius := v.divide radius
  faceNormal across dir :=
    let n := normalize across
    if dot n dir < 0 then n else -n

end

section

variable {K : Type} [Field K] [LinearOrder K]

def rayAabb (tMin : K) (origin invDir bmin bmax : V3 K) (tMax : K) : Bool :=
  let t₀ : V3 K := ⟨(bmin.x - origin.x) * invDir.x, (bmin.y - origin.y) * invDir.y,
    (bmin.z - origin.z) * invDir.z⟩
  let t₁ : V3 K := ⟨(bmax.x - origin.x) * invDir.x, (bmax.y - origin.y) * invDir.y,
    (bmax.z - origin.z) * invDir.z⟩
  let small : V3 K := ⟨min t₀.x t₁.x, min t₀.y t₁.y, min t₀.z t₁.z⟩
  let big : V3 K := ⟨max t₀.x t₁.x, max t₀.y t₁.y, max t₀.z t₁.z⟩
  let enter := max (max small.x small.y) (max small.z tMin)
  let leave := min (min big.x big.y) (min big.z tMax)
  enter ≤ leave

-- A component that is too close to zero is taken as the least that is not.
def safe (d : K) : K := if |d| < 1e-20 then 1e-20 else d

def invDir (dir : V3 K) : V3 K := ⟨1 / safe dir.x, 1 / safe dir.y, 1 / safe dir.z⟩

variable [SquareRoot K]

-- The ray of the kernel, in arithmetic that does not round.
def rayOf (origin dir : V3 K) : Ray (Hit K) where
  rayAabb _ n best :=
    rayAabb tracer.tMin origin (invDir dir) (ofBits n.bmin) (ofBits n.bmax) best.t
  hit p best := closer tracer origin dir p best
  miss := Kernels.miss tracer

end

-- The box of a node has all points of a primitive.
def Surrounds (K : Type) [Field K] [LinearOrder K] (n : BvhNode) (p : BvhPrim) : Prop :=
  ∀ v : V3 K, OnPrim p v →
    ((ofBits n.bmin : V3 K).x ≤ v.x ∧ v.x ≤ (ofBits n.bmax : V3 K).x) ∧
    ((ofBits n.bmin : V3 K).y ≤ v.y ∧ v.y ≤ (ofBits n.bmax : V3 K).y) ∧
    ((ofBits n.bmin : V3 K).z ≤ v.z ∧ v.z ≤ (ofBits n.bmax : V3 K).z)

-- No component of a direction is so small that it is replaced.
structure Usable {K : Type} [Field K] [LinearOrder K] (dir : V3 K) : Prop where
  x : 1e-20 ≤ |dir.x|
  y : 1e-20 ≤ |dir.y|
  z : 1e-20 ≤ |dir.z|

section

variable {K : Type} [Field K] [LinearOrder K]

theorem safe_eq {d : K} (h : 1e-20 ≤ |d|) : safe d = d := if_neg h.not_gt

end

section

variable {K : Type} [Field K] [LinearOrder K] [IsStrictOrderedRing K] {origin dir : V3 K} {t : K}

theorem ne_zero_of_usable {d : K} (h : 1e-20 ≤ |d|) : d ≠ 0 := by
  have hpos : (0 : K) < 1e-20 := by positivity
  exact abs_pos.mp (hpos.trans_le h)

-- A slab holds what of the ray lies between its two planes.
theorem slab {lo hi o d : K} (hd : d ≠ 0) (hlow : lo ≤ o + d * t) (hhigh : o + d * t ≤ hi) :
    min ((lo - o) * (1 / d)) ((hi - o) * (1 / d)) ≤ t ∧
      t ≤ max ((lo - o) * (1 / d)) ((hi - o) * (1 / d)) := by
  have hlo : lo - o ≤ d * t := by linarith
  have hhi : d * t ≤ hi - o := by linarith
  rw [mul_one_div, mul_one_div]
  rcases lt_or_gt_of_ne hd with hneg | hpos
  · constructor
    · exact (min_le_right _ _).trans ((div_le_iff_of_neg hneg).mpr (by linarith))
    · exact ((le_div_iff_of_neg hneg).mpr (by linarith)).trans (le_max_left _ _)
  · constructor
    · exact (min_le_left _ _).trans ((div_le_iff₀ hpos).mpr (by linarith))
    · exact ((le_div_iff₀ hpos).mpr (by linarith)).trans (le_max_right _ _)

-- A point of the ray within the box lets it pass.
theorem rayAabb_of_point {tMin tMax : K} {bmin bmax : V3 K} (hdir : Usable dir) (htMin : tMin ≤ t)
    (htMax : t ≤ tMax)
    (hx : bmin.x ≤ origin.x + dir.x * t ∧ origin.x + dir.x * t ≤ bmax.x)
    (hy : bmin.y ≤ origin.y + dir.y * t ∧ origin.y + dir.y * t ≤ bmax.y)
    (hz : bmin.z ≤ origin.z + dir.z * t ∧ origin.z + dir.z * t ≤ bmax.z) :
    rayAabb tMin origin (invDir dir) bmin bmax tMax = true := by
  have hslabx := slab (ne_zero_of_usable hdir.x) hx.1 hx.2
  have hslaby := slab (ne_zero_of_usable hdir.y) hy.1 hy.2
  have hslabz := slab (ne_zero_of_usable hdir.z) hz.1 hz.2
  have henter := max_le (max_le hslabx.1 hslaby.1) (max_le hslabz.1 htMin)
  have hleave := le_min (le_min hslabx.2 hslaby.2) (le_min hslabz.2 htMax)
  rw [← safe_eq hdir.x, ← safe_eq hdir.y, ← safe_eq hdir.z] at henter hleave
  exact decide_eq_true (henter.trans hleave)

theorem dot_pos (hdir : Usable dir) : 0 < dot dir dir := by
  have hx := mul_self_pos.mpr (ne_zero_of_usable hdir.x)
  have hy := mul_self_nonneg dir.y
  have hz := mul_self_nonneg dir.z
  unfold dot
  linarith

end

-- Every node's box has all points of the primitives under it.
def Boxed (K : Type) [Field K] [LinearOrder K] (b : Bvh) : Prop :=
  ∀ i j p n q, b.nodes[i]? = some n → Shape.Below (kidsOf b.nodes) i j → InLeaf b.nodes j p →
    b.prims[p]? = some q → Surrounds K n q

section

variable {K : Type} [Field K] [LinearOrder K] [IsStrictOrderedRing K] [SquareRoot K]
  {origin dir : V3 K} {b : Bvh}

theorem tracer_parallel : 0 < (tracer : Tracer K).parallel := by
  show (0 : K) < 1e-8
  positivity

-- A box that is passed over has nothing in it that is nearer.
theorem rayOf_prunes (hdir : Usable dir) (hboxes : Boxed K b) :
    Prunes (rayOf origin dir) b
      (Origin (strike tracer origin dir) Hit.t b.prims (miss tracer))
      (fun best q => ∀ h, strike tracer origin dir q = some h → best.t ≤ h.t) where
  miss := .inl rfl
  hit p hp best hbest := by
    show Origin _ _ _ _ (closer tracer origin dir p best)
    rw [closer_eq (dot_pos hdir) hbest.le_start]
    exact hbest.nearer hp
  self p hp best hbest h hh := by
    show (closer tracer origin dir p best).t ≤ h.t
    rw [closer_eq (dot_pos hdir) hbest.le_start]
    exact nearer_le_strike hh
  keeps p hp q best hbest hdone h hh := by
    show (closer tracer origin dir p best).t ≤ h.t
    rw [closer_eq (dot_pos hdir) hbest.le_start]
    exact (nearer_le p best).trans (hdone h hh)
  box i n best hn _ hbox j p q hbelow hleaf hq h hh := by
    by_contra hnear
    have hstruck := strike_spec (dot_pos hdir) tracer_parallel hh
    have hin := hboxes i j p n q hn hbelow hleaf hq h.position hstruck.on
    rw [hstruck.position] at hin
    have hpass := rayAabb_of_point hdir hstruck.low (not_le.mp hnear).le hin.1 hin.2.1 hin.2.2
    have hfail : rayAabb tracer.tMin origin (invDir dir) (ofBits n.bmin) (ofBits n.bmax) best.t =
        false := hbox
    rw [hpass] at hfail
    cases hfail

-- The walk through the tree finds what is nearest of all primitives.
theorem trace_nearest {bytes : List UInt8} (hload : loadBvh bytes = .ok b)
    (hturns : ∀ i n w, b.nodes[i]? = some n → n.isLeaf = false →
      IndexTree.Under (kidsOf b.nodes) i w → w ≤ 62)
    (hcover : ∀ p < b.prims.length, ∃ i, InLeaf b.nodes i p) (hboxes : Boxed K b)
    (hdir : Usable dir) :
    ∃ t, trace (rayOf origin dir) b b.nodes.length = some t ∧
      Nearest (strike tracer origin dir) Hit.t b.prims (miss tracer) t.best := by
  obtain ⟨hfits, hvalid⟩ := loadBvh_fits hload
  obtain ⟨t, ht, hbest, hdone⟩ := trace_settles (rayOf_prunes hdir hboxes) hvalid hfits hturns
  refine ⟨t, ht, hbest, fun p hp h hh => ?_⟩
  obtain ⟨k, hk⟩ := List.mem_iff_getElem?.mp hp
  obtain ⟨j, hj⟩ := hcover k (List.getElem?_eq_some_iff.mp hk).1
  exact hdone j k p hj hk h hh

end

end PathtraceTile

end P2pGpu.Kernels
