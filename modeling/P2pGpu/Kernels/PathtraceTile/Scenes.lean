import P2pGpu.Kernels.PathtraceReference
import P2pGpu.Scene.Build.Boxes
import P2pGpu.Scene.Build.Values

namespace P2pGpu.Kernels.PathtraceTile

open P2pGpu.Scene V3
open P2pGpu.Coordinator (float32Value)

-- Every coordinate is a number, and the extents of the spheres are not rounded.
structure Unrounded [Single] (scene : Scene) : Prop where
  sphere : ∀ s ∈ scene.spheres, ∀ axis,
    valueOf (Single.sub (s.center.axis axis) s.radius) =
      .finite (float32Value (s.center.axis axis) - float32Value s.radius) ∧
    valueOf (Single.add (s.center.axis axis) s.radius) =
      .finite (float32Value (s.center.axis axis) + float32Value s.radius)
  triangle : ∀ t ∈ scene.triangles, ∀ axis,
    valueOf (t.a.axis axis) = .finite (float32Value (t.a.axis axis)) ∧
    valueOf (t.b.axis axis) = .finite (float32Value (t.b.axis axis)) ∧
    valueOf (t.c.axis axis) = .finite (float32Value (t.c.axis axis))

section

variable {K : Type} [Field K] [LinearOrder K] [IsStrictOrderedRing K]

-- A coordinate of a sphere's point, from what is known of all three.
theorem sphere_coordinate {x y z : K} {c r lo hi : Rat}
    (h : (x - c) * (x - c) + y * y + z * z = (r : K) * r)
    (hlow : lo ≤ c - r ∧ c - r ≤ hi) (hhigh : lo ≤ c + r ∧ c + r ≤ hi) :
    (lo : K) ≤ x ∧ x ≤ (hi : K) := by
  have hy := mul_self_nonneg y
  have hz := mul_self_nonneg z
  have hle : |x - c| ≤ |(r : K)| := abs_le_iff_mul_self_le.mpr (by linarith)
  have hlo : (lo : K) ≤ c - r := by exact_mod_cast hlow.1
  have hlo' : (lo : K) ≤ c + r := by exact_mod_cast hhigh.1
  have hhi : (c : K) - r ≤ hi := by exact_mod_cast hlow.2
  have hhi' : (c : K) + r ≤ hi := by exact_mod_cast hhigh.2
  obtain ⟨hneg, hpos⟩ := abs_le.mp hle
  rcases abs_choice (r : K) with hr | hr
  · rw [hr] at hneg hpos
    constructor <;> linarith
  · rw [hr] at hneg hpos
    constructor <;> linarith

-- One of a triangle's point is a mean of those of the corners.
theorem triangle_coordinate {a b c lo hi : Rat} {u w : K} (hu : 0 ≤ u) (hw : 0 ≤ w)
    (huw : u + w ≤ 1) (ha : lo ≤ a ∧ a ≤ hi) (hb : lo ≤ b ∧ b ≤ hi) (hc : lo ≤ c ∧ c ≤ hi) :
    (lo : K) ≤ a + ((b - a) * u + (c - a) * w) ∧ a + ((b - a) * u + (c - a) * w) ≤ (hi : K) := by
  have hrest : 0 ≤ 1 - u - w := by linarith
  have hcast : ∀ {p q : Rat}, p ≤ q → 0 ≤ (q : K) - p := fun h =>
    sub_nonneg.mpr (Rat.cast_le.mpr h)
  constructor
  · have hsum := add_nonneg (add_nonneg (mul_nonneg hrest (hcast ha.1))
      (mul_nonneg hu (hcast hb.1))) (mul_nonneg hw (hcast hc.1))
    linarith
  · have hsum := add_nonneg (add_nonneg (mul_nonneg hrest (hcast ha.2))
      (mul_nonneg hu (hcast hb.2))) (mul_nonneg hw (hcast hc.2))
    linarith

end

section

variable [Single] [Single.Compares] {b : Aabb} {v : Vec3} {s : Sphere} {t : Triangle} {n : BvhNode}
  {scene : Scene}

theorem sphereBox_holds (s : Sphere) :
    HoldsPoint (sphereBox s) ⟨Single.sub s.center.x s.radius, Single.sub s.center.y s.radius,
      Single.sub s.center.z s.radius⟩ ∧
    HoldsPoint (sphereBox s) ⟨Single.add s.center.x s.radius, Single.add s.center.y s.radius,
      Single.add s.center.z s.radius⟩ :=
  ⟨(extendPoint_holds _ _).extendPoint _, extendPoint_holds _ _⟩

theorem triangleBox_holds (t : Triangle) :
    HoldsPoint (triangleBox t) t.a ∧ HoldsPoint (triangleBox t) t.b ∧
      HoldsPoint (triangleBox t) t.c :=
  ⟨((extendPoint_holds _ _).extendPoint _).extendPoint _, (extendPoint_holds _ _).extendPoint _,
    extendPoint_holds _ _⟩

-- Per axis, a box that encloses that of a sphere has the extents of the sphere.
theorem sphere_axis (h : Unrounded scene) (hs : s ∈ scene.spheres) (hb : Numbers b)
    (hencloses : Encloses b (sphereBox s)) (axis : Nat) :
    (float32Value (b.mn.axis axis) ≤ float32Value (s.center.axis axis) - float32Value s.radius ∧
      float32Value (s.center.axis axis) - float32Value s.radius ≤ float32Value (b.mx.axis axis)) ∧
    (float32Value (b.mn.axis axis) ≤ float32Value (s.center.axis axis) + float32Value s.radius ∧
      float32Value (s.center.axis axis) + float32Value s.radius ≤ float32Value (b.mx.axis axis)) := by
  have hnumbers : Numbers (sphereBox s) := (numbers_empty.extend _ _).extend _ _
  obtain ⟨hlow, hhigh⟩ := sphereBox_holds s
  obtain ⟨hsub, hadd⟩ := h.sphere s hs axis
  have hsub' : valueOf ((⟨Single.sub s.center.x s.radius, Single.sub s.center.y s.radius,
      Single.sub s.center.z s.radius⟩ : Vec3).axis axis) =
      .finite (float32Value (s.center.axis axis) - float32Value s.radius) := by
    rw [← hsub]
    match axis with
    | 0 => rfl
    | 1 => rfl
    | _ + 2 => rfl
  have hadd' : valueOf ((⟨Single.add s.center.x s.radius, Single.add s.center.y s.radius,
      Single.add s.center.z s.radius⟩ : Vec3).axis axis) =
      .finite (float32Value (s.center.axis axis) + float32Value s.radius) := by
    rw [← hadd]
    match axis with
    | 0 => rfl
    | 1 => rfl
    | _ + 2 => rfl
  exact ⟨(hencloses.holds hnumbers hlow).value hb hsub',
    (hencloses.holds hnumbers hhigh).value hb hadd'⟩

theorem surrounds_sphere (K : Type) [Field K] [LinearOrder K] [IsStrictOrderedRing K]
    (h : Unrounded scene) (hs : s ∈ scene.spheres) (hn : Numbers n.box)
    (hencloses : Encloses n.box (sphereBox s)) : Surrounds K n (ofSphere s).prim := by
  intro v hv
  have haxis := sphere_axis h hs hn hencloses
  have hon : dot (v - ofBits s.center) (v - ofBits s.center) =
      (float32Value s.radius * float32Value s.radius : K) := (if_pos rfl).mp hv
  simp only [dot, sub_x, sub_y, sub_z] at hon
  have hy : (v.y - (ofBits s.center : V3 K).y) * (v.y - (ofBits s.center : V3 K).y) +
      (v.x - (ofBits s.center : V3 K).x) * (v.x - (ofBits s.center : V3 K).x) +
      (v.z - (ofBits s.center : V3 K).z) * (v.z - (ofBits s.center : V3 K).z) =
      float32Value s.radius * float32Value s.radius := by linarith
  have hz : (v.z - (ofBits s.center : V3 K).z) * (v.z - (ofBits s.center : V3 K).z) +
      (v.x - (ofBits s.center : V3 K).x) * (v.x - (ofBits s.center : V3 K).x) +
      (v.y - (ofBits s.center : V3 K).y) * (v.y - (ofBits s.center : V3 K).y) =
      float32Value s.radius * float32Value s.radius := by linarith
  exact ⟨sphere_coordinate hon (haxis 0).1 (haxis 0).2,
    sphere_coordinate hy (haxis 1).1 (haxis 1).2, sphere_coordinate hz (haxis 2).1 (haxis 2).2⟩

theorem surrounds_triangle (K : Type) [Field K] [LinearOrder K] [IsStrictOrderedRing K]
    (h : Unrounded scene) (ht : t ∈ scene.triangles) (hn : Numbers n.box)
    (hencloses : Encloses n.box (triangleBox t)) : Surrounds K n (ofTriangle t).prim := by
  intro v hv
  have hkind : (ofTriangle t).prim.kind ≠ kPrimSphere := by
    show kPrimTriangle ≠ kPrimSphere
    decide
  have hnumbers : Numbers (triangleBox t) :=
    ((numbers_empty.extend _ _).extend _ _).extend _ _
  obtain ⟨ha, hb, hc⟩ := triangleBox_holds t
  have hvalues := h.triangle t ht
  have hat := fun axis => (hencloses.holds hnumbers ha).value hn (hvalues axis).1
  have hbt := fun axis => (hencloses.holds hnumbers hb).value hn (hvalues axis).2.1
  have hct := fun axis => (hencloses.holds hnumbers hc).value hn (hvalues axis).2.2
  unfold OnPrim at hv
  rw [if_neg hkind] at hv
  obtain ⟨u, w, hu, hw, huw, rfl⟩ := hv
  refine ⟨?_, ?_, ?_⟩
  · exact triangle_coordinate hu hw huw (hat 0) (hbt 0) (hct 0)
  · exact triangle_coordinate hu hw huw (hat 1) (hbt 1) (hct 1)
  · exact triangle_coordinate hu hw huw (hat 2) (hbt 2) (hct 2)

-- The boxes of a built tree have all points of what lies under them.
theorem built_boxed (K : Type) [Field K] [LinearOrder K] [IsStrictOrderedRing K]
    {part : Partitioning BuildPrim} {fuel : Nat} {tree : Bvh} (hready : scene.Ready)
    (hprims : scene.primitiveCount ≤ kMaxBvhPrims.toNat)
    (htree : buildBvh part fuel scene = some tree) (hperm : tree.prims.Perm (primsOf scene))
    (h : Unrounded scene) : Boxed K tree := by
  intro i j p n q hn hbelow hleaf hq
  obtain ⟨range, hbox, item, hitem, -, hsame⟩ :=
    built_bounds hready hprims htree hn hbelow hleaf hq
  have hencloses : Encloses n.box (boxOf q) := by
    rw [hbox, ← hsame]
    exact boundsOf_encloses hitem
  have hnumbers : Numbers n.box := by
    rw [hbox]
    exact boundsOf_numbers range
  obtain ⟨origin, horigin, rfl⟩ :=
    List.mem_map.mp (hperm.mem_iff.mp (List.mem_of_getElem? hq))
  rcases List.mem_append.mp horigin with hsphere | htriangle
  · obtain ⟨s, hs, rfl⟩ := List.mem_map.mp hsphere
    exact surrounds_sphere K h hs hnumbers hencloses
  · obtain ⟨t, ht, rfl⟩ := List.mem_map.mp htriangle
    exact surrounds_triangle K h ht hnumbers hencloses

-- From the text of a scene to what a ray of the kernel sees: of all primitives of the scene
-- the walk through the tree that was loaded finds the nearest.
theorem scene_nearest (part : Partitioning BuildPrim) {text : List Char}
    (h : parseScene text = .ok scene) (hprims : scene.primitiveCount ≤ kMaxBvhPrims.toNat)
    (hmaterials : scene.materials.length ≤ kMaxBvhMaterials.toNat) (hexact : Unrounded scene) :
    ∃ tree blob, (∀ fuel, scene.primitiveCount ≤ fuel → buildBvh part fuel scene = some tree) ∧
      serializeBvh tree = .ok blob ∧ loadBvh blob = .ok tree ∧
      ((∀ i n w, tree.nodes[i]? = some n → n.isLeaf = false →
          IndexTree.Under (kidsOf tree.nodes) i w → w ≤ 62) →
        ∀ (K : Type) [Field K] [LinearOrder K] [IsStrictOrderedRing K] [SquareRoot K]
          (origin dir : V3 K), Usable dir →
          ∃ t, trace (rayOf origin dir) tree tree.nodes.length = some t ∧
            Nearest (strike tracer origin dir) Hit.t (primsOf scene) (miss tracer) t.best) := by
  obtain ⟨tree, hbuild, -, hcover, hperm, blob, hblob, hload⟩ :=
    build_serialize_load part h hprims hmaterials
  refine ⟨tree, blob, hbuild, hblob, hload, fun hturns K _ _ _ _ origin dir hdir => ?_⟩
  have hboxes : Boxed K tree :=
    built_boxed K (parseScene_ready h) hprims (hbuild _ (Nat.le_refl _)) hperm hexact
  have hall : ∀ p < tree.prims.length, ∃ i, InLeaf tree.nodes i p :=
    fun p hp => (hcover p hp).exists
  obtain ⟨t, ht, hnearest⟩ : ∃ t, trace (rayOf origin dir) tree tree.nodes.length = some t ∧
      Nearest (strike tracer origin dir) Hit.t tree.prims (miss tracer) t.best :=
    trace_nearest hload hturns hall hboxes hdir
  exact ⟨t, ht, hnearest.of_mem_iff fun p => hperm.mem_iff⟩

end

theorem oneSphere_unrounded : letI := comparingSingle; Unrounded oneSphere := by
  let _ := comparingSingle
  have hextent : valueOf (Single.sub 0 Single.one) =
        .finite (float32Value 0 - float32Value Single.one) ∧
      valueOf (Single.add 0 Single.one) =
        .finite (float32Value 0 + float32Value Single.one) := by decide +kernel
  refine ⟨fun s hs axis => ?_, fun t ht => absurd ht List.not_mem_nil⟩
  obtain rfl := List.mem_singleton.mp hs
  match axis with
  | 0 => exact hextent
  | 1 => exact hextent
  | _ + 2 => exact hextent

theorem scene_nearest_sphere : letI := comparingSingle
    ∃ tree t, buildBvh (stablePartition _) 1 oneSphere = some tree ∧
      trace (rayOf (⟨-4, -4, -4⟩ : V3 ℝ) ⟨1, 1, 1⟩) tree tree.nodes.length = some t ∧
      Nearest (strike tracer (⟨-4, -4, -4⟩ : V3 ℝ) ⟨1, 1, 1⟩) Hit.t (primsOf oneSphere)
        (miss tracer) t.best := by
  let _ := comparingSingle
  have _ := comparingSingle_compares
  have hparse : parseScene oneSphereText = .ok oneSphere := by decide +kernel
  have hleaves : ∀ n ∈ ((buildBvh (stablePartition _) 1 oneSphere).getD {}).nodes,
      n.isLeaf = true := by decide +kernel
  have hdir : Usable (⟨1, 1, 1⟩ : V3 ℝ) := by
    constructor <;> norm_num
  obtain ⟨tree, -, hbuild, -, -, hnearest⟩ := scene_nearest (stablePartition _) hparse
    (by decide) (by decide) oneSphere_unrounded
  have htree := hbuild 1 (by decide)
  rw [htree, Option.getD_some] at hleaves
  obtain ⟨t, ht, hbest⟩ := hnearest (fun i n w hn hleaf => absurd
    (hleaves n (List.mem_of_getElem? hn)) (by rw [hleaf]; decide)) ℝ ⟨-4, -4, -4⟩ ⟨1, 1, 1⟩ hdir
  exact ⟨tree, t, htree, ht, hbest⟩

end P2pGpu.Kernels.PathtraceTile
