import P2pGpu.Data.Windows
import P2pGpu.Kernels.PathtraceTile

namespace P2pGpu.Scene

-- The primitives that a leaf names.
def BvhNode.range (n : BvhNode) : Span := ⟨n.leftOrFirst.toNat, n.count.toNat⟩

def leaves (nodes : List BvhNode) : List BvhNode := nodes.filter BvhNode.isLeaf

-- Of any two leaves, one ends where the other starts, or before.
def LeavesApart (nodes : List BvhNode) : Prop :=
  (leaves nodes).Pairwise fun n m =>
    n.leftOrFirst.toNat + n.count.toNat ≤ m.leftOrFirst.toNat ∨
      m.leftOrFirst.toNat + m.count.toNat ≤ n.leftOrFirst.toNat

instance (nodes : List BvhNode) : Decidable (LeavesApart nodes) :=
  inferInstanceAs (Decidable (List.Pairwise _ _))

-- How many primitives the leaves name, one leaf after the other.
def leafTotal (nodes : List BvhNode) : Nat := ((leaves nodes).map fun n => n.count.toNat).sum

-- No primitive is named by two leaves.
def OneLeafEach (nodes : List BvhNode) : Prop :=
  ∀ (p i j : Nat) (n m : BvhNode), nodes[i]? = some n → nodes[j]? = some m →
    n.isLeaf = true → m.isLeaf = true → p ∈ n.range.units → p ∈ m.range.units → i = j

section

variable {nodes : List BvhNode} {prims : List BvhPrim} {materials : List BvhMaterial}
  {n m : BvhNode}

theorem leaf_bounds (hvalid : Valid nodes prims materials) (hn : n ∈ leaves nodes) :
    0 < n.range.count ∧ n.range.start + n.range.count ≤ prims.length := by
  obtain ⟨hmem, hleaf⟩ := List.mem_filter.mp hn
  obtain ⟨i, hi⟩ := List.mem_iff_getElem?.mp hmem
  exact (hvalid.node i n hi).leaf hleaf

theorem leavesApart_iff (hvalid : Valid nodes prims materials) :
    LeavesApart nodes ↔
      (leaves nodes).Pairwise fun n m => Disjoint n.range.units m.range.units := by
  have hsame : ∀ n ∈ leaves nodes, ∀ m ∈ leaves nodes,
      (Disjoint n.range.units m.range.units ↔
        n.leftOrFirst.toNat + n.count.toNat ≤ m.leftOrFirst.toNat ∨
          m.leftOrFirst.toNat + m.count.toNat ≤ n.leftOrFirst.toNat) := fun n hn m hm =>
    Span.disjoint_units_iff (leaf_bounds hvalid hn).1 (leaf_bounds hvalid hm).1
  constructor
  · exact fun h => h.imp_of_mem fun hn hm hends => (hsame _ hn _ hm).mpr hends
  · exact fun h => h.imp_of_mem fun hn hm hapart => (hsame _ hn _ hm).mp hapart

theorem oneLeafEach_iff (hvalid : Valid nodes prims materials) :
    OneLeafEach nodes ↔ LeavesApart nodes := by
  rw [leavesApart_iff hvalid, leaves, List.pairwise_filter, List.pairwise_iff_getElem]
  constructor
  · intro hone i j hi hj hlt hleaf hleaf'
    rw [Set.disjoint_left]
    intro p hp hp'
    have hsame := hone p i j _ _ (List.getElem?_eq_getElem hi) (List.getElem?_eq_getElem hj)
      hleaf hleaf' hp hp'
    omega
  · intro hapart p i j n m hn hm hleaf hleaf' hp hp'
    obtain ⟨hi, rfl⟩ := List.getElem?_eq_some_iff.mp hn
    obtain ⟨hj, rfl⟩ := List.getElem?_eq_some_iff.mp hm
    rcases Nat.lt_trichotomy i j with hlt | hsame | hlt
    · exact absurd hp' (Set.disjoint_left.mp (hapart i j hi hj hlt hleaf hleaf') hp)
    · exact hsame
    · exact absurd hp (Set.disjoint_left.mp (hapart j i hj hi hlt hleaf' hleaf) hp')

-- Internal nodes count nothing.
theorem leafTotal_eq (nodes : List BvhNode) :
    leafTotal nodes = (nodes.map fun n => if n.isLeaf then n.count.toNat else 0).sum := by
  induction nodes with
  | nil => rfl
  | cons n nodes ih =>
      unfold leafTotal leaves at ih ⊢
      by_cases hleaf : n.isLeaf = true
      · rw [List.filter_cons_of_pos hleaf, List.map_cons, List.sum_cons, List.map_cons,
          List.sum_cons, if_pos hleaf, ih]
      · rw [List.filter_cons_of_neg hleaf, List.map_cons, List.sum_cons, if_neg hleaf, Nat.zero_add,
          ih]

theorem leafTotal_le (hvalid : Valid nodes prims materials) (hapart : LeavesApart nodes) :
    leafTotal nodes ≤ prims.length := by
  have hranges := (leavesApart_iff hvalid).mp hapart
  have hsum := Span.sum_count_le (l := (leaves nodes).map BvhNode.range) (n := prims.length)
    (by
      intro s hs
      obtain ⟨n, hn, rfl⟩ := List.mem_map.mp hs
      exact (leaf_bounds hvalid hn).2)
    (List.pairwise_map.mpr hranges)
  rw [List.map_map] at hsum
  exact hsum

end

end P2pGpu.Scene

namespace P2pGpu.Kernels.PathtraceTile

open P2pGpu.Scene

section

variable {σ : Type} (ray : Ray σ) (bvh : Bvh)

-- One turn of the loop as it is where the box test passes and the stack has no bound.
def visitAll (nodeIndex : UInt32) (t : Traversal σ) : Traversal σ :=
  match bvh.nodes[nodeIndex.toNat]? with
  | none => t
  | some node =>
      let t := { t with tested := t.tested ++ [(nodeIndex.toNat, true)] }
      if node.isLeaf then
        (List.range node.count.toNat).foldl (examine ray bvh nodeIndex node.leftOrFirst) t
      else { t with stack := (node.leftOrFirst + 1) :: node.leftOrFirst :: t.stack }

def loopAll : Nat → Traversal σ → Option (Traversal σ)
  | fuel, t =>
      match t.stack with
      | [] => some t
      | nodeIndex :: rest =>
          match fuel with
          | 0 => none
          | fuel + 1 => loopAll fuel (visitAll ray bvh nodeIndex { t with stack := rest })

def traceAll (fuel : Nat) : Option (Traversal σ) :=
  loopAll ray bvh fuel { stack := [0], best := ray.miss }

end

-- Whatever the ray hits, all of the tree is gone through with no more tests than there are
-- primitives.
def WorkBounded (b : Bvh) : Prop :=
  ∀ (σ : Type) (ray : Ray σ), ∃ t, traceAll ray b b.nodes.length = some t ∧
    t.examined.length ≤ b.prims.length

-- The tests at one node, of which only a leaf has some.
def testsAt (b : Bvh) (i : Nat) : List (Nat × Nat) :=
  match b.nodes[i]? with
  | some n =>
      if n.isLeaf then (List.range n.count.toNat).map fun k => (i, n.leftOrFirst.toNat + k) else []
  | none => []

section

variable {σ : Type} {ray : Ray σ} {b : Bvh} {t : Traversal σ}

-- A turn of the shader's loop is one of these while there is room.
theorem visit_eq_visitAll (i : UInt32) (hbox : ∀ n, ray.rayAabb i n t.best = true)
    (hroom : t.stack.length + 2 ≤ stackSize) : visit ray b i t = visitAll ray b i t := by
  unfold visit visitAll
  cases b.nodes[i.toNat]? with
  | none => rfl
  | some n =>
      dsimp only
      rw [if_pos (hbox n)]
      by_cases hleaf : n.isLeaf = true
      · rw [if_pos hleaf, if_pos hleaf]
      · rw [if_neg hleaf, if_neg hleaf, if_pos hroom]

-- What one turn adds to the stack and to the tests.
theorem visitAll_adds (ray : Ray σ) (hvalid : Valid b.nodes b.prims b.materials) (hfits : b.Fits)
    (i : UInt32) (t : Traversal σ) :
    (visitAll ray b i t).stack.map UInt32.toNat =
        kidsOf b.nodes i.toNat ++ t.stack.map UInt32.toNat ∧
      (visitAll ray b i t).examined = t.examined ++ testsAt b i.toNat := by
  have hnodes : b.nodes.length ≤ 8388608 := hfits.nodes.2
  have hprims : b.prims.length ≤ 4194304 := hfits.prims.2
  unfold visitAll testsAt
  cases hnode : b.nodes[i.toNat]? with
  | none => simp [kidsOf, hnode]
  | some n =>
      have hrange := hvalid.node i.toNat n hnode
      dsimp only
      by_cases hleaf : n.isLeaf = true
      · obtain ⟨-, hlast⟩ := hrange.leaf hleaf
        obtain ⟨best, hfold⟩ := foldl_examine ray
          { t with tested := t.tested ++ [(i.toNat, true)] } i n.count.toNat hlast (by omega)
        rw [if_pos hleaf, if_pos hleaf, hfold, kidsOf_leaf hnode hleaf]
        exact ⟨rfl, rfl⟩
      · have hinternal := Bool.eq_false_of_not_eq_true hleaf
        obtain ⟨-, -, hhigh⟩ := hrange.internal hinternal
        have hright : (n.leftOrFirst + 1).toNat = n.leftOrFirst.toNat + 1 := by
          rw [UInt32.toNat_add]
          exact Nat.mod_eq_of_lt (by show _ + 1 < 2 ^ 32; omega)
        rw [if_neg hleaf, if_neg hleaf, kidsOf_internal hnode hinternal]
        refine ⟨?_, (List.append_nil _).symm⟩
        rw [List.map_cons, List.map_cons, hright]
        rfl

-- The loop makes the tests of the nodes in the order of the walk.
theorem loopAll_walk (ray : Ray σ) (hvalid : Valid b.nodes b.prims b.materials) (hfits : b.Fits)
    (fuel : Nat) {order : List Nat}
    (h : IndexTree.walk (kidsOf b.nodes) fuel (t.stack.map UInt32.toNat) = some order) :
    ∃ t', loopAll ray b fuel t = some t' ∧
      t'.examined = t.examined ++ order.flatMap (testsAt b) := by
  induction fuel generalizing t order with
  | zero =>
      cases hstack : t.stack with
      | nil =>
          rw [hstack, List.map_nil, IndexTree.walk, Option.some.injEq] at h
          subst h
          refine ⟨t, ?_, by simp⟩
          unfold loopAll
          rw [hstack]
      | cons i rest =>
          rw [hstack, List.map_cons, IndexTree.walk] at h
          cases h
  | succ fuel ih =>
      cases hstack : t.stack with
      | nil =>
          rw [hstack, List.map_nil, IndexTree.walk, Option.some.injEq] at h
          subst h
          refine ⟨t, ?_, by simp⟩
          unfold loopAll
          rw [hstack]
      | cons i rest =>
          obtain ⟨hpushed, htests⟩ := visitAll_adds ray hvalid hfits i { t with stack := rest }
          rw [hstack, List.map_cons, IndexTree.walk, Option.map_eq_some_iff] at h
          obtain ⟨order', hrest, rfl⟩ := h
          rw [← hpushed] at hrest
          obtain ⟨t', hloop, hlog⟩ := ih hrest
          refine ⟨t', ?_, ?_⟩
          · unfold loopAll
            rw [hstack]
            exact hloop
          · rw [hlog, htests, List.flatMap_cons, List.append_assoc]

theorem sum_testsAt (b : Bvh) :
    ((List.range b.nodes.length).map fun i => (testsAt b i).length).sum = leafTotal b.nodes := by
  have hpoint : ((List.range b.nodes.length).map fun i => (testsAt b i).length) =
      b.nodes.map fun n => if n.isLeaf then n.count.toNat else 0 := by
    refine List.ext_getElem (by simp) fun i hi _ => ?_
    rw [List.length_map, List.length_range] at hi
    rw [List.getElem_map, List.getElem_range, List.getElem_map, testsAt,
      List.getElem?_eq_getElem hi]
    dsimp only
    split <;> simp
  rw [hpoint, leafTotal_eq]

-- Every leaf is gone through once.
theorem traceAll_length (ray : Ray σ) (hvalid : Valid b.nodes b.prims b.materials)
    (hfits : b.Fits) : ∃ t, traceAll ray b b.nodes.length = some t ∧
      t.examined.length = leafTotal b.nodes := by
  obtain ⟨order, hwalk, hperm⟩ := hvalid.tree.walk_all
  obtain ⟨t, ht, hexamined⟩ := loopAll_walk ray (t := { stack := [0], best := ray.miss }) hvalid
    hfits b.nodes.length hwalk
  refine ⟨t, ht, ?_⟩
  rw [hexamined, List.nil_append, List.length_flatMap, (hperm.map _).sum_eq, sum_testsAt]

theorem workBounded_iff (hvalid : Valid b.nodes b.prims b.materials) (hfits : b.Fits) :
    WorkBounded b ↔ leafTotal b.nodes ≤ b.prims.length := by
  constructor
  · intro hbounded
    let ray : Ray Unit := { rayAabb := fun _ _ _ => true, hit := fun _ _ => (), miss := () }
    obtain ⟨t, ht, hle⟩ := hbounded Unit ray
    obtain ⟨t', ht', hlength⟩ := traceAll_length ray hvalid hfits
    obtain rfl : t = t' := Option.some.inj (ht.symm.trans ht')
    rw [← hlength]
    exact hle
  · intro hle σ ray
    obtain ⟨t, ht, hlength⟩ := traceAll_length ray hvalid hfits
    exact ⟨t, ht, hlength.le.trans hle⟩

-- The loader looks at each leaf by itself.
theorem primitive_work_iff {bytes : List UInt8} (h : loadBvh bytes = .ok b) :
    ((OneLeafEach b.nodes ∧ WorkBounded b) ↔ LeavesApart b.nodes) ∧
      (WorkBounded b ↔ leafTotal b.nodes ≤ b.prims.length) ∧
      ∀ (σ : Type) (ray : Ray σ), ∃ t, traceAll ray b b.nodes.length = some t ∧
        t.examined.length = leafTotal b.nodes := by
  obtain ⟨hfits, hvalid⟩ := loadBvh_fits h
  have hwork := workBounded_iff hvalid hfits
  refine ⟨?_, hwork, fun σ ray => traceAll_length ray hvalid hfits⟩
  rw [oneLeafEach_iff hvalid, hwork]
  constructor
  · exact And.left
  · exact fun hapart => ⟨hapart, leafTotal_le hvalid hapart⟩

end

def loneLeaf (first : UInt32) : BvhNode :=
  { leftOrFirst := first, countAndLeaf := kLeafFlag ||| 1 }

-- A root over two leaves of one primitive. The second leaf starts where it is told to.
def pair (second : UInt32) : Bvh where
  nodes := [{ leftOrFirst := 1 }, loneLeaf 0, loneLeaf second]
  prims := List.replicate (second.toNat + 1) {}
  materials := [{}]
  maxDepth := 2
  maxLeafPrims := 1

theorem primitive_work_iff_pair :
    loadBvh (blobOf (pair 1)) = .ok (pair 1) ∧ LeavesApart (pair 1).nodes ∧
      OneLeafEach (pair 1).nodes ∧ WorkBounded (pair 1) := by
  have hload : loadBvh (blobOf (pair 1)) = .ok (pair 1) := by decide +kernel
  have hapart : LeavesApart (pair 1).nodes := by decide
  exact ⟨hload, hapart, (primitive_work_iff hload).1.mpr hapart⟩

-- Both leaves name the one primitive there is, and it is tried twice.
theorem primitive_tried_twice : loadBvh (blobOf (pair 0)) = .ok (pair 0) ∧
    ¬ ∀ bytes b, loadBvh bytes = .ok b → OneLeafEach b.nodes ∧ WorkBounded b := by
  have hload : loadBvh (blobOf (pair 0)) = .ok (pair 0) := by decide +kernel
  refine ⟨hload, fun hall => ?_⟩
  obtain ⟨hone, -⟩ := hall _ _ hload
  have hnamed : 0 ∈ (loneLeaf 0).range.units := by
    rw [Span.mem_units]
    decide
  have hsame := hone 0 1 2 _ _ rfl rfl (by decide) (by decide) hnamed hnamed
  exact absurd hsame (by decide)

end P2pGpu.Kernels.PathtraceTile
