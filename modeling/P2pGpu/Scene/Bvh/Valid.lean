import P2pGpu.Data.IndexTree
import P2pGpu.Scene.Bvh

namespace P2pGpu.Scene

open P2pGpu.Protocol

-- The kids of a node, the right one first.
def kidsOf (nodes : List BvhNode) (i : Nat) : List Nat :=
  match nodes[i]? with
  | some n => if n.isLeaf then [] else [n.leftOrFirst.toNat + 1, n.leftOrFirst.toNat]
  | none => []

-- What a node may say of its children or of its primitives.
structure NodeInRange (nodeCount primCount i : Nat) (n : BvhNode) : Prop where
  leaf : n.isLeaf = true → 0 < n.count.toNat ∧ n.leftOrFirst.toNat + n.count.toNat ≤ primCount
  internal : n.isLeaf = false → n.count = 0 ∧ i < n.leftOrFirst.toNat ∧
    n.leftOrFirst.toNat + 1 < nodeCount

structure PrimInRange (materialCount : Nat) (p : BvhPrim) : Prop where
  kind : p.kind = kPrimSphere ∨ p.kind = kPrimTriangle
  material : p.material.toNat < materialCount

-- What the arrays of an accepted blob are.
structure Valid (nodes : List BvhNode) (prims : List BvhPrim) (materials : List BvhMaterial) :
    Prop where
  node : ∀ i n, nodes[i]? = some n → NodeInRange nodes.length prims.length i n
  prim : ∀ p ∈ prims, PrimInRange materials.length p
  material : ∀ m ∈ materials, m.kind ≤ MaterialKind.emissive.toU32
  tree : IndexTree nodes.length (kidsOf nodes)

-- How long the paths to the leaves are, and how large the leaves.
structure Measured (nodes : List BvhNode) (maxDepth maxLeafPrims : UInt32) : Prop where
  depth : IsGreatest {d | ∃ i, kidsOf nodes i = [] ∧ IndexTree.PathTo (kidsOf nodes) i d}
    maxDepth.toNat
  leaf : IsGreatest {c | ∃ n ∈ nodes, n.isLeaf = true ∧ n.count.toNat = c} maxLeafPrims.toNat

section

variable {nodes : List BvhNode} {prims : List BvhPrim} {materials : List BvhMaterial}
  {n : BvhNode} {i j : Nat}

theorem kidsOf_leaf (hn : nodes[i]? = some n) (hleaf : n.isLeaf = true) : kidsOf nodes i = [] := by
  simp [kidsOf, hn, hleaf]

theorem kidsOf_internal (hn : nodes[i]? = some n) (hleaf : n.isLeaf = false) :
    kidsOf nodes i = [n.leftOrFirst.toNat + 1, n.leftOrFirst.toNat] := by
  simp [kidsOf, hn, hleaf]

theorem mem_kidsOf : j ∈ kidsOf nodes i ↔ ∃ n, nodes[i]? = some n ∧ n.isLeaf = false ∧
    (j = n.leftOrFirst.toNat ∨ j = n.leftOrFirst.toNat + 1) := by
  cases hn : nodes[i]? with
  | none => simp [kidsOf, hn]
  | some n =>
      cases hleaf : n.isLeaf with
      | true => simp [kidsOf_leaf hn hleaf, hleaf]
      | false =>
          rw [kidsOf_internal hn hleaf]
          simp [hleaf, or_comm]

-- Ranges alone give all of a tree but the parents.
theorem kidsOf_increases (hnode : ∀ i n, nodes[i]? = some n →
    NodeInRange nodes.length prims.length i n) (hj : j ∈ kidsOf nodes i) :
    i < j ∧ j < nodes.length := by
  obtain ⟨n, hn, hleaf, hcase⟩ := mem_kidsOf.mp hj
  obtain ⟨-, hlow, hhigh⟩ := (hnode i n hn).internal hleaf
  omega

theorem kidsOf_nodup (nodes : List BvhNode) (i : Nat) : (kidsOf nodes i).Nodup := by
  unfold kidsOf
  split
  · split <;> simp
  · simp

-- Where there are no kids, there is a leaf.
theorem exists_leaf (hi : i < nodes.length) (hnone : kidsOf nodes i = []) :
    ∃ n, nodes[i]? = some n ∧ n.isLeaf = true := by
  refine ⟨nodes[i], List.getElem?_eq_getElem hi, ?_⟩
  by_contra hleaf
  rw [kidsOf_internal (List.getElem?_eq_getElem hi) (Bool.eq_false_of_not_eq_true hleaf)] at hnone
  cases hnone

theorem toNat_maxU32 (a b : UInt32) : (max a b).toNat = max a.toNat b.toNat := by
  rw [UInt32.max_def, Nat.max_def]
  simp only [UInt32.le_iff_toNat_le]
  split <;> rfl

end

namespace LoadBvh

open Checked

section

variable {may : Prop} {h : BvhHeader} {nodes : List BvhNode} {prims : List BvhPrim}
  {materials : List BvhMaterial} {i : Nat}

theorem checkNode_meets {maxLeafPrims : UInt32} (hnodes : h.nodeCount.toNat = nodes.length)
    (hprims : h.primCount.toNat = prims.length) (hi : i < nodes.length)
    (hmay : may ∨ ∀ n, nodes[i]? = some n → NodeInRange nodes.length prims.length i n) :
    Meets may (checkNode h nodes maxLeafPrims i) fun m => ∃ n, nodes[i]? = some n ∧
      NodeInRange nodes.length prims.length i n ∧
      m = if n.isLeaf then max maxLeafPrims n.count else maxLeafPrims := by
  have hcount := h.nodeCount.toNat_lt
  unfold checkNode
  refine (Meets.read hi).bind fun n hn => ?_
  have hfirst := n.leftOrFirst.toNat_lt
  have hmany := n.count.toNat_lt
  dsimp only
  by_cases hleaf : n.isLeaf = true
  · rw [if_pos hleaf]
    refine (Meets.addU64 ?_).bind fun last hlast => ?_
    · simp only [UInt32.toNat_toUInt64]
      omega
    · simp only [UInt32.toNat_toUInt64] at hlast
      have hin : (n.count = 0 ∨ h.primCount.toUInt64 < last) ↔
          ¬ (0 < n.count.toNat ∧ n.leftOrFirst.toNat + n.count.toNat ≤ prims.length) := by
        rw [UInt64.lt_iff_toNat_lt, hlast, UInt32.toNat_toUInt64, hprims, ← UInt32.toNat_inj,
          UInt32.toNat_zero]
        omega
      refine (Meets.refuseIf ?_).bind fun _ hok => ?_
      · rw [hin]
        intro hbad
        exact hmay.resolve_right fun hall => hbad ((hall n hn).leaf hleaf)
      · rw [hin, not_not] at hok
        refine ⟨n, hn, ⟨fun _ => hok, fun hnot => ?_⟩, ?_⟩
        · rw [hleaf] at hnot
          cases hnot
        · rw [if_pos hleaf]
  · rw [if_neg hleaf]
    have hinternal := Bool.eq_false_of_not_eq_true hleaf
    refine (Meets.refuseIf ?_).bind fun _ hzero => ?_
    · intro hbad
      exact hmay.resolve_right fun hall => hbad ((hall n hn).internal hinternal).1
    · rw [not_not] at hzero
      refine (Meets.addU64 ?_).bind fun right hright => ?_
      · simp only [UInt32.toNat_toUInt64]
        show _ + 1 < _
        omega
      · simp only [UInt32.toNat_toUInt64] at hright
        have hindex : (UInt64.ofNat i).toNat = i := by
          rw [UInt64.toNat_ofNat']
          apply Nat.mod_eq_of_lt
          omega
        have hin : (n.leftOrFirst.toUInt64 ≤ UInt64.ofNat i ∨ h.nodeCount.toUInt64 ≤ right) ↔
            ¬ (i < n.leftOrFirst.toNat ∧ n.leftOrFirst.toNat + 1 < nodes.length) := by
          rw [UInt64.le_iff_toNat_le, UInt64.le_iff_toNat_le, hright, hindex,
            UInt32.toNat_toUInt64, UInt32.toNat_toUInt64, hnodes]
          show _ ∨ _ ≤ n.leftOrFirst.toNat + 1 ↔ _
          omega
        refine (Meets.refuseIf ?_).bind fun _ hok => ?_
        · rw [hin]
          intro hbad
          exact hmay.resolve_right fun hall => hbad ((hall n hn).internal hinternal).2
        · rw [hin, not_not] at hok
          refine ⟨n, hn, ⟨fun hnot => absurd hnot hleaf, fun _ => ⟨hzero, hok⟩⟩, ?_⟩
          rw [if_neg hleaf]

theorem checkPrim_meets (hmaterials : h.materialCount.toNat = materials.length)
    (hi : i < prims.length) (hmay : may ∨ ∀ p ∈ prims, PrimInRange materials.length p) :
    Meets may (checkPrim h prims i) fun _ => PrimInRange materials.length (prims[i]) := by
  unfold checkPrim
  refine (Meets.read hi).bind fun p hp => ?_
  have hmem : p ∈ prims := List.mem_of_getElem? hp
  rw [List.getElem?_eq_getElem hi, Option.some.injEq] at hp
  rw [hp]
  refine (Meets.refuseIf ?_).bind fun _ hkind => ?_
  · intro hbad
    refine hmay.resolve_right fun hall => ?_
    rcases (hall p hmem).kind with hk | hk
    · exact hbad.1 hk
    · exact hbad.2 hk
  · refine (Meets.refuseIf ?_).mono fun _ hmaterial => ⟨?_, ?_⟩
    · intro hbad
      rw [UInt32.le_iff_toNat_le, hmaterials] at hbad
      exact hmay.resolve_right fun hall => absurd (hall p hmem).material (Nat.not_lt.mpr hbad)
    · rw [not_and_or, not_not, not_not] at hkind
      exact hkind
    · rw [UInt32.le_iff_toNat_le, hmaterials, Nat.not_le] at hmaterial
      exact hmaterial

theorem checkMaterial_meets (hi : i < materials.length)
    (hmay : may ∨ ∀ m ∈ materials, m.kind ≤ MaterialKind.emissive.toU32) :
    Meets may (checkMaterial materials i) fun _ =>
      materials[i].kind ≤ MaterialKind.emissive.toU32 := by
  unfold checkMaterial
  refine (Meets.read hi).bind fun m hm => ?_
  have hmem : m ∈ materials := List.mem_of_getElem? hm
  rw [List.getElem?_eq_getElem hi, Option.some.injEq] at hm
  rw [hm]
  refine (Meets.refuseIf ?_).mono fun _ hkind => ?_
  · intro hbad
    refine hmay.resolve_right fun hall => ?_
    have hle := hall m hmem
    rw [UInt32.le_iff_toNat_le] at hle
    rw [UInt32.lt_iff_toNat_lt] at hbad
    omega
  · rw [UInt32.lt_iff_toNat_lt] at hkind
    rw [UInt32.le_iff_toNat_le]
    omega

theorem markChild_meets {inDegree : List UInt8} {child : UInt32}
    (hin : child.toNat < inDegree.length)
    (hmay : may ∨ (child ≠ 0 ∧ inDegree.getD child.toNat 0 = 0)) :
    Meets may (markChild inDegree child) fun marked => child ≠ 0 ∧
      inDegree.getD child.toNat 0 = 0 ∧ marked = inDegree.set child.toNat 1 := by
  unfold markChild
  dsimp only
  refine (Meets.refuseIf fun hzero => ?_).bind fun _ hzero => ?_
  · exact hmay.resolve_right fun hnew => hnew.1 hzero
  · refine (Meets.read hin).bind fun d hd => ?_
    have hget : inDegree.getD child.toNat 0 = d := by
      rw [List.getD_eq_getElem?_getD, hd]
      rfl
    refine (Meets.refuseIf fun hmarked => ?_).bind fun _ hnew => ?_
    · exact hmay.resolve_right fun hnew => hmarked (hget.symm.trans hnew.2)
    · rw [not_not] at hnew
      exact (Meets.write hin).mono fun marked hmarked => ⟨hzero, hget.trans hnew, hmarked⟩

-- What is marked after the first nodes: their kids, of which none has two parents.
structure Marked (nodes : List BvhNode) (k : Nat) (inDegree : List UInt8) : Prop where
  length : inDegree.length = nodes.length
  marked : ∀ j < nodes.length, inDegree.getD j 0 ≠ 0 ↔ ∃ i < k, j ∈ kidsOf nodes i
  unique : ∀ i < k, ∀ i' < k, ∀ j, j ∈ kidsOf nodes i → j ∈ kidsOf nodes i' → i = i'

theorem getD_set {xs : List UInt8} {k j : Nat} (hk : k < xs.length) :
    (xs.set k 1).getD j 0 ≠ 0 ↔ j = k ∨ xs.getD j 0 ≠ 0 := by
  rw [List.getD_eq_getElem?_getD, List.getD_eq_getElem?_getD]
  by_cases hj : j = k
  · subst hj
    rw [List.getElem?_set_self hk]
    simp
  · rw [List.getElem?_set_ne (Ne.symm hj)]
    simp [hj]

theorem markChildren_meets {inDegree : List UInt8} (hi : i < nodes.length)
    (hlength : nodes.length ≤ kMaxBvhNodes.toNat)
    (hnode : ∀ i n, nodes[i]? = some n → NodeInRange nodes.length prims.length i n)
    (hmarked : Marked nodes i inDegree) (hmay : may ∨ IndexTree nodes.length (kidsOf nodes)) :
    Meets may (markChildren nodes inDegree i) (Marked nodes (i + 1)) := by
  unfold markChildren
  refine (Meets.read hi).bind fun n hn => ?_
  have hsplit : ∀ j, (∃ i' < i + 1, j ∈ kidsOf nodes i') ↔
      (∃ i' < i, j ∈ kidsOf nodes i') ∨ j ∈ kidsOf nodes i := by
    intro j
    constructor
    · rintro ⟨i', hi', hj⟩
      rcases Nat.lt_succ_iff_lt_or_eq.mp hi' with hlt | rfl
      · exact .inl ⟨i', hlt, hj⟩
      · exact .inr hj
    · rintro (⟨i', hi', hj⟩ | hj)
      · exact ⟨i', by omega, hj⟩
      · exact ⟨i, Nat.lt_succ_self i, hj⟩
  by_cases hleaf : n.isLeaf = true
  · rw [if_pos hleaf]
    have hnone := kidsOf_leaf hn hleaf
    refine ⟨hmarked.length, fun j hj => ?_, fun i₁ h₁ i₂ h₂ j hj₁ hj₂ => ?_⟩
    · rw [hmarked.marked j hj, hsplit, hnone]
      simp
    · have hlow : ∀ {i'}, i' < i + 1 → j ∈ kidsOf nodes i' → i' < i := by
        intro i' hi' hj'
        rcases Nat.lt_succ_iff_lt_or_eq.mp hi' with hlt | rfl
        · exact hlt
        · rw [hnone] at hj'
          cases hj'
      exact hmarked.unique i₁ (hlow h₁ hj₁) i₂ (hlow h₂ hj₂) j hj₁ hj₂
  · rw [if_neg hleaf]
    have hinternal := Bool.eq_false_of_not_eq_true hleaf
    have hkids := kidsOf_internal hn hinternal
    obtain ⟨-, hlow, hhigh⟩ := (hnode i n hn).internal hinternal
    have hmax : kMaxBvhNodes.toNat = 8388608 := rfl
    -- A kid that is marked would have two parents.
    have hfresh : IndexTree nodes.length (kidsOf nodes) → ∀ j ∈ kidsOf nodes i, j < nodes.length →
        inDegree.getD j 0 = 0 := by
      intro htree j hj hlt
      by_contra hset
      obtain ⟨i', hi', hj'⟩ := (hmarked.marked j hlt).mp hset
      have hsame := htree.unique i' (by omega) i hi j hj' hj
      omega
    have hzero : n.leftOrFirst ≠ 0 := by
      intro he
      rw [he, UInt32.toNat_zero] at hlow
      exact absurd hlow (Nat.not_lt_zero i)
    refine (Meets.addU32 ?_).bind fun right hright => ?_
    · show n.leftOrFirst.toNat + 1 < 2 ^ 32
      omega
    · have hright' : right.toNat = n.leftOrFirst.toNat + 1 := hright
      have hleft : n.leftOrFirst.toNat < inDegree.length := by
        rw [hmarked.length]
        omega
      refine (markChild_meets hleft ?_).bind fun marked hfirst => ?_
      · refine hmay.imp_right fun htree => ⟨hzero, hfresh htree _ ?_ (by omega)⟩
        rw [hkids]
        simp
      · obtain ⟨-, hnew, rfl⟩ := hfirst
        have hother : (inDegree.set n.leftOrFirst.toNat 1).getD right.toNat 0 =
            inDegree.getD right.toNat 0 := by
          rw [List.getD_eq_getElem?_getD, List.getD_eq_getElem?_getD,
            List.getElem?_set_ne (by omega)]
        refine (markChild_meets ?_ ?_).mono fun marked hsecond => ?_
        · rw [List.length_set, hmarked.length]
          omega
        · refine hmay.imp_right fun htree => ⟨?_, ?_⟩
          · intro he
            rw [he, UInt32.toNat_zero] at hright'
            omega
          · rw [hother, hright']
            refine hfresh htree _ ?_ hhigh
            rw [hkids]
            simp
        · obtain ⟨-, hnew', rfl⟩ := hsecond
          rw [hother, hright'] at hnew'
          have hin : right.toNat < (inDegree.set n.leftOrFirst.toNat 1).length := by
            rw [List.length_set, hmarked.length]
            omega
          have hnot : ∀ j ∈ kidsOf nodes i, ∀ i' < i, j ∉ kidsOf nodes i' := by
            intro j hj i' hi' hj'
            rw [hkids] at hj
            have hmark := (hmarked.marked j (by
              rcases List.mem_cons.mp hj with rfl | hj
              · exact hhigh
              · rw [List.mem_singleton.mp hj]
                omega)).mpr ⟨i', hi', hj'⟩
            rcases List.mem_cons.mp hj with rfl | hj
            · exact hmark hnew'
            · rw [List.mem_singleton.mp hj] at hmark
              exact hmark hnew
          refine ⟨?_, fun j hj => ?_, fun i₁ h₁ i₂ h₂ j hj₁ hj₂ => ?_⟩
          · rw [List.length_set, List.length_set, hmarked.length]
          · rw [getD_set hin, getD_set hleft, hmarked.marked j hj, hsplit, hkids, hright']
            simp only [List.mem_cons, List.not_mem_nil, or_false]
            rw [← or_assoc, or_comm]
          · rcases Nat.lt_succ_iff_lt_or_eq.mp h₁ with h₁ | rfl
            · rcases Nat.lt_succ_iff_lt_or_eq.mp h₂ with h₂ | rfl
              · exact hmarked.unique i₁ h₁ i₂ h₂ j hj₁ hj₂
              · exact absurd hj₁ (hnot j hj₂ i₁ h₁)
            · rcases Nat.lt_succ_iff_lt_or_eq.mp h₂ with h₂ | rfl
              · exact absurd hj₂ (hnot j hj₁ i₂ h₂)
              · rfl

theorem checkReached_meets {inDegree : List UInt8} (hi : i < inDegree.length)
    (hmay : may ∨ inDegree.getD i 0 ≠ 0) :
    Meets may (checkReached inDegree i) fun _ => inDegree.getD i 0 ≠ 0 := by
  unfold checkReached
  refine (Meets.read hi).bind fun d hd => ?_
  have hget : inDegree.getD i 0 = d := by
    rw [List.getD_eq_getElem?_getD, hd]
    rfl
  rw [hget]
  refine Meets.refuseIf fun hzero => ?_
  exact hmay.resolve_right fun hne => hne (hget.trans hzero)

-- The depths after the first nodes: those of the root and of their kids, and the
-- greatest of theirs.
structure Depths (nodes : List BvhNode) (k : Nat) (state : List UInt32 × UInt32) : Prop where
  length : state.1.length = nodes.length
  depth : ∀ j d, IndexTree.PathTo (kidsOf nodes) j d → (j = 0 ∨ ∃ i < k, j ∈ kidsOf nodes i) →
    (state.1.getD j 0).toNat = d
  upper : ∀ j < k, ∀ d, IndexTree.PathTo (kidsOf nodes) j d → d ≤ state.2.toNat
  reached : (k = 0 ∧ state.2 = 0) ∨ ∃ j < k, IndexTree.PathTo (kidsOf nodes) j state.2.toNat

theorem measure_meets {state : List UInt32 × UInt32} (hi : i < nodes.length)
    (hlength : nodes.length ≤ kMaxBvhNodes.toNat)
    (hnode : ∀ i n, nodes[i]? = some n → NodeInRange nodes.length prims.length i n)
    (htree : IndexTree nodes.length (kidsOf nodes)) (hdepths : Depths nodes i state) :
    Meets may (measure nodes state i) (Depths nodes (i + 1)) := by
  obtain ⟨depth, maxDepth⟩ := state
  have hmax : kMaxBvhNodes.toNat = 8388608 := rfl
  have hlen : depth.length = nodes.length := hdepths.length
  unfold measure
  dsimp only
  refine (Meets.read hi).bind fun n hn => ?_
  refine (Meets.read (hlen ▸ hi)).bind fun d hd => ?_
  obtain ⟨e, he⟩ := htree.exists_pathTo hi
  have hown : d.toNat = e := by
    have hread := hdepths.depth i e he (by
      by_cases hzero : i = 0
      · exact .inl hzero
      · obtain ⟨p, hp, hkid⟩ := htree.parent i (Nat.pos_of_ne_zero hzero) hi
        exact .inr ⟨p, (htree.increases p hp i hkid).1, hkid⟩)
    rw [List.getD_eq_getElem?_getD, hd] at hread
    exact hread
  have hsmall := he.le htree
  have hnext : (d + 1).toNat = e + 1 := by
    rw [UInt32.toNat_add, hown]
    apply Nat.mod_eq_of_lt
    show e + 1 < 2 ^ 32
    omega
  have hupper : ∀ j < i + 1, ∀ c, IndexTree.PathTo (kidsOf nodes) j c →
      c ≤ (max maxDepth d).toNat := by
    intro j hj c hc
    rw [toNat_maxU32]
    rcases Nat.lt_succ_iff_lt_or_eq.mp hj with hlt | rfl
    · exact (hdepths.upper j hlt c hc).trans (Nat.le_max_left _ _)
    · rw [hc.unique htree he, ← hown]
      exact Nat.le_max_right _ _
  have hreached : ∃ j < i + 1, IndexTree.PathTo (kidsOf nodes) j (max maxDepth d).toNat := by
    rw [toNat_maxU32]
    by_cases hle : maxDepth.toNat ≤ d.toNat
    · rw [Nat.max_eq_right hle, hown]
      exact ⟨i, Nat.lt_succ_self i, he⟩
    · rw [Nat.max_eq_left (by omega)]
      rcases hdepths.reached with ⟨-, hzero⟩ | ⟨j, hj, hpath⟩
      · have hzero' : maxDepth = 0 := hzero
        rw [hzero', UInt32.toNat_zero] at hle
        exact absurd (Nat.zero_le _) hle
      · exact ⟨j, by omega, hpath⟩
  by_cases hleaf : n.isLeaf = true
  · rw [if_pos hleaf]
    refine ⟨hlen, fun j c hc hj => hdepths.depth j c hc ?_, hupper, .inr hreached⟩
    refine hj.imp_right ?_
    rintro ⟨i', hi', hkid⟩
    rcases Nat.lt_succ_iff_lt_or_eq.mp hi' with hlt | rfl
    · exact ⟨i', hlt, hkid⟩
    · rw [kidsOf_leaf hn hleaf] at hkid
      cases hkid
  · rw [if_neg hleaf]
    have hinternal := Bool.eq_false_of_not_eq_true hleaf
    have hkids := kidsOf_internal hn hinternal
    obtain ⟨-, hlow, hhigh⟩ := (hnode i n hn).internal hinternal
    refine (Meets.write (hlen ▸ by omega)).bind fun depth₁ hfirst => ?_
    refine (Meets.addU32 ?_).bind fun right hright => ?_
    · show n.leftOrFirst.toNat + 1 < 2 ^ 32
      omega
    · have hright' : right.toNat = n.leftOrFirst.toNat + 1 := hright
      subst hfirst
      have hlen₁ : (depth.set n.leftOrFirst.toNat (d + 1)).length = nodes.length := by
        rw [List.length_set, hlen]
      refine (Meets.read (hlen₁ ▸ hi)).bind fun d' hd' => ?_
      rw [List.getElem?_set_ne (by omega), hd, Option.some.injEq] at hd'
      subst hd'
      refine (Meets.write (hlen₁ ▸ by omega)).bind fun depth₂ hsecond => ?_
      subst hsecond
      refine ⟨(List.length_set ..).trans hlen₁, fun j c hc hj => ?_, hupper, .inr hreached⟩
      show (((depth.set _ _).set _ _).getD j 0).toNat = c
      by_cases hkid : j ∈ kidsOf nodes i
      · have hc' := hc.unique htree (he.kid hkid)
        rw [hkids] at hkid
        rw [hc', ← hnext, List.getD_eq_getElem?_getD]
        rcases List.mem_cons.mp hkid with rfl | hsame
        · rw [← hright', List.getElem?_set_self (by rw [hright', hlen₁]; exact hhigh)]
          rfl
        · rw [List.mem_singleton.mp hsame, List.getElem?_set_ne (by omega),
            List.getElem?_set_self (by rw [hlen]; omega)]
          rfl
      · have hother : j ≠ n.leftOrFirst.toNat ∧ j ≠ n.leftOrFirst.toNat + 1 := by
          rw [hkids] at hkid
          simp only [List.mem_cons, List.not_mem_nil, or_false, not_or] at hkid
          exact ⟨hkid.2, hkid.1⟩
        have hread := hdepths.depth j c hc (hj.imp_right (by
          rintro ⟨i', hi', hj'⟩
          rcases Nat.lt_succ_iff_lt_or_eq.mp hi' with hlt | rfl
          · exact ⟨i', hlt, hj'⟩
          · exact absurd hj' hkid))
        rw [List.getD_eq_getElem?_getD, List.getElem?_set_ne (by omega),
          List.getElem?_set_ne (Ne.symm hother.1), ← List.getD_eq_getElem?_getD]
        exact hread

-- What is known after the checks of the first nodes.
structure Ranged (nodes : List BvhNode) (primCount k : Nat) (maxLeafPrims : UInt32) : Prop where
  node : ∀ i < k, ∀ n, nodes[i]? = some n → NodeInRange nodes.length primCount i n
  upper : ∀ i < k, ∀ n, nodes[i]? = some n → n.isLeaf = true → n.count.toNat ≤ maxLeafPrims.toNat
  reached : maxLeafPrims = 0 ∨ ∃ n ∈ nodes, n.isLeaf = true ∧ n.count.toNat = maxLeafPrims.toNat

theorem checkNodes_meets (hnodes : h.nodeCount.toNat = nodes.length)
    (hprims : h.primCount.toNat = prims.length)
    (hmay : may ∨ ∀ i n, nodes[i]? = some n → NodeInRange nodes.length prims.length i n) :
    Meets may (loop nodes.length (checkNode h nodes) 0)
      (Ranged nodes prims.length nodes.length) := by
  refine Meets.loop (Ranged nodes prims.length) ?_ fun i hi m hm => ?_
  · exact ⟨fun _ hi => absurd hi (Nat.not_lt_zero _), fun _ hi => absurd hi (Nat.not_lt_zero _),
      .inl rfl⟩
  · refine (checkNode_meets hnodes hprims hi (hmay.imp_right fun hall => hall i)).mono ?_
    rintro m' ⟨n, hn, hrange, rfl⟩
    have hle : m.toNat ≤ (if n.isLeaf then max m n.count else m).toNat := by
      split
      · rw [toNat_maxU32]
        exact Nat.le_max_left _ _
      · exact Nat.le_refl _
    refine ⟨fun j hj n' hn' => ?_, fun j hj n' hn' hleaf => ?_, ?_⟩
    · rcases Nat.lt_succ_iff_lt_or_eq.mp hj with hlt | rfl
      · exact hm.node j hlt n' hn'
      · rw [hn, Option.some.injEq] at hn'
        exact hn' ▸ hrange
    · rcases Nat.lt_succ_iff_lt_or_eq.mp hj with hlt | rfl
      · exact (hm.upper j hlt n' hn' hleaf).trans hle
      · rw [hn, Option.some.injEq] at hn'
        subst hn'
        rw [if_pos hleaf, toNat_maxU32]
        exact Nat.le_max_right _ _
    · by_cases hleaf : n.isLeaf = true
      · rw [if_pos hleaf, toNat_maxU32]
        by_cases hmore : m.toNat ≤ n.count.toNat
        · rw [Nat.max_eq_right hmore]
          exact .inr ⟨n, List.mem_of_getElem? hn, hleaf, rfl⟩
        · rw [Nat.max_eq_left (by omega)]
          rcases hm.reached with rfl | hsome
          · exact absurd (Nat.zero_le _) hmore
          · exact .inr hsome
      · rw [if_neg hleaf]
        exact hm.reached

theorem markAll_meets (hlength : nodes.length ≤ kMaxBvhNodes.toNat)
    (hnode : ∀ i n, nodes[i]? = some n → NodeInRange nodes.length prims.length i n)
    (hmay : may ∨ IndexTree nodes.length (kidsOf nodes)) :
    Meets may (loop nodes.length (markChildren nodes) (List.replicate nodes.length 0))
      (Marked nodes nodes.length) := by
  refine Meets.loop (Marked nodes) ?_ fun i hi inDegree hmarked =>
    markChildren_meets hi hlength hnode hmarked hmay
  refine ⟨List.length_replicate, fun j hj => ?_, fun _ hi => absurd hi (Nat.not_lt_zero _)⟩
  rw [List.getD_eq_getElem?_getD, List.getElem?_replicate, if_pos hj]
  simp

theorem measureAll_meets (hpos : 0 < nodes.length) (hlength : nodes.length ≤ kMaxBvhNodes.toNat)
    (hnode : ∀ i n, nodes[i]? = some n → NodeInRange nodes.length prims.length i n)
    (htree : IndexTree nodes.length (kidsOf nodes)) :
    Meets may (loop nodes.length (measure nodes)
      ((List.replicate nodes.length 0).set 0 1, 0)) (Depths nodes nodes.length) := by
  refine Meets.loop (Depths nodes) ?_ fun i hi state hdepths =>
    measure_meets hi hlength hnode htree hdepths
  refine ⟨?_, fun j d hpath hj => ?_, fun _ hj => absurd hj (Nat.not_lt_zero _), .inl ⟨rfl, rfl⟩⟩
  · simp
  · rcases hj with rfl | ⟨i, hi, -⟩
    · have hone := hpath.unique htree .root
      rw [hone, List.getD_eq_getElem?_getD, List.getElem?_set_self (by simpa using hpos)]
      rfl
    · exact absurd hi (Nat.not_lt_zero _)

theorem validate_meets (hnodes : h.nodeCount.toNat = nodes.length)
    (hprims : h.primCount.toNat = prims.length)
    (hmaterials : h.materialCount.toNat = materials.length) (hpos : 0 < nodes.length)
    (hlength : nodes.length ≤ kMaxBvhNodes.toNat) (hmay : may ∨ Valid nodes prims materials) :
    Meets may (validate h nodes prims materials) fun out =>
      Valid nodes prims materials ∧ Measured nodes out.1 out.2 := by
  unfold validate
  rw [hnodes, hprims, hmaterials]
  refine (checkNodes_meets hnodes hprims (hmay.imp_right Valid.node)).bind fun maxLeaf hleaf => ?_
  have hnode : ∀ i n, nodes[i]? = some n → NodeInRange nodes.length prims.length i n :=
    fun i n hn => hleaf.node i (List.getElem?_eq_some_iff.mp hn).1 n hn
  refine (Meets.loop (fun k _ => ∀ i (hi : i < prims.length), i < k →
    PrimInRange materials.length prims[i]) ?_ ?_).bind fun _ hprim => ?_
  · exact fun _ _ hi => absurd hi (Nat.not_lt_zero _)
  · intro i hi _ hbefore
    refine (checkPrim_meets hmaterials hi (hmay.imp_right Valid.prim)).mono fun _ hone j hj hlt => ?_
    rcases Nat.lt_succ_iff_lt_or_eq.mp hlt with hlt | rfl
    · exact hbefore j hj hlt
    · exact hone
  refine (Meets.loop (fun k _ => ∀ i (hi : i < materials.length), i < k →
    materials[i].kind ≤ MaterialKind.emissive.toU32) ?_ ?_).bind fun _ hmaterial => ?_
  · exact fun _ _ hi => absurd hi (Nat.not_lt_zero _)
  · intro i hi _ hbefore
    refine (checkMaterial_meets hi (hmay.imp_right Valid.material)).mono fun _ hone j hj hlt => ?_
    rcases Nat.lt_succ_iff_lt_or_eq.mp hlt with hlt | rfl
    · exact hbefore j hj hlt
    · exact hone
  refine (markAll_meets hlength hnode (hmay.imp_right Valid.tree)).bind fun inDegree hmarked => ?_
  refine (Meets.loop (fun k _ => ∀ i < k, inDegree.getD (i + 1) 0 ≠ 0) ?_ ?_).bind
    fun _ hreached => ?_
  · exact fun _ hi => absurd hi (Nat.not_lt_zero _)
  · intro i hi _ hbefore
    have hin : i + 1 < nodes.length := by omega
    refine (checkReached_meets (hmarked.length ▸ hin) ?_).mono fun _ hone j hj => ?_
    · refine hmay.imp_right fun hvalid => (hmarked.marked (i + 1) hin).mpr ?_
      exact hvalid.tree.parent (i + 1) (Nat.succ_pos i) hin
    · rcases Nat.lt_succ_iff_lt_or_eq.mp hj with hlt | rfl
      · exact hbefore j hlt
      · exact hone
  have htree : IndexTree nodes.length (kidsOf nodes) := by
    refine ⟨hpos, fun i _ j hj => kidsOf_increases hnode hj, fun i _ => kidsOf_nodup nodes i,
      fun j hj hlt => ?_, hmarked.unique⟩
    obtain ⟨i, rfl⟩ := Nat.exists_eq_succ_of_ne_zero hj.ne'
    exact (hmarked.marked _ hlt).mp (hreached i (by omega))
  refine (Meets.write (by simpa using hpos)).bind fun depth hdepth => ?_
  subst hdepth
  refine (measureAll_meets hpos hlength hnode htree).bind fun state hdepths => ?_
  have hvalid : Valid nodes prims materials := by
    refine ⟨hnode, fun p hp => ?_, fun m hm => ?_, htree⟩
    · obtain ⟨i, hi, rfl⟩ := List.getElem_of_mem hp
      exact hprim i hi hi
    · obtain ⟨i, hi, rfl⟩ := List.getElem_of_mem hm
      exact hmaterial i hi hi
  have hgreatest : IsGreatest {d | ∃ j, IndexTree.PathTo (kidsOf nodes) j d} state.2.toNat := by
    constructor
    · rcases hdepths.reached with ⟨hzero, -⟩ | ⟨j, -, hpath⟩
      · omega
      · exact ⟨j, hpath⟩
    · rintro d ⟨j, hpath⟩
      exact hdepths.upper j (hpath.lt htree) d hpath
  have hdeepest := IndexTree.deepest hgreatest
  refine ⟨hvalid, hdeepest, ?_, ?_⟩
  · -- The deepest node is a leaf, so there is one.
    obtain ⟨⟨i, hnone, hpath⟩, -⟩ := hdeepest
    obtain ⟨n, hn, hisLeaf⟩ := exists_leaf (hpath.lt htree) hnone
    have hi := (List.getElem?_eq_some_iff.mp hn).1
    rcases hleaf.reached with hzero | hsome
    · have hle := hleaf.upper i hi n hn hisLeaf
      have hmany := ((hnode i n hn).leaf hisLeaf).1
      rw [hzero, UInt32.toNat_zero] at hle
      omega
    · exact hsome
  · rintro c ⟨n, hn, hisLeaf, rfl⟩
    obtain ⟨i, hi, rfl⟩ := List.getElem_of_mem hn
    exact hleaf.upper i hi _ (List.getElem?_eq_getElem hi) hisLeaf

end

end LoadBvh

end P2pGpu.Scene
