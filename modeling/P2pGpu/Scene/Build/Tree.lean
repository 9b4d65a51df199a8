import P2pGpu.Data.SiblingTree
import P2pGpu.Scene.Build
import P2pGpu.Scene.Bvh.RoundTrip

namespace P2pGpu.Scene

-- Where the primitives of a leaf start, and how many they are.
def spanOf (nodes : List BvhNode) (i : Nat) : Nat × Nat :=
  match nodes[i]? with
  | some n => (n.leftOrFirst.toNat, n.count.toNat)
  | none => (0, 0)

-- What a call built: a tree of its range, beside which no node is changed.
structure Built (s s' : Builder) (nodeIndex start stop depth : Nat) (shape : Shape) : Prop where
  items : s'.items.Perm s.items
  materials : s'.out.materials = s.out.materials
  size : start + shape.size = stop
  full : shape.Full
  length : s'.out.nodes.length = s.out.nodes.length + shape.extra
  frame : ∀ j < s.out.nodes.length, j ≠ nodeIndex → s'.out.nodes[j]? = s.out.nodes[j]?
  laid : Shape.Laid (kidsOf s'.out.nodes) (spanOf s'.out.nodes) shape nodeIndex
    s.out.nodes.length start
  formed : ∀ j n, Shape.Own shape nodeIndex s.out.nodes.length j →
    s'.out.nodes[j]? = some n → n.isLeaf = false → n.count = 0
  maxDepth : s'.out.maxDepth.toNat = max s.out.maxDepth.toNat (depth + shape.height)
  maxLeafPrims : s'.out.maxLeafPrims.toNat = max s.out.maxLeafPrims.toNat shape.widest

theorem leaf_flag {c : Nat} (hc : c < 2 ^ 31) :
    (kLeafFlag ||| UInt32.ofNat c) &&& kLeafFlag ≠ 0 ∧
      ((kLeafFlag ||| UInt32.ofNat c) &&& ~~~kLeafFlag).toNat = c := by
  constructor
  · intro hzero
    have hbit := congrArg (fun x : UInt32 => x.toNat.testBit 31) hzero
    have hset : kLeafFlag.toNat.testBit 31 = true := by decide
    simp [UInt32.toNat_and, UInt32.toNat_or, Nat.testBit_and, Nat.testBit_or, hset] at hbit
  · have hnot : (~~~kLeafFlag).toNat = 2 ^ 31 - 1 := by decide
    have hflag : kLeafFlag.toNat = 1 <<< 31 := by decide
    have hsmall : (UInt32.ofNat c).toNat = c := by
      rw [UInt32.toNat_ofNat']
      omega
    rw [UInt32.toNat_and, UInt32.toNat_or, hnot, hflag, hsmall, Nat.lor_comm,
      LittleEndian.lor_shiftLeft hc, Nat.and_two_pow_sub_one_eq_mod]
    omega

theorem kidsOf_congr {nodes nodes' : List BvhNode} {j : Nat} (h : nodes'[j]? = nodes[j]?) :
    kidsOf nodes' j = kidsOf nodes j ∧ spanOf nodes' j = spanOf nodes j := by
  simp only [kidsOf, spanOf, h, and_self]

section

variable {s : Builder} {nodeIndex start stop depth : Nat}

-- A leaf is written, whatever the order of the items.
theorem makeLeaf_built {items : List BuildPrim} (bounds : Aabb) (start : Nat) {count : Nat}
    (hitems : items.Perm s.items) (hnode : nodeIndex < s.out.nodes.length) (hpos : 0 < count)
    (hsmall : start + count < 2 ^ 31) (hdepth : depth + 1 < 2 ^ 31) :
    Built s (makeLeaf nodeIndex start count bounds { s with
      items
      out := { s.out with maxDepth := max s.out.maxDepth (UInt32.ofNat (depth + 1)) } })
      nodeIndex start (start + count) depth (.leaf count) := by
  obtain ⟨hflag, hcount⟩ := leaf_flag (c := count) (by omega)
  have hfirst : (UInt32.ofNat start).toNat = start := by
    rw [UInt32.toNat_ofNat']
    omega
  let node : BvhNode := {
    bmin := bounds.mn
    leftOrFirst := UInt32.ofNat start
    bmax := bounds.mx
    countAndLeaf := kLeafFlag ||| UInt32.ofNat count }
  have hget : (s.out.nodes.set nodeIndex node)[nodeIndex]? = some node :=
    List.getElem?_set_self hnode
  have hleaf : node.isLeaf = true := bne_iff_ne.mpr hflag
  exact {
    items := hitems
    materials := rfl
    size := rfl
    full := hpos
    length := List.length_set
    frame := fun j _ hj => List.getElem?_set_ne (Ne.symm hj)
    laid := by
      refine ⟨kidsOf_leaf hget hleaf, ?_⟩
      show spanOf (s.out.nodes.set nodeIndex node) nodeIndex = _
      rw [spanOf, hget]
      exact Prod.ext hfirst hcount
    formed := by
      intro j n hown hn hinternal
      rw [Shape.own_leaf.mp hown] at hn
      obtain rfl : node = n := Option.some.inj (hget.symm.trans hn)
      rw [hleaf] at hinternal
      cases hinternal
    maxDepth := by
      show (max s.out.maxDepth (UInt32.ofNat (depth + 1))).toNat = _
      rw [toNat_maxU32, UInt32.toNat_ofNat', Nat.mod_eq_of_lt (by omega)]
      rfl
    maxLeafPrims := by
      show (max s.out.maxLeafPrims (UInt32.ofNat count)).toNat = _
      rw [toNat_maxU32, UInt32.toNat_ofNat', Nat.mod_eq_of_lt (by omega)]
      rfl }

-- The state in which the children of a node are built.
structure Opened (s s' : Builder) (nodeIndex depth : Nat) : Prop where
  items : s'.items.Perm s.items
  materials : s'.out.materials = s.out.materials
  length : s'.out.nodes.length = s.out.nodes.length + 2
  node : ∃ n, s'.out.nodes[nodeIndex]? = some n ∧ n.isLeaf = false ∧ n.count = 0 ∧
    n.leftOrFirst.toNat = s.out.nodes.length
  frame : ∀ j < s.out.nodes.length, j ≠ nodeIndex → s'.out.nodes[j]? = s.out.nodes[j]?
  maxDepth : s'.out.maxDepth.toNat = max s.out.maxDepth.toNat (depth + 1)
  maxLeafPrims : s'.out.maxLeafPrims = s.out.maxLeafPrims

theorem addChildren_opened {items : List BuildPrim} {bounds : Aabb}
    (hitems : items.Perm s.items) (hnode : nodeIndex < s.out.nodes.length)
    (hsmall : s.out.nodes.length < 2 ^ 31) (hdepth : depth + 1 < 2 ^ 31) :
    Opened s (addChildren nodeIndex bounds { s with
      items
      out := { s.out with maxDepth := max s.out.maxDepth (UInt32.ofNat (depth + 1)) } })
      nodeIndex depth := by
  have hleft : (UInt32.ofNat s.out.nodes.length).toNat = s.out.nodes.length := by
    rw [UInt32.toNat_ofNat']
    omega
  let fresh : List BvhNode := [{}, {}]
  let node : BvhNode := {
    bmin := bounds.mn
    leftOrFirst := UInt32.ofNat s.out.nodes.length
    bmax := bounds.mx
    countAndLeaf := 0 }
  have hin : nodeIndex < (s.out.nodes ++ fresh).length := by
    rw [List.length_append]
    omega
  exact {
    items := hitems
    materials := rfl
    length := by
      show ((s.out.nodes ++ fresh).set nodeIndex node).length = _
      rw [List.length_set, List.length_append]
      rfl
    node := by
      have hflag : ((0 : UInt32) &&& kLeafFlag != 0) = false := by decide
      have hcount : (0 : UInt32) &&& ~~~kLeafFlag = 0 := by decide
      exact ⟨node, List.getElem?_set_self hin, hflag, hcount, hleft⟩
    frame := by
      intro j hj hne
      show ((s.out.nodes ++ fresh).set nodeIndex node)[j]? = _
      rw [List.getElem?_set_ne (Ne.symm hne), List.getElem?_append_left hj]
    maxDepth := by
      show (max s.out.maxDepth (UInt32.ofNat (depth + 1))).toNat = _
      rw [toNat_maxU32, UInt32.toNat_ofNat', Nat.mod_eq_of_lt (by omega)]
    maxLeafPrims := rfl }

-- The trees of both children make that of their parent.
theorem Opened.built {s₁ s₂ s₃ : Builder} {split : Nat} {left right : Shape}
    (h : Opened s s₁ nodeIndex depth) (hnode : nodeIndex < s.out.nodes.length)
    (hleft : Built s₁ s₂ s.out.nodes.length start split (depth + 1) left)
    (hright : Built s₂ s₃ (s.out.nodes.length + 1) split stop (depth + 1) right) :
    Built s s₃ nodeIndex start stop depth (.node left right) := by
  obtain ⟨n, hn, hinternal, hzero, hfirst⟩ := h.node
  have hlen₁ := h.length
  have hlen₂ := hleft.length
  have hlen₃ := hright.length
  -- Neither call writes to the parent, and the second to no node of the first.
  have hold : ∀ j < s.out.nodes.length, s₃.out.nodes[j]? = s₁.out.nodes[j]? := by
    intro j hj
    rw [hright.frame j (by omega) (by omega), hleft.frame j (by omega) (by omega)]
  have hkept : ∀ j, Shape.Own left s.out.nodes.length s₁.out.nodes.length j →
      s₃.out.nodes[j]? = s₂.out.nodes[j]? := by
    intro j hj
    unfold Shape.Own at hj
    exact hright.frame j (by omega) (by omega)
  have hn₃ : s₃.out.nodes[nodeIndex]? = some n := (hold nodeIndex hnode).trans hn
  refine ⟨hright.items.trans (hleft.items.trans h.items), ?_, ?_, ⟨hleft.full, hright.full⟩, ?_,
    fun j hj hne => (hold j hj).trans (h.frame j hj hne), ⟨?_, ?_, ?_⟩, ?_, ?_, ?_⟩
  · exact hright.materials.trans (hleft.materials.trans h.materials)
  · have hsizel := hleft.size
    have hsizer := hright.size
    simp only [Shape.size]
    omega
  · simp only [Shape.extra]
    omega
  · rw [kidsOf_internal hn₃ hinternal, hfirst]
  · have hlaid := hleft.laid.congr fun j hj => kidsOf_congr (hkept j hj)
    rw [hlen₁] at hlaid
    exact hlaid
  · have hlaid := hright.laid
    rw [hlen₂, hlen₁, ← hleft.size] at hlaid
    exact hlaid
  · intro j m hown hm hl
    rcases Shape.own_node.mp hown with rfl | hj | hj
    · obtain rfl : n = m := Option.some.inj (hn₃.symm.trans hm)
      exact hzero
    · rw [← hlen₁] at hj
      rw [hkept j hj] at hm
      exact hleft.formed j m hj hm hl
    · rw [← hlen₁, ← hlen₂] at hj
      exact hright.formed j m hj hm hl
  · rw [hright.maxDepth, hleft.maxDepth, h.maxDepth]
    have hl := left.height_pos
    have hr := right.height_pos
    simp only [Shape.height]
    omega
  · rw [hright.maxLeafPrims, hleft.maxLeafPrims, h.maxLeafPrims]
    simp only [Shape.widest]
    omega

end

-- Every call ends, and what it builds is a tree of its range.
theorem build_built [Single] (part : Partitioning BuildPrim) (fuel nodeIndex start stop depth : Nat)
    (s : Builder) (hnode : nodeIndex < s.out.nodes.length) (hrange : start < stop)
    (hstop : stop ≤ s.items.length) (hfuel : stop - start ≤ fuel)
    (hnodes : s.out.nodes.length + 2 * (stop - start) < 2 ^ 31) (hsmall : stop < 2 ^ 31)
    (hdepth : depth + (stop - start) < 2 ^ 31) :
    ∃ s' shape, build part fuel nodeIndex start stop depth s = some s' ∧
      Built s s' nodeIndex start stop depth shape := by
  induction fuel generalizing nodeIndex start stop depth s with
  | zero => omega
  | succ fuel ih =>
      have hlength : ((s.items.drop start).take (stop - start)).length = stop - start := by
        rw [List.length_take, List.length_drop]
        omega
      have hlast : start + (stop - start) = stop := by omega
      have hleaf : ∀ {items : List BuildPrim} {bounds : Aabb}, items.Perm s.items →
          Built s (makeLeaf nodeIndex start (stop - start) bounds { s with
            items
            out := { s.out with maxDepth := max s.out.maxDepth (UInt32.ofNat (depth + 1)) } })
            nodeIndex start stop depth (.leaf (stop - start)) := by
        intro items bounds hitems
        have hpos : 0 < stop - start := by omega
        have hsmall' : start + (stop - start) < 2 ^ 31 := by omega
        have hdepth' : depth + 1 < 2 ^ 31 := by omega
        have hbuilt := makeLeaf_built bounds start hitems hnode hpos hsmall' hdepth'
        rw [hlast] at hbuilt
        exact hbuilt
      unfold build
      dsimp only
      generalize hr : (s.items.drop start).take (stop - start) = range at hlength ⊢
      cases hplane : plane range with
      | none => exact ⟨_, _, rfl, hleaf (.refl _)⟩
      | some onLeft =>
          dsimp only
          have hperm := part.perm onLeft range
          generalize (part.run onLeft range).1 = passing at hperm ⊢
          generalize (part.run onLeft range).2 = failing at hperm ⊢
          have hsum := hperm.length_eq
          rw [List.length_append, hlength] at hsum
          have hitems : (Chunks.overwrite s.items start (passing ++ failing)).Perm s.items := by
            apply Chunks.overwrite_perm
            rw [List.length_append, hsum, hr]
            exact hperm
          have hcount : (Chunks.overwrite s.items start (passing ++ failing)).length =
              s.items.length := hitems.length_eq
          by_cases hempty : start + passing.length = start ∨ start + passing.length = stop
          · rw [if_pos hempty]
            exact ⟨_, _, rfl, hleaf hitems⟩
          · rw [if_neg hempty]
            -- Both sides have items, so each is shorter than the range.
            have hchildren : ∀ s₁, Opened s s₁ nodeIndex depth → ∃ s₂ s₃ shape,
                build part fuel s.out.nodes.length start (start + passing.length)
                    (depth + 1) s₁ = some s₂ ∧
                  build part fuel (s.out.nodes.length + 1) (start + passing.length)
                    stop (depth + 1) s₂ = some s₃ ∧
                  Built s s₃ nodeIndex start stop depth shape := by
              intro s₁ hopened
              have hlen := hopened.length
              have hcount₁ := hopened.items.length_eq
              obtain ⟨s₂, left, hs₂, hleft⟩ := ih s.out.nodes.length start
                (start + passing.length) (depth + 1) s₁ (by omega) (by omega) (by omega)
                (by omega) (by omega) (by omega) (by omega)
              have hlen₂ := hleft.length
              have hcount₂ := hleft.items.length_eq
              have hextra := Shape.extra_le hleft.full
              have hsize := hleft.size
              obtain ⟨s₃, right, hs₃, hright⟩ := ih (s.out.nodes.length + 1)
                (start + passing.length) stop (depth + 1) s₂ (by omega) (by omega) (by omega)
                (by omega) (by omega) (by omega) (by omega)
              exact ⟨s₂, s₃, .node left right, hs₂, hs₃, hopened.built hnode hleft hright⟩
            have hopened : Opened s (addChildren nodeIndex (boundsOf range) { s with
                items := Chunks.overwrite s.items start (passing ++ failing)
                out := { s.out with maxDepth := max s.out.maxDepth (UInt32.ofNat (depth + 1)) } })
                nodeIndex depth :=
              addChildren_opened hitems hnode (by omega) (by omega)
            obtain ⟨s₂, s₃, shape, hs₂, hs₃, hbuilt⟩ := hchildren _ hopened
            refine ⟨s₃, shape, ?_, hbuilt⟩
            rw [hs₂]
            exact hs₃

-- The kind of each primitive is known, and its material is one of the scene.
theorem itemsOf_inRange [Single] {scene : Scene} (h : scene.Ready) :
    ∀ p ∈ itemsOf scene, PrimInRange scene.materials.length p.prim := by
  intro p hp
  rcases List.mem_append.mp hp with hsphere | htriangle
  · obtain ⟨s, hs, rfl⟩ := List.mem_map.mp hsphere
    exact ⟨.inl rfl, h.sphere s hs⟩
  · obtain ⟨t, ht, rfl⟩ := List.mem_map.mp htriangle
    exact ⟨.inr rfl, h.triangle t ht⟩

theorem length_itemsOf [Single] (scene : Scene) : (itemsOf scene).length = scene.primitiveCount := by
  simp [itemsOf, Scene.primitiveCount]

theorem ofMaterial_kind (m : Material) :
    (ofMaterial m).kind ≤ MaterialKind.emissive.toU32 := by
  have hkinds : ∀ k : MaterialKind, k.toU32 ≤ MaterialKind.emissive.toU32 := by
    intro k
    cases k <;> decide
  exact hkinds m.kind

-- More fuel changes nothing.
theorem build_mono [Single] {part : Partitioning BuildPrim} {fuel nodeIndex start stop depth : Nat}
    {s s' : Builder} (h : build part fuel nodeIndex start stop depth s = some s') :
    build part (fuel + 1) nodeIndex start stop depth s = some s' := by
  induction fuel generalizing nodeIndex start stop depth s s' with
  | zero => cases h
  | succ fuel ih =>
      rw [build] at h ⊢
      dsimp only at h ⊢
      split
      · rename_i hplane
        rw [hplane] at h
        exact h
      · rename_i onLeft hplane
        rw [hplane] at h
        dsimp only at h
        split at h
        · rename_i hempty
          rw [if_pos hempty]
          exact h
        · rename_i hsplit
          rw [if_neg hsplit]
          split at h
          · cases h
          · rename_i s₂ hs₂
            rw [ih hs₂]
            exact ih h

theorem build_enough [Single] {part : Partitioning BuildPrim}
    {fuel fuel' nodeIndex start stop depth : Nat} {s s' : Builder}
    (h : build part fuel nodeIndex start stop depth s = some s') (hle : fuel ≤ fuel') :
    build part fuel' nodeIndex start stop depth s = some s' := by
  induction hle with
  | refl => exact h
  | step _ ih => exact build_mono ih

-- A primitive in the range of a leaf.
def InLeaf (nodes : List BvhNode) (i p : Nat) : Prop :=
  ∃ n, nodes[i]? = some n ∧ n.isLeaf = true ∧
    n.leftOrFirst.toNat ≤ p ∧ p < n.leftOrFirst.toNat + n.count.toNat

-- The whole array is one tree, and its leaves share out the primitives.
structure Whole (b : Bvh) (shape : Shape) : Prop where
  laid : Shape.Laid (kidsOf b.nodes) (spanOf b.nodes) shape 0 1 0
  full : shape.Full
  nodes : b.nodes.length = 1 + shape.extra
  prims : b.prims.length = shape.size
  formed : ∀ (j : Nat) (n : BvhNode), b.nodes[j]? = some n → n.isLeaf = false → n.count = 0
  maxDepth : b.maxDepth.toNat = shape.height
  maxLeafPrims : b.maxLeafPrims.toNat = shape.widest

namespace Whole

variable {b : Bvh} {shape : Shape} {i : Nat} {n : BvhNode}

theorem own (h : Whole b shape) (hi : i < b.nodes.length) : Shape.Own shape 0 1 i := by
  have hlength := h.nodes
  unfold Shape.Own
  omega

theorem span (hn : b.nodes[i]? = some n) :
    spanOf b.nodes i = (n.leftOrFirst.toNat, n.count.toNat) := by
  rw [spanOf, hn]

theorem inRange (h : Whole b shape) (hn : b.nodes[i]? = some n) :
    NodeInRange b.nodes.length b.prims.length i n := by
  have hown := h.own (List.getElem?_eq_some_iff.mp hn).1
  refine ⟨fun hleaf => ?_, fun hinternal => ⟨h.formed i n hn hinternal, ?_⟩⟩
  · obtain ⟨-, hlast, -, hpos⟩ := h.laid.inside hown (kidsOf_leaf hn hleaf)
    rw [span hn] at hlast hpos
    rw [h.prims]
    exact ⟨hpos h.full, by omega⟩
  · have hkids := kidsOf_internal hn hinternal
    have hlow := h.laid.increases Nat.one_pos hown (k := n.leftOrFirst.toNat) (by rw [hkids]; simp)
    have hhigh := h.laid.increases Nat.one_pos hown (k := n.leftOrFirst.toNat + 1)
      (by rw [hkids]; simp)
    rw [h.nodes]
    omega

theorem tree (h : Whole b shape) : IndexTree b.nodes.length (kidsOf b.nodes) := by
  rw [h.nodes]
  exact h.laid.tree

theorem measured (h : Whole b shape) : Measured b.nodes b.maxDepth b.maxLeafPrims := by
  constructor
  · rw [h.maxDepth]
    exact IndexTree.deepest h.laid.height_greatest
  · rw [h.maxLeafPrims]
    constructor
    · obtain ⟨j, hown, hnone, hwide⟩ := h.laid.widest_reached
      have hj : j < b.nodes.length := by
        have hlength := h.nodes
        unfold Shape.Own at hown
        omega
      obtain ⟨n, hn, hleaf⟩ := exists_leaf hj hnone
      rw [span hn] at hwide
      exact ⟨n, List.mem_of_getElem? hn, hleaf, hwide⟩
    · rintro c ⟨n, hmem, hleaf, rfl⟩
      obtain ⟨j, hj, rfl⟩ := List.getElem_of_mem hmem
      have hn : b.nodes[j]? = some b.nodes[j] := List.getElem?_eq_getElem hj
      obtain ⟨-, -, hwide, -⟩ := h.laid.inside (h.own hj) (kidsOf_leaf hn hleaf)
      rw [span hn] at hwide
      exact hwide

-- Each primitive is of one leaf.
theorem partition (h : Whole b shape) {p : Nat} (hp : p < b.prims.length) :
    ∃! i, InLeaf b.nodes i p := by
  rw [h.prims] at hp
  obtain ⟨j, hown, hnone, hin⟩ := h.laid.cover (p := p) (Nat.zero_le p) (by omega)
  have hj : j < b.nodes.length := by
    have hlength := h.nodes
    unfold Shape.Own at hown
    omega
  obtain ⟨n, hn, hleaf⟩ := exists_leaf hj hnone
  refine ⟨j, ⟨n, hn, hleaf, by rw [span hn] at hin; exact hin⟩, ?_⟩
  rintro i ⟨m, hm, hleaf', hin'⟩
  have hi := (List.getElem?_eq_some_iff.mp hm).1
  refine h.laid.disjoint (p := p) (h.own hi) hown (kidsOf_leaf hm hleaf') hnone ?_ hin
  rw [span hm]
  exact hin'

end Whole

def primsOf [Single] (scene : Scene) : List BvhPrim := (itemsOf scene).map BuildPrim.prim

theorem buildBvh_whole [Single] (part : Partitioning BuildPrim) {scene : Scene}
    (hready : scene.Ready) (hprims : scene.primitiveCount ≤ kMaxBvhPrims.toNat) :
    ∃ b shape, (∀ fuel, scene.primitiveCount ≤ fuel → buildBvh part fuel scene = some b) ∧
      Whole b shape ∧ b.prims.Perm (primsOf scene) ∧
      b.materials = scene.materials.map ofMaterial := by
  have hmax : kMaxBvhPrims.toNat = 4194304 := rfl
  have hlength := length_itemsOf scene
  have hpos := hready.primitive
  let start : Builder := ⟨itemsOf scene, { nodes := [{}], materials := scene.materials.map ofMaterial }⟩
  have hone : start.out.nodes.length = 1 := rfl
  obtain ⟨s, shape, hs, hbuilt⟩ := build_built part scene.primitiveCount 0 0
    (itemsOf scene).length 0 start (by omega) (by omega) (Nat.le_refl _) (by omega) (by omega)
    (by omega) (by omega)
  have hitems : s.items.Perm (itemsOf scene) := hbuilt.items
  refine ⟨{ s.out with prims := s.items.map BuildPrim.prim }, shape, fun fuel hfuel => ?_,
    ⟨hbuilt.laid, hbuilt.full, hbuilt.length, ?_, fun j n hn => hbuilt.formed j n ?_ hn, ?_, ?_⟩,
    hitems.map _, hbuilt.materials⟩
  · have hsome : itemsOf scene ≠ [] := by
      intro hnil
      rw [hnil] at hlength
      simp at hlength
      omega
    unfold buildBvh
    dsimp only
    rw [if_neg hsome, build_enough hs hfuel]
  · have hsize := hbuilt.size
    rw [List.length_map, hitems.length_eq]
    omega
  · have hj := (List.getElem?_eq_some_iff.mp hn).1
    have hlen := hbuilt.length
    unfold Shape.Own
    have hj' : j < s.out.nodes.length := hj
    omega
  · have hdepth := hbuilt.maxDepth
    have hzero : start.out.maxDepth.toNat = 0 := rfl
    show s.out.maxDepth.toNat = _
    omega
  · have hleaf := hbuilt.maxLeafPrims
    have hzero : start.out.maxLeafPrims.toNat = 0 := rfl
    show s.out.maxLeafPrims.toNat = _
    omega

-- A scene that is parsed is built, whatever its floats do, and what is written of it is
-- loaded as it was built.
theorem build_serialize_load [Single] (part : Partitioning BuildPrim) {text : List Char}
    {scene : Scene} (h : parseScene text = .ok scene)
    (hprims : scene.primitiveCount ≤ kMaxBvhPrims.toNat)
    (hmaterials : scene.materials.length ≤ kMaxBvhMaterials.toNat) :
    ∃ b, (∀ fuel, scene.primitiveCount ≤ fuel → buildBvh part fuel scene = some b) ∧
      Valid b.nodes b.prims b.materials ∧
      (∀ p < b.prims.length, ∃! i, InLeaf b.nodes i p) ∧
      b.prims.Perm (primsOf scene) ∧
      ∃ blob, serializeBvh b = .ok blob ∧ loadBvh blob = .ok b := by
  have hready := parseScene_ready h
  obtain ⟨b, shape, hbuild, hwhole, hperm, hmats⟩ := buildBvh_whole part hready hprims
  have hmatsLength : b.materials.length = scene.materials.length := by
    rw [hmats, List.length_map]
  have hprimsLength : b.prims.length = scene.primitiveCount := by
    rw [hperm.length_eq, primsOf, List.length_map, length_itemsOf]
  have hvalid : Valid b.nodes b.prims b.materials := by
    refine ⟨fun i n hn => hwhole.inRange hn, fun p hp => ?_, fun m hm => ?_, hwhole.tree⟩
    · obtain ⟨item, hitem, rfl⟩ := List.mem_map.mp (hperm.mem_iff.mp hp)
      rw [hmatsLength]
      exact itemsOf_inRange hready item hitem
    · rw [hmats] at hm
      obtain ⟨m', -, rfl⟩ := List.mem_map.mp hm
      exact ofMaterial_kind m'
  have hfits : b.Fits := by
    have hextra := Shape.extra_le hwhole.full
    have hnodes := hwhole.nodes
    have hsize := hwhole.prims
    have hmaxPrims : kMaxBvhPrims.toNat = 4194304 := rfl
    have hmaxNodes : kMaxBvhNodes.toNat = 8388608 := rfl
    have hprimitive := hready.primitive
    have hmaterial := hready.material
    exact ⟨⟨by omega, by omega⟩, ⟨by omega, by omega⟩, ⟨by omega, by omega⟩⟩
  exact ⟨b, hbuild, hvalid, fun p hp => hwhole.partition hp, hperm, blobOf b, serializeBvh_eq hfits,
    loadBvh_blobOf hfits hvalid hwhole.measured⟩

-- Floats that are no NaN compare as their signs and magnitudes do. Sums are those with zero.
@[reducible] def plainSingle : Single where
  add a b := if a = 0 then b else a
  sub a b := if a = 0 then b ^^^ 0x80000000 else a
  mul _ _ := 0
  div _ _ := 0
  lt a b :=
    let key (x : UInt32) : Int :=
      if x < 0x80000000 then x.toNat else -((x.toNat : Int) - 0x80000000)
    key a < key b
  le a b := a = b
  ofU32 _ := 0
  toInt _ := 0
  ofText s := if s = ['0'] then some 0 else if s = ['1'] then some Single.one else none

def stablePartition (α : Type) : Partitioning α where
  run p xs := (xs.filter p, xs.filter fun a => !p a)
  perm p xs := List.filter_append_perm p xs
  passes p xs a ha := (List.mem_filter.mp ha).2
  fails p xs a ha := by simpa using (List.mem_filter.mp ha).2

def oneSphereText : List Char :=
  "version 1\nmaterial 0 metal 1 1 1 0 # shiny\nsphere 0 0 0 1 0\n".toList

def oneSphere : Scene where
  materials := [{ kind := .metal, albedo := ⟨Single.one, Single.one, Single.one⟩ }]
  spheres := [{}]

theorem build_serialize_load_sphere : letI := plainSingle
    ∃ b blob, buildBvh (stablePartition _) 1 oneSphere = some b ∧
      Valid b.nodes b.prims b.materials ∧ serializeBvh b = .ok blob ∧ loadBvh blob = .ok b := by
  let _ := plainSingle
  have hparse : parseScene oneSphereText = .ok oneSphere := by decide +kernel
  obtain ⟨b, hbuild, hvalid, -, -, blob, hblob, hload⟩ :=
    build_serialize_load (stablePartition _) hparse (by decide) (by decide)
  exact ⟨b, blob, hbuild 1 (by decide), hvalid, hblob, hload⟩

end P2pGpu.Scene
