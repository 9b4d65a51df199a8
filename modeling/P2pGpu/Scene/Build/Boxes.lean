import P2pGpu.Data.SiblingTree.Ranges
import P2pGpu.Scene.Build.Tree
import P2pGpu.Scene.Compares

namespace P2pGpu.Scene

-- Outside of the range nothing is changed, and what is inside of it was there before.
def Mixed {α : Type} (start stop : Nat) (xs ys : List α) : Prop :=
  ∀ (k : Nat) (a : α), ys[k]? = some a → ∃ k', xs[k']? = some a ∧
    ((start ≤ k ∧ k < stop) → start ≤ k' ∧ k' < stop) ∧ (¬ (start ≤ k ∧ k < stop) → k' = k)

namespace Mixed

variable {α : Type} {xs ys zs : List α} {start stop start' stop' : Nat}

theorem refl (start stop : Nat) (xs : List α) : Mixed start stop xs xs :=
  fun k _ h => ⟨k, h, id, fun _ => rfl⟩

theorem trans (h : Mixed start stop xs ys) (h' : Mixed start stop ys zs) :
    Mixed start stop xs zs := by
  intro k a ha
  obtain ⟨k', hk', hin, hout⟩ := h' k a ha
  obtain ⟨k'', hk'', hin', hout'⟩ := h k' a hk'
  refine ⟨k'', hk'', fun hk => hin' (hin hk), fun hk => ?_⟩
  obtain rfl := hout hk
  exact hout' hk

theorem mono (h : Mixed start' stop' xs ys) (hlow : start ≤ start') (hhigh : stop' ≤ stop) :
    Mixed start stop xs ys := by
  intro k a ha
  obtain ⟨k', hk', hin, hout⟩ := h k a ha
  by_cases hk : start' ≤ k ∧ k < stop'
  · have hk'' := hin hk
    exact ⟨k', hk', fun _ => ⟨by omega, by omega⟩, fun hnot => absurd hk (by omega)⟩
  · obtain rfl := hout hk
    exact ⟨k', hk', id, fun _ => rfl⟩

theorem overwrite {src : List α} (h : src.Perm ((xs.drop start).take (stop - start)))
    (hle : start ≤ stop) (hstop : stop ≤ xs.length) :
    Mixed start stop xs (Chunks.overwrite xs start src) := by
  have hlength : src.length = stop - start := by
    rw [h.length_eq, List.length_take, List.length_drop]
    omega
  intro k a ha
  rw [Chunks.getElem?_overwrite (by omega)] at ha
  by_cases hk : start ≤ k ∧ k < start + src.length
  · rw [if_pos hk] at ha
    obtain ⟨m, hm⟩ := List.mem_iff_getElem?.mp (h.mem_iff.mp (List.mem_of_getElem? ha))
    rw [List.getElem?_take] at hm
    by_cases hlt : m < stop - start
    · rw [if_pos hlt, List.getElem?_drop] at hm
      exact ⟨start + m, hm, fun _ => ⟨by omega, by omega⟩, fun hnot => absurd hk (by omega)⟩
    · rw [if_neg hlt] at hm
      cases hm
  · rw [if_neg hk] at ha
    exact ⟨k, ha, id, fun _ => rfl⟩

end Mixed

theorem mem_range {α : Type} {xs : List α} {start stop k : Nat} {a : α} (ha : xs[k]? = some a)
    (hlow : start ≤ k) (hhigh : k < stop) : a ∈ (xs.drop start).take (stop - start) := by
  have hget : ((xs.drop start).take (stop - start))[k - start]? = some a := by
    rw [List.getElem?_take, if_pos (by omega), List.getElem?_drop, ← ha]
    congr 1
    omega
  exact List.mem_of_getElem? hget

-- Each item of a range was in that range.
def Fed {α : Type} (first size : Nat) (xs ys : List α) : Prop :=
  ∀ (k : Nat) (a : α), first ≤ k → k < first + size → ys[k]? = some a →
    ∃ k', first ≤ k' ∧ k' < first + size ∧ xs[k']? = some a

namespace Mixed

variable {α : Type} {xs ys : List α} {start stop first size : Nat}

theorem fed (h : Mixed first (first + size) xs ys) : Fed first size xs ys := by
  intro k a hlow hhigh ha
  obtain ⟨k', hk', hin, -⟩ := h k a ha
  exact ⟨k', (hin ⟨hlow, hhigh⟩).1, (hin ⟨hlow, hhigh⟩).2, hk'⟩

theorem fed_outside (h : Mixed start stop xs ys) (hout : first + size ≤ start ∨ stop ≤ first) :
    Fed first size xs ys := by
  intro k a hlow hhigh ha
  obtain ⟨k', hk', -, hsame⟩ := h k a ha
  obtain rfl := hsame (by omega)
  exact ⟨k', hlow, hhigh, hk'⟩

end Mixed

section

variable {s s' : Builder} {nodeIndex start stop depth : Nat} {shape : Shape}

theorem Built.shape_unique {shape' : Shape} (h : Built s s' nodeIndex start stop depth shape)
    (h' : Built s s' nodeIndex start stop depth shape') : shape = shape' :=
  h.laid.shape_unique h'.laid

theorem addChildren_node (bounds : Aabb) (hnode : nodeIndex < s.out.nodes.length) :
    ∃ n, (addChildren nodeIndex bounds s).out.nodes[nodeIndex]? = some n ∧ n.box = bounds := by
  refine ⟨_, List.getElem?_set_self ?_, rfl⟩
  rw [List.length_append]
  omega

end

section

variable [Single]

-- The box of a node is that of items among which are all of the range.
def BoxHolds (s : Builder) (i first size : Nat) : Prop :=
  ∃ n range, s.out.nodes[i]? = some n ∧ n.box = boundsOf range ∧
    ∀ (k : Nat) (p : BuildPrim), first ≤ k → k < first + size → s.items[k]? = some p → p ∈ range

variable {part : Partitioning BuildPrim} {s s' : Builder} {fuel nodeIndex start stop depth : Nat}
  {shape : Shape}

theorem BoxHolds.keep {i first size : Nat} (h : BoxHolds s i first size)
    (hnode : s'.out.nodes[i]? = s.out.nodes[i]?) (hitems : Fed first size s.items s'.items) :
    BoxHolds s' i first size := by
  obtain ⟨n, range, hn, hbox, hmem⟩ := h
  refine ⟨n, range, hnode.trans hn, hbox, fun k p hlow hhigh hp => ?_⟩
  obtain ⟨k', hlow', hhigh', hk'⟩ := hitems k p hlow hhigh hp
  exact hmem k' p hlow' hhigh' hk'

-- A node that was given the bounds of a range.
theorem boxHolds_bounds {n : BvhNode} (hn : s'.out.nodes[nodeIndex]? = some n)
    (hbox : n.box = boundsOf ((s.items.drop start).take (stop - start)))
    (hitems : Mixed start stop s.items s'.items) (hle : start ≤ stop) :
    BoxHolds s' nodeIndex start (stop - start) := by
  refine ⟨n, _, hn, hbox, fun k p hlow hhigh hp => ?_⟩
  obtain ⟨k', hk', hin, -⟩ := hitems k p hp
  obtain ⟨hlow', hhigh'⟩ := hin ⟨hlow, by omega⟩
  exact mem_range hk' hlow' hhigh'

theorem makeLeaf_boxes {items : List BuildPrim} {maxDepth : UInt32}
    (hbuilt : Built s s' nodeIndex start stop depth shape)
    (hleaf : s' = makeLeaf nodeIndex start (stop - start)
      (boundsOf ((s.items.drop start).take (stop - start)))
      { s with items, out := { s.out with maxDepth } })
    (hitems : Mixed start stop s.items items) (hnode : nodeIndex < s.out.nodes.length)
    (hrange : start < stop) (hsmall : stop < 2 ^ 31) :
    Mixed start stop s.items s'.items ∧
      shape.Each (BoxHolds s') nodeIndex s.out.nodes.length start := by
  have hmixed : Mixed start stop s.items s'.items := by
    rw [hleaf]
    exact hitems
  let node : BvhNode := {
    bmin := (boundsOf ((s.items.drop start).take (stop - start))).mn
    leftOrFirst := UInt32.ofNat start
    bmax := (boundsOf ((s.items.drop start).take (stop - start))).mx
    countAndLeaf := kLeafFlag ||| UInt32.ofNat (stop - start) }
  have hget : s'.out.nodes[nodeIndex]? = some node := by
    rw [hleaf]
    exact List.getElem?_set_self hnode
  obtain ⟨hflag, -⟩ := leaf_flag (c := stop - start) (by omega)
  have hkids : kidsOf s'.out.nodes nodeIndex = [] := kidsOf_leaf hget (bne_iff_ne.mpr hflag)
  have hbox := boxHolds_bounds hget rfl hmixed hrange.le
  have hsize := hbuilt.size
  have hlaid := hbuilt.laid
  refine ⟨hmixed, ?_⟩
  cases shape with
  | leaf size =>
      obtain rfl : size = stop - start := by
        simp only [Shape.size] at hsize
        omega
      exact hbox
  | node left right =>
      rw [hlaid.1] at hkids
      cases hkids

-- The boxes of both children, and that of their parent.
theorem Opened.boxes {s₁ s₂ s₃ : Builder} {split : Nat} {left right : Shape} {n : BvhNode}
    (h : Opened s s₁ nodeIndex depth) (hnode : nodeIndex < s.out.nodes.length)
    (hitems : Mixed start stop s.items s₁.items)
    (hn : s₁.out.nodes[nodeIndex]? = some n)
    (hbox : n.box = boundsOf ((s.items.drop start).take (stop - start)))
    (hlow : start ≤ split) (hhigh : split ≤ stop)
    (hleft : Built s₁ s₂ s.out.nodes.length start split (depth + 1) left)
    (hright : Built s₂ s₃ (s.out.nodes.length + 1) split stop (depth + 1) right)
    (hboxl : Mixed start split s₁.items s₂.items ∧
      left.Each (BoxHolds s₂) s.out.nodes.length s₁.out.nodes.length start)
    (hboxr : Mixed split stop s₂.items s₃.items ∧
      right.Each (BoxHolds s₃) (s.out.nodes.length + 1) s₂.out.nodes.length split) :
    Mixed start stop s.items s₃.items ∧
      (Shape.node left right).Each (BoxHolds s₃) nodeIndex s.out.nodes.length start := by
  obtain ⟨hmixl, heachl⟩ := hboxl
  obtain ⟨hmixr, heachr⟩ := hboxr
  have hlen₁ := h.length
  have hlen₂ := hleft.length
  have hsizel := hleft.size
  have hsizer := hright.size
  have hmixed : Mixed start stop s.items s₃.items :=
    (hitems.trans (hmixl.mono (Nat.le_refl _) hhigh)).trans (hmixr.mono hlow (Nat.le_refl _))
  have hn₃ : s₃.out.nodes[nodeIndex]? = some n := by
    rw [hright.frame nodeIndex (by omega) (by omega), hleft.frame nodeIndex (by omega) (by omega),
      hn]
  have hroot := boxHolds_bounds hn₃ hbox hmixed (hlow.trans hhigh)
  have hwidth : stop - start = left.size + right.size := by omega
  rw [hwidth] at hroot
  refine ⟨hmixed, hroot, ?_, ?_⟩
  · rw [hlen₁] at heachl
    refine heachl.within.congr fun j f c hown hin => ?_
    unfold Shape.Own at hown
    exact hin.1.keep (hright.frame j (by omega) (by omega))
      (hmixr.fed_outside (.inl (by omega)))
  · rw [hlen₂, hlen₁, ← hsizel] at heachr
    exact heachr

-- Every box that a call writes is made of all that lies under its node.
theorem build_boxes (hbuild : build part fuel nodeIndex start stop depth s = some s')
    (hbuilt : Built s s' nodeIndex start stop depth shape)
    (hnode : nodeIndex < s.out.nodes.length) (hrange : start < stop)
    (hstop : stop ≤ s.items.length) (hfuel : stop - start ≤ fuel)
    (hnodes : s.out.nodes.length + 2 * (stop - start) < 2 ^ 31) (hsmall : stop < 2 ^ 31)
    (hdepth : depth + (stop - start) < 2 ^ 31) :
    Mixed start stop s.items s'.items ∧
      shape.Each (BoxHolds s') nodeIndex s.out.nodes.length start := by
  induction fuel generalizing nodeIndex start stop depth s s' shape with
  | zero => cases hbuild
  | succ fuel ih =>
      unfold build at hbuild
      dsimp only at hbuild
      cases hplane : plane ((s.items.drop start).take (stop - start)) with
      | none =>
          rw [hplane] at hbuild
          exact makeLeaf_boxes hbuilt (Option.some.inj hbuild).symm (.refl _ _ _) hnode hrange hsmall
      | some onLeft =>
          rw [hplane] at hbuild
          dsimp only at hbuild
          have hperm := part.perm onLeft ((s.items.drop start).take (stop - start))
          have hmixed := Mixed.overwrite hperm hrange.le hstop
          have hlength := hperm.length_eq
          generalize (part.run onLeft ((s.items.drop start).take (stop - start))).1 = passing
            at hbuild hperm hmixed hlength
          generalize (part.run onLeft ((s.items.drop start).take (stop - start))).2 = failing
            at hbuild hperm hmixed hlength
          rw [List.length_append, List.length_take, List.length_drop] at hlength
          split at hbuild
          · exact makeLeaf_boxes hbuilt (Option.some.inj hbuild).symm hmixed hnode hrange hsmall
          · rename_i hsplit
            split at hbuild
            · cases hbuild
            · rename_i s₂ hs₂
              have hitems : (Chunks.overwrite s.items start (passing ++ failing)).Perm s.items := by
                apply Chunks.overwrite_perm
                rw [List.length_append, hlength, Nat.min_eq_left (by omega)]
                exact hperm
              let s₀ : Builder := { s with
                items := Chunks.overwrite s.items start (passing ++ failing)
                out := { s.out with maxDepth := max s.out.maxDepth (UInt32.ofNat (depth + 1)) } }
              let bounds := boundsOf ((s.items.drop start).take (stop - start))
              have hopened : Opened s (addChildren nodeIndex bounds s₀) nodeIndex depth :=
                addChildren_opened hitems hnode (by omega) (by omega)
              have hmixed₁ : Mixed start stop s.items (addChildren nodeIndex bounds s₀).items :=
                hmixed
              obtain ⟨n, hn, hbox⟩ := addChildren_node (s := s₀) bounds hnode
              change build part fuel _ _ _ _ (addChildren nodeIndex bounds s₀) = some s₂ at hs₂
              generalize addChildren nodeIndex bounds s₀ = s₁ at hs₂ hopened hmixed₁ hn
              have hlen₁ := hopened.length
              have hcount₁ := hopened.items.length_eq
              obtain ⟨t₂, left, ht₂, hleft⟩ := build_built part fuel s.out.nodes.length start
                (start + passing.length) (depth + 1) s₁ (by omega) (by omega) (by omega)
                (by omega) (by omega) (by omega) (by omega)
              obtain rfl : s₂ = t₂ := Option.some.inj (hs₂.symm.trans ht₂)
              have hlen₂ := hleft.length
              have hcount₂ := hleft.items.length_eq
              have hextra := Shape.extra_le hleft.full
              have hsize := hleft.size
              obtain ⟨t₃, right, ht₃, hright⟩ := build_built part fuel (s.out.nodes.length + 1)
                (start + passing.length) stop (depth + 1) s₂ (by omega) (by omega) (by omega)
                (by omega) (by omega) (by omega) (by omega)
              obtain rfl : s' = t₃ := Option.some.inj (hbuild.symm.trans ht₃)
              obtain rfl := hbuilt.shape_unique (hopened.built hnode hleft hright)
              have hboxl := ih hs₂ hleft (by omega) (by omega) (by omega) (by omega) (by omega)
                (by omega) (by omega)
              have hboxr := ih hbuild hright (by omega) (by omega) (by omega) (by omega) (by omega)
                (by omega) (by omega)
              exact hopened.boxes hnode hmixed₁ hn hbox (by omega) (by omega) hleft hright
                hboxl hboxr

-- The array of a scene's tree, node by node.
theorem buildBvh_boxes {scene : Scene} {b : Bvh} (hready : scene.Ready)
    (hprims : scene.primitiveCount ≤ kMaxBvhPrims.toNat) (hb : buildBvh part fuel scene = some b) :
    ∃ (s : Builder) (shape : Shape), b.nodes = s.out.nodes ∧ b.prims = s.items.map BuildPrim.prim ∧
      s.items.Perm (itemsOf scene) ∧
      shape.Laid (kidsOf b.nodes) (spanOf b.nodes) 0 1 0 ∧
      b.nodes.length = 1 + shape.extra ∧ shape.Each (BoxHolds s) 0 1 0 := by
  have hmax : kMaxBvhPrims.toNat = 4194304 := rfl
  have hlength := length_itemsOf scene
  have hpos := hready.primitive
  have hsome : itemsOf scene ≠ [] := by
    intro hnil
    rw [hnil] at hlength
    simp at hlength
    omega
  unfold buildBvh at hb
  dsimp only at hb
  rw [if_neg hsome] at hb
  let start : Builder :=
    ⟨itemsOf scene, { nodes := [{}], materials := scene.materials.map ofMaterial }⟩
  have hone : start.out.nodes.length = 1 := rfl
  split at hb
  · cases hb
  · rename_i s hs
    obtain rfl := Option.some.inj hb
    have henough : build part (fuel + scene.primitiveCount) 0 0 (itemsOf scene).length 0 start =
        some s := build_enough hs (Nat.le_add_right _ _)
    obtain ⟨t, shape, ht, hbuilt⟩ := build_built part (fuel + scene.primitiveCount) 0 0
      (itemsOf scene).length 0 start (by omega) (by omega) (Nat.le_refl _) (by omega) (by omega)
      (by omega) (by omega)
    obtain rfl : s = t := Option.some.inj (henough.symm.trans ht)
    have hboxes := build_boxes henough hbuilt (by omega) (by omega) (Nat.le_refl _) (by omega)
      (by omega) (by omega) (by omega)
    exact ⟨s, shape, rfl, rfl, hbuilt.items, hbuilt.laid, hbuilt.length, hboxes.2⟩

theorem built_bounds {scene : Scene} {b : Bvh} (hready : scene.Ready)
    (hprims : scene.primitiveCount ≤ kMaxBvhPrims.toNat) (hb : buildBvh part fuel scene = some b)
    {i j p : Nat} {n : BvhNode} {q : BvhPrim} (hn : b.nodes[i]? = some n)
    (hbelow : Shape.Below (kidsOf b.nodes) i j) (hleaf : InLeaf b.nodes j p)
    (hq : b.prims[p]? = some q) :
    ∃ range, n.box = boundsOf range ∧ ∃ item ∈ range, item.prim = q ∧ item.box = boxOf q := by
  obtain ⟨s, shape, hnodes, hps, hitems, hlaid, hlength, heach⟩ :=
    buildBvh_boxes hready hprims hb
  obtain ⟨m, hm, hmleaf, hlow, hhigh⟩ := hleaf
  have hown : shape.Own 0 1 i := by
    have hi := (List.getElem?_eq_some_iff.mp hn).1
    unfold Shape.Own
    omega
  obtain ⟨f, c, ⟨n', range, hn', hbox, hmem⟩, hf, hc⟩ :=
    hlaid.each_below heach Nat.one_pos hown hbelow (kidsOf_leaf hm hmleaf)
  rw [← hnodes, hn, Option.some.injEq] at hn'
  obtain rfl := hn'
  rw [Whole.span hm] at hf hc
  rw [hps, List.getElem?_map, Option.map_eq_some_iff] at hq
  obtain ⟨item, hitem, rfl⟩ := hq
  exact ⟨range, hbox, item, hmem p item (by omega) (by omega) hitem, rfl,
    itemsOf_box item (hitems.mem_iff.mp (List.mem_of_getElem? hitem))⟩

end

-- As before, but with the comparisons of all values.
@[reducible] def comparingSingle : Single :=
  { plainSingle with
    lt a b := decide ((Coordinator.Exact.ofFloat32 a : Extended Rat) < Coordinator.Exact.ofFloat32 b) }

theorem comparingSingle_compares : @Single.Compares comparingSingle :=
  letI := comparingSingle
  ⟨fun _ _ => decide_eq_true_iff⟩

end P2pGpu.Scene
