import P2pGpu.Data.BoundedWalk.Pruned
import P2pGpu.Data.SiblingTree.Ranges
import P2pGpu.Kernels.PathtraceTile
import P2pGpu.Scene.Build.Tree

namespace P2pGpu.Kernels.PathtraceTile

open P2pGpu.Scene

-- When a box may be passed over: `done` says of a primitive that it cannot better the best
-- hit any more, and this stays so. The best hits that occur are `ok`.
structure Prunes {σ : Type} (ray : Ray σ) (b : Bvh) (ok : σ → Prop) (done : σ → BvhPrim → Prop) :
    Prop where
  miss : ok ray.miss
  hit : ∀ p ∈ b.prims, ∀ best, ok best → ok (ray.hit p best)
  self : ∀ p ∈ b.prims, ∀ best, ok best → done (ray.hit p best) p
  keeps : ∀ p ∈ b.prims, ∀ q best, ok best → done best q → done (ray.hit p best) q
  box : ∀ i n best, b.nodes[i]? = some n → ok best →
    ray.rayAabb (UInt32.ofNat i) n best = false →
    ∀ j p q, Shape.Below (kidsOf b.nodes) i j → InLeaf b.nodes j p → b.prims[p]? = some q →
      done best q

-- What was examined is done with, and what lies under the boxes that were passed over.
structure Settled {σ : Type} (b : Bvh) (ok : σ → Prop) (done : σ → BvhPrim → Prop)
    (t : Traversal σ) : Prop where
  best : ok t.best
  passed : ∀ i p q, (i, true) ∈ t.tested → InLeaf b.nodes i p → b.prims[p]? = some q →
    done t.best q
  failed : ∀ i j p q, (i, false) ∈ t.tested → Shape.Below (kidsOf b.nodes) i j →
    InLeaf b.nodes j p → b.prims[p]? = some q → done t.best q

section

variable {σ : Type} {ray : Ray σ} {b : Bvh} {ok : σ → Prop} {done : σ → BvhPrim → Prop}
  {t : Traversal σ}

-- The primitives of a leaf, one after the other.
theorem Prunes.examine (h : Prunes ray b ok done) (i first : UInt32) (count : Nat)
    (hin : first.toNat + count ≤ b.prims.length) (hsmall : first.toNat + count < 2 ^ 32)
    (hok : ok t.best) :
    let t' := (List.range count).foldl (examine ray b i first) t
    ok t'.best ∧ (∀ q, done t.best q → done t'.best q) ∧
      ∀ k < count, ∀ q, b.prims[first.toNat + k]? = some q → done t'.best q := by
  induction count with
  | zero => exact ⟨hok, fun _ => id, fun k hk => absurd hk (Nat.not_lt_zero k)⟩
  | succ count ih =>
      obtain ⟨hbest, hkept, hdone⟩ := ih (by omega) (by omega)
      have hindex : (first + UInt32.ofNat count).toNat = first.toNat + count := by
        rw [UInt32.toNat_add, UInt32.toNat_ofNat']
        omega
      have hget : b.prims[first.toNat + count]? = some b.prims[first.toNat + count] :=
        List.getElem?_eq_getElem (by omega)
      have hmem : b.prims[first.toNat + count] ∈ b.prims := List.getElem_mem _
      rw [List.range_succ, List.foldl_append]
      generalize (List.range count).foldl (PathtraceTile.examine ray b i first) t = t'
        at hbest hkept hdone ⊢
      have hstep : (PathtraceTile.examine ray b i first t' count).best =
          ray.hit b.prims[first.toNat + count] t'.best := by
        rw [PathtraceTile.examine, hindex, hget]
      simp only [List.foldl_cons, List.foldl_nil, hstep]
      refine ⟨h.hit _ hmem _ hbest, fun q hq => h.keeps _ hmem q _ hbest (hkept q hq),
        fun k hk q hq => ?_⟩
      by_cases hlast : k = count
      · subst hlast
        rw [hget, Option.some.injEq] at hq
        rw [← hq]
        exact h.self _ hmem _ hbest
      · exact h.keeps _ hmem q _ hbest (hdone k (by omega) q hq)

theorem Settled.visit (hs : Settled b ok done t) (h : Prunes ray b ok done)
    (hvalid : Valid b.nodes b.prims b.materials) (hfits : b.Fits) (i : UInt32) :
    Settled b ok done (visit ray b i t) := by
  have hprims : b.prims.length ≤ 4194304 := hfits.prims.2
  unfold PathtraceTile.visit
  split
  · exact hs
  · rename_i node hnode
    have hsame : UInt32.ofNat i.toNat = i := UInt32.ofNat_toNat
    split
    · rename_i hbox
      dsimp only
      split
      · rename_i hleaf
        obtain ⟨-, hlast⟩ := (hvalid.node i.toNat node hnode).leaf hleaf
        have hlog : ((List.range node.count.toNat).foldl (examine ray b i node.leftOrFirst)
            { t with tested := t.tested ++ [(i.toNat, true)] }).tested =
              t.tested ++ [(i.toNat, true)] :=
          foldl_examine_tested i node.leftOrFirst _ _
        obtain ⟨hbest, hkept, hdone⟩ := h.examine
          (t := { t with tested := t.tested ++ [(i.toNat, true)] }) i node.leftOrFirst
          node.count.toNat hlast (by omega) hs.best
        refine ⟨hbest, fun j p q hj hp hq => ?_, fun j k p q hj hk hp hq => ?_⟩
        · rw [hlog] at hj
          rcases mem_snoc hj with hold | hnew
          · exact hkept q (hs.passed j p q hold hp hq)
          · obtain rfl : j = i.toNat := congrArg Prod.fst hnew
            obtain ⟨m, hm, -, hlow, hhigh⟩ := hp
            rw [hnode, Option.some.injEq] at hm
            subst hm
            have hplace : node.leftOrFirst.toNat + (p - node.leftOrFirst.toNat) = p := by omega
            exact hdone (p - node.leftOrFirst.toNat) (by omega) q (by rw [hplace, hq])
        · rw [hlog] at hj
          rcases mem_snoc hj with hold | hnew
          · exact hkept q (hs.failed j k p q hold hk hp hq)
          · cases congrArg Prod.snd hnew
      · rename_i hinternal
        -- An internal node has no primitives of its own.
        have hrecords : ∀ stack : List UInt32, Settled b ok done
            { t with stack, tested := t.tested ++ [(i.toNat, true)] } := by
          intro stack
          refine ⟨hs.best, fun j p q hj hp hq => ?_, fun j k p q hj hk hp hq => ?_⟩
          · rcases mem_snoc hj with hold | hnew
            · exact hs.passed j p q hold hp hq
            · obtain rfl : j = i.toNat := congrArg Prod.fst hnew
              obtain ⟨m, hm, hleaf, -⟩ := hp
              rw [hnode, Option.some.injEq] at hm
              exact absurd (hm ▸ hleaf) hinternal
          · rcases mem_snoc hj with hold | hnew
            · exact hs.failed j k p q hold hk hp hq
            · cases congrArg Prod.snd hnew
        split
        · exact hrecords _
        · exact hrecords _
    · rename_i hbox
      have hfalse := Bool.eq_false_of_not_eq_true hbox
      rw [← hsame] at hfalse
      refine ⟨hs.best, fun j p q hj hp hq => ?_, fun j k p q hj hk hp hq => ?_⟩
      · rcases mem_snoc hj with hold | hnew
        · exact hs.passed j p q hold hp hq
        · cases congrArg Prod.snd hnew
      · rcases mem_snoc hj with hold | hnew
        · exact hs.failed j k p q hold hk hp hq
        · obtain rfl : j = i.toNat := congrArg Prod.fst hnew
          exact h.box i.toNat node t.best hnode hs.best hfalse k p q hk hp hq

theorem Settled.loop (hs : Settled b ok done t) (h : Prunes ray b ok done)
    (hvalid : Valid b.nodes b.prims b.materials) (hfits : b.Fits) (fuel : Nat)
    {t' : Traversal σ} (ht : loop ray b fuel t = some t') : Settled b ok done t' := by
  induction fuel generalizing t with
  | zero =>
      unfold PathtraceTile.loop at ht
      split at ht
      · exact Option.some.inj ht ▸ hs
      · cases ht
  | succ fuel ih =>
      unfold PathtraceTile.loop at ht
      split at ht
      · exact Option.some.inj ht ▸ hs
      · rename_i i rest _
        have hrest : Settled b ok done { t with stack := rest } :=
          ⟨hs.best, hs.passed, hs.failed⟩
        exact ih (hrest.visit h hvalid hfits i) ht

-- Past no more than 62 right turns there is room for the children of every node.
theorem roomy_of_turns
    (hturns : ∀ i n w, b.nodes[i]? = some n → n.isLeaf = false →
      IndexTree.Under (kidsOf b.nodes) i w → w ≤ 62) (i : Nat)
    (hkids : kidsOf b.nodes i ≠ []) : IndexTree.Roomy stackSize (kidsOf b.nodes) i := by
  obtain ⟨j, hj⟩ := List.exists_mem_of_ne_nil _ hkids
  obtain ⟨n, hn, hinternal, -⟩ := mem_kidsOf.mp hj
  intro w hunder
  have hle := hturns i n w hn hinternal hunder
  rw [kidsOf_internal hn hinternal]
  show w + 2 ≤ 64
  omega

-- At its end the walk is done with the primitives of all leaves, though it left out what
-- lies under the boxes that it passed over.
theorem trace_settles (h : Prunes ray b ok done) (hvalid : Valid b.nodes b.prims b.materials)
    (hfits : b.Fits)
    (hturns : ∀ i n w, b.nodes[i]? = some n → n.isLeaf = false →
      IndexTree.Under (kidsOf b.nodes) i w → w ≤ 62) :
    ∃ t, trace ray b b.nodes.length = some t ∧ ok t.best ∧
      ∀ j p q, InLeaf b.nodes j p → b.prims[p]? = some q → done t.best q := by
  obtain ⟨t, ht, hfollows, hnil⟩ := trace_follows ray hvalid hfits
  have hwalked := hfollows.walked
  rw [hnil, List.map_nil] at hwalked
  have hstart : Settled b ok done ({ stack := [0], best := ray.miss } : Traversal σ) :=
    ⟨h.miss, fun _ _ _ hi => absurd hi List.not_mem_nil,
      fun _ _ _ _ hi => absurd hi List.not_mem_nil⟩
  have hsettled := hstart.loop h hvalid hfits _ ht
  refine ⟨t, ht, hsettled.best, fun j p q hp hq => ?_⟩
  have hj : j < b.nodes.length := by
    obtain ⟨m, hm, -⟩ := hp
    exact (List.getElem?_eq_some_iff.mp hm).1
  refine hwalked.settles (P := fun j => InLeaf b.nodes j p → done t.best q) hvalid.tree
    (fun i _ => roomy_of_turns hturns i) ?_ ?_ hj hp
  · exact fun i hi hin => hsettled.passed i p q hi hin hq
  · exact fun i hi k hk hin => hsettled.failed i k p q hi hk hin hq

end

end P2pGpu.Kernels.PathtraceTile
