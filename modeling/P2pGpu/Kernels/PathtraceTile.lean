import P2pGpu.Data.BoundedWalk
import P2pGpu.Scene.Bvh.RoundTrip

namespace P2pGpu.Kernels.PathtraceTile

open P2pGpu.Scene

def stackSize : Nat := 64

-- What a ray does to boxes and to primitives. Both are decided by floats, beside the best
-- hit so far, so any answers are taken.
structure Ray (σ : Type) where
  rayAabb : UInt32 → BvhNode → σ → Bool
  hit : BvhPrim → σ → σ
  miss : σ

-- The top of the stack is first. `tested` and `examined` record the box tests, and which
-- primitives were tried at which leaf.
structure Traversal (σ : Type) where
  stack : List UInt32
  best : σ
  tested : List (Nat × Bool) := []
  examined : List (Nat × Nat) := []

section

variable {σ : Type} (ray : Ray σ) (bvh : Bvh)

def examine (nodeIndex first : UInt32) (t : Traversal σ) (k : Nat) : Traversal σ :=
  let pi := first + UInt32.ofNat k
  match bvh.prims[pi.toNat]? with
  | none => t
  | some p => { t with
      best := ray.hit p t.best
      examined := t.examined ++ [(nodeIndex.toNat, pi.toNat)] }

-- One turn of the loop, with the node popped.
def visit (nodeIndex : UInt32) (t : Traversal σ) : Traversal σ :=
  match bvh.nodes[nodeIndex.toNat]? with
  | none => t
  | some node =>
      if ray.rayAabb nodeIndex node t.best then
        let t := { t with tested := t.tested ++ [(nodeIndex.toNat, true)] }
        if node.isLeaf then
          (List.range node.count.toNat).foldl (examine ray bvh nodeIndex node.leftOrFirst) t
        else if t.stack.length + 2 ≤ stackSize then
          { t with stack := (node.leftOrFirst + 1) :: node.leftOrFirst :: t.stack }
        else t
      else { t with tested := t.tested ++ [(nodeIndex.toNat, false)] }

def loop : Nat → Traversal σ → Option (Traversal σ)
  | fuel, t =>
      match t.stack with
      | [] => some t
      | nodeIndex :: rest =>
          match fuel with
          | 0 => none
          | fuel + 1 => loop fuel (visit ray bvh nodeIndex { t with stack := rest })

def trace (fuel : Nat) : Option (Traversal σ) := loop ray bvh fuel { stack := [0], best := ray.miss }

end

-- Every primitive of every leaf that is open was tried there.
def Examines {σ : Type} (b : Bvh) (t : Traversal σ) (passes : Nat → Bool) : Prop :=
  ∀ i n, b.nodes[i]? = some n → n.isLeaf = true → IndexTree.Open (kidsOf b.nodes) passes i →
    ∀ k < n.count.toNat, (i, n.leftOrFirst.toNat + k) ∈ t.examined

-- The outcomes of the box tests are among those that are given.
def Agrees {σ : Type} (t : Traversal σ) (passes : Nat → Bool) : Prop :=
  ∀ e ∈ t.tested, e.2 = passes e.1

-- What the records of the loop say at each of its turns.
structure Follows {σ : Type} (b : Bvh) (t : Traversal σ) : Prop where
  walked : IndexTree.Walked stackSize (kidsOf b.nodes) t.tested (t.stack.map UInt32.toNat)
  leaf : ∀ i n, (i, true) ∈ t.tested → b.nodes[i]? = some n → n.isLeaf = true →
    ∀ k < n.count.toNat, (i, n.leftOrFirst.toNat + k) ∈ t.examined
  only : ∀ e ∈ t.examined, (e.1, true) ∈ t.tested

section

variable {σ : Type} {ray : Ray σ} {b : Bvh} {t : Traversal σ} {passes : Nat → Bool}

-- The primitives of a leaf in range are tried one after the other.
theorem foldl_examine (ray : Ray σ) (t : Traversal σ) (i : UInt32) {first : UInt32} (count : Nat)
    (hin : first.toNat + count ≤ b.prims.length) (hsmall : first.toNat + count < 2 ^ 32) :
    ∃ best, (List.range count).foldl (examine ray b i first) t = { t with
      best
      examined := t.examined ++
        (List.range count).map fun k => (i.toNat, first.toNat + k) } := by
  induction count with
  | zero => exact ⟨t.best, by simp⟩
  | succ count ih =>
      obtain ⟨best, hbest⟩ := ih (by omega) (by omega)
      have hindex : (first + UInt32.ofNat count).toNat = first.toNat + count := by
        rw [UInt32.toNat_add, UInt32.toNat_ofNat']
        omega
      have hget : b.prims[first.toNat + count]? = some b.prims[first.toNat + count] :=
        List.getElem?_eq_getElem (by omega)
      refine ⟨ray.hit b.prims[first.toNat + count] best, ?_⟩
      rw [List.range_succ, List.foldl_append, hbest, List.foldl_cons, List.foldl_nil, examine]
      dsimp only
      rw [hindex, hget]
      simp [List.append_assoc]

theorem mem_snoc {e e' : Nat × Bool} {log : List (Nat × Bool)} (h : e ∈ log ++ [e']) :
    e ∈ log ∨ e = e' := by
  rcases List.mem_append.mp h with hold | hnew
  · exact .inl hold
  · exact .inr (List.mem_singleton.mp hnew)

-- One turn is one of the walk, and what it adds to the records is of the node popped.
theorem Follows.visit (ray : Ray σ) {i : UInt32} {rest : List UInt32} (h : Follows b t)
    (hvalid : Valid b.nodes b.prims b.materials) (hfits : b.Fits) (hstack : t.stack = i :: rest) :
    Follows b (visit ray b i { t with stack := rest }) ∧
      (visit ray b i { t with stack := rest }).tested.length = t.tested.length + 1 := by
  have hnodes : b.nodes.length ≤ 8388608 := hfits.nodes.2
  have hprims : b.prims.length ≤ 4194304 := hfits.prims.2
  have hwalked := h.walked
  rw [hstack, List.map_cons] at hwalked
  have hin : i.toNat < b.nodes.length :=
    (hwalked.trail hvalid.tree).inside i.toNat (by simp)
  have hnode : b.nodes[i.toNat]? = some b.nodes[i.toNat] := List.getElem?_eq_getElem hin
  have hrange := hvalid.node i.toNat _ hnode
  -- The node was not popped before.
  have hnew : ∀ r, (i.toNat, r) ∉ t.tested := by
    intro r hr
    have hmem : i.toNat ∈ t.tested.map Prod.fst := List.mem_map_of_mem hr
    exact List.disjoint_of_nodup_append (hwalked.trail hvalid.tree).nodup hmem
      List.mem_cons_self
  have hstep : ∀ r, IndexTree.Walked stackSize (kidsOf b.nodes) (t.tested ++ [(i.toNat, r)])
      (IndexTree.pushed stackSize (kidsOf b.nodes) i.toNat (rest.map UInt32.toNat) r) :=
    fun r => hwalked.visit r
  unfold PathtraceTile.visit
  dsimp only
  rw [hnode]
  dsimp only
  by_cases hbox : ray.rayAabb i b.nodes[i.toNat] t.best = true
  · rw [if_pos hbox]
    have htrue := hstep true
    unfold IndexTree.pushed at htrue
    by_cases hleaf : b.nodes[i.toNat].isLeaf = true
    · rw [if_pos hleaf]
      obtain ⟨hpos, hlast⟩ := hrange.leaf hleaf
      obtain ⟨best, hfold⟩ := foldl_examine ray
        { t with stack := rest, tested := t.tested ++ [(i.toNat, true)] } i
        b.nodes[i.toNat].count.toNat hlast (by omega)
      rw [hfold]
      rw [kidsOf_leaf hnode hleaf] at htrue
      refine ⟨⟨?_, fun j n hj hn hl k hk => ?_, fun e he => ?_⟩, by simp⟩
      · simpa using htrue
      · rcases mem_snoc hj with hold | hlast
        · exact List.mem_append_left _ (h.leaf j n hold hn hl k hk)
        · obtain rfl : j = i.toNat := congrArg Prod.fst hlast
          rw [hnode, Option.some.injEq] at hn
          subst hn
          exact List.mem_append_right _ (List.mem_map.mpr ⟨k, List.mem_range.mpr hk, rfl⟩)
      · rcases List.mem_append.mp he with hold | hnew'
        · exact List.mem_append_left _ (h.only e hold)
        · obtain ⟨k, -, rfl⟩ := List.mem_map.mp hnew'
          exact List.mem_append_right _ (List.mem_singleton_self _)
    · rw [if_neg hleaf]
      have hinternal := Bool.eq_false_of_not_eq_true hleaf
      obtain ⟨-, -, hhigh⟩ := hrange.internal hinternal
      have hright : (b.nodes[i.toNat].leftOrFirst + 1).toNat =
          b.nodes[i.toNat].leftOrFirst.toNat + 1 := by
        rw [UInt32.toNat_add]
        exact Nat.mod_eq_of_lt (by show _ + 1 < 2 ^ 32; omega)
      -- An internal node adds to no record but that of the tests.
      have hrecords : ∀ stack : List UInt32,
          IndexTree.Walked stackSize (kidsOf b.nodes) (t.tested ++ [(i.toNat, true)])
            (stack.map UInt32.toNat) →
          Follows b { t with stack, tested := t.tested ++ [(i.toNat, true)] } := by
        intro stack hw
        refine ⟨hw, fun j n hj hn hl k hk => ?_, fun e he => List.mem_append_left _ (h.only e he)⟩
        rcases mem_snoc hj with hold | hlast
        · exact h.leaf j n hold hn hl k hk
        · obtain rfl : j = i.toNat := congrArg Prod.fst hlast
          rw [hnode, Option.some.injEq] at hn
          rw [← hn, hinternal] at hl
          cases hl
      rw [kidsOf_internal hnode hinternal, List.length_map] at htrue
      by_cases hroom : rest.length + 2 ≤ stackSize
      · rw [if_pos hroom]
        rw [if_pos ⟨rfl, hroom⟩] at htrue
        refine ⟨hrecords _ ?_, by simp⟩
        rw [List.map_cons, List.map_cons, hright]
        exact htrue
      · rw [if_neg hroom]
        rw [if_neg (fun hboth => hroom hboth.2)] at htrue
        exact ⟨hrecords _ htrue, by simp⟩
  · rw [if_neg hbox]
    have hfalse := hstep false
    unfold IndexTree.pushed at hfalse
    rw [if_neg (fun hboth => Bool.false_ne_true hboth.1)] at hfalse
    refine ⟨⟨hfalse, fun j n hj hn hl k hk => ?_, fun e he => ?_⟩, by simp⟩
    · rcases mem_snoc hj with hold | hlast
      · exact h.leaf j n hold hn hl k hk
      · cases congrArg Prod.snd hlast
    · exact List.mem_append_left _ (h.only e he)

-- The loop ends, after no more turns than there are nodes.
theorem Follows.loop (h : Follows b t) (hvalid : Valid b.nodes b.prims b.materials)
    (hfits : b.Fits) (fuel : Nat) (hfuel : b.nodes.length ≤ fuel + t.tested.length) :
    ∃ t', loop ray b fuel t = some t' ∧ Follows b t' ∧ t'.stack = [] := by
  induction fuel generalizing t with
  | zero =>
      have hle := h.walked.length_le hvalid.tree
      rw [List.length_map] at hle
      have hnil : t.stack = [] := List.eq_nil_of_length_eq_zero (by omega)
      refine ⟨t, ?_, h, hnil⟩
      unfold PathtraceTile.loop
      rw [hnil]
  | succ fuel ih =>
      cases hstack : t.stack with
      | nil =>
          refine ⟨t, ?_, h, hstack⟩
          unfold PathtraceTile.loop
          rw [hstack]
      | cons i rest =>
          obtain ⟨hnext, hlength⟩ := h.visit ray hvalid hfits hstack
          obtain ⟨t', ht', hend⟩ := ih hnext (by omega)
          refine ⟨t', ?_, hend⟩
          rw [PathtraceTile.loop, hstack]
          exact ht'

theorem trace_follows (ray : Ray σ) (hvalid : Valid b.nodes b.prims b.materials)
    (hfits : b.Fits) :
    ∃ t, trace ray b b.nodes.length = some t ∧ Follows b t ∧ t.stack = [] := by
  have hstart : Follows b ({ stack := [0], best := ray.miss } : Traversal σ) :=
    ⟨.start, fun _ _ hi => absurd hi (List.not_mem_nil), fun _ he => absurd he (List.not_mem_nil)⟩
  exact hstart.loop hvalid hfits b.nodes.length (Nat.le_add_right _ _)

-- What is tried at an open leaf hangs on the room along the path to it alone.
theorem Follows.examines_iff (h : Follows b t) (hvalid : Valid b.nodes b.prims b.materials)
    (hnil : t.stack = []) (hagree : Agrees t passes) :
    Examines b t passes ↔ ∀ i n, b.nodes[i]? = some n → n.isLeaf = true →
      IndexTree.Open (kidsOf b.nodes) passes i →
        IndexTree.Housed stackSize (kidsOf b.nodes) i := by
  have hwalked := h.walked
  rw [hnil] at hwalked
  constructor
  · intro hall i n hn hleaf hopen
    have hpos := ((hvalid.node i n hn).leaf hleaf).1
    have htried := h.only _ (hall i n hn hleaf hopen 0 hpos)
    exact (hwalked.popped_iff hvalid.tree hagree hopen).mp (List.mem_map_of_mem htried)
  · intro hhoused i n hn hleaf hopen k hk
    have hpopped := (hwalked.popped_iff hvalid.tree hagree hopen).mpr (hhoused i n hn hleaf hopen)
    obtain ⟨e, he, rfl⟩ := List.mem_map.mp hpopped
    have hpass : e.2 = true := (hagree e he).trans hopen.pass
    have htrue : (e.1, true) ∈ t.tested := by
      rw [← hpass]
      exact he
    exact h.leaf e.1 n htrue hn hleaf k hk

theorem foldl_examine_tested (i first : UInt32) (ks : List Nat) (t : Traversal σ) :
    (ks.foldl (examine ray b i first) t).tested = t.tested := by
  induction ks generalizing t with
  | nil => rfl
  | cons k ks ih =>
      rw [List.foldl_cons, ih, examine]
      split <;> rfl

-- Where all tests say the same, so do the records of them.
theorem visit_tested {r : Bool} (hsame : ∀ i n best, ray.rayAabb i n best = r) (i : UInt32)
    (h : ∀ e ∈ t.tested, e.2 = r) : ∀ e ∈ (visit ray b i t).tested, e.2 = r := by
  have hsnoc : ∀ r', r' = r → ∀ e ∈ t.tested ++ [(i.toNat, r')], e.2 = r := by
    intro r' hr e he
    rcases mem_snoc he with hold | rfl
    · exact h e hold
    · exact hr
  unfold visit
  split
  · exact h
  · split
    · rename_i node _ hbox
      have htrue := hsnoc true (hbox.symm.trans (hsame i node t.best))
      dsimp only
      split
      · rw [foldl_examine_tested]
        exact htrue
      · split
        · exact htrue
        · exact htrue
    · rename_i node _ hbox
      have hfalse := Bool.eq_false_of_not_eq_true hbox
      exact hsnoc false (hfalse.symm.trans (hsame i node t.best))

theorem loop_tested {r : Bool} (hsame : ∀ i n best, ray.rayAabb i n best = r) (fuel : Nat)
    {t' : Traversal σ} (h : ∀ e ∈ t.tested, e.2 = r) (ht : loop ray b fuel t = some t') :
    Agrees t' fun _ => r := by
  induction fuel generalizing t with
  | zero =>
      unfold loop at ht
      split at ht
      · exact Option.some.inj ht ▸ h
      · cases ht
  | succ fuel ih =>
      unfold loop at ht
      split at ht
      · exact Option.some.inj ht ▸ h
      · rename_i i rest hstack
        have hrest : ∀ e ∈ ({ t with stack := rest } : Traversal σ).tested, e.2 = r := h
        exact ih (visit_tested hsame i hrest) ht

-- Whatever the boxes say, nothing is dropped where no internal node lies past 62 right turns.
theorem examines_all_iff (hvalid : Valid b.nodes b.prims b.materials) (hfits : b.Fits) :
    (∀ (σ : Type) (ray : Ray σ) t passes, trace ray b b.nodes.length = some t →
      Agrees t passes → Examines b t passes) ↔
    ∀ i n w, b.nodes[i]? = some n → n.isLeaf = false →
      IndexTree.Under (kidsOf b.nodes) i w → w ≤ 62 := by
  have htree := hvalid.tree
  constructor
  · intro hall i n w hn hinternal hunder
    have hi := (List.getElem?_eq_some_iff.mp hn).1
    have hkids := kidsOf_internal hn hinternal
    -- Every box is passed, so a leaf under the node is tried.
    let ray : Ray Unit := { rayAabb := fun _ _ _ => true, hit := fun _ _ => (), miss := () }
    obtain ⟨t, ht, hfollows, hnil⟩ := trace_follows ray hvalid hfits
    have hagree : Agrees t fun _ => true :=
      loop_tested (fun _ _ _ => rfl) _ (fun _ he => absurd he List.not_mem_nil) ht
    have hexamines := (hfollows.examines_iff hvalid hnil hagree).mp
      (hall Unit ray t _ ht hagree)
    have hkid : n.leftOrFirst.toNat ∈ kidsOf b.nodes i := by
      rw [hkids]
      simp
    obtain ⟨j, hj, hnone, hup⟩ := htree.exists_childless (htree.increases i hi _ hkid).2
    obtain ⟨m, hm, hleaf⟩ := exists_leaf hj hnone
    have hhoused := hup (hexamines j m hm hleaf (htree.open_all hj))
    have hroom := (hhoused.parent htree hi hkid).2 w hunder
    rw [hkids] at hroom
    have hsize : w + 2 ≤ 64 := hroom
    omega
  · intro hturns σ ray t passes ht hagree
    obtain ⟨t', ht', hfollows, hnil⟩ := trace_follows ray hvalid hfits
    obtain rfl : t = t' := Option.some.inj (ht.symm.trans ht')
    refine (hfollows.examines_iff hvalid hnil hagree).mpr fun i n hn hleaf hopen => ?_
    clear hn hleaf
    induction hopen with
    | root => exact .root
    | kid _ hj _ ih =>
        obtain ⟨p, hp, hinternal, -⟩ := mem_kidsOf.mp hj
        refine ih.kid (fun w hunder => ?_) hj
        have hle := hturns _ p w hp hinternal hunder
        rw [kidsOf_internal hp hinternal]
        show w + 2 ≤ 64
        omega

theorem trace_complete_iff {bytes : List UInt8} (h : loadBvh bytes = .ok b) :
    (∀ (σ : Type) (ray : Ray σ), ∃ t, trace ray b b.nodes.length = some t ∧
      ∀ passes, Agrees t passes → (Examines b t passes ↔
        ∀ i n, b.nodes[i]? = some n → n.isLeaf = true →
          IndexTree.Open (kidsOf b.nodes) passes i →
            IndexTree.Housed stackSize (kidsOf b.nodes) i)) ∧
    ((∀ (σ : Type) (ray : Ray σ) t passes, trace ray b b.nodes.length = some t →
        Agrees t passes → Examines b t passes) ↔
      ∀ i n w, b.nodes[i]? = some n → n.isLeaf = false →
        IndexTree.Under (kidsOf b.nodes) i w → w ≤ 62) := by
  obtain ⟨hfits, hvalid⟩ := loadBvh_fits h
  refine ⟨fun σ ray => ?_, examines_all_iff hvalid hfits⟩
  obtain ⟨t, ht, hfollows, hnil⟩ := trace_follows ray hvalid hfits
  exact ⟨t, ht, fun passes hagree => hfollows.examines_iff hvalid hnil hagree⟩

end

-- A tree whose left children are all leaves, with 63 right turns to its last internal node.
def spineNode (i : Nat) : BvhNode :=
  if i % 2 = 0 ∧ i < 128 then { leftOrFirst := UInt32.ofNat (i + 1) }
  else { leftOrFirst := UInt32.ofNat (i / 2), countAndLeaf := kLeafFlag ||| 1 }

def spine : Bvh where
  nodes := (List.range 129).map spineNode
  prims := List.replicate 65 {}
  materials := [{}]

section

variable {i j : Nat} {n : BvhNode}

theorem spine_node (h : spine.nodes[i]? = some n) : i < 129 ∧ n = spineNode i := by
  obtain ⟨hi, rfl⟩ := List.getElem?_eq_some_iff.mp h
  have hlt : i < 129 := by simpa [spine] using hi
  exact ⟨hlt, by simp [spine]⟩

theorem spine_internal (hi : i % 2 = 0 ∧ i < 128) : (spineNode i).isLeaf = false ∧
    (spineNode i).count = 0 ∧ (spineNode i).leftOrFirst.toNat = i + 1 := by
  rw [spineNode, if_pos hi]
  have hflag : ((0 : UInt32) &&& kLeafFlag != 0) = false := by decide
  have hcount : (0 : UInt32) &&& ~~~kLeafFlag = 0 := by decide
  refine ⟨hflag, hcount, ?_⟩
  rw [UInt32.toNat_ofNat']
  omega

theorem spine_leaf (hi : ¬ (i % 2 = 0 ∧ i < 128)) (hlt : i < 129) :
    (spineNode i).isLeaf = true ∧ (spineNode i).count.toNat = 1 ∧
      (spineNode i).leftOrFirst.toNat = i / 2 := by
  rw [spineNode, if_neg hi]
  have hflag : ((kLeafFlag ||| 1) &&& kLeafFlag != 0) = true := by decide
  have hcount : ((kLeafFlag ||| 1) &&& ~~~kLeafFlag).toNat = 1 := by decide
  refine ⟨hflag, hcount, ?_⟩
  rw [UInt32.toNat_ofNat']
  omega

theorem spine_get (hi : i < 129) : spine.nodes[i]? = some (spineNode i) := by
  simp [spine, hi]

theorem mem_spine_kids : j ∈ kidsOf spine.nodes i ↔
    i % 2 = 0 ∧ i < 128 ∧ (j = i + 1 ∨ j = i + 2) := by
  rw [mem_kidsOf]
  constructor
  · rintro ⟨n, hn, hleaf, hj⟩
    obtain ⟨hlt, rfl⟩ := spine_node hn
    by_cases hi : i % 2 = 0 ∧ i < 128
    · rw [(spine_internal hi).2.2] at hj
      omega
    · rw [(spine_leaf hi hlt).1] at hleaf
      cases hleaf
  · rintro ⟨heven, hlt, hj⟩
    obtain ⟨hleaf, -, hleft⟩ := spine_internal ⟨heven, hlt⟩
    refine ⟨_, spine_get (by omega), hleaf, ?_⟩
    rw [hleft]
    omega

theorem spine_length : spine.nodes.length = 129 := by
  simp [spine]

theorem spine_valid : Valid spine.nodes spine.prims spine.materials where
  node i n hn := by
    obtain ⟨hlt, rfl⟩ := spine_node hn
    by_cases hi : i % 2 = 0 ∧ i < 128
    · obtain ⟨hleaf, hcount, hleft⟩ := spine_internal hi
      refine ⟨fun h => absurd h (by rw [hleaf]; decide), fun _ => ⟨hcount, ?_⟩⟩
      rw [hleft, spine_length]
      omega
    · obtain ⟨hleaf, hcount, hfirst⟩ := spine_leaf hi hlt
      refine ⟨fun _ => ?_, fun h => absurd h (by rw [hleaf]; decide)⟩
      have hprims : spine.prims.length = 65 := rfl
      rw [hcount, hfirst, hprims]
      omega
  prim p hp := by
    rw [List.eq_of_mem_replicate hp]
    exact ⟨.inl rfl, by decide⟩
  material m hm := by
    rw [List.mem_singleton.mp hm]
    decide
  tree := by
    rw [spine_length]
    refine ⟨by decide, fun i hi j hj => ?_, fun i _ => kidsOf_nodup _ i, fun j hj hlt => ?_,
      fun i hi i' hi' j hj hj' => ?_⟩
    · rw [mem_spine_kids] at hj
      omega
    · by_cases hodd : j % 2 = 1
      · exact ⟨j - 1, by omega, mem_spine_kids.mpr (by omega)⟩
      · exact ⟨j - 2, by omega, mem_spine_kids.mpr (by omega)⟩
    · rw [mem_spine_kids] at hj hj'
      omega

theorem spine_fits : spine.Fits where
  nodes := by rw [spine_length]; decide
  prims := by decide
  materials := by decide

-- Each right child lies one turn further.
theorem spine_under {k : Nat} (hk : k ≤ 63) :
    IndexTree.Under (kidsOf spine.nodes) (2 * k) k := by
  induction k with
  | zero => exact .root
  | succ k ih =>
      obtain ⟨hleaf, -, hleft⟩ := spine_internal (i := 2 * k) (by omega)
      have hkids := kidsOf_internal (spine_get (i := 2 * k) (by omega)) hleaf
      have hright : kidsOf spine.nodes (2 * k) = [] ++ 2 * (k + 1) :: [2 * k + 1] := by
        rw [hkids, hleft]
        rfl
      exact (ih (by omega)).kid hright

end

theorem spine_loads : ∃ b, loadBvh (blobOf spine) = .ok b ∧ b.nodes = spine.nodes := by
  obtain ⟨b, hload, hnodes, -⟩ := loadBvh_blobOf_arrays spine_fits spine_valid
  exact ⟨b, hload, hnodes⟩

theorem trace_drops_leaves : ∃ b, loadBvh (blobOf spine) = .ok b ∧
    ¬ ∀ (σ : Type) (ray : Ray σ) t passes, trace ray b b.nodes.length = some t →
      Agrees t passes → Examines b t passes := by
  obtain ⟨b, hload, hnodes⟩ := spine_loads
  obtain ⟨hfits, hvalid⟩ := loadBvh_fits hload
  refine ⟨b, hload, fun hall => ?_⟩
  have hturns := (examines_all_iff hvalid hfits).mp hall 126 (spineNode 126) 63
  rw [hnodes] at hturns
  exact absurd (hturns (spine_get (by decide)) (spine_internal (by decide)).1
    (spine_under (k := 63) (by decide))) (by decide)

theorem trace_complete_iff_spine : ∃ b, loadBvh (blobOf spine) = .ok b ∧
    ((∀ (σ : Type) (ray : Ray σ) t passes, trace ray b b.nodes.length = some t →
        Agrees t passes → Examines b t passes) ↔
      ∀ i n w, b.nodes[i]? = some n → n.isLeaf = false →
        IndexTree.Under (kidsOf b.nodes) i w → w ≤ 62) := by
  obtain ⟨b, hload, -⟩ := spine_loads
  exact ⟨b, hload, (trace_complete_iff hload).2⟩

end P2pGpu.Kernels.PathtraceTile
