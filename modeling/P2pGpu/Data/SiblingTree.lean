import P2pGpu.Data.IndexTree

namespace P2pGpu

-- A binary tree with a size at each leaf.
inductive Shape where
  | leaf (size : Nat)
  | node (left right : Shape)

namespace Shape

def size : Shape → Nat
  | leaf size => size
  | node left right => left.size + right.size

-- The nodes beside the root.
def extra : Shape → Nat
  | leaf _ => 0
  | node left right => 2 + left.extra + right.extra

def height : Shape → Nat
  | leaf _ => 1
  | node left right => 1 + max left.height right.height

def widest : Shape → Nat
  | leaf size => size
  | node left right => max left.widest right.widest

-- No leaf is empty.
def Full : Shape → Prop
  | leaf size => 0 < size
  | node left right => left.Full ∧ right.Full

-- The tree in an array: its root at `i`, all else from `lo` on with siblings next to each
-- other, and the ranges of its leaves from `first` on.
def Laid (kids : Nat → List Nat) (span : Nat → Nat × Nat) : Shape → Nat → Nat → Nat → Prop
  | leaf size, i, _, first => kids i = [] ∧ span i = (first, size)
  | node left right, i, lo, first => kids i = [lo + 1, lo] ∧
      Laid kids span left lo (lo + 2) first ∧
      Laid kids span right (lo + 1) (lo + 2 + left.extra) (first + left.size)

-- The places of its nodes.
def Own (s : Shape) (i lo j : Nat) : Prop := j = i ∨ (lo ≤ j ∧ j < lo + s.extra)

variable {kids kids' : Nat → List Nat} {span span' : Nat → Nat × Nat} {s left right : Shape}
  {i j k lo first d p size : Nat}

theorem own_leaf : Own (leaf size) i lo j ↔ j = i := by
  simp only [Own, extra]
  omega

theorem own_node : Own (node left right) i lo j ↔
    j = i ∨ Own left lo (lo + 2) j ∨ Own right (lo + 1) (lo + 2 + left.extra) j := by
  simp only [Own, extra]
  omega

theorem Own.ofLeft (h : Own left lo (lo + 2) j) : Own (node left right) i lo j :=
  own_node.mpr (.inr (.inl h))

theorem Own.ofRight (h : Own right (lo + 1) (lo + 2 + left.extra) j) :
    Own (node left right) i lo j :=
  own_node.mpr (.inr (.inr h))

theorem height_pos (s : Shape) : 0 < s.height := by
  cases s with
  | leaf => exact Nat.one_pos
  | node => exact Nat.add_pos_left Nat.one_pos _

-- There are at most as many leaves as what they hold.
theorem extra_le (h : s.Full) : s.extra + 2 ≤ 2 * s.size := by
  induction s with
  | leaf size =>
      have hpos : 0 < size := h
      simp only [extra, Shape.size]
      omega
  | node left right ihl ihr =>
      have hl := ihl h.1
      have hr := ihr h.2
      simp only [extra, Shape.size]
      omega

theorem Laid.congr (h : Laid kids span s i lo first)
    (hsame : ∀ j, Own s i lo j → kids' j = kids j ∧ span' j = span j) :
    Laid kids' span' s i lo first := by
  induction s generalizing i lo first with
  | leaf size =>
      obtain ⟨hkids, hspan⟩ := hsame i (.inl rfl)
      exact ⟨hkids.trans h.1, hspan.trans h.2⟩
  | node left right ihl ihr =>
      obtain ⟨hkids, hleft, hright⟩ := h
      refine ⟨(hsame i (.inl rfl)).1.trans hkids, ?_, ?_⟩
      · exact ihl hleft fun j hj => hsame j hj.ofLeft
      · exact ihr hright fun j hj => hsame j hj.ofRight

theorem Laid.increases (h : Laid kids span s i lo first) (hi : i < lo) (hj : Own s i lo j)
    (hk : k ∈ kids j) : j < k ∧ lo ≤ k ∧ k < lo + s.extra := by
  induction s generalizing i lo first with
  | leaf size =>
      rw [own_leaf.mp hj, h.1] at hk
      cases hk
  | node left right ihl ihr =>
      obtain ⟨hkids, hleft, hright⟩ := h
      simp only [extra]
      rcases own_node.mp hj with rfl | hj | hj
      · rw [hkids] at hk
        simp only [List.mem_cons, List.not_mem_nil, or_false] at hk
        omega
      · have hin := ihl hleft (by omega) hj
        omega
      · have hin := ihr hright (by omega) hj
        omega

theorem Laid.nodup (h : Laid kids span s i lo first) (hj : Own s i lo j) : (kids j).Nodup := by
  induction s generalizing i lo first with
  | leaf size =>
      rw [own_leaf.mp hj, h.1]
      exact List.nodup_nil
  | node left right ihl ihr =>
      obtain ⟨hkids, hleft, hright⟩ := h
      rcases own_node.mp hj with rfl | hj | hj
      · rw [hkids]
        simp
      · exact ihl hleft hj
      · exact ihr hright hj

theorem Laid.parent (h : Laid kids span s i lo first) (hlow : lo ≤ k) (hhigh : k < lo + s.extra) :
    ∃ j, Own s i lo j ∧ k ∈ kids j := by
  induction s generalizing i lo first with
  | leaf size =>
      simp only [extra] at hhigh
      omega
  | node left right ihl ihr =>
      obtain ⟨hkids, hleft, hright⟩ := h
      simp only [extra] at hhigh
      by_cases hown : k < lo + 2
      · refine ⟨i, .inl rfl, ?_⟩
        rw [hkids]
        simp only [List.mem_cons, List.not_mem_nil, or_false]
        omega
      · by_cases hside : k < lo + 2 + left.extra
        · obtain ⟨j, hj, hk⟩ := ihl hleft (by omega) hside
          exact ⟨j, hj.ofLeft, hk⟩
        · obtain ⟨j, hj, hk⟩ := ihr hright (by omega) (by omega)
          exact ⟨j, hj.ofRight, hk⟩

-- The kids of a node say on which side of its root it lies.
theorem Laid.unique (h : Laid kids span s i lo first) (hi : i < lo) {j' : Nat}
    (hj : Own s i lo j) (hj' : Own s i lo j') (hk : k ∈ kids j) (hk' : k ∈ kids j') : j = j' := by
  induction s generalizing i lo first with
  | leaf size => rw [own_leaf.mp hj, own_leaf.mp hj']
  | node left right ihl ihr =>
      obtain ⟨hkids, hleft, hright⟩ := h
      have hroot : k ∈ kids i → k < lo + 2 := by
        rw [hkids]
        simp only [List.mem_cons, List.not_mem_nil, or_false]
        omega
      rcases own_node.mp hj with rfl | hj | hj
      · have hlow := hroot hk
        rcases own_node.mp hj' with rfl | hj' | hj'
        · rfl
        · have hin := hleft.increases (by omega) hj' hk'
          omega
        · have hin := hright.increases (by omega) hj' hk'
          omega
      · have hin := hleft.increases (by omega) hj hk
        rcases own_node.mp hj' with rfl | hj' | hj'
        · have hlow := hroot hk'
          omega
        · exact ihl hleft (by omega) hj hj'
        · have hin' := hright.increases (by omega) hj' hk'
          omega
      · have hin := hright.increases (by omega) hj hk
        rcases own_node.mp hj' with rfl | hj' | hj'
        · have hlow := hroot hk'
          omega
        · have hin' := hleft.increases (by omega) hj' hk'
          omega
        · exact ihr hright (by omega) hj hj'

-- Laid out from the start of the array, it is a tree of all its nodes.
theorem Laid.tree (h : Laid kids span s 0 1 first) : IndexTree (1 + s.extra) kids := by
  have hown : ∀ j < 1 + s.extra, Own s 0 1 j := by
    intro j hj
    unfold Own
    omega
  refine ⟨by omega, fun i hi j hj => ?_, fun i hi => h.nodup (hown i hi), fun j hpos hj => ?_,
    fun i hi i' hi' j hj hj' => h.unique Nat.one_pos (hown i hi) (hown i' hi') hj hj'⟩
  · have hin := h.increases Nat.one_pos (hown i hi) hj
    omega
  · obtain ⟨i, hi, hkid⟩ := h.parent hpos hj
    refine ⟨i, ?_, hkid⟩
    unfold Own at hi
    omega

-- Its height is how far the longest of its paths goes on.
theorem Laid.depth (h : Laid kids span s i lo first) (hpath : IndexTree.PathTo kids i d) :
    (∀ j, Own s i lo j → ∃ e, IndexTree.PathTo kids j e ∧ e < d + s.height) ∧
      ∃ j e, Own s i lo j ∧ IndexTree.PathTo kids j e ∧ e + 1 = d + s.height := by
  induction s generalizing i lo first d with
  | leaf size =>
      refine ⟨fun j hj => ?_, i, d, .inl rfl, hpath, rfl⟩
      rw [own_leaf.mp hj]
      exact ⟨d, hpath, Nat.lt_succ_self d⟩
  | node left right ihl ihr =>
      obtain ⟨hkids, hleft, hright⟩ := h
      have hpathl : IndexTree.PathTo kids lo (d + 1) := hpath.kid (by rw [hkids]; simp)
      have hpathr : IndexTree.PathTo kids (lo + 1) (d + 1) := hpath.kid (by rw [hkids]; simp)
      obtain ⟨hupl, jl, el, hownl, hpl, hel⟩ := ihl hleft hpathl
      obtain ⟨hupr, jr, er, hownr, hpr, her⟩ := ihr hright hpathr
      simp only [height]
      refine ⟨fun j hj => ?_, ?_⟩
      · rcases own_node.mp hj with rfl | hj | hj
        · exact ⟨d, hpath, by omega⟩
        · obtain ⟨e, he, hlt⟩ := hupl j hj
          exact ⟨e, he, by omega⟩
        · obtain ⟨e, he, hlt⟩ := hupr j hj
          exact ⟨e, he, by omega⟩
      · by_cases hle : left.height ≤ right.height
        · exact ⟨jr, er, hownr.ofRight, hpr, by omega⟩
        · exact ⟨jl, el, hownl.ofLeft, hpl, by omega⟩

theorem Laid.height_greatest (h : Laid kids span s 0 1 first) :
    IsGreatest {d | ∃ j, IndexTree.PathTo kids j d} s.height := by
  obtain ⟨hupper, j, e, -, hpath, he⟩ := h.depth .root
  refine ⟨⟨j, ?_⟩, ?_⟩
  · have hsame : e = s.height := by omega
    exact hsame ▸ hpath
  · rintro d ⟨j, hd⟩
    have hj := hd.lt h.tree
    obtain ⟨e, he, hlt⟩ := hupper j (by unfold Own; omega)
    rw [hd.unique h.tree he]
    omega

-- The range of each leaf is one of those of the tree.
theorem Laid.inside (h : Laid kids span s i lo first) (hj : Own s i lo j) (hnone : kids j = []) :
    first ≤ (span j).1 ∧ (span j).1 + (span j).2 ≤ first + s.size ∧ (span j).2 ≤ s.widest ∧
      (s.Full → 0 < (span j).2) := by
  induction s generalizing i lo first with
  | leaf size =>
      rw [own_leaf.mp hj, h.2]
      exact ⟨Nat.le_refl _, Nat.le_refl _, Nat.le_refl _, id⟩
  | node left right ihl ihr =>
      obtain ⟨hkids, hleft, hright⟩ := h
      simp only [Shape.size, widest]
      rcases own_node.mp hj with rfl | hj | hj
      · rw [hkids] at hnone
        cases hnone
      · obtain ⟨hlow, hhigh, hwide, hpos⟩ := ihl hleft hj
        exact ⟨hlow, by omega, by omega, fun hfull => hpos hfull.1⟩
      · obtain ⟨hlow, hhigh, hwide, hpos⟩ := ihr hright hj
        exact ⟨by omega, by omega, by omega, fun hfull => hpos hfull.2⟩

theorem Laid.widest_reached (h : Laid kids span s i lo first) :
    ∃ j, Own s i lo j ∧ kids j = [] ∧ (span j).2 = s.widest := by
  induction s generalizing i lo first with
  | leaf size => exact ⟨i, .inl rfl, h.1, by rw [h.2]; rfl⟩
  | node left right ihl ihr =>
      obtain ⟨-, hleft, hright⟩ := h
      obtain ⟨jl, hownl, hnonel, hl⟩ := ihl hleft
      obtain ⟨jr, hownr, hnoner, hr⟩ := ihr hright
      simp only [widest]
      by_cases hle : left.widest ≤ right.widest
      · exact ⟨jr, hownr.ofRight, hnoner, by omega⟩
      · exact ⟨jl, hownl.ofLeft, hnonel, by omega⟩

-- The ranges of the leaves are a partition.
theorem Laid.cover (h : Laid kids span s i lo first) (hlow : first ≤ p)
    (hhigh : p < first + s.size) :
    ∃ j, Own s i lo j ∧ kids j = [] ∧ (span j).1 ≤ p ∧ p < (span j).1 + (span j).2 := by
  induction s generalizing i lo first with
  | leaf size =>
      refine ⟨i, .inl rfl, h.1, ?_⟩
      rw [h.2]
      exact ⟨hlow, hhigh⟩
  | node left right ihl ihr =>
      obtain ⟨-, hleft, hright⟩ := h
      simp only [Shape.size] at hhigh
      by_cases hside : p < first + left.size
      · obtain ⟨j, hj, hin⟩ := ihl hleft hlow hside
        exact ⟨j, hj.ofLeft, hin⟩
      · obtain ⟨j, hj, hin⟩ := ihr hright (by omega) (by omega)
        exact ⟨j, hj.ofRight, hin⟩

theorem Laid.disjoint (h : Laid kids span s i lo first) {j' : Nat} (hj : Own s i lo j)
    (hj' : Own s i lo j') (hnone : kids j = []) (hnone' : kids j' = [])
    (hp : (span j).1 ≤ p ∧ p < (span j).1 + (span j).2)
    (hp' : (span j').1 ≤ p ∧ p < (span j').1 + (span j').2) : j = j' := by
  induction s generalizing i lo first with
  | leaf size => rw [own_leaf.mp hj, own_leaf.mp hj']
  | node left right ihl ihr =>
      obtain ⟨hkids, hleft, hright⟩ := h
      rcases own_node.mp hj with rfl | hj | hj
      · rw [hkids] at hnone
        cases hnone
      · rcases own_node.mp hj' with rfl | hj' | hj'
        · rw [hkids] at hnone'
          cases hnone'
        · exact ihl hleft hj hj'
        · have hin := hleft.inside hj hnone
          have hin' := hright.inside hj' hnone'
          omega
      · rcases own_node.mp hj' with rfl | hj' | hj'
        · rw [hkids] at hnone'
          cases hnone'
        · have hin := hright.inside hj hnone
          have hin' := hleft.inside hj' hnone'
          omega
        · exact ihr hright hj hj'

end Shape

end P2pGpu
