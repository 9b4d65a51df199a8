import P2pGpu.Data.SiblingTree

namespace P2pGpu.Shape

-- A statement about each node and the range of what lies under it.
def Each (P : Nat → Nat → Nat → Prop) : Shape → Nat → Nat → Nat → Prop
  | leaf size, i, _, first => P i first size
  | node left right, i, lo, first => P i first (left.size + right.size) ∧
      Each P left lo (lo + 2) first ∧
      Each P right (lo + 1) (lo + 2 + left.extra) (first + left.size)

-- A node and one that is the same or lies under it.
abbrev Below (kids : Nat → List Nat) : Nat → Nat → Prop :=
  Relation.ReflTransGen fun i j => j ∈ kids i

variable {kids : Nat → List Nat} {span : Nat → Nat × Nat} {s s' left right : Shape}
  {P Q : Nat → Nat → Nat → Prop} {i j k lo first : Nat}

-- An array is laid out as one tree only.
theorem Laid.shape_unique (h : Laid kids span s i lo first) (h' : Laid kids span s' i lo first) :
    s = s' := by
  induction s generalizing s' i lo first with
  | leaf size =>
      cases s' with
      | leaf size' =>
          have hspan : (first, size) = (first, size') := h.2.symm.trans h'.2
          rw [(Prod.mk.injEq ..).mp hspan |>.2]
      | node left' right' =>
          have hkids := h.1.symm.trans h'.1
          cases hkids
  | node left right ihl ihr =>
      cases s' with
      | leaf size' =>
          have hkids := h.1.symm.trans h'.1
          cases hkids
      | node left' right' =>
          obtain ⟨-, hleft, hright⟩ := h
          obtain ⟨-, hleft', hright'⟩ := h'
          obtain rfl := ihl hleft hleft'
          rw [ihr hright hright']

theorem Each.congr (h : Each P s i lo first)
    (himp : ∀ j f c, Own s i lo j → P j f c → Q j f c) : Each Q s i lo first := by
  induction s generalizing i lo first with
  | leaf size => exact himp i first size (.inl rfl) h
  | node left right ihl ihr =>
      obtain ⟨hroot, hleft, hright⟩ := h
      refine ⟨himp i first _ (.inl rfl) hroot, ?_, ?_⟩
      · exact ihl hleft fun j f c hj => himp j f c hj.ofLeft
      · exact ihr hright fun j f c hj => himp j f c hj.ofRight

-- The ranges are parts of that of the root.
theorem Each.within (h : Each P s i lo first) :
    Each (fun j f c => P j f c ∧ first ≤ f ∧ f + c ≤ first + s.size) s i lo first := by
  induction s generalizing i lo first with
  | leaf size => exact ⟨h, Nat.le_refl _, Nat.le_refl _⟩
  | node left right ihl ihr =>
      obtain ⟨hroot, hleft, hright⟩ := h
      simp only [size]
      refine ⟨⟨hroot, Nat.le_refl _, Nat.le_refl _⟩, ?_, ?_⟩
      · refine (ihl hleft).congr fun j f c _ hin => ⟨hin.1, by omega, by omega⟩
      · refine (ihr hright).congr fun j f c _ hin => ⟨hin.1, by omega, by omega⟩

theorem Laid.own_below (h : Laid kids span s i lo first) (hi : i < lo) (hj : Own s i lo j)
    (hk : Below kids j k) : Own s i lo k := by
  induction hk with
  | refl => exact hj
  | tail _ hkid ih => exact .inr (h.increases hi ih hkid).2

-- The range of a leaf is part of that of every node it lies under.
theorem Laid.each_below (h : Laid kids span s i lo first) (heach : Each P s i lo first)
    (hi : i < lo) (hj : Own s i lo j) (hk : Below kids j k) (hnone : kids k = []) :
    ∃ f c, P j f c ∧ f ≤ (span k).1 ∧ (span k).1 + (span k).2 ≤ f + c := by
  induction s generalizing i lo first with
  | leaf size =>
      have hown := own_leaf.mp (h.own_below hi hj hk)
      rw [own_leaf.mp hj, hown, h.2]
      exact ⟨first, size, heach, Nat.le_refl _, Nat.le_refl _⟩
  | node left right ihl ihr =>
      have hunder := h.own_below hi hj hk
      obtain ⟨hlow, hhigh, -⟩ := h.inside hunder hnone
      obtain ⟨-, hleft, hright⟩ := h
      obtain ⟨hroot, heachl, heachr⟩ := heach
      rcases own_node.mp hj with rfl | hj | hj
      · exact ⟨first, _, hroot, hlow, hhigh⟩
      · exact ihl hleft heachl (by omega) hj
      · exact ihr hright heachr (by omega) hj

end P2pGpu.Shape
