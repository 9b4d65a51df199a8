import P2pGpu.Coordinator.Double.Exact
import P2pGpu.Scene.Build

namespace P2pGpu.Scene

open P2pGpu.Coordinator (Exact.ofFloat32)

-- Values of type `float` compare as the numbers that they are.
class Single.Compares [Single] : Prop where
  lt_iff : ∀ a b, Single.lt a b = true ↔
    (Exact.ofFloat32 a : Extended Rat) < Exact.ofFloat32 b

def BvhNode.box (n : BvhNode) : Aabb := ⟨n.bmin, n.bmax⟩

section

variable [Single]

-- The box that an item was given, from what is kept of the item.
def boxOf (p : BvhPrim) : Aabb :=
  if p.kind = kPrimSphere then
    sphereBox { center := p.a, radius := p.radius, material := p.material }
  else triangleBox { a := p.a, b := p.b, c := p.c, material := p.material }

-- Nothing of the second box is beyond the first.
structure Encloses (outer inner : Aabb) : Prop where
  mn : ∀ axis, Single.lt (inner.mn.axis axis) (outer.mn.axis axis) = false
  mx : ∀ axis, Single.lt (outer.mx.axis axis) (inner.mx.axis axis) = false

namespace Single

variable [Compares] {a b c : UInt32}

theorem lt_self (a : UInt32) : lt a a = false := by
  apply Bool.eq_false_of_not_eq_true
  rw [Compares.lt_iff]
  exact Extended.not_lt_self _

theorem lt_trans (h : lt a b = true) (h' : lt b c = true) : lt a c = true := by
  rw [Compares.lt_iff] at h h' ⊢
  exact Extended.trans_lt h h'

theorem lt_min_right (a b : UInt32) : lt b (min a b) = false := by
  unfold min
  split
  · exact lt_self b
  · rename_i h
    exact Bool.eq_false_of_not_eq_true h

-- What is not below a bound is not below one that was lowered.
theorem lt_min (h : lt c a = false) : lt c (min a b) = false := by
  unfold min
  split
  · rename_i hb
    apply Bool.eq_false_of_not_eq_true
    intro hc
    rw [lt_trans hc hb] at h
    cases h
  · exact h

theorem max_lt_right (a b : UInt32) : lt (max a b) b = false := by
  unfold max
  split
  · exact lt_self b
  · rename_i h
    exact Bool.eq_false_of_not_eq_true h

theorem max_lt (h : lt a c = false) : lt (max a b) c = false := by
  unfold max
  split
  · rename_i hb
    apply Bool.eq_false_of_not_eq_true
    intro hc
    rw [lt_trans hb hc] at h
    cases h
  · exact h

end Single

namespace Aabb

theorem extend_mn (b : Aabb) (mn mx : Vec3) (axis : Nat) :
    (b.extend mn mx).mn.axis axis = Single.min (b.mn.axis axis) (mn.axis axis) := by
  match axis with
  | 0 => rfl
  | 1 => rfl
  | _ + 2 => rfl

theorem extend_mx (b : Aabb) (mn mx : Vec3) (axis : Nat) :
    (b.extend mn mx).mx.axis axis = Single.max (b.mx.axis axis) (mx.axis axis) := by
  match axis with
  | 0 => rfl
  | 1 => rfl
  | _ + 2 => rfl

variable [Single.Compares] {b inner : Aabb}

theorem extendBox_encloses (b inner : Aabb) : Encloses (b.extendBox inner) inner where
  mn axis := by
    rw [extendBox, extend_mn]
    exact Single.lt_min_right _ _
  mx axis := by
    rw [extendBox, extend_mx]
    exact Single.max_lt_right _ _

theorem encloses_extendBox (h : Encloses b inner) (o : Aabb) :
    Encloses (b.extendBox o) inner where
  mn axis := by
    rw [Aabb.extendBox, extend_mn]
    exact Single.lt_min (h.mn axis)
  mx axis := by
    rw [Aabb.extendBox, extend_mx]
    exact Single.max_lt (h.mx axis)

end Aabb

theorem itemsOf_box {scene : Scene} : ∀ p ∈ itemsOf scene, p.box = boxOf p.prim := by
  intro p hp
  rcases List.mem_append.mp hp with hsphere | htriangle
  · obtain ⟨s, -, rfl⟩ := List.mem_map.mp hsphere
    rfl
  · obtain ⟨t, -, rfl⟩ := List.mem_map.mp htriangle
    rfl

variable [Single.Compares]

theorem foldl_encloses {b inner : Aabb} (h : Encloses b inner) (range : List BuildPrim) :
    Encloses (range.foldl (fun b p => b.extendBox p.box) b) inner := by
  induction range generalizing b with
  | nil => exact h
  | cons p range ih => exact ih (Aabb.encloses_extendBox h p.box)

-- The bounds of a range enclose the box of each of its items.
theorem boundsOf_encloses {range : List BuildPrim} {p : BuildPrim} (hp : p ∈ range) :
    Encloses (boundsOf range) p.box := by
  obtain ⟨before, after, rfl⟩ := List.append_of_mem hp
  rw [boundsOf, List.foldl_append, List.foldl_cons]
  exact foldl_encloses (Aabb.extendBox_encloses _ _) after

end

end P2pGpu.Scene
