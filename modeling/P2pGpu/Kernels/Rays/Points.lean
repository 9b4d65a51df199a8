import Mathlib.Tactic.LinearCombination
import P2pGpu.Kernels.Rays

namespace P2pGpu.Kernels

open P2pGpu.Scene
open P2pGpu.Coordinator (float32Value)

section

variable {K : Type} [Field K] [LinearOrder K]

open V3

-- The points that a primitive has.
def OnPrim (p : BvhPrim) (v : V3 K) : Prop :=
  if p.kind = kPrimSphere then
    dot (v - ofBits p.a) (v - ofBits p.a) = (float32Value p.radius * float32Value p.radius : K)
  else ∃ u w : K, 0 ≤ u ∧ 0 ≤ w ∧ u + w ≤ 1 ∧
    v = ofBits p.a + (scale (ofBits p.b - ofBits p.a) u + scale (ofBits p.c - ofBits p.a) w)

end

-- What a hit says of the ray and of the primitive.
structure Struck {K : Type} [Field K] [LinearOrder K] (T : Tracer K) (p : BvhPrim)
    (origin dir : V3 K) (m : K) (h : Hit K) : Prop where
  position : h.position = origin + dir.scale h.t
  on : OnPrim p h.position
  low : T.tMin ≤ h.t
  high : h.t ≤ m
  hit : h.hit = true

section

variable {K : Type} [Field K] [LinearOrder K] [IsStrictOrderedRing K] {T : Tracer K}
  {p : BvhPrim} {origin dir : V3 K} {m : K} {h : Hit K}

open V3

-- Where the plane of a triangle is met, from the products that the code forms.
theorem meets_plane {e₁ e₂ s : V3 K} (hdet : dot e₁ (cross dir e₂) ≠ 0) :
    s + dir.scale (1 / dot e₁ (cross dir e₂) * dot e₂ (cross s e₁)) =
      e₁.scale (1 / dot e₁ (cross dir e₂) * dot s (cross dir e₂)) +
        e₂.scale (1 / dot e₁ (cross dir e₂) * dot dir (cross s e₁)) := by
  have hinv : 1 / dot e₁ (cross dir e₂) * dot e₁ (cross dir e₂) = 1 := one_div_mul_cancel hdet
  generalize 1 / dot e₁ (cross dir e₂) = inv at hinv ⊢
  simp only [dot, cross] at hinv
  apply V3.ext
  · simp only [add_x, scale_x, dot, cross]
    linear_combination (-s.x) * hinv
  · simp only [add_y, scale_y, dot, cross]
    linear_combination (-s.y) * hinv
  · simp only [add_z, scale_z, dot, cross]
    linear_combination (-s.z) * hinv

theorem hitTriangle_spec (hparallel : 0 < T.parallel) (hkind : p.kind ≠ kPrimSphere)
    (hhit : hitTriangle T p origin dir m = some h) :
    Struck T p origin dir m h := by
  unfold hitTriangle at hhit
  dsimp only at hhit
  split at hhit
  · cases hhit
  · rename_i hdet
    split at hhit
    · cases hhit
    · rename_i hu
      split at hhit
      · cases hhit
      · rename_i hv
        split at hhit
        · cases hhit
        · rename_i ht
          cases hhit
          obtain ⟨hu₀, -⟩ := not_or.mp hu
          obtain ⟨hv₀, huv⟩ := not_or.mp hv
          obtain ⟨hlow, hhigh⟩ := not_or.mp ht
          refine ⟨rfl, ?_, not_lt.mp hlow, not_lt.mp hhigh, rfl⟩
          have hne := abs_pos.mp (hparallel.trans_le (not_lt.mp hdet))
          have hplane := meets_plane (s := origin - ofBits p.a) hne
          unfold OnPrim
          rw [if_neg hkind]
          refine ⟨_, _, not_lt.mp hu₀, not_lt.mp hv₀, not_lt.mp huv, ?_⟩
          rw [← hplane]
          apply V3.ext
          · simp only [hitAt, add_x, sub_x, scale_x]
            ring
          · simp only [hitAt, add_y, sub_y, scale_y]
            ring
          · simp only [hitAt, add_z, sub_z, scale_z]
            ring

end

section

variable {K : Type} [Field K] [LinearOrder K] [IsStrictOrderedRing K] [SquareRoot K] {T : Tracer K}
  {p : BvhPrim} {origin dir : V3 K} {m : K} {h : Hit K}

open V3

theorem Quadratic.root {q : Quadratic K} {t : K} (hdisc : 0 ≤ q.disc) (ha : 0 < q.a)
    (ht : t = q.near ∨ t = q.far) : q.a * t * t + 2 * q.halfB * t + q.c = 0 := by
  have hsquare := SquareRoot.mul_self_sqrt q.disc hdisc
  have hdef : q.disc = q.halfB * q.halfB - q.a * q.c := rfl
  have hscaled : q.a * t = -q.halfB - SquareRoot.sqrt q.disc ∨
      q.a * t = -q.halfB + SquareRoot.sqrt q.disc := by
    rcases ht with rfl | rfl
    · exact .inl (mul_div_cancel₀ _ ha.ne')
    · exact .inr (mul_div_cancel₀ _ ha.ne')
  have hzero : q.a * (q.a * t * t + 2 * q.halfB * t + q.c) = 0 := by
    have hsplit : q.a * (q.a * t * t + 2 * q.halfB * t + q.c) =
        (q.a * t) * (q.a * t) + 2 * q.halfB * (q.a * t) + q.a * q.c := by ring
    rw [hsplit]
    rcases hscaled with hroot | hroot
    · rw [hroot]
      linear_combination hsquare + hdef
    · rw [hroot]
      linear_combination hsquare + hdef
  exact (mul_eq_zero.mp hzero).resolve_left ha.ne'

-- What is hit of a sphere is a point of it.
theorem hitSphere_spec (hd : 0 < dot dir dir) (hkind : p.kind = kPrimSphere)
    (hhit : hitSphere T p origin dir m = some h) :
    Struck T p origin dir m h := by
  have hon : ∀ t, 0 ≤ (Quadratic.ofSphere p origin dir).disc →
      (t = (Quadratic.ofSphere p origin dir).near ∨ t = (Quadratic.ofSphere p origin dir).far) →
      OnPrim p (origin + dir.scale t) := by
    intro t hdisc ht
    have hroot := Quadratic.root hdisc hd ht
    unfold OnPrim
    rw [if_pos hkind]
    simp only [Quadratic.ofSphere, dot, add_x, add_y, add_z, sub_x, sub_y, sub_z, scale_x, scale_y,
      scale_z] at hroot ⊢
    linear_combination hroot
  unfold hitSphere at hhit
  dsimp only at hhit
  split at hhit
  · cases hhit
  · rename_i hdisc
    split at hhit
    · split at hhit
      · cases hhit
      · rename_i hin
        cases hhit
        have hbounds := not_or.mp hin
        exact ⟨rfl, hon _ (not_lt.mp hdisc) (.inr rfl), not_lt.mp hbounds.1, not_lt.mp hbounds.2,
          rfl⟩
    · rename_i hin
      cases hhit
      have hbounds := not_or.mp hin
      exact ⟨rfl, hon _ (not_lt.mp hdisc) (.inl rfl), not_lt.mp hbounds.1, not_lt.mp hbounds.2,
        rfl⟩

-- What a primitive is hit in lies on it, and on the ray.
theorem strike_spec (hd : 0 < dot dir dir) (hparallel : 0 < T.parallel)
    (hhit : strike T origin dir p = some h) :
    Struck T p origin dir T.tMax h := by
  unfold strike hitPrim at hhit
  split at hhit
  · rename_i hkind
    exact hitSphere_spec hd hkind hhit
  · rename_i hkind
    exact hitTriangle_spec hparallel hkind hhit

end

end P2pGpu.Kernels
