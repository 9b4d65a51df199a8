import Mathlib.Tactic.GCongr
import Mathlib.Tactic.NormNum
import Mathlib.Tactic.Positivity
import P2pGpu.Scene.Compares

namespace P2pGpu.Scene

open P2pGpu.Coordinator (float32Value Exact.exponentBits Exact.ofFloat32 Exact.signBit)

-- A number of the type is no greater than the powers of two that it is made of.
theorem abs_float32Value_le {bits : UInt32} (h : Exact.exponentBits bits ≠ 255) :
    |float32Value bits| ≤ 2 ^ 128 := by
  have hnumber : bits.toNat / 2 ^ 23 % 2 ^ 8 ≠ 255 := h
  have hexponent : bits.toNat / 2 ^ 23 % 2 ^ 8 ≤ 254 := by omega
  have hfraction : bits.toNat % 2 ^ 23 ≤ 2 ^ 23 := (Nat.mod_lt _ (by decide)).le
  unfold float32Value
  dsimp only
  rw [if_neg hnumber]
  have hsign : |(if bits.toNat / 2 ^ 31 = 0 then 1 else -1 : Rat)| = 1 := by
    split <;> simp
  generalize (if bits.toNat / 2 ^ 31 = 0 then 1 else -1 : Rat) = sign at hsign ⊢
  generalize bits.toNat / 2 ^ 23 % 2 ^ 8 = e at hexponent ⊢
  generalize bits.toNat % 2 ^ 23 = f at hfraction ⊢
  have hpower : (2 : Rat) ^ e ≤ 2 ^ 254 := pow_le_pow_right₀ (by norm_num) hexponent
  split
  · have hf : (f : Rat) ≤ 2 ^ 23 := by exact_mod_cast hfraction
    rw [abs_div, abs_mul, hsign, one_mul, Nat.abs_cast, abs_of_pos (by positivity)]
    calc (f : Rat) / 2 ^ 149 ≤ 2 ^ 23 / 2 ^ 149 := by gcongr
      _ ≤ 2 ^ 128 := by norm_num
  · have hf : ((2 ^ 23 + f : Nat) : Rat) ≤ 2 ^ 24 := by
      have hle : 2 ^ 23 + f ≤ 2 ^ 24 := by omega
      exact_mod_cast hle
    have hproduct : ((2 ^ 23 + f : Nat) : Rat) * 2 ^ e ≤ 2 ^ 24 * 2 ^ 254 := by gcongr
    have hscale : (0 : Rat) < 2 ^ 150 := by positivity
    have hpos : (0 : Rat) < 2 ^ e := by positivity
    rw [abs_div, abs_mul, abs_mul, hsign, one_mul, Nat.abs_cast, abs_of_pos hpos,
      abs_of_pos hscale]
    calc ((2 ^ 23 + f : Nat) : Rat) * 2 ^ e / 2 ^ 150 ≤ 2 ^ 24 * 2 ^ 254 / 2 ^ 150 := by gcongr
      _ ≤ 2 ^ 128 := by norm_num

-- What the bits stand for, with the special values.
abbrev valueOf (bits : UInt32) : Extended Rat := Exact.ofFloat32 bits

theorem valueOf_finite {bits : UInt32} {x : Rat} (h : valueOf bits = .finite x) :
    Exact.exponentBits bits ≠ 255 ∧ float32Value bits = x := by
  unfold valueOf Exact.ofFloat32 at h
  split at h
  · split at h <;> cases h
  · rename_i hnumber
    rw [Extended.finite.injEq, Rat.cast_id] at h
    exact ⟨hnumber, h⟩

theorem valueOf_infinite {bits : UInt32} {s : Bool} (h : valueOf bits = .infinite s) :
    float32Value bits = if s then -2 ^ 1024 else 2 ^ 1024 := by
  unfold valueOf Exact.ofFloat32 at h
  split at h
  · rename_i hspecial
    split at h
    · rw [Extended.infinite.injEq] at h
      unfold float32Value
      dsimp only
      have hexponent : bits.toNat / 2 ^ 23 % 2 ^ 8 = 255 := hspecial
      rw [if_pos hexponent, ← h]
      by_cases hsign : bits.toNat / 2 ^ 31 = 0
      · have hfalse : Exact.signBit bits = false := decide_eq_false (not_not.mpr hsign)
        rw [if_pos hsign, hfalse, one_mul]
        rfl
      · have htrue : Exact.signBit bits = true := decide_eq_true hsign
        rw [if_neg hsign, htrue, neg_one_mul]
        rfl
    · cases h
  · cases h

-- A bound that is a number, and that a finite value is not below, is no greater as a number.
theorem value_le_of_not_lt {bound bits : UInt32} {x : Rat} (hbits : valueOf bits = .finite x)
    (hbound : (valueOf bound).isNaN = false) (h : ¬ valueOf bits < valueOf bound) :
    float32Value bound ≤ x := by
  obtain ⟨hnumber, rfl⟩ := valueOf_finite hbits
  cases hvalue : valueOf bound with
  | nan =>
      rw [hvalue] at hbound
      cases hbound
  | infinite s =>
      have hle := (abs_le.mp (abs_float32Value_le hnumber)).1
      rw [valueOf_infinite hvalue]
      rw [hvalue, hbits] at h
      cases s with
      | false => exact absurd Extended.finite_lt_infinite h
      | true =>
          have hless : -(2 : Rat) ^ 1024 ≤ -2 ^ 128 :=
            neg_le_neg (pow_le_pow_right₀ one_le_two (by decide))
          exact hless.trans hle
  | finite y =>
      rw [hvalue, hbits, Extended.finite_lt] at h
      rw [(valueOf_finite hvalue).2]
      exact not_lt.mp h

theorem le_value_of_not_lt {bound bits : UInt32} {x : Rat} (hbits : valueOf bits = .finite x)
    (hbound : (valueOf bound).isNaN = false) (h : ¬ valueOf bound < valueOf bits) :
    x ≤ float32Value bound := by
  obtain ⟨hnumber, rfl⟩ := valueOf_finite hbits
  cases hvalue : valueOf bound with
  | nan =>
      rw [hvalue] at hbound
      cases hbound
  | infinite s =>
      have hle := (abs_le.mp (abs_float32Value_le hnumber)).2
      rw [valueOf_infinite hvalue]
      rw [hvalue, hbits] at h
      cases s with
      | false =>
          have hless : (2 : Rat) ^ 128 ≤ 2 ^ 1024 := pow_le_pow_right₀ one_le_two (by decide)
          exact hle.trans hless
      | true => exact absurd rfl h
  | finite y =>
      rw [hvalue, hbits, Extended.finite_lt] at h
      rw [(valueOf_finite hvalue).2]
      exact not_lt.mp h

-- The coordinates of a box are numbers.
structure Numbers (b : Aabb) : Prop where
  mn : ∀ axis, (valueOf (b.mn.axis axis)).isNaN = false
  mx : ∀ axis, (valueOf (b.mx.axis axis)).isNaN = false

-- No coordinate of the point is beyond the box.
structure HoldsPoint [Single] (b : Aabb) (v : Vec3) : Prop where
  mn : ∀ axis, Single.lt (v.axis axis) (b.mn.axis axis) = false
  mx : ∀ axis, Single.lt (b.mx.axis axis) (v.axis axis) = false

theorem infinite_isNaN : (valueOf kInf).isNaN = false ∧ (valueOf kNegInf).isNaN = false := by
  decide

theorem numbers_empty : Numbers {} where
  mn axis := by
    match axis with
    | 0 => exact infinite_isNaN.1
    | 1 => exact infinite_isNaN.1
    | _ + 2 => exact infinite_isNaN.1
  mx axis := by
    match axis with
    | 0 => exact infinite_isNaN.2
    | 1 => exact infinite_isNaN.2
    | _ + 2 => exact infinite_isNaN.2

section

variable [Single] [Single.Compares] {b outer inner : Aabb} {v : Vec3}

theorem not_lt_of {a b : UInt32} (h : Single.lt a b = false) : ¬ valueOf a < valueOf b := by
  rw [← Single.Compares.lt_iff, h]
  exact Bool.false_ne_true

theorem lt_eq_false {a b : UInt32} (h : ¬ valueOf a < valueOf b) : Single.lt a b = false := by
  apply Bool.eq_false_of_not_eq_true
  rw [Single.Compares.lt_iff]
  exact h

theorem isNaN_of_lt {a b : UInt32} (h : Single.lt a b = true) :
    (valueOf a).isNaN = false ∧ (valueOf b).isNaN = false := by
  have hlt : valueOf a < valueOf b := Single.Compares.lt_iff a b |>.mp h
  constructor
  · cases hvalue : valueOf a with
    | nan =>
        rw [hvalue] at hlt
        exact absurd hlt Extended.not_nan_lt
    | infinite => rfl
    | finite => rfl
  · cases hvalue : valueOf b with
    | nan =>
        rw [hvalue] at hlt
        exact absurd hlt Extended.not_lt_nan
    | infinite => rfl
    | finite => rfl

-- What replaces a coordinate compares, so it is a number.
theorem Numbers.extend (h : Numbers b) (mn mx : Vec3) : Numbers (b.extend mn mx) where
  mn axis := by
    rw [Aabb.extend_mn]
    unfold Single.min
    split
    · rename_i hlt
      exact (isNaN_of_lt hlt).1
    · exact h.mn axis
  mx axis := by
    rw [Aabb.extend_mx]
    unfold Single.max
    split
    · rename_i hlt
      exact (isNaN_of_lt hlt).2
    · exact h.mx axis

theorem boundsOf_numbers (range : List BuildPrim) : Numbers (boundsOf range) := by
  suffices h : ∀ b : Aabb, Numbers b →
      Numbers (range.foldl (fun b p => b.extendBox p.box) b) from h {} numbers_empty
  induction range with
  | nil => exact fun _ h => h
  | cons p range ih => exact fun b h => ih _ (h.extend _ _)

theorem boxOf_numbers (p : BvhPrim) : Numbers (boxOf p) := by
  unfold boxOf
  split
  · exact (numbers_empty.extend _ _).extend _ _
  · exact ((numbers_empty.extend _ _).extend _ _).extend _ _

theorem extendPoint_holds (b : Aabb) (v : Vec3) : HoldsPoint (b.extendPoint v) v where
  mn axis := by
    rw [Aabb.extendPoint, Aabb.extend_mn]
    exact Single.lt_min_right _ _
  mx axis := by
    rw [Aabb.extendPoint, Aabb.extend_mx]
    exact Single.max_lt_right _ _

theorem HoldsPoint.extendPoint (h : HoldsPoint b v) (u : Vec3) :
    HoldsPoint (b.extendPoint u) v where
  mn axis := by
    rw [Aabb.extendPoint, Aabb.extend_mn]
    exact Single.lt_min (h.mn axis)
  mx axis := by
    rw [Aabb.extendPoint, Aabb.extend_mx]
    exact Single.max_lt (h.mx axis)

theorem Encloses.holds (h : Encloses outer inner) (hinner : Numbers inner)
    (hv : HoldsPoint inner v) : HoldsPoint outer v where
  mn axis := by
    apply lt_eq_false
    intro hlt
    rcases Extended.lt_or_lt (hinner.mn axis) hlt with hbelow | hbelow
    · exact not_lt_of (hv.mn axis) hbelow
    · exact not_lt_of (h.mn axis) hbelow
  mx axis := by
    apply lt_eq_false
    intro hlt
    rcases Extended.lt_or_lt (hinner.mx axis) hlt with habove | habove
    · exact not_lt_of (h.mx axis) habove
    · exact not_lt_of (hv.mx axis) habove

-- The numbers of a box are bounds of those of the point.
theorem HoldsPoint.value (h : HoldsPoint b v) (hb : Numbers b) {axis : Nat} {x : Rat}
    (hx : valueOf (v.axis axis) = .finite x) :
    float32Value (b.mn.axis axis) ≤ x ∧ x ≤ float32Value (b.mx.axis axis) :=
  ⟨value_le_of_not_lt hx (hb.mn axis) (not_lt_of (h.mn axis)),
    le_value_of_not_lt hx (hb.mx axis) (not_lt_of (h.mx axis))⟩

end

end P2pGpu.Scene
