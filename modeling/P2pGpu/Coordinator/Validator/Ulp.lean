import P2pGpu.Coordinator.Double.Exact
import P2pGpu.Coordinator.Validator
import P2pGpu.Data.Ladder

namespace P2pGpu.Coordinator

open Exact

-- The bits below that of the sign.
def lowBits (bits : UInt32) : Nat := bits.toNat % 2 ^ 31

-- Where a value stands among those of a `float`, from zero.
def floatPlace (bits : UInt32) : Int := if signBit bits then -lowBits bits else lowBits bits

def IsFinite32 (bits : UInt32) : Prop :=
  Double.isFinite (Double.ofFloat32 bits : Extended Rat) = true

-- The values that a `float` has.
def float32Values : Set Rat := {v | ∃ bits, (Double.ofFloat32 bits : Extended Rat) = .finite v}

noncomputable def floatSteps (a b : UInt32) : Nat :=
  stepsBetween float32Values (float32Value a) (float32Value b)

theorem signBit_iff (bits : UInt32) : signBit bits = true ↔ 2 ^ 31 ≤ bits.toNat := by
  have hlt := bits.toNat_lt
  rw [signBit, decide_eq_true_iff]
  omega

theorem lowBits_eq (bits : UInt32) :
    lowBits bits = exponentBits bits * 2 ^ 23 + fractionBits bits := by
  unfold lowBits exponentBits fractionBits
  omega

theorem fractionBits_lt (bits : UInt32) : fractionBits bits < 2 ^ 23 := Nat.mod_lt _ (by decide)

theorem isFinite32_iff {bits : UInt32} : IsFinite32 bits ↔ exponentBits bits ≠ 255 := by
  show Extended.isFinite (ofFloat32 bits : Extended Rat) = true ↔ _
  unfold ofFloat32
  by_cases hspecial : exponentBits bits = 255
  · rw [if_pos hspecial]
    refine ⟨fun h => absurd h ?_, fun h => absurd hspecial h⟩
    split <;> exact Bool.false_ne_true
  · rw [if_neg hspecial]
    exact ⟨fun _ => hspecial, fun _ => rfl⟩

theorem isFinite32_iff_lowBits {bits : UInt32} :
    IsFinite32 bits ↔ lowBits bits < 255 * 2 ^ 23 := by
  have hfraction := fractionBits_lt bits
  have hlow := lowBits_eq bits
  have hexponent : exponentBits bits < 2 ^ 8 := Nat.mod_lt _ (by decide)
  rw [isFinite32_iff]
  omega

theorem ofFloat32_finite {bits : UInt32} (h : IsFinite32 bits) :
    (Double.ofFloat32 bits : Extended Rat) = .finite (float32Value bits) := by
  rw [ofFloat32_of_number (isFinite32_iff.mp h), Rat.cast_id]

-- The value at a place, on the ladder that the format is.
def rung (i : Int) : Rat := (Gradual.signed 23 i : Rat) / 2 ^ 149

theorem strictMono_rung : StrictMono rung := by
  intro i j hij
  have hlt : Gradual.signed 23 i < Gradual.signed 23 j := Gradual.strictMono_signed 23 hij
  exact div_lt_div_of_pos_right (Int.cast_lt.mpr hlt) (by positivity)

theorem rung_floatPlace (bits : UInt32) :
    rung (floatPlace bits) =
      (if bits.toNat / 2 ^ 31 = 0 then 1 else -1) *
        ((Gradual.value 23 (lowBits bits) : Rat) / 2 ^ 149) := by
  unfold rung floatPlace signBit
  by_cases hsign : bits.toNat / 2 ^ 31 = 0
  · rw [if_pos hsign, if_neg (mt of_decide_eq_true (not_not_intro hsign)),
      Gradual.signed_ofNat, Int.cast_natCast, one_mul]
  · rw [if_neg hsign, if_pos (decide_eq_true hsign), Gradual.signed_neg, Gradual.signed_ofNat,
      Int.cast_neg, Int.cast_natCast, neg_one_mul, neg_div]

theorem value_lowBits (bits : UInt32) :
    (Gradual.value 23 (lowBits bits) : Rat) / 2 ^ 149 =
      if exponentBits bits = 0 then (fractionBits bits : Rat) / 2 ^ 149
      else ((2 ^ 23 + fractionBits bits : Nat) : Rat) * 2 ^ exponentBits bits / 2 ^ 150 := by
  have hfraction := fractionBits_lt bits
  rw [lowBits_eq]
  by_cases hzero : exponentBits bits = 0
  · rw [if_pos hzero, hzero, Nat.zero_mul, Nat.zero_add, Gradual.value_of_lt hfraction]
  · have hpos := Nat.pos_of_ne_zero hzero
    obtain ⟨e, he⟩ := Nat.exists_eq_add_of_lt hpos
    rw [if_neg hzero, Gradual.value_of_exponent hpos hfraction, he, Nat.zero_add,
      Nat.add_sub_cancel]
    push_cast
    ring

theorem float32Value_eq {bits : UInt32} (h : IsFinite32 bits) :
    float32Value bits = rung (floatPlace bits) := by
  have hexponent := isFinite32_iff.mp h
  rw [rung_floatPlace, value_lowBits]
  show (if exponentBits bits = 255 then _ else if exponentBits bits = 0 then
    (if bits.toNat / 2 ^ 31 = 0 then (1 : Rat) else -1) * (fractionBits bits : Rat) / 2 ^ 149
    else (if bits.toNat / 2 ^ 31 = 0 then (1 : Rat) else -1) *
      ((2 ^ 23 + fractionBits bits : Nat) : Rat) * 2 ^ exponentBits bits / 2 ^ 150) = _
  rw [if_neg hexponent]
  by_cases hzero : exponentBits bits = 0
  · rw [if_pos hzero, if_pos hzero, mul_div_assoc]
  · rw [if_neg hzero, if_neg hzero, mul_assoc, mul_div_assoc]

theorem natAbs_floatPlace (bits : UInt32) : (floatPlace bits).natAbs = lowBits bits := by
  unfold floatPlace
  split
  · rw [Int.natAbs_neg, Int.natAbs_natCast]
  · rw [Int.natAbs_natCast]

-- Every place up to the largest finite value is that of some pattern.
theorem exists_floatPlace {i : Int} (h : i.natAbs < 255 * 2 ^ 23) :
    ∃ bits, IsFinite32 bits ∧ floatPlace bits = i := by
  have hpattern : ∀ n : Nat, n < 2 ^ 32 → (UInt32.ofNat n).toNat = n := fun n hn =>
    UInt32.toNat_ofNat_of_lt' hn
  by_cases hneg : i < 0
  · have hbits := hpattern (2 ^ 31 + i.natAbs) (by omega)
    have hlow : lowBits (UInt32.ofNat (2 ^ 31 + i.natAbs)) = i.natAbs := by
      unfold lowBits
      omega
    refine ⟨_, isFinite32_iff_lowBits.mpr (hlow ▸ h), ?_⟩
    rw [floatPlace, if_pos ((signBit_iff _).mpr (by omega)), hlow]
    omega
  · have hbits := hpattern i.natAbs (by omega)
    have hlow : lowBits (UInt32.ofNat i.natAbs) = i.natAbs := by
      unfold lowBits
      omega
    refine ⟨_, isFinite32_iff_lowBits.mpr (hlow ▸ h), ?_⟩
    rw [floatPlace, if_neg (fun hsign => ?_), hlow]
    · omega
    · have := (signBit_iff _).mp hsign
      omega

theorem float32Values_eq : float32Values = rung '' {i | i.natAbs < 255 * 2 ^ 23} := by
  ext v
  constructor
  · rintro ⟨bits, hbits⟩
    have hfinite : IsFinite32 bits := by
      unfold IsFinite32
      rw [hbits]
      rfl
    rw [ofFloat32_finite hfinite, Extended.finite.injEq] at hbits
    refine ⟨floatPlace bits, ?_, ?_⟩
    · show (floatPlace bits).natAbs < _
      rw [natAbs_floatPlace]
      exact isFinite32_iff_lowBits.mp hfinite
    · rw [← float32Value_eq hfinite, hbits]
  · rintro ⟨i, hi, rfl⟩
    obtain ⟨bits, hfinite, rfl⟩ := exists_floatPlace hi
    refine ⟨bits, ?_⟩
    rw [ofFloat32_finite hfinite, float32Value_eq hfinite]

theorem floatSteps_eq {a b : UInt32} (ha : IsFinite32 a) (hb : IsFinite32 b) :
    floatSteps a b = (floatPlace a - floatPlace b).natAbs := by
  have hlowA := isFinite32_iff_lowBits.mp ha
  have hlowB := isFinite32_iff_lowBits.mp hb
  rw [← natAbs_floatPlace] at hlowA hlowB
  unfold floatSteps
  rw [float32Values_eq, float32Value_eq ha, float32Value_eq hb]
  apply stepsBetween_image strictMono_rung
  rintro i ⟨hlow, hhigh⟩
  show i.natAbs < _
  omega

theorem float32Value_inj {a b : UInt32} (ha : IsFinite32 a) (hb : IsFinite32 b) :
    float32Value a = float32Value b ↔ floatPlace a = floatPlace b := by
  rw [float32Value_eq ha, float32Value_eq hb, strictMono_rung.injective.eq_iff]

theorem float32Value_le {a b : UInt32} (ha : IsFinite32 a) (hb : IsFinite32 b) :
    float32Value a ≤ float32Value b ↔ floatPlace a ≤ floatPlace b := by
  rw [float32Value_eq ha, float32Value_eq hb, strictMono_rung.le_iff_le]

-- A pattern with its sign set is placed as if counted down from the end of the words.
theorem toOrdered_eq (bits : UInt32) :
    toOrdered bits = floatPlace bits + if signBit bits then 2 ^ 32 else 0 := by
  have hlt := bits.toNat_lt
  have hlow : lowBits bits = bits.toNat % 2 ^ 31 := rfl
  unfold toOrdered floatPlace
  by_cases hsign : 2 ^ 31 ≤ bits.toNat
  · rw [if_neg (Nat.not_lt.mpr hsign), if_pos ((signBit_iff bits).mpr hsign),
      if_pos ((signBit_iff bits).mpr hsign)]
    omega
  · have hpositive : ¬ signBit bits = true := fun h => hsign ((signBit_iff bits).mp h)
    rw [if_pos (Nat.lt_of_not_le hsign), if_neg hpositive, if_neg hpositive]
    omega

theorem natAbs_toOrdered {a b : UInt32} (ha : IsFinite32 a) (hb : IsFinite32 b) :
    (toOrdered a - toOrdered b).natAbs =
      if signBit a = signBit b then (floatPlace a - floatPlace b).natAbs
      else 2 ^ 32 - (lowBits a + lowBits b) := by
  have hlowA := isFinite32_iff_lowBits.mp ha
  have hlowB := isFinite32_iff_lowBits.mp hb
  rw [toOrdered_eq, toOrdered_eq]
  unfold floatPlace
  cases signBit a <;> cases signBit b <;> simp <;> omega

-- Patterns of opposite signs stand apart unless both are zero.
theorem floatPlace_eq_of_opposite {a b : UInt32} (hsign : signBit a ≠ signBit b) :
    floatPlace a = floatPlace b ↔ lowBits a + lowBits b = 0 := by
  unfold floatPlace
  cases ha : signBit a <;> cases hb : signBit b
  · exact absurd (ha.trans hb.symm) hsign
  · simp
  · simp
  · exact absurd (ha.trans hb.symm) hsign

theorem toNat_ulpDistance {a b : UInt32} (ha : IsFinite32 a) (hb : IsFinite32 b) :
    (ulpDistance (Extended Rat) a b).toNat =
      if signBit a = signBit b then (floatPlace a - floatPlace b).natAbs
      else if lowBits a + lowBits b = 0 then 0 else 2 ^ 32 - (lowBits a + lowBits b) := by
  have hlowA := isFinite32_iff_lowBits.mp ha
  have hlowB := isFinite32_iff_lowBits.mp hb
  have hplaceA := natAbs_floatPlace a
  have hplaceB := natAbs_floatPlace b
  have hmag := natAbs_toOrdered ha hb
  have hequal : Double.beq (Double.ofFloat32 a : Extended Rat) (Double.ofFloat32 b) =
      decide (floatPlace a = floatPlace b) := by
    rw [ofFloat32_finite ha, ofFloat32_finite hb]
    exact Extended.finite_beq.trans (decide_eq_decide.mpr (float32Value_inj ha hb))
  unfold IsFinite32 at ha hb
  simp only [ulpDistance, hequal, ha, hb, decide_eq_true_eq, Bool.not_true, Bool.or_self,
    Bool.false_eq_true, if_false]
  by_cases hsign : signBit a = signBit b
  · rw [if_pos hsign] at hmag ⊢
    by_cases hplace : floatPlace a = floatPlace b
    · rw [if_pos hplace, hplace, sub_self]
      rfl
    · rw [if_neg hplace, if_neg (by omega), hmag]
      exact UInt32.toNat_ofNat_of_lt' (show _ < 2 ^ 32 by omega)
  · rw [if_neg hsign] at hmag ⊢
    have hplace := floatPlace_eq_of_opposite hsign
    by_cases hzero : lowBits a + lowBits b = 0
    · rw [if_pos (hplace.mpr hzero), if_pos hzero]
      rfl
    · rw [if_neg (mt hplace.mp hzero), if_neg hzero, if_neg (by omega), hmag]
      exact UInt32.toNat_ofNat_of_lt' (show _ < 2 ^ 32 by omega)

-- The two count from the same end, or what they stand apart is half of the words.
def SameEnd (a b : UInt32) : Prop :=
  signBit a = signBit b ∨ lowBits a + lowBits b = 0 ∨ lowBits a + lowBits b = 2 ^ 31

instance (a b : UInt32) : Decidable (SameEnd a b) := by
  unfold SameEnd
  infer_instance

def CountsSteps (a b : UInt32) : Prop :=
  (ulpDistance (Extended Rat) a b).toNat = min (floatSteps a b) (2 ^ 32 - 1)

theorem countsSteps_iff {a b : UInt32} (ha : IsFinite32 a) (hb : IsFinite32 b) :
    CountsSteps a b ↔ SameEnd a b := by
  have hlowA := isFinite32_iff_lowBits.mp ha
  have hlowB := isFinite32_iff_lowBits.mp hb
  have hplaceA := natAbs_floatPlace a
  have hplaceB := natAbs_floatPlace b
  unfold CountsSteps SameEnd
  rw [toNat_ulpDistance ha hb, floatSteps_eq ha hb]
  by_cases hsign : signBit a = signBit b
  · rw [if_pos hsign]
    exact ⟨fun _ => .inl hsign, fun _ => by omega⟩
  · -- The steps from one side of zero to the other are those to zero together.
    have happart : (floatPlace a - floatPlace b).natAbs = lowBits a + lowBits b := by
      unfold floatPlace
      cases ha : signBit a <;> cases hb : signBit b <;> simp [ha, hb] at hsign ⊢ <;> omega
    rw [if_neg hsign, happart]
    split <;> simp only [hsign, false_or] <;> omega

theorem ulpDistance_comm {a b : UInt32} (ha : IsFinite32 a) (hb : IsFinite32 b) :
    ulpDistance (Extended Rat) a b = ulpDistance (Extended Rat) b a := by
  apply UInt32.toNat_inj.mp
  rw [toNat_ulpDistance ha hb, toNat_ulpDistance hb ha, Nat.add_comm (lowBits a)]
  by_cases hsign : signBit a = signBit b
  · rw [if_pos hsign, if_pos hsign.symm, ← Int.natAbs_neg, neg_sub]
  · rw [if_neg hsign, if_neg (Ne.symm hsign)]

-- Between patterns of one sign the distance is the number of steps, and with it symmetric
-- and additive; between opposite signs only where it is half of the words.
theorem ulpDistance_counts_iff {a b c : UInt32} (ha : IsFinite32 a) (hb : IsFinite32 b)
    (hc : IsFinite32 c) :
    (CountsSteps a b ↔ SameEnd a b) ∧
      ulpDistance (Extended Rat) a b = ulpDistance (Extended Rat) b a ∧
      (float32Value a ≤ float32Value b → float32Value b ≤ float32Value c → SameEnd a b →
        SameEnd b c → SameEnd a c →
        (ulpDistance (Extended Rat) a c).toNat =
          (ulpDistance (Extended Rat) a b).toNat + (ulpDistance (Extended Rat) b c).toNat) := by
  refine ⟨countsSteps_iff ha hb, ulpDistance_comm ha hb, ?_⟩
  intro hab hbc hsame hnext houter
  have hlowA := isFinite32_iff_lowBits.mp ha
  have hlowB := isFinite32_iff_lowBits.mp hb
  have hlowC := isFinite32_iff_lowBits.mp hc
  rw [← natAbs_floatPlace] at hlowA hlowB hlowC
  have hfirst := (float32Value_le ha hb).mp hab
  have hsecond := (float32Value_le hb hc).mp hbc
  have hcountAB := (countsSteps_iff ha hb).mpr hsame
  have hcountBC := (countsSteps_iff hb hc).mpr hnext
  have hcountAC := (countsSteps_iff ha hc).mpr houter
  unfold CountsSteps at hcountAB hcountBC hcountAC
  rw [floatSteps_eq ha hb] at hcountAB
  rw [floatSteps_eq hb hc] at hcountBC
  rw [floatSteps_eq ha hc] at hcountAC
  omega

theorem ulpDistance_counts_near_one :
    CountsSteps 0x3F800000 0x3F800005 ∧
      (ulpDistance (Extended Rat) 0x3F800000 0x3F800009).toNat =
        (ulpDistance (Extended Rat) 0x3F800000 0x3F800005).toNat +
          (ulpDistance (Extended Rat) 0x3F800005 0x3F800009).toNat := by
  obtain ⟨hcounts, -, hadds⟩ := ulpDistance_counts_iff
    (isFinite32_iff_lowBits.mpr (show lowBits 0x3F800000 < 255 * 2 ^ 23 by decide))
    (isFinite32_iff_lowBits.mpr (show lowBits 0x3F800005 < 255 * 2 ^ 23 by decide))
    (isFinite32_iff_lowBits.mpr (show lowBits 0x3F800009 < 255 * 2 ^ 23 by decide))
  exact ⟨hcounts.mpr (by decide), hadds (by decide +kernel) (by decide +kernel) (by decide)
    (by decide) (by decide)⟩

-- The two values next to zero are two steps apart.
theorem ulpDistance_across_zero :
    ¬ ∀ a b : UInt32, IsFinite32 a → IsFinite32 b → CountsSteps a b := by
  intro h
  have hcounts := h 0x00000001 0x80000001 (isFinite32_iff_lowBits.mpr (by decide))
    (isFinite32_iff_lowBits.mpr (by decide))
  have hsame := (countsSteps_iff (isFinite32_iff_lowBits.mpr (by decide))
    (isFinite32_iff_lowBits.mpr (by decide))).mp hcounts
  exact absurd hsame (by decide)

end P2pGpu.Coordinator
