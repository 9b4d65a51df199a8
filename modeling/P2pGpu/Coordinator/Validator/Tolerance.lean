import P2pGpu.Coordinator.Double.Exact
import P2pGpu.Coordinator.Validator

namespace P2pGpu.Coordinator

theorem decided_matched {F : Type} {c : Comparison F} :
    c.decided.verdict = .matched ↔ c.differingElements = 0 := by
  show (if c.differingElements = 0 then Verdict.matched else .mismatch) = .matched ↔ _
  split
  · rename_i hzero
    exact ⟨fun _ => hzero, fun _ => rfl⟩
  · rename_i hne
    exact ⟨fun h => absurd h (by decide), fun h => absurd h hne⟩

section

variable {F : Type} [Double F]

def floatAt (F : Type) [Double F] (payload : Payload) (i : Nat) : F :=
  Double.ofFloat32 (readFloat32 payload (i * 4))

-- How far two values may stand apart, as seen from the second one.
def allowed (spec : KernelSpec) (v : F) : F :=
  Double.ofFloat32 spec.absEps + Double.ofFloat32 spec.relEps * Double.abs v

def outOfTolerance (spec : KernelSpec) (u v : F) : Bool :=
  (Double.isNaN u != Double.isNaN v) ||
    (!Double.isNaN u && !Double.isNaN v && decide (allowed spec v < Double.abs (u - v)))

-- One element is counted exactly if it is out of tolerance.
theorem differing_tolerantStep (spec : KernelSpec) (a b : Payload) (c : Comparison F) (i : Nat) :
    (tolerantStep spec a b c i).differingElements =
      c.differingElements + (outOfTolerance spec (floatAt F a i) (floatAt F b i)).toNat := by
  unfold tolerantStep outOfTolerance floatAt allowed
  simp only
  generalize (Double.ofFloat32 (readFloat32 a (i * 4)) : F) = u
  generalize (Double.ofFloat32 (readFloat32 b (i * 4)) : F) = v
  cases Double.isNaN u <;> cases Double.isNaN v
  · simp only [Bool.and_self, Bool.false_eq_true, if_false, bne_self_eq_false, Bool.not_false,
      Bool.true_and, Bool.false_or]
    split
    · rename_i hfar
      rw [decide_eq_true hfar]
      rfl
    · rename_i hnear
      rw [decide_eq_false hnear]
      rfl
  · rfl
  · rfl
  · rfl

theorem differing_foldl (spec : KernelSpec) (a b : Payload) (is : List Nat) (c : Comparison F) :
    (is.foldl (tolerantStep spec a b) c).differingElements = c.differingElements +
      is.countP fun i => outOfTolerance spec (floatAt F a i) (floatAt F b i) := by
  induction is generalizing c with
  | nil => rfl
  | cons i is ih =>
      rw [List.foldl_cons, ih, differing_tolerantStep, List.countP_cons]
      cases outOfTolerance spec (floatAt F a i) (floatAt F b i) <;>
        simp [Nat.add_comm, Nat.add_assoc]

theorem compareTolerant_matched_iff (spec : KernelSpec) (a b : Payload) :
    (compareTolerant spec a b : Comparison F).verdict = .matched ↔
      a.length % 4 = 0 ∧
        ∀ i < a.length / 4, outOfTolerance spec (floatAt F a i) (floatAt F b i) = false := by
  unfold compareTolerant
  by_cases hlength : a.length % 4 = 0
  · rw [if_neg (not_not_intro hlength), decided_matched, differing_foldl]
    show 0 + _ = 0 ↔ _
    rw [Nat.zero_add, List.countP_eq_zero]
    simp [hlength]
  · rw [if_pos hlength]
    exact ⟨fun h => absurd h Verdict.noConfusion, fun h => absurd h.1 hlength⟩

theorem compare_tolerant_matched_iff {spec : KernelSpec} (htolerant : spec.determinism = .tolerant)
    {a b : Payload} (hlength : a.length = b.length) :
    (compare spec a b : Comparison F).verdict = .matched ↔
      a.length % 4 = 0 ∧
        ∀ i < a.length / 4, outOfTolerance spec (floatAt F a i) (floatAt F b i) = false := by
  unfold compare
  rw [if_neg (not_not_intro hlength)]
  by_cases hempty : a = []
  · subst hempty
    simp
  · rw [if_neg hempty, htolerant]
    exact compareTolerant_matched_iff spec a b

end

section

variable {K : Type} [Field K] [LinearOrder K]

-- The values have nothing in common: one alone is infinite or not a number, or both
-- are infinite on different sides.
def Distinct (u v : Extended K) : Prop :=
  u.isNaN ≠ v.isNaN ∨ u.isInfinite ≠ v.isInfinite ∨
    ∃ s t, s ≠ t ∧ u = .infinite s ∧ v = .infinite t

-- What the comparison tells apart, with `e` and `r` allowed.
def ToldApart (e r : K) : Extended K → Extended K → Prop
  | .nan, v => v ≠ .nan
  | .infinite _, .nan => True
  | .infinite _, .infinite _ => False
  | .infinite _, .finite _ => True
  | .finite _, .nan => True
  | .finite _, .infinite _ => False
  | .finite x, .finite y => e + r * |y| < |x - y|

-- What has nothing in common is told apart, but for an infinite second value.
theorem toldApart_or_eq {e r : K} {u v : Extended K} (h : ¬ ToldApart e r u v) :
    Distinct u v ↔ v.isInfinite = true ∧ u ≠ v := by
  cases u <;> cases v <;> simp [ToldApart, Distinct, Extended.isNaN, Extended.isInfinite] at h ⊢

end

section

variable {K : Type} [Field K] [LinearOrder K] [FloorRing K] [Roots K]

theorem allowed_finite {spec : KernelSpec} {e r : K}
    (habs : (Double.ofFloat32 spec.absEps : Extended K) = .finite e)
    (hrel : (Double.ofFloat32 spec.relEps : Extended K) = .finite r) (y : K) :
    allowed spec (.finite y : Extended K) = .finite (e + r * |y|) := by
  unfold allowed
  rw [habs, hrel]
  rfl

theorem not_allowed_lt_infinite {spec : KernelSpec} {e r : K}
    (habs : (Double.ofFloat32 spec.absEps : Extended K) = .finite e)
    (hrel : (Double.ofFloat32 spec.relEps : Extended K) = .finite r) (hr : 0 ≤ r) (t : Bool) :
    ¬ allowed spec (.infinite t : Extended K) < .infinite false := by
  unfold allowed
  rw [habs, hrel]
  exact Extended.not_add_mul_infinite_lt (not_lt_of_ge hr)

theorem outOfTolerance_of_number {spec : KernelSpec} {u v : Extended K} (hu : u.isNaN = false)
    (hv : v.isNaN = false) :
    outOfTolerance spec u v = true ↔ allowed spec v < Extended.abs (u - v) := by
  show (u.isNaN != v.isNaN || !u.isNaN && !v.isNaN && decide (_ < _)) = true ↔ _
  rw [hu, hv]
  exact decide_eq_true_iff

theorem outOfTolerance_iff {spec : KernelSpec} {e r : K}
    (habs : (Double.ofFloat32 spec.absEps : Extended K) = .finite e)
    (hrel : (Double.ofFloat32 spec.relEps : Extended K) = .finite r) (hr : 0 ≤ r)
    (u v : Extended K) : outOfTolerance spec u v = true ↔ ToldApart e r u v := by
  cases u with
  | nan => cases v <;> simp [outOfTolerance, ToldApart, Double.isNaN, Extended.isNaN]
  | infinite s =>
      cases v with
      | nan => exact ⟨fun _ => trivial, fun _ => rfl⟩
      | infinite t =>
          rw [outOfTolerance_of_number rfl rfl]
          refine ⟨fun hfar => ?_, False.elim⟩
          cases hsame : decide (s = t) with
          | true =>
              rw [of_decide_eq_true hsame, Extended.sub_self_infinite] at hfar
              exact Extended.not_lt_nan hfar
          | false =>
              rw [Extended.infinite_sub_infinite (of_decide_eq_false hsame)] at hfar
              exact not_allowed_lt_infinite habs hrel hr t hfar
      | finite y =>
          rw [outOfTolerance_of_number rfl rfl, allowed_finite habs hrel]
          exact ⟨fun _ => trivial, fun _ => Extended.finite_lt_infinite⟩
  | finite x =>
      cases v with
      | nan => exact ⟨fun _ => trivial, fun _ => rfl⟩
      | infinite t =>
          rw [outOfTolerance_of_number rfl rfl]
          exact ⟨not_allowed_lt_infinite habs hrel hr t, False.elim⟩
      | finite y =>
          rw [outOfTolerance_of_number rfl rfl, allowed_finite habs hrel, Extended.finite_sub]
          exact Extended.finite_lt

end

-- The comparison keeps infinity out unless it stands in the second answer only, or there
-- on the other side, and every other element is near enough.
theorem compare_infinity_iff {spec : KernelSpec} (htolerant : spec.determinism = .tolerant)
    {e r : Rat} (habs : (Double.ofFloat32 spec.absEps : Extended Rat) = .finite e)
    (hrel : (Double.ofFloat32 spec.relEps : Extended Rat) = .finite r) (hr : 0 ≤ r)
    {a b : Payload} (hlength : a.length = b.length) :
    ((∃ i < a.length / 4, Distinct (floatAt (Extended Rat) a i) (floatAt (Extended Rat) b i)) →
        (compare spec a b : Comparison (Extended Rat)).verdict ≠ .matched) ↔
      a.length % 4 ≠ 0 ∨
        (∀ i < a.length / 4, (floatAt (Extended Rat) b i).isInfinite = true →
          floatAt (Extended Rat) a i = floatAt (Extended Rat) b i) ∨
        ∃ i < a.length / 4,
          ToldApart e r (floatAt (Extended Rat) a i) (floatAt (Extended Rat) b i) := by
  rw [Ne, compare_tolerant_matched_iff htolerant hlength]
  by_cases hwhole : a.length % 4 = 0
  · by_cases htold : ∃ i < a.length / 4,
        ToldApart e r (floatAt (Extended Rat) a i) (floatAt (Extended Rat) b i)
    · obtain ⟨i, hi, htold⟩ := htold
      have hout := (outOfTolerance_iff habs hrel hr _ _).mpr htold
      refine ⟨fun _ => .inr (.inr ⟨i, hi, htold⟩), fun _ _ hmatch => ?_⟩
      rw [hmatch.2 i hi] at hout
      exact absurd hout Bool.false_ne_true
    · have hnear : ∀ i < a.length / 4,
          ¬ ToldApart e r (floatAt (Extended Rat) a i) (floatAt (Extended Rat) b i) :=
        fun i hi h => htold ⟨i, hi, h⟩
      have hmatch : ∀ i < a.length / 4,
          outOfTolerance spec (floatAt (Extended Rat) a i) (floatAt (Extended Rat) b i) = false :=
        fun i hi => Bool.eq_false_iff.mpr fun h =>
          hnear i hi ((outOfTolerance_iff habs hrel hr _ _).mp h)
      constructor
      · intro hkept
        refine .inr (.inl fun i hi hinfinite => ?_)
        by_contra hne
        exact hkept ⟨i, hi, (toldApart_or_eq (hnear i hi)).mpr ⟨hinfinite, hne⟩⟩ ⟨hwhole, hmatch⟩
      · rintro (hpart | hsame | hone) ⟨i, hi, hdistinct⟩ -
        · exact hpart hwhole
        · obtain ⟨hinfinite, hne⟩ := (toldApart_or_eq (hnear i hi)).mp hdistinct
          exact hne (hsame i hi hinfinite)
        · exact htold hone
  · exact ⟨fun _ => .inl hwhole, fun _ _ h => hwhole h.1⟩

def looseSpec : KernelSpec where
  id := "loose"
  determinism := .tolerant
  relEps := 0x38D1B717
  absEps := 0x3727C5AC

-- One and infinity.
def onePayload : Payload := [0, 0, 0x80, 0x3F]

def infinitePayload : Payload := [0, 0, 0x80, 0x7F]

theorem compare_infinite_first :
    (compare looseSpec infinitePayload onePayload : Comparison (Extended Rat)).verdict ≠
      .matched := by
  have hfirst : ∃ i < infinitePayload.length / 4, ToldApart (float32Value 0x3727C5AC)
      (float32Value 0x38D1B717) (floatAt (Extended Rat) infinitePayload i)
      (floatAt (Extended Rat) onePayload i) := ⟨0, by decide, trivial⟩
  have hiff := @compare_infinity_iff looseSpec rfl (float32Value 0x3727C5AC)
    (float32Value 0x38D1B717) (by decide +kernel) (by decide +kernel) (by decide +kernel)
    infinitePayload onePayload rfl
  exact hiff.mpr (.inr (.inr hfirst)) ⟨0, by decide, .inr (.inl (by decide +kernel))⟩

-- A value is within the tolerance of infinity.
theorem compare_infinite_second :
    ¬ ∀ (spec : KernelSpec) (e r : Rat) (a b : Payload), spec.determinism = .tolerant →
      (Double.ofFloat32 spec.absEps : Extended Rat) = .finite e →
      (Double.ofFloat32 spec.relEps : Extended Rat) = .finite r → 0 ≤ e → 0 ≤ r →
      a.length = b.length →
      (∃ i < a.length / 4, Distinct (floatAt (Extended Rat) a i) (floatAt (Extended Rat) b i)) →
      (compare spec a b : Comparison (Extended Rat)).verdict ≠ .matched := by
  intro h
  exact h looseSpec (float32Value 0x3727C5AC) (float32Value 0x38D1B717) onePayload
    infinitePayload rfl (by decide +kernel) (by decide +kernel) (by decide +kernel)
    (by decide +kernel) rfl ⟨0, by decide, .inr (.inl (by decide +kernel))⟩ (by decide +kernel)

end P2pGpu.Coordinator
