import Mathlib.Algebra.Order.Floor.Semiring
import P2pGpu.Coordinator.Double.Exact
import P2pGpu.Coordinator.Sizer
import P2pGpu.Data.LittleEndian

namespace P2pGpu.Coordinator

open Exact Extended

namespace SizingInputs

-- The inputs with the numbers that the arithmetic is done on.
def exact (inputs : SizingInputs Rat) : SizingInputs (Extended Rat) where
  score := .finite inputs.score
  correction := .finite inputs.correction
  throttle := .finite inputs.throttle
  targetMs := inputs.targetMs
  leaseMs := inputs.leaseMs
  r5MinUnits := inputs.r5MinUnits
  remainingUnits := inputs.remainingUnits
  coldStart := inputs.coldStart

def corrected (inputs : SizingInputs Rat) : Rat :=
  if 0 < inputs.correction then inputs.correction else 1

def throttled (inputs : SizingInputs Rat) : Rat := max 0 (min inputs.throttle 1)

def probe (inputs : SizingInputs Rat) : Rat := if inputs.coldStart then 8 else 1

-- Units a second, as far as the worker is trusted.
def rate (inputs : SizingInputs Rat) : Rat :=
  inputs.score * inputs.throttled / (inputs.corrected * inputs.probe)

def target (inputs : SizingInputs Rat) : Rat := inputs.targetMs.toNat / 1000

def halfLease (inputs : SizingInputs Rat) : Rat := inputs.leaseMs.toNat / 1000 / 2

-- What is wanted of the worker, before it is cut to whole units.
def unclamped (inputs : SizingInputs Rat) : Rat :=
  min (inputs.target * inputs.rate) (inputs.halfLease * inputs.rate)

def wholeUnits (inputs : SizingInputs Rat) : Nat := ⌊max 1 inputs.unclamped⌋₊

-- Nothing is granted.
def Refused (inputs : SizingInputs Rat) : Prop :=
  inputs.remainingUnits = 0 ∨ inputs.score ≤ 0 ∨ inputs.throttle ≤ 0

instance (inputs : SizingInputs Rat) : Decidable inputs.Refused := by
  unfold Refused
  infer_instance

variable {inputs : SizingInputs Rat}

theorem corrected_pos (inputs : SizingInputs Rat) : 0 < inputs.corrected := by
  unfold corrected
  split
  · assumption
  · exact one_pos

theorem probe_pos (inputs : SizingInputs Rat) : 0 < inputs.probe := by
  unfold probe
  split <;> norm_num

theorem throttled_pos (h : 0 < inputs.throttle) : 0 < inputs.throttled :=
  lt_max_of_lt_right (lt_min h one_pos)

theorem throttled_eq_zero (h : inputs.throttle ≤ 0) : inputs.throttled = 0 :=
  max_eq_left ((min_le_left _ _).trans h)

theorem divisor_pos (inputs : SizingInputs Rat) : 0 < inputs.corrected * inputs.probe :=
  mul_pos inputs.corrected_pos inputs.probe_pos

end SizingInputs

theorem one_eq : (1.0 : Extended Rat) = .finite 1 := by
  show Extended.finite (((10 : Nat) : Rat) / 10 ^ 1) = _
  norm_num

theorem thousand_eq : (1000.0 : Extended Rat) = .finite 1000 := by
  show Extended.finite (((10000 : Nat) : Rat) / 10 ^ 1) = _
  norm_num

theorem kLeaseHeadroom_eq : (kLeaseHeadroom : Extended Rat) = .finite (1 / 2) := by
  show Extended.finite (((5 : Nat) : Rat) / 10 ^ 1) = _
  norm_num

theorem min_finite (x y : Rat) :
    Double.min (.finite x : Extended Rat) (.finite y) = .finite (min x y) := by
  unfold Double.min
  by_cases h : y < x
  · rw [if_pos (finite_lt.mpr h), min_eq_right h.le]
  · rw [if_neg (mt finite_lt.mp h), min_eq_left (not_lt.mp h)]

theorem clamp_finite (x : Rat) :
    Double.clamp (.finite x : Extended Rat) 0.0 1.0 = .finite (max 0 (min x 1)) := by
  unfold Double.clamp
  rw [zero_scientific, one_eq]
  by_cases hneg : x < 0
  · rw [if_pos (finite_lt.mpr hneg), max_eq_left ((min_le_left x 1).trans hneg.le)]
  · rw [if_neg (mt finite_lt.mp hneg)]
    by_cases hbig : 1 < x
    · rw [if_pos (finite_lt.mpr hbig), min_eq_right hbig.le, max_eq_right zero_le_one]
    · rw [if_neg (mt finite_lt.mp hbig), min_eq_left (not_lt.mp hbig),
        max_eq_right (not_lt.mp hneg)]

namespace SizingInputs

variable (inputs : SizingInputs Rat)

theorem unitsIn_exact (seconds : Rat) :
    unitsIn inputs.exact (.finite seconds) (.finite inputs.corrected) (.finite inputs.throttled) =
      .finite (seconds * inputs.rate) := by
  have hprobe : (if inputs.exact.coldStart then Double.ofUInt64 kProbeDivisor else 1.0 :
      Extended Rat) = .finite inputs.probe := by
    unfold probe
    show (if inputs.coldStart then Double.ofUInt64 kProbeDivisor else 1.0 : Extended Rat) = _
    split
    · rfl
    · exact one_eq
  unfold unitsIn
  simp only [hprobe]
  show (finite seconds * finite inputs.score * finite inputs.throttled /
    (finite inputs.corrected * finite inputs.probe) : Extended Rat) = _
  rw [finite_mul, finite_mul, finite_mul, finite_div inputs.divisor_pos.ne', rate, mul_assoc,
    mul_div_assoc]

theorem target_exact :
    (Double.ofUInt64 inputs.exact.targetMs.toUInt64 / 1000.0 : Extended Rat) =
      .finite inputs.target := by
  rw [thousand_eq]
  exact finite_div (by norm_num)

theorem halfLease_exact :
    (Double.ofUInt64 inputs.exact.leaseMs.toUInt64 / 1000.0 * kLeaseHeadroom : Extended Rat) =
      .finite inputs.halfLease := by
  rw [thousand_eq, kLeaseHeadroom_eq]
  show (finite (inputs.leaseMs.toNat : Rat) / finite 1000 * finite (1 / 2) : Extended Rat) = _
  rw [finite_div (by norm_num), finite_mul, halfLease, mul_one_div]

-- What is below one unit is taken for one.
theorem narrowed_exact (x : Rat) :
    (if !decide (1.0 ≤ (.finite x : Extended Rat)) || !Double.isFinite (.finite x : Extended Rat)
      then 1.0 else .finite x : Extended Rat) = .finite (max 1 x) := by
  have hfinite : Double.isFinite (.finite x : Extended Rat) = true := rfl
  rw [hfinite, one_eq]
  by_cases h : 1 ≤ x
  · simp [h]
  · simp [h, (not_le.mp h).le]

theorem corrected_exact :
    (if 0.0 < inputs.exact.correction ∧ Double.isFinite inputs.exact.correction = true then
      inputs.exact.correction else 1.0 : Extended Rat) = .finite inputs.corrected := by
  unfold corrected
  rw [one_eq, zero_scientific]
  by_cases h : 0 < inputs.correction
  · rw [if_pos ⟨finite_lt.mpr h, rfl⟩, if_pos h]
    rfl
  · rw [if_neg fun hpos => h (finite_lt.mp hpos.1), if_neg h]

theorem score_exact :
    (!decide (0.0 < inputs.exact.score) || !Double.isFinite inputs.exact.score) =
      decide (inputs.score ≤ 0) := by
  have hfinite : Double.isFinite inputs.exact.score = true := rfl
  rw [hfinite, zero_scientific, Bool.not_true, Bool.or_false, ← decide_not]
  exact decide_eq_decide.mpr ((not_congr finite_lt).trans not_lt)

theorem paused_exact :
    Double.beq (.finite inputs.throttled : Extended Rat) 0.0 = decide (inputs.throttle ≤ 0) := by
  rw [zero_scientific]
  refine finite_beq.trans (decide_eq_decide.mpr ⟨fun h => ?_, throttled_eq_zero⟩)
  by_contra hpos
  exact (throttled_pos (not_le.mp hpos)).ne' h

theorem computeTaskSize_refused (h : inputs.Refused) : computeTaskSize inputs.exact = 0 := by
  unfold computeTaskSize
  simp only [score_exact, corrected_exact, decide_eq_true_eq,
    show Double.clamp inputs.exact.throttle 0.0 1.0 = .finite inputs.throttled from
      clamp_finite inputs.throttle, paused_exact]
  by_cases hleft : inputs.exact.remainingUnits = 0
  · exact if_pos hleft
  by_cases hscore : inputs.score ≤ 0
  · rw [if_neg hleft, if_pos hscore]
  · have hthrottle : inputs.throttle ≤ 0 := (h.resolve_left hleft).resolve_left hscore
    rw [if_neg hleft, if_neg hscore, if_pos hthrottle]

theorem computeTaskSize_granted (h : ¬ inputs.Refused) :
    computeTaskSize inputs.exact =
      min (min (max (UInt64.ofNat inputs.wholeUnits) inputs.r5MinUnits) kMaxUnitsPerTask)
        inputs.remainingUnits := by
  unfold Refused at h
  rw [not_or, not_or] at h
  obtain ⟨hleft, hscore, hthrottle⟩ := h
  have hleft' : inputs.exact.remainingUnits ≠ 0 := hleft
  unfold computeTaskSize
  simp only [score_exact, corrected_exact, decide_eq_true_eq,
    show Double.clamp inputs.exact.throttle 0.0 1.0 = .finite inputs.throttled from
      clamp_finite inputs.throttle, paused_exact, if_neg hleft', if_neg hscore, if_neg hthrottle,
    target_exact, halfLease_exact, unitsIn_exact, min_finite, narrowed_exact]
  show min (min (max (UInt64.ofNat ⌊max 1 inputs.unclamped⌋.toNat) _) _) _ = _
  rw [Int.floor_toNat]
  rfl

theorem one_le_wholeUnits : 1 ≤ inputs.wholeUnits :=
  Nat.le_floor (by rw [Nat.cast_one]; exact le_max_left 1 inputs.unclamped)

theorem wholeUnits_le : (inputs.wholeUnits : Rat) ≤ max 1 inputs.unclamped :=
  Nat.floor_le (zero_le_one.trans (le_max_left 1 inputs.unclamped))

variable {inputs}

theorem wholeUnits_lt (hfits : inputs.unclamped < 2 ^ 64) : inputs.wholeUnits < 2 ^ 64 := by
  have hmax : max 1 inputs.unclamped < ((2 ^ 64 : Nat) : Rat) := by
    rw [Nat.cast_pow, Nat.cast_ofNat]
    exact max_lt (by norm_num) hfits
  exact (Nat.floor_lt (zero_le_one.trans (le_max_left 1 inputs.unclamped))).mpr hmax

theorem toNat_computeTaskSize (hgranted : ¬ inputs.Refused) (hfits : inputs.unclamped < 2 ^ 64) :
    (computeTaskSize inputs.exact).toNat =
      min (min (max inputs.wholeUnits inputs.r5MinUnits.toNat) (2 ^ 32 - 1))
        inputs.remainingUnits.toNat := by
  rw [computeTaskSize_granted inputs hgranted, LittleEndian.toNat_minU64,
    LittleEndian.toNat_minU64, LittleEndian.toNat_maxU64,
    UInt64.toNat_ofNat_of_lt' (wholeUnits_lt hfits)]
  rfl

theorem remaining_pos (hgranted : ¬ inputs.Refused) : 0 < inputs.remainingUnits.toNat :=
  LittleEndian.toNat_posU64 fun hzero => hgranted (.inl hzero)

theorem score_pos (hgranted : ¬ inputs.Refused) : 0 < inputs.score :=
  not_le.mp fun hle => hgranted (.inr (.inl hle))

theorem throttle_pos (hgranted : ¬ inputs.Refused) : 0 < inputs.throttle :=
  not_le.mp fun hle => hgranted (.inr (.inr hle))

theorem computeTaskSize_eq_zero_iff (hfits : inputs.unclamped < 2 ^ 64) :
    computeTaskSize inputs.exact = 0 ↔ inputs.Refused := by
  refine ⟨fun hzero => ?_, computeTaskSize_refused inputs⟩
  by_contra hgranted
  have hsize := toNat_computeTaskSize hgranted hfits
  have hleft := remaining_pos hgranted
  have hone := one_le_wholeUnits inputs
  rw [hzero] at hsize
  change 0 = _ at hsize
  omega

-- What may be asked of a worker without the size going down.
structure Grows (inputs larger : SizingInputs Rat) : Prop where
  score : inputs.score ≤ larger.score
  throttle : inputs.throttle ≤ larger.throttle
  targetMs : inputs.targetMs ≤ larger.targetMs
  leaseMs : inputs.leaseMs ≤ larger.leaseMs
  remainingUnits : inputs.remainingUnits ≤ larger.remainingUnits
  r5MinUnits : inputs.r5MinUnits = larger.r5MinUnits
  correction : larger.correction = inputs.correction ∨
    (0 < larger.correction ∧ larger.correction ≤ inputs.correction)
  coldStart : larger.coldStart = true → inputs.coldStart = true

variable {larger : SizingInputs Rat}

theorem Grows.corrected (h : Grows inputs larger) : larger.corrected ≤ inputs.corrected := by
  unfold SizingInputs.corrected
  rcases h.correction with heq | ⟨hpos, hle⟩
  · rw [heq]
  · rw [if_pos hpos, if_pos (hpos.trans_le hle)]
    exact hle

theorem Grows.probe (h : Grows inputs larger) : larger.probe ≤ inputs.probe := by
  unfold SizingInputs.probe
  by_cases hcold : larger.coldStart = true
  · rw [if_pos hcold, if_pos (h.coldStart hcold)]
  · rw [if_neg hcold]
    split <;> norm_num

theorem Grows.granted (h : Grows inputs larger) (hgranted : ¬ inputs.Refused) :
    ¬ larger.Refused := by
  have hleft := remaining_pos hgranted
  have hmore := UInt64.le_iff_toNat_le.mp h.remainingUnits
  rintro (hzero | hscore | hthrottle)
  · rw [hzero] at hmore
    exact absurd (hleft.trans_le hmore) (Nat.lt_irrefl 0)
  · exact ((score_pos hgranted).trans_le h.score).not_ge hscore
  · exact ((throttle_pos hgranted).trans_le h.throttle).not_ge hthrottle

theorem rate_nonneg (hgranted : ¬ inputs.Refused) : 0 ≤ inputs.rate := by
  have hscore := score_pos hgranted
  have hthrottled := throttled_pos (throttle_pos hgranted)
  exact div_nonneg (mul_nonneg hscore.le hthrottled.le) inputs.divisor_pos.le

theorem Grows.rate (h : Grows inputs larger) (hgranted : ¬ inputs.Refused) :
    inputs.rate ≤ larger.rate := by
  have hscore : 0 ≤ larger.score := (score_pos hgranted).le.trans h.score
  have hthrottled : inputs.throttled ≤ larger.throttled :=
    max_le_max_left 0 (min_le_min_right 1 h.throttle)
  have hwork : inputs.score * inputs.throttled ≤ larger.score * larger.throttled :=
    mul_le_mul h.score hthrottled (le_max_left 0 _) hscore
  have hdivisor : larger.corrected * larger.probe ≤ inputs.corrected * inputs.probe :=
    mul_le_mul h.corrected h.probe larger.probe_pos.le inputs.corrected_pos.le
  exact div_le_div₀ (mul_nonneg hscore (le_max_left 0 _)) hwork larger.divisor_pos hdivisor

theorem Grows.unclamped (h : Grows inputs larger) (hgranted : ¬ inputs.Refused) :
    inputs.unclamped ≤ larger.unclamped := by
  have hrate := h.rate hgranted
  have hnonneg := rate_nonneg hgranted
  have hms : ∀ a b : UInt32, a ≤ b → (a.toNat : Rat) / 1000 ≤ (b.toNat : Rat) / 1000 :=
    fun a b hab => div_le_div_of_nonneg_right (Nat.cast_le.mpr (UInt32.le_iff_toNat_le.mp hab))
      (by norm_num)
  have htarget : inputs.target ≤ larger.target := hms _ _ h.targetMs
  have hlease : inputs.halfLease ≤ larger.halfLease :=
    div_le_div_of_nonneg_right (hms _ _ h.leaseMs) (by norm_num)
  have htarget0 : 0 ≤ larger.target := div_nonneg (Nat.cast_nonneg _) (by norm_num)
  have hlease0 : 0 ≤ larger.halfLease :=
    div_nonneg (div_nonneg (Nat.cast_nonneg _) (by norm_num)) (by norm_num)
  exact min_le_min (mul_le_mul htarget hrate hnonneg htarget0)
    (mul_le_mul hlease hrate hnonneg hlease0)

theorem computeTaskSize_mono (hfits : inputs.unclamped < 2 ^ 64)
    (hfits' : larger.unclamped < 2 ^ 64) (h : Grows inputs larger) :
    computeTaskSize inputs.exact ≤ computeTaskSize larger.exact := by
  rw [UInt64.le_iff_toNat_le]
  by_cases hgranted : inputs.Refused
  · rw [computeTaskSize_refused inputs hgranted]
    exact Nat.zero_le _
  · have hunits : inputs.wholeUnits ≤ larger.wholeUnits :=
      Nat.floor_mono (max_le_max_left 1 (h.unclamped hgranted))
    have hleft := UInt64.le_iff_toNat_le.mp h.remainingUnits
    rw [toNat_computeTaskSize hgranted hfits, toNat_computeTaskSize (h.granted hgranted) hfits',
      ← h.r5MinUnits]
    omega

-- The size of a task within its bounds, and how it follows each of the inputs.
theorem computeTaskSize_bounds (inputs larger : SizingInputs Rat)
    (hfits : inputs.unclamped < 2 ^ 64) (hfits' : larger.unclamped < 2 ^ 64) :
    (computeTaskSize inputs.exact = 0 ↔
      inputs.remainingUnits = 0 ∨ inputs.score ≤ 0 ∨ inputs.throttle ≤ 0) ∧
    (computeTaskSize inputs.exact ≠ 0 →
      1 ≤ (computeTaskSize inputs.exact).toNat ∧
      (computeTaskSize inputs.exact).toNat ≤ min inputs.remainingUnits.toNat (2 ^ 32 - 1) ∧
      min (min inputs.r5MinUnits.toNat (2 ^ 32 - 1)) inputs.remainingUnits.toNat ≤
        (computeTaskSize inputs.exact).toNat ∧
      (inputs.r5MinUnits.toNat ≤ inputs.wholeUnits →
        ((computeTaskSize inputs.exact).toNat : Rat) ≤ max 1 (inputs.halfLease * inputs.rate))) ∧
    (Grows inputs larger → computeTaskSize inputs.exact ≤ computeTaskSize larger.exact) := by
  refine ⟨computeTaskSize_eq_zero_iff hfits, fun hne => ?_, computeTaskSize_mono hfits hfits'⟩
  have hgranted : ¬ inputs.Refused := fun h => hne (computeTaskSize_refused inputs h)
  have hsize := toNat_computeTaskSize hgranted hfits
  have hleft := remaining_pos hgranted
  have hone := one_le_wholeUnits inputs
  refine ⟨by omega, by omega, by omega, fun hfloor => ?_⟩
  have hunits : (computeTaskSize inputs.exact).toNat ≤ inputs.wholeUnits := by omega
  calc ((computeTaskSize inputs.exact).toNat : Rat)
      ≤ inputs.wholeUnits := Nat.cast_le.mpr hunits
    _ ≤ max 1 inputs.unclamped := wholeUnits_le inputs
    _ ≤ max 1 (inputs.halfLease * inputs.rate) := max_le_max_left 1 (min_le_right _ _)

-- A worker that is measured, and the same one when nothing is known of it yet.
def measuredInputs : SizingInputs Rat where
  score := 1000
  correction := 2
  throttle := 1 / 2
  targetMs := 2000
  leaseMs := 30000
  r5MinUnits := 20
  remainingUnits := 1000000

theorem computeTaskSize_measured :
    1 ≤ (computeTaskSize measuredInputs.exact).toNat ∧
      computeTaskSize { measuredInputs with coldStart := true }.exact ≤
        computeTaskSize measuredInputs.exact := by
  have hwarm := computeTaskSize_bounds measuredInputs measuredInputs (by decide +kernel)
    (by decide +kernel)
  have hcold := computeTaskSize_bounds { measuredInputs with coldStart := true } measuredInputs
    (by decide +kernel) (by decide +kernel)
  have hgranted : computeTaskSize measuredInputs.exact ≠ 0 :=
    mt hwarm.1.mp (by decide +kernel)
  exact ⟨(hwarm.2.1 hgranted).1, hcold.2.2
    ⟨le_rfl, le_rfl, UInt32.le_refl _, UInt32.le_refl _, UInt64.le_refl _, rfl, .inl rfl,
      fun h => absurd h Bool.false_ne_true⟩⟩

end SizingInputs

end P2pGpu.Coordinator
