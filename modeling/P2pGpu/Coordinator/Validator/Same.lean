import Mathlib.Analysis.SpecialFunctions.Log.Base
import P2pGpu.Coordinator.Validator.Guarded
import P2pGpu.Coordinator.Validator.Tolerance

namespace P2pGpu.Coordinator

open Exact Extended

section

variable {F : Type} [Double F]

theorem compareExact_self (x : Payload) :
    (compareExact x x : Comparison F).verdict = .matched := by
  have hfold : ∀ (is : List Nat) (c : Comparison F),
      is.foldl (fun c i => if x[i]? = x[i]? then c else c.differAt i) c = c := by
    intro is c
    induction is with
    | nil => rfl
    | cons i is ih =>
        rw [List.foldl_cons, if_pos rfl]
        exact ih
  show ((List.range x.length).foldl (fun (c : Comparison F) i =>
    if x[i]? = x[i]? then c else c.differAt i) _).decided.verdict = _
  rw [hfold]
  rfl

theorem compare_self (spec : KernelSpec) (x : Payload) :
    (compare spec x x : Comparison F).verdict = .matched ↔
      x = [] ∨ (match spec.determinism with
        | .exact => compareExact x x
        | .tolerant => compareTolerant spec x x
        | .statistical => compareStatistical x x : Comparison F).verdict = .matched := by
  unfold compare
  rw [if_neg (not_not_intro rfl)]
  by_cases hempty : x = []
  · simp [hempty]
  · rw [if_neg hempty]
    exact ⟨.inr, fun h => h.resolve_left hempty⟩

end

section

variable {K : Type} [Field K] [LinearOrder K] [FloorRing K] [Roots K] {ε : Type}

theorem divide_positive {x y : Extended K} (h : Positive y) :
    (Guarded.divide x y : Checked ε (Extended K)) = .ok (x / y) :=
  Guarded.divide_eq (beq_zero_of_positive h)

-- What the counts of a pixel come to is positive.
theorem positive_count {n : Extended K} (hpos : decide (0.0 < n) = true)
    (hfinite : Double.isFinite n = true) : Positive n := by
  have hlt := of_decide_eq_true hpos
  rw [zero_scientific] at hlt
  exact positive_of_lt hlt hfinite

theorem countOutliers_eq {scale : Extended K} (hscale : Positive scale)
    (l : List (Extended K)) (i : Nat) (o : Outliers (Extended K)) :
    (Guarded.countOutliers scale l i o : Checked ε _) = .ok (countOutliers scale l i o) := by
  induction l generalizing i o with
  | nil => rfl
  | cons v rest ih =>
      unfold Guarded.countOutliers countOutliers
      simp only [bind, Except.bind, divide_positive hscale]
      exact ih _ _

end

-- Where a quantile may be asked for.
def Proper {K : Type} [Field K] [LE K] (p : Extended K) : Prop := ∃ q : K, q ≤ 1 ∧ p = finite q

theorem proper_scientific {K : Type} [Field K] [LinearOrder K] [IsStrictOrderedRing K]
    {mantissa exponent : Nat} (h : mantissa ≤ 10 ^ exponent) :
    Proper (OfScientific.ofScientific mantissa true exponent : Extended K) := by
  refine ⟨(mantissa : K) / 10 ^ exponent, ?_, rfl⟩
  have hcast : (mantissa : K) ≤ ((10 ^ exponent : Nat) : K) := Nat.cast_le.mpr h
  rw [Nat.cast_pow, Nat.cast_ofNat] at hcast
  exact div_le_one_of_le₀ hcast (pow_nonneg (Nat.ofNat_nonneg' 10) exponent)

section

variable {K : Type} [Field K] [LinearOrder K] [IsStrictOrderedRing K] [FloorRing K] [Roots K]
  {ε : Type}

-- A quantile is read at a place inside of the list.
theorem quantile_place {v : List (Extended K)} (hne : v ≠ []) (hsize : v.length < 2 ^ 64) {q : K}
    (hq : q ≤ 1) :
    (Double.toUInt64
      (finite q * Double.ofUInt64 (UInt64.ofNat (v.length - 1)))).toNat < v.length := by
  have hpos := List.length_pos_iff.mpr hne
  have hlast : (UInt64.ofNat (v.length - 1)).toNat = v.length - 1 :=
    UInt64.toNat_ofNat_of_lt' (show _ < 2 ^ 64 by omega)
  show (UInt64.ofNat ⌊q * ((UInt64.ofNat (v.length - 1)).toNat : K)⌋.toNat).toNat < _
  rw [hlast]
  have hle : q * ((v.length - 1 : Nat) : K) ≤ ((v.length - 1 : Nat) : K) :=
    mul_le_of_le_one_left (Nat.cast_nonneg _) hq
  have hfloor : ⌊q * ((v.length - 1 : Nat) : K)⌋ ≤ ((v.length - 1 : Nat) : Int) := by
    rw [← Int.floor_natCast (R := K) (v.length - 1)]
    exact Int.floor_mono hle
  have hword := Nat.mod_le ⌊q * ((v.length - 1 : Nat) : K)⌋.toNat (2 ^ 64)
  show ⌊q * ((v.length - 1 : Nat) : K)⌋.toNat % 2 ^ 64 < _
  omega

theorem quantile_spec {v : List (Extended K)} (hsize : v.length < 2 ^ 64) {p : Extended K}
    (hp : Proper p) :
    (Guarded.quantile v p : Checked ε (Extended K)) = .ok (quantile v p) ∧
      (v ≠ [] → quantile v p ∈ v) := by
  obtain ⟨q, hq, rfl⟩ := hp
  unfold Guarded.quantile quantile
  by_cases hempty : v = []
  · rw [if_pos hempty, if_pos hempty]
    exact ⟨rfl, fun hne => absurd hempty hne⟩
  · have hplace := (quantile_place hempty hsize hq).trans_eq
      (List.mergeSort_perm v fun x y => !decide (y < x)).length_eq.symm
    rw [if_neg hempty, if_neg hempty]
    refine ⟨Checked.read_getD hplace 0.0, fun _ => ?_⟩
    rw [List.getD_eq_getElem _ _ hplace]
    exact (List.mergeSort_perm v _).mem_iff.mp (List.getElem_mem hplace)

theorem quantile_finite {v : List (Extended K)} (hsize : v.length < 2 ^ 64)
    (hv : ∀ x ∈ v, x.isFinite = true) {p : Extended K} (hp : Proper p) :
    (quantile v p).isFinite = true := by
  by_cases hempty : v = []
  · subst hempty
    show Extended.isFinite (0.0 : Extended K) = true
    rw [zero_scientific]
    rfl
  · exact hv _ ((quantile_spec (ε := Unit) hsize hp).2 hempty)

end

-- What is gathered of so many channels: only numbers.
structure Gathered {K : Type} (n : Nat) (s : Channels (Extended K)) : Prop where
  length_d : s.d.length = n
  length_magnitude : s.magnitude.length = n
  d : ∀ v ∈ s.d, v.isFinite = true
  magnitude : ∀ v ∈ s.magnitude, v.isFinite = true

section

variable {K : Type} [Field K] {s : Channels (Extended K)} {n : Nat}

theorem Gathered.push (h : Gathered n s) {x m ma mb : Extended K} (hx : x.isFinite = true)
    (hm : m.isFinite = true) :
    Gathered (n + 1) { s with
      d := s.d ++ [x]
      magnitude := s.magnitude ++ [m]
      sumA := s.sumA + ma
      sumB := s.sumB + mb } where
  length_d := by
    show (s.d ++ [x]).length = n + 1
    rw [List.length_append, h.length_d]
    rfl
  length_magnitude := by
    show (s.magnitude ++ [m]).length = n + 1
    rw [List.length_append, h.length_magnitude]
    rfl
  d := List.forall_mem_append.mpr ⟨h.d, List.forall_mem_singleton.mpr hx⟩
  magnitude := List.forall_mem_append.mpr ⟨h.magnitude, List.forall_mem_singleton.mpr hm⟩

end

section

variable {K : Type} [Field K] [LinearOrder K] [FloorRing K] [Roots K]
  {a b : Payload} {c : Comparison (Extended K)} {s s' : Channels (Extended K)} {i k n : Nat}

-- The scale that the channels are held against.
def scaleOf (s : Channels (Extended K)) : Extended K :=
  Double.max (quantile (s.d.map Double.abs) kScaleQuantile / kHalfNormalQuantile)
    (kScaleFloorRel * Double.max (quantile s.magnitude 0.5) 1e-9)

theorem forall_abs_finite (hs : Gathered n s) :
    ∀ v ∈ s.d.map Double.abs, v.isFinite = true := by
  intro v hv
  obtain ⟨x, hx, rfl⟩ := List.mem_map.mp hv
  exact isFinite_abs (hs.d x hx)

theorem addChannel_gathered {na nb pooled : Extended K} (hna : Positive na) (hnb : Positive nb)
    (hpooled : Positive pooled) (hs : Gathered n s)
    (h : addChannel a b c i na nb pooled s k = .ok s') : Gathered (n + 1) s' := by
  unfold addChannel at h
  simp only at h
  split at h
  · cases h
  · rename_i hfinite
    rw [Bool.or_eq_true, not_or, Bool.not_eq_true', Bool.not_eq_true', Bool.not_eq_false,
      Bool.not_eq_false] at hfinite
    cases h
    have hma := isFinite_div hfinite.1 hna
    have hmb := isFinite_div hfinite.2 hnb
    exact hs.push (isFinite_div (isFinite_sub hma hmb) hpooled) (isFinite_abs hmb)

end

section

variable {K : Type} [Field K] [LinearOrder K] [IsStrictOrderedRing K] [FloorRing K] [Roots K]
  {s : Channels (Extended K)} {n : Nat}

theorem positive_kHalfNormalQuantile : Positive (kHalfNormalQuantile : Extended K) :=
  positive_scientific (by decide)

theorem positive_scaleOf (hs : Gathered n s) (hn : n < 2 ^ 64) : Positive (scaleOf s) := by
  have hsizeD : (s.d.map Double.abs).length < 2 ^ 64 := by
    rw [List.length_map, hs.length_d]
    exact hn
  have hsizeM : s.magnitude.length < 2 ^ 64 := hs.length_magnitude ▸ hn
  have hhalf : Proper (0.5 : Extended K) := proper_scientific (by decide)
  have hquantile : Proper (kScaleQuantile : Extended K) := proper_scientific (by decide)
  have hhigh := quantile_finite hsizeD (forall_abs_finite hs) hquantile
  have htypical := quantile_finite hsizeM hs.magnitude hhalf
  have hfloor : Positive (1e-9 : Extended K) := positive_scientific (by decide)
  have hrel : Positive (kScaleFloorRel : Extended K) := positive_scientific (by decide)
  exact positive_max (isFinite_div hhigh positive_kHalfNormalQuantile)
    (hrel.mul (positive_max htypical hfloor))

end

section

variable {K : Type} [Field K] [LinearOrder K] [IsStrictOrderedRing K] [FloorRing K] [Roots K]
  [LawfulRoots K] {a b : Payload} {c : Comparison (Extended K)} {s s' : Channels (Extended K)}
  {i n : Nat}

theorem positive_pooled {na nb : Extended K} (hna : Positive na) (hnb : Positive nb) :
    Positive (Double.sqrt (1.0 / na + 1.0 / nb)) := by
  have hone : Positive (1.0 : Extended K) := positive_scientific (by decide)
  exact positive_sqrt ((hone.div hna).add (hone.div hnb))

theorem addPixel_gathered (hs : Gathered n s) (h : addPixel a b c s i = .ok s') :
    Gathered (n + 3) s' := by
  unfold addPixel at h
  simp only at h
  split at h
  · cases h
  · rename_i hcounts
    simp only [Bool.or_eq_true, not_or, Bool.not_eq_true', Bool.not_eq_false] at hcounts
    obtain ⟨⟨⟨hposA, hposB⟩, hfiniteA⟩, hfiniteB⟩ := hcounts
    have hna := positive_count hposA hfiniteA
    have hnb := positive_count hposB hfiniteB
    refine Checked.foldlM_invariant (fun k s => Gathered (n + k) s) ?_ ?_ h
    · exact ⟨hs.length_d, hs.length_magnitude, hs.d, hs.magnitude⟩
    · intro k _ s s' hs hstep
      exact addChannel_gathered hna hnb (positive_pooled hna hnb) hs hstep

theorem addPixel_eq (hlength : a.length = b.length) (hi : i < a.length / kStride)
    (c : Comparison (Extended K)) (s : Channels (Extended K)) :
    Guarded.addPixel a b c s i = Checked.lift (addPixel a b c s i) := by
  have hroom : (i + 1) * kStride ≤ a.length :=
    (Nat.mul_le_mul_right kStride hi).trans (Nat.div_mul_le_self _ _)
  unfold Guarded.addPixel addPixel
  rw [Guarded.pixelAt_eq hroom, Guarded.pixelAt_eq (hlength ▸ hroom)]
  simp only [bind, Except.bind, Guarded.read_pixel _ i (show 3 < 4 by decide)]
  split
  · rfl
  · rename_i hcounts
    simp only [Bool.or_eq_true, not_or, Bool.not_eq_true', Bool.not_eq_false] at hcounts
    obtain ⟨⟨⟨hposA, hposB⟩, hfiniteA⟩, hfiniteB⟩ := hcounts
    have hna := positive_count hposA hfiniteA
    have hnb := positive_count hposB hfiniteB
    have hpooled := positive_pooled hna hnb
    simp only [divide_positive hna, divide_positive hnb]
    exact Checked.loop_lift (fun k hk s => Guarded.addChannel_eq
      (beq_zero_of_positive hna) (beq_zero_of_positive hnb) (beq_zero_of_positive hpooled) hk s) _

theorem judgeChannels_eq {ε : Type} (hs : Gathered n s) (hpos : 0 < n) (hn : n < 2 ^ 64) :
    (Guarded.judgeChannels c s : Checked ε _) = .ok (judgeChannels c s) := by
  have hsizeD : (s.d.map Double.abs).length < 2 ^ 64 := by
    rw [List.length_map, hs.length_d]
    exact hn
  have hsizeM : s.magnitude.length < 2 ^ 64 := hs.length_magnitude ▸ hn
  have hhalf : Proper (0.5 : Extended K) := proper_scientific (by decide)
  have hhigh : Proper (kScaleQuantile : Extended K) := proper_scientific (by decide)
  have hcount : Positive (Double.ofUInt64 (UInt64.ofNat s.d.length) : Extended K) := by
    rw [hs.length_d]
    exact positive_ofUInt64 hpos hn
  have hzero : ∀ y : Extended K, 0.0 < y → Double.beq y 0.0 = false := fun y => beq_zero_of_pos
  have hscale := positive_scaleOf hs hn
  have houtliers := countOutliers_eq (ε := ε) hscale
  unfold scaleOf at houtliers
  unfold Guarded.judgeChannels judgeChannels
  simp only [bind, Except.bind, pure, Except.pure,
    (quantile_spec hsizeM hhalf).1, (quantile_spec hsizeD hhigh).1, houtliers,
    divide_positive positive_kHalfNormalQuantile, divide_positive hcount,
    divide_positive (positive_sqrt hcount),
    Guarded.quotient_eq hzero]

theorem compareStatistical_eq {ε : Type} (hlength : a.length = b.length)
    (hsize : a.length < 2 ^ 64) :
    (Guarded.compareStatistical a b : Checked ε (Comparison (Extended K))) =
      .ok (compareStatistical a b) := by
  unfold Guarded.compareStatistical compareStatistical
  split
  · rfl
  · simp only
    rw [Checked.loop_lift fun i hi s => addPixel_eq hlength hi _ s]
    cases hrun : (List.range (a.length / kStride)).foldlM (addPixel a b _)
        ({ sumA := 0.0, sumB := 0.0, sumPooledSq := 0.0 } : Channels (Extended K)) with
    | error c => rfl
    | ok s =>
        have hgathered := Checked.foldlM_invariant (fun i s => Gathered (3 * i) s)
          ⟨rfl, rfl, fun v hv => absurd hv List.not_mem_nil, fun v hv => absurd hv List.not_mem_nil⟩
          (fun i _ s s' hs hstep => addPixel_gathered hs hstep) hrun
        show (if s.d = [] then _ else _) = Except.ok (if s.d = [] then _ else _)
        by_cases hempty : s.d = []
        · rw [if_pos hempty, if_pos hempty]
          rfl
        · have hpos := List.length_pos_iff.mpr hempty
          rw [hgathered.length_d] at hpos
          have hbound : 3 * (a.length / kStride) < 2 ^ 64 := by
            show 3 * (a.length / 16) < 2 ^ 64
            omega
          rw [if_neg hempty, if_neg hempty]
          exact judgeChannels_eq hgathered hpos hbound

end

-- What is gathered of a payload that is held against itself.
structure Level {K : Type} [Field K] (n : Nat) (s : Channels (Extended K)) : Prop extends
    Gathered n s where
  zero : ∀ v ∈ s.d, v = finite 0
  sums : s.sumA = s.sumB
  sum : s.sumB.isFinite = true

-- A payload of pixels that the comparison may judge.
structure Rendered (K : Type) [Field K] [LinearOrder K] [FloorRing K] [Roots K] (x : Payload) :
    Prop where
  whole : x.length % kStride = 0
  samples : ∀ i < x.length / kStride,
    Positive (Double.ofFloat32 (readFloat32 x (i * kStride + 12)) : Extended K)
  radiance : ∀ i < x.length / kStride, ∀ k < 3,
    (Double.ofFloat32 (readFloat32 x (i * kStride + k * 4)) : Extended K).isFinite = true

section

variable {K : Type} [Field K] [LinearOrder K] [FloorRing K] [Roots K] {x : Payload}
  {c : Comparison (Extended K)} {s : Channels (Extended K)} {i k n : Nat}

theorem addChannel_level {na pooled : Extended K} (hna : Positive na) (hpooled : Positive pooled)
    (hx : (Double.ofFloat32 (readFloat32 x (i * kStride + k * 4)) : Extended K).isFinite = true)
    (hs : Level n s) :
    ∃ s', addChannel x x c i na na pooled s k = .ok s' ∧ Level (n + 1) s' := by
  have hfinite : Double.isFinite
      (Double.ofFloat32 (readFloat32 x (i * kStride + k * 4)) : Extended K) = true := hx
  have hma := isFinite_div hx hna
  have hd : ((Double.ofFloat32 (readFloat32 x (i * kStride + k * 4)) : Extended K) / na -
      Double.ofFloat32 (readFloat32 x (i * kStride + k * 4)) / na) / pooled = finite 0 := by
    rw [finite_sub_self hma]
    exact zero_div_of_lt hpooled.lt
  unfold addChannel
  simp only [hfinite, Bool.not_true, Bool.or_self, Bool.false_eq_true, if_false]
  refine ⟨_, rfl, hs.toGathered.push (hd ▸ rfl) (isFinite_abs hma), ?_, ?_, ?_⟩
  · exact List.forall_mem_append.mpr ⟨hs.zero, List.forall_mem_singleton.mpr hd⟩
  · show s.sumA + _ = s.sumB + _
    rw [hs.sums]
  · obtain ⟨t, ht⟩ := isFinite_iff.mp hs.sum
    obtain ⟨m, hm⟩ := isFinite_iff.mp hma
    show (s.sumB + _).isFinite = true
    rw [ht, hm]
    rfl

end

section

variable {K : Type} [Field K] [LinearOrder K] [IsStrictOrderedRing K] [FloorRing K] [Roots K]
  {c : Comparison (Extended K)} {s : Channels (Extended K)} {n : Nat}

theorem countOutliers_level {scale : Extended K} (hscale : Positive scale)
    (hcutoff : Positive (kSigmaCutoff : Extended K)) (l : List (Extended K))
    (hl : ∀ v ∈ l, v = finite 0) (i : Nat) (o : Outliers (Extended K)) :
    (countOutliers scale l i o).count = o.count := by
  induction l generalizing i o with
  | nil => rfl
  | cons v rest ih =>
      have hz : Double.abs v / scale = finite 0 := by
        rw [hl v List.mem_cons_self]
        show (finite |0| / scale : Extended K) = _
        rw [abs_zero]
        exact zero_div_of_lt hscale.lt
      have hrest := ih fun w hw => hl w (List.mem_cons_of_mem v hw)
      unfold countOutliers
      simp only [hz, if_neg hcutoff.not_lt_zero]
      rw [hrest]
      split <;> rfl

theorem judgeChannels_level (hs : Level n s) (hpos : 0 < n) (hn : n < 2 ^ 64) :
    (judgeChannels c s).verdict = .matched := by
  have hcount : Positive (Double.ofUInt64 (UInt64.ofNat s.d.length) : Extended K) := by
    rw [hs.length_d]
    exact positive_ofUInt64 hpos hn
  have houtliers := countOutliers_level (positive_scaleOf hs.toGathered hn)
    (positive_scientific (by decide)) s.d hs.zero 0 { worst := 0.0, worstIndex := s.d.length }
  have hfraction : (Double.ofUInt64 (UInt64.ofNat 0) : Extended K) /
      Double.ofUInt64 (UInt64.ofNat s.d.length) = finite 0 := by
    show (finite ((0 : Nat) : K) / _ : Extended K) = _
    rw [Nat.cast_zero]
    exact zero_div_of_lt hcount.lt
  have hmean : Double.abs ((s.sumA - s.sumB) / Double.ofUInt64 (UInt64.ofNat s.d.length)) =
      (finite 0 : Extended K) := by
    rw [hs.sums, finite_sub_self hs.sum, zero_div_of_lt hcount.lt]
    show (finite |0| : Extended K) = _
    rw [abs_zero]
  have haggregate : ∀ se : Extended K,
      (if 0.0 < se then finite 0 / se else 0.0 : Extended K) = finite 0 := by
    intro se
    split
    · rename_i hlt
      rw [zero_scientific] at hlt
      exact zero_div_of_lt hlt
    · exact zero_scientific
  have hmost : Positive (kMaxOutlierFraction : Extended K) := positive_scientific (by decide)
  have hcutoff : Positive (kAggregateCutoff : Extended K) := positive_scientific (by decide)
  unfold scaleOf at houtliers
  unfold judgeChannels
  simp only [houtliers, hfraction, hmean, haggregate, if_neg hmost.not_lt_zero,
    if_neg hcutoff.not_lt_zero]

-- With epsilons that are not negative, something is allowed at every number.
theorem not_allowed_lt_zero {spec : KernelSpec} {e r : K}
    (habs : (Double.ofFloat32 spec.absEps : Extended K) = .finite e)
    (hrel : (Double.ofFloat32 spec.relEps : Extended K) = .finite r) (he : 0 ≤ e) (hr : 0 ≤ r)
    {u : Extended K} (hu : u.isFinite = true) : ¬ allowed spec u < 0.0 := by
  obtain ⟨y, rfl⟩ := isFinite_iff.mp hu
  rw [zero_scientific, allowed_finite habs hrel]
  intro h
  exact (finite_lt.mp h).not_ge (add_nonneg he (mul_nonneg hr (abs_nonneg y)))

-- A value is out of tolerance of itself only where nothing at all is allowed.
theorem outOfTolerance_self (spec : KernelSpec) (u : Extended K) :
    outOfTolerance spec u u = false ↔ (u.isFinite = true → ¬ allowed spec u < 0.0) := by
  rw [zero_scientific]
  cases u with
  | nan => exact ⟨fun _ h => absurd h Bool.false_ne_true, fun _ => rfl⟩
  | infinite s =>
      refine ⟨fun _ h => absurd h Bool.false_ne_true, fun _ => ?_⟩
      rw [Bool.eq_false_iff, Ne, outOfTolerance_of_number rfl rfl, sub_self_infinite]
      exact not_lt_nan
  | finite y =>
      rw [Bool.eq_false_iff, Ne, outOfTolerance_of_number rfl rfl, finite_sub, sub_self,
        abs_finite, abs_zero]
      exact ⟨fun h _ => h, fun h => h rfl⟩

end

section

variable {K : Type} [Field K] [LinearOrder K] [IsStrictOrderedRing K] [FloorRing K] [Roots K]
  [LawfulRoots K] {x : Payload} {c : Comparison (Extended K)} {s : Channels (Extended K)}
  {i n : Nat}

theorem addPixel_level (hx : Rendered K x) (hi : i < x.length / kStride) (hs : Level n s) :
    ∃ s', addPixel x x c s i = .ok s' ∧ Level (n + 3) s' := by
  have hna := hx.samples i hi
  have hpos : (0.0 : Extended K) < Double.ofFloat32 (readFloat32 x (i * kStride + 12)) := by
    rw [zero_scientific]
    exact hna.lt
  have hfinite : Double.isFinite
      (Double.ofFloat32 (readFloat32 x (i * kStride + 12)) : Extended K) = true := hna.isFinite
  unfold addPixel
  simp only [hfinite, decide_eq_true hpos, Bool.not_true, Bool.or_self, Bool.false_eq_true,
    if_false]
  refine Checked.foldlM_returns (fun k s => Level (n + k) s) ?_ ?_
  · exact ⟨⟨hs.length_d, hs.length_magnitude, hs.d, hs.magnitude⟩, hs.zero, hs.sums, hs.sum⟩
  · intro k hk s hs
    exact addChannel_level hna (positive_pooled hna hna) (hx.radiance i hi k hk) hs

theorem compareStatistical_self (hx : Rendered K x) (hsize : x.length < 2 ^ 64) :
    (compareStatistical x x : Comparison (Extended K)).verdict = .matched := by
  have hstart : Level 0 ({ sumA := 0.0, sumB := 0.0, sumPooledSq := 0.0 } :
      Channels (Extended K)) :=
    ⟨⟨rfl, rfl, fun v hv => absurd hv List.not_mem_nil, fun v hv => absurd hv List.not_mem_nil⟩,
      fun v hv => absurd hv List.not_mem_nil, rfl, rfl⟩
  obtain ⟨s, hrun, hs⟩ := Checked.foldlM_returns (fun i s => Level (3 * i) s) hstart
    fun i hi s hs => addPixel_level
      (c := { Comparison.init with elements := x.length / kStride * 3 }) hx hi hs
  unfold compareStatistical
  rw [if_neg (not_not_intro hx.whole)]
  simp only [hrun]
  by_cases hempty : s.d = []
  · rw [if_pos hempty]
  · have hpos := List.length_pos_iff.mpr hempty
    rw [hs.length_d] at hpos
    have hbound : 3 * (x.length / kStride) < 2 ^ 64 := by
      show 3 * (x.length / 16) < 2 ^ 64
      omega
    rw [if_neg hempty]
    exact judgeChannels_level hs hpos hbound

theorem guarded_compare_eq {ε : Type} (spec : KernelSpec) {a b : Payload}
    (hlength : a.length = b.length) (hsize : a.length < 2 ^ 64) :
    (Guarded.compare spec a b : Checked ε (Comparison (Extended K))) = .ok (compare spec a b) := by
  unfold Guarded.compare compare
  rw [if_neg (not_not_intro hlength), if_neg (not_not_intro hlength)]
  by_cases hempty : a = []
  · rw [if_pos hempty, if_pos hempty]
    rfl
  · rw [if_neg hempty, if_neg hempty]
    cases spec.determinism with
    | exact => exact Guarded.compareExact_eq hlength
    | tolerant => exact Guarded.compareTolerant_eq (fun y => beq_zero_of_pos) spec hlength
    | statistical => exact compareStatistical_eq hlength hsize

end

noncomputable instance : Roots ℝ := ⟨Real.sqrt, Real.logb (10 : ℕ)⟩

instance : LawfulRoots ℝ := ⟨fun _ => Real.sqrt_pos.mpr⟩

-- The bytes of a span: a word says how many.
structure ByteSpan where
  bytes : Payload
  size : bytes.length < 2 ^ 64

-- Identical answers match, but for a tolerance that is below zero where they are finite, and
-- no two payloads of one length lead to a division by zero or to a read out of range.
theorem identical_answers (spec : KernelSpec) (x y : ByteSpan) :
    (spec.determinism = .exact →
      (compare spec x.bytes x.bytes : Comparison (Extended ℝ)).verdict = .matched) ∧
    (spec.determinism = .tolerant → x.bytes.length % 4 = 0 →
      ((compare spec x.bytes x.bytes : Comparison (Extended ℝ)).verdict = .matched ↔
        ∀ i < x.bytes.length / 4, (floatAt (Extended ℝ) x.bytes i).isFinite = true →
          ¬ allowed spec (floatAt (Extended ℝ) x.bytes i) < 0.0)) ∧
    (spec.determinism = .statistical → Rendered ℝ x.bytes →
      (compare spec x.bytes x.bytes : Comparison (Extended ℝ)).verdict = .matched) ∧
    (x.bytes.length = y.bytes.length →
      (Guarded.compare spec x.bytes y.bytes : Checked Empty (Comparison (Extended ℝ))) =
        .ok (compare spec x.bytes y.bytes)) := by
  refine ⟨fun hexact => ?_, fun htolerant hwhole => ?_, fun hstatistical hx => ?_,
    fun hlength => guarded_compare_eq spec hlength x.size⟩
  · rw [compare_self, hexact]
    exact .inr (compareExact_self x.bytes)
  · rw [compare_tolerant_matched_iff htolerant rfl]
    simp only [outOfTolerance_self]
    exact ⟨fun h => h.2, fun h => ⟨hwhole, h⟩⟩
  · rw [compare_self, hstatistical]
    exact .inr (compareStatistical_self hx x.size)

theorem real_float32 {bits : UInt32} (h : exponentBits bits ≠ 255) {q : Rat}
    (hq : float32Value bits = q) : (Double.ofFloat32 bits : Extended ℝ) = .finite (q : ℝ) := by
  rw [ofFloat32_of_number h, hq]

-- One pixel of a single sample, and the number one.
def pixelSpan : ByteSpan := ⟨List.replicate 12 0 ++ onePayload, by decide⟩

def oneSpan : ByteSpan := ⟨onePayload, by decide⟩

theorem rendered_pixelSpan : Rendered ℝ pixelSpan.bytes := by
  refine ⟨by decide, fun i hi => ?_, fun i hi k hk => ?_⟩
  · obtain rfl : i = 0 := Nat.lt_one_iff.mp hi
    refine ⟨((1 : Rat) : ℝ), by norm_num, ?_⟩
    have hread : readFloat32 pixelSpan.bytes (0 * kStride + 12) = 0x3F800000 := by decide
    rw [hread]
    exact real_float32 (by decide) (by decide +kernel)
  · obtain rfl : i = 0 := Nat.lt_one_iff.mp hi
    have hread : ∀ k < 3, readFloat32 pixelSpan.bytes (0 * kStride + k * 4) = 0 := by decide
    rw [hread k hk, real_float32 (by decide) (by decide +kernel : float32Value 0 = 0)]
    rfl

theorem identical_answers_pixel :
    (compare pathTrace pixelSpan.bytes pixelSpan.bytes : Comparison (Extended ℝ)).verdict =
        .matched ∧
      (compare looseSpec oneSpan.bytes oneSpan.bytes : Comparison (Extended ℝ)).verdict =
        .matched := by
  obtain ⟨-, -, hstatistical, -⟩ := identical_answers pathTrace pixelSpan pixelSpan
  obtain ⟨-, htolerant, -, -⟩ := identical_answers looseSpec oneSpan oneSpan
  refine ⟨hstatistical rfl rendered_pixelSpan, (htolerant rfl (by decide)).mpr ?_⟩
  intro i _ hfinite
  refine not_allowed_lt_zero (real_float32 (by decide) rfl) (real_float32 (by decide) rfl) ?_ ?_
    hfinite
  · exact Rat.cast_nonneg.mpr (by decide +kernel)
  · exact Rat.cast_nonneg.mpr (by decide +kernel)

-- A tolerance below zero, which a manifest may declare.
def negativeSpec : KernelSpec where
  id := "negative"
  determinism := .tolerant
  absEps := 0xBF800000

-- Held against itself, no number is within it.
theorem identical_answers_negative :
    ¬ ∀ (spec : KernelSpec) (x : ByteSpan), spec.determinism = .tolerant → x.bytes.length % 4 = 0 →
      (compare spec x.bytes x.bytes : Comparison (Extended ℝ)).verdict = .matched := by
  intro h
  have hmatched := h negativeSpec oneSpan rfl (by decide)
  rw [compare_tolerant_matched_iff rfl rfl] at hmatched
  have hself := (outOfTolerance_self negativeSpec _).mp (hmatched.2 0 (by decide))
  have hone : floatAt (Extended ℝ) oneSpan.bytes 0 = .finite ((1 : Rat) : ℝ) :=
    real_float32 (by decide) (by decide +kernel)
  rw [hone, zero_scientific, allowed_finite (real_float32 (q := -1) (by decide) (by decide +kernel))
    (real_float32 (q := 0) (by decide) (by decide +kernel)), finite_lt] at hself
  exact hself rfl (by norm_num)

end P2pGpu.Coordinator
