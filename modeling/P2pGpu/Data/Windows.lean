import P2pGpu.Data.Chunks
import P2pGpu.Data.Tiling

namespace P2pGpu

namespace Span

-- A run of units from zero, cut into pieces of one width. The last one may be shorter.
def cut (width n : Nat) : List Span :=
  (List.range (Chunks.count width n)).map fun k => ⟨k * width, min width (n - k * width)⟩

variable {width n : Nat}

theorem mem_cut (hw : 0 < width) {s : Span} :
    s ∈ cut width n ↔ ∃ k, k * width < n ∧ s = ⟨k * width, min width (n - k * width)⟩ := by
  rw [cut, List.mem_map]
  constructor
  · rintro ⟨k, hk, rfl⟩
    exact ⟨k, (Chunks.lt_count hw).mp (List.mem_range.mp hk), rfl⟩
  · rintro ⟨k, hk, rfl⟩
    exact ⟨k, List.mem_range.mpr ((Chunks.lt_count hw).mpr hk), rfl⟩

-- The pieces cover the run, and none of them overlap.
theorem tiles_cut (hw : 0 < width) : Tiles units (cut width n) (Set.Iio n) where
  nonempty s hs := by
    obtain ⟨k, hk, rfl⟩ := (mem_cut hw).mp hs
    refine units_nonempty ?_
    show 0 < min width (n - k * width)
    omega
  disjoint := by
    rw [cut, List.pairwise_map]
    refine List.pairwise_lt_range.imp fun {i j} hij => ?_
    have hnext := Nat.mul_le_mul_right width (Nat.succ_le_of_lt hij)
    rw [Nat.succ_mul] at hnext
    rw [Set.disjoint_left]
    intro u hi hj
    rw [mem_units] at hi hj
    dsimp only at hi hj
    omega
  cover u := by
    constructor
    · rintro ⟨s, hs, hu⟩
      obtain ⟨k, hk, rfl⟩ := (mem_cut hw).mp hs
      rw [mem_units] at hu
      dsimp only at hu
      rw [Set.mem_Iio]
      omega
    · intro hu
      rw [Set.mem_Iio] at hu
      have hdiv := Nat.div_add_mod u width
      have hmod := Nat.mod_lt u hw
      rw [Nat.mul_comm] at hdiv
      refine ⟨_, (mem_cut hw).mpr ⟨u / width, by omega, rfl⟩, ?_⟩
      rw [mem_units]
      dsimp only
      omega

theorem start_le_of_mem_cut (hw : 0 < width) {s : Span} (hs : s ∈ cut width n) :
    s.start ≤ (n - 1) / width * width ∧ s.start + s.count ≤ n ∧ 0 < s.count := by
  obtain ⟨k, hk, rfl⟩ := (mem_cut hw).mp hs
  have hlast : k ≤ (n - 1) / width := (Nat.le_div_iff_mul_le hw).mpr (by omega)
  have hmul := Nat.mul_le_mul_right width hlast
  dsimp only
  omega

theorem last_mem_cut (hw : 0 < width) (hn : 0 < n) :
    (⟨(n - 1) / width * width, n - (n - 1) / width * width⟩ : Span) ∈ cut width n := by
  have hdiv := Nat.div_add_mod (n - 1) width
  have hmod := Nat.mod_lt (n - 1) hw
  rw [Nat.mul_comm] at hdiv
  refine (mem_cut hw).mpr ⟨(n - 1) / width, by omega, ?_⟩
  rw [Span.mk.injEq]
  omega

-- The span from another place of a counter that wraps.
def shifted (modulus start : Nat) (s : Span) : Span := ⟨(start + s.start) % modulus, s.count⟩

-- The units of a span as the counter takes them, going on from zero at its end.
def wrapped (modulus : Nat) (s : Span) : Set Nat :=
  { u | ∃ i < s.count, u = (s.start + i) % modulus }

variable {modulus start other : Nat}

theorem add_mod_cases (hs : start < modulus) {i : Nat} (hi : i < modulus) :
    ((start + i) % modulus = start + i ∧ start + i < modulus) ∨
      ((start + i) % modulus = start + i - modulus ∧ modulus ≤ start + i) := by
  by_cases hlt : start + i < modulus
  · exact .inl ⟨Nat.mod_eq_of_lt hlt, hlt⟩
  · refine .inr ⟨?_, Nat.not_lt.mp hlt⟩
    rw [Nat.mod_eq_sub_mod (Nat.not_lt.mp hlt), Nat.mod_eq_of_lt (by omega)]

-- Pieces that are shifted one by one are the shifted run, where none of them starts
-- past the end of the counter, and there only.
theorem shifted_cut_eq_iff (hw : 0 < width) (hn : 0 < n) (hlt : n < modulus)
    (hs : start < modulus) :
    { u | ∃ s ∈ cut width n, u ∈ (s.shifted modulus start).units } = (Span.mk other n).units ↔
      other = start ∧ start + (n - 1) / width * width < modulus := by
  have hlast := last_mem_cut hw hn
  have hlast' := start_le_of_mem_cut hw hlast
  have htiles := tiles_cut (n := n) hw
  dsimp only at hlast'
  have hfirst : (⟨0, min width n⟩ : Span) ∈ cut width n :=
    (mem_cut hw).mpr ⟨0, by omega, by simp⟩
  have hstart : (start + 0) % modulus = start := Nat.mod_eq_of_lt hs
  constructor
  · intro heq
    have hmem : ∀ u, (∃ s ∈ cut width n, u ∈ (s.shifted modulus start).units) ↔
        other ≤ u ∧ u < other + n := fun u => by
      have := Set.ext_iff.mp heq u
      rwa [mem_units] at this
    have hin : other ≤ start ∧ start < other + n := by
      refine (hmem start).mp ⟨_, hfirst, ?_⟩
      rw [shifted, mem_units, hstart]
      dsimp only
      omega
    by_cases hwrap : start + (n - 1) / width * width < modulus
    · refine ⟨?_, hwrap⟩
      obtain ⟨s, hs', hu⟩ := (hmem other).mpr ⟨Nat.le_refl _, by omega⟩
      have hle := start_le_of_mem_cut hw hs'
      rw [shifted, mem_units, Nat.mod_eq_of_lt (by omega)] at hu
      dsimp only at hu
      omega
    · -- What is past the last piece is missing, though there are units on both sides.
      exfalso
      have hlow : other ≤ start + (n - 1) / width * width - modulus := by
        refine ((hmem _).mp ⟨_, hlast, ?_⟩).1
        rcases add_mod_cases hs (i := (n - 1) / width * width) (by omega) with
          ⟨-, hsmall⟩ | ⟨hmod, hge⟩
        · exact absurd hsmall hwrap
        · rw [shifted, mem_units, hmod]
          dsimp only
          omega
      obtain ⟨s, hs', hu⟩ := (hmem (start + n - modulus)).mpr ⟨by omega, by omega⟩
      have hle := start_le_of_mem_cut hw hs'
      rw [shifted, mem_units] at hu
      dsimp only at hu
      rcases add_mod_cases hs (i := s.start) (by omega) with ⟨hmod, hsmall⟩ | ⟨hmod, hge⟩
      · omega
      · omega
  · rintro ⟨rfl, hfits⟩
    ext u
    rw [mem_units]
    constructor
    · rintro ⟨s, hs', hu⟩
      have hle := start_le_of_mem_cut hw hs'
      rw [shifted, mem_units, Nat.mod_eq_of_lt (by omega)] at hu
      dsimp only at hu ⊢
      omega
    · rintro ⟨hlo, hhi⟩
      dsimp only at hlo hhi
      obtain ⟨s, hs', hu⟩ := (htiles.cover (u - other)).mpr (Set.mem_Iio.mpr (by omega))
      have hle := start_le_of_mem_cut hw hs'
      refine ⟨s, hs', ?_⟩
      rw [mem_units] at hu
      rw [shifted, mem_units, Nat.mod_eq_of_lt (by omega)]
      dsimp only
      omega

-- Where the whole run fits, the shifted pieces cover it without overlap.
theorem tiles_shifted_cut (hw : 0 < width) (hfits : start + n ≤ modulus) :
    Tiles (fun s : Span => (s.shifted modulus start).units) (cut width n)
      (Span.mk start n).units := by
  have htiles := tiles_cut (n := n) hw
  have hplace : ∀ s ∈ cut width n, (s.shifted modulus start).start = start + s.start := by
    intro s hs
    have hle := start_le_of_mem_cut hw hs
    exact Nat.mod_eq_of_lt (by omega)
  have hunits : ∀ s ∈ cut width n, ∀ u, u ∈ (s.shifted modulus start).units ↔
      start ≤ u ∧ u - start ∈ s.units := by
    intro s hs u
    rw [mem_units, mem_units, hplace s hs]
    show start + s.start ≤ u ∧ u < start + s.start + s.count ↔ _
    omega
  refine ⟨fun s hs => ?_, ?_, fun u => ?_⟩
  · obtain ⟨u, hu⟩ := htiles.nonempty s hs
    refine ⟨start + u, (hunits s hs _).mpr ⟨Nat.le_add_right _ _, ?_⟩⟩
    rw [Nat.add_sub_cancel_left]
    exact hu
  · refine htiles.disjoint.imp_of_mem fun {s t} hs ht hd => ?_
    rw [Set.disjoint_left] at hd ⊢
    intro u hu hu'
    exact hd ((hunits s hs u).mp hu).2 ((hunits t ht u).mp hu').2
  · constructor
    · rintro ⟨s, hs, hu⟩
      obtain ⟨hle, hin⟩ := (hunits s hs u).mp hu
      have hlt := Set.mem_Iio.mp ((htiles.cover _).mp ⟨s, hs, hin⟩)
      rw [mem_units]
      dsimp only
      omega
    · rintro ⟨hlo, hhi⟩
      dsimp only at hlo hhi
      obtain ⟨s, hs, hu⟩ := (htiles.cover (u - start)).mpr (Set.mem_Iio.mpr (by omega))
      exact ⟨s, hs, (hunits s hs u).mpr ⟨hlo, hu⟩⟩

-- A run that does not go all the way round is known by its start.
theorem wrapped_inj (hn : 0 < n) (hlt : n < modulus) (hs : start < modulus)
    (ho : other < modulus)
    (h : (Span.mk start n).wrapped modulus = (Span.mk other n).wrapped modulus) :
    start = other := by
  have hmem : ∀ u, (∃ i < n, u = (start + i) % modulus) ↔ ∃ i < n, u = (other + i) % modulus :=
    fun u => Set.ext_iff.mp h u
  by_contra hne
  obtain ⟨i, hi, hstart⟩ := (hmem start).mp ⟨0, hn, (Nat.mod_eq_of_lt hs).symm⟩
  have hpos : i ≠ 0 := by
    rintro rfl
    rw [Nat.add_zero, Nat.mod_eq_of_lt ho] at hstart
    exact hne hstart
  -- The unit before the first one is in one of the runs only.
  obtain ⟨j, hj, hbefore⟩ := (hmem ((other + (i - 1)) % modulus)).mpr ⟨i - 1, by omega, rfl⟩
  have hi' := add_mod_cases ho (i := i) (by omega)
  have hprev := add_mod_cases ho (i := i - 1) (by omega)
  have hj' := add_mod_cases hs (i := j) (by omega)
  omega

theorem wrapped_cut_eq (hw : 0 < width) :
    { u | ∃ s ∈ cut width n, u ∈ (s.shifted modulus start).wrapped modulus } =
      (Span.mk start n).wrapped modulus := by
  have htiles := tiles_cut (n := n) hw
  ext u
  constructor
  · rintro ⟨s, hs, i, hi, rfl⟩
    have hle := start_le_of_mem_cut hw hs
    dsimp only [shifted] at hi
    refine ⟨s.start + i, ?_, ?_⟩
    · show s.start + i < n
      omega
    · show ((start + s.start) % modulus + i) % modulus = (start + (s.start + i)) % modulus
      rw [Nat.mod_add_mod, Nat.add_assoc]
  · rintro ⟨i, hi, rfl⟩
    obtain ⟨s, hs, hlo, hhi⟩ := (htiles.cover i).mpr (Set.mem_Iio.mpr hi)
    refine ⟨s, hs, i - s.start, ?_, ?_⟩
    · show i - s.start < s.count
      omega
    · show (start + i) % modulus = ((start + s.start) % modulus + (i - s.start)) % modulus
      rw [Nat.mod_add_mod, Nat.add_assoc, Nat.add_sub_cancel' hlo]

-- Runs that are not empty share no unit when one of them ends where the other starts, or
-- before.
theorem disjoint_units_iff {s t : Span} (hs : 0 < s.count) (ht : 0 < t.count) :
    Disjoint s.units t.units ↔ s.start + s.count ≤ t.start ∨ t.start + t.count ≤ s.start := by
  rw [Set.disjoint_left]
  constructor
  · intro h
    by_contra hover
    have hin : max s.start t.start ∈ s.units := by
      rw [mem_units]
      omega
    refine h hin ?_
    rw [mem_units]
    omega
  · intro h u hu hu'
    rw [mem_units] at hu hu'
    omega

-- Runs below a bound that do not overlap have no more units than there are below it.
theorem sum_count_le {l : List Span} (hin : ∀ s ∈ l, s.start + s.count ≤ n)
    (hapart : l.Pairwise fun s t => Disjoint s.units t.units) : (l.map count).sum ≤ n := by
  have hcounts : (l.map count).sum = (l.map fun s => s.units.ncard).sum := by
    simp only [ncard_units]
  rw [hcounts, ← Tiles.ncard_pieces hapart fun s _ => s.finite_units]
  calc
    { u | ∃ s ∈ l, u ∈ s.units }.ncard ≤ (Set.Iio n).ncard := by
      refine Set.ncard_le_ncard ?_ (Set.finite_Iio n)
      rintro u ⟨s, hs, hu⟩
      have hend := hin s hs
      rw [mem_units] at hu
      rw [Set.mem_Iio]
      omega
    _ = n := by rw [Set.ncard_Iio_nat]

-- One window of the cut holds what is counted to it by division.
theorem mem_window (hw : 0 < width) {k u : Nat} :
    u ∈ (Span.mk (k * width) (min width (n - k * width))).units ↔ u < n ∧ u / width = k := by
  rw [mem_units]
  dsimp only
  have hdiv := Nat.div_add_mod u width
  have hmod := Nat.mod_lt u hw
  rw [Nat.mul_comm] at hdiv
  constructor
  · rintro ⟨hlo, hhi⟩
    refine ⟨by omega, Nat.div_eq_of_lt_le ?_ ?_⟩
    · exact hlo
    · rw [Nat.succ_mul]
      omega
  · rintro ⟨hlt, rfl⟩
    omega

end Span

-- The values of a function cut a region, when all of them are on the list and each is taken.
theorem Tiles.fibers {ι α : Type} {f : α → ι} {l : List ι} {region : Set α} (hnodup : l.Nodup)
    (hmem : ∀ u ∈ region, f u ∈ l) (htaken : ∀ i ∈ l, ∃ u ∈ region, f u = i) :
    Tiles (fun i => { u | u ∈ region ∧ f u = i }) l region where
  nonempty := htaken
  disjoint := hnodup.imp fun {i j} hij => by
    rw [Set.disjoint_left]
    rintro u ⟨-, hi⟩ ⟨-, hj⟩
    exact hij (hi.symm.trans hj)
  cover u := by
    constructor
    · rintro ⟨i, -, hu, -⟩
      exact hu
    · exact fun hu => ⟨f u, hmem u hu, hu, rfl⟩

end P2pGpu
