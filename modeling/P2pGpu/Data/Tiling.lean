import Mathlib.Data.Set.Card
import Mathlib.Data.Set.Finite.Lattice
import Mathlib.Data.Set.Lattice
import Mathlib.Order.CompletePartialOrder
import Mathlib.Order.Interval.Set.Disjoint
import Mathlib.Order.Interval.Set.Nat

namespace P2pGpu

-- A half-open run of units, `[start, start + count)`.
structure Span where
  start : Nat
  count : Nat
deriving DecidableEq, Repr

namespace Span

def units (s : Span) : Set Nat := Set.Ico s.start (s.start + s.count)

-- No multiple of `width` lies strictly inside the span. Zero means there is no
-- boundary to cross.
def Within (width : Nat) (s : Span) : Prop :=
  width ≠ 0 → s.start % width + s.count ≤ width

instance (width : Nat) (s : Span) : Decidable (s.Within width) :=
  inferInstanceAs (Decidable (_ → _))

@[simp] theorem mem_units {s : Span} {u : Nat} :
    u ∈ s.units ↔ s.start ≤ u ∧ u < s.start + s.count := Iff.rfl

theorem finite_units (s : Span) : s.units.Finite := Set.finite_Ico _ _

theorem ncard_units (s : Span) : s.units.ncard = s.count := by
  unfold units
  rw [← Finset.coe_Ico, Set.ncard_coe_finset, Nat.card_Ico, Nat.add_sub_cancel_left]

theorem units_nonempty {s : Span} (h : 0 < s.count) : s.units.Nonempty :=
  ⟨s.start, Nat.le_refl _, Nat.lt_add_of_pos_right h⟩

-- The reading of `Within` by multiples.
theorem within_iff {width : Nat} {s : Span} (hw : width ≠ 0) :
    s.Within width ↔ ¬ ∃ k, s.start < k * width ∧ k * width < s.start + s.count := by
  have hdiv := Nat.div_add_mod s.start width
  have hmod := Nat.mod_lt s.start (Nat.pos_of_ne_zero hw)
  rw [Nat.mul_comm] at hdiv
  constructor
  · rintro h ⟨k, hlo, hhi⟩
    have hin := h hw
    have hk : s.start / width < k := Nat.div_lt_of_lt_mul (by rw [Nat.mul_comm]; exact hlo)
    have hstep : (s.start / width + 1) * width ≤ k * width := Nat.mul_le_mul_right width hk
    rw [Nat.add_mul, Nat.one_mul] at hstep
    omega
  · intro h _
    by_contra hcross
    refine h ⟨s.start / width + 1, ?_, ?_⟩ <;>
      rw [Nat.add_mul, Nat.one_mul] <;> omega

-- All of a span that crosses no boundary lies in one group.
theorem Within.div_eq {width u : Nat} {s : Span} (hs : s.Within width) (hw : width ≠ 0)
    (hu : u ∈ s.units) : u / width = s.start / width := by
  obtain ⟨hlo, hhi⟩ := mem_units.mp hu
  have hin := hs hw
  have hsplit := Nat.div_add_mod s.start width
  have hoffset : u = s.start % width + (u - s.start) + width * (s.start / width) := by omega
  have hinside : s.start % width + (u - s.start) < width := by omega
  calc
    u / width = (s.start % width + (u - s.start) + width * (s.start / width)) / width := by
      rw [← hoffset]
    _ = (s.start % width + (u - s.start)) / width + s.start / width :=
      Nat.add_mul_div_left _ _ (Nat.pos_of_ne_zero hw)
    _ = s.start / width := by rw [Nat.div_eq_of_lt hinside, Nat.zero_add]

end Span

-- The members of `l` cut the region into non-empty pieces without overlap.
structure Tiles {ι α : Type} (piece : ι → Set α) (l : List ι) (region : Set α) : Prop where
  nonempty : ∀ i ∈ l, (piece i).Nonempty
  disjoint : l.Pairwise fun i j => Disjoint (piece i) (piece j)
  cover : ∀ u, (∃ i ∈ l, u ∈ piece i) ↔ u ∈ region

namespace Tiles

variable {ι α : Type} {piece : ι → Set α} {l : List ι} {region : Set α}

theorem nil : Tiles piece [] (∅ : Set α) where
  nonempty := by simp
  disjoint := List.Pairwise.nil
  cover := by simp

theorem subset (h : Tiles piece l region) {i : ι} (hi : i ∈ l) : piece i ⊆ region :=
  fun u hu => (h.cover u).mp ⟨i, hi, hu⟩

theorem concat (h : Tiles piece l region) {i : ι} (hi : (piece i).Nonempty)
    (hd : Disjoint region (piece i)) : Tiles piece (l ++ [i]) (region ∪ piece i) where
  nonempty := by
    intro j hj
    rcases List.mem_append.mp hj with hj | hj
    · exact h.nonempty j hj
    · rw [List.mem_singleton.mp hj]
      exact hi
  disjoint := by
    refine List.pairwise_append.mpr ⟨h.disjoint, List.pairwise_singleton _ _, ?_⟩
    intro j hj k hk
    rw [List.mem_singleton.mp hk]
    exact hd.mono_left (h.subset hj)
  cover := by
    intro u
    simp only [List.mem_append, List.mem_singleton, or_and_right, exists_or, exists_eq_left,
      Set.mem_union, h.cover u]

theorem region_eq (h : Tiles piece l region) {other : Set α} (he : region = other) :
    Tiles piece l other := he ▸ h

theorem perm {l' : List ι} (h : Tiles piece l region) (hl : l.Perm l') :
    Tiles piece l' region where
  nonempty i hi := h.nonempty i (hl.mem_iff.mpr hi)
  disjoint := h.disjoint.perm hl fun hd => hd.symm
  cover u := by
    rw [← h.cover u]
    simp only [hl.mem_iff]

theorem map {κ : Type} {f : κ → ι} {l : List κ} (h : Tiles (fun k => piece (f k)) l region) :
    Tiles piece (l.map f) region where
  nonempty i hi := by
    obtain ⟨k, hk, rfl⟩ := List.mem_map.mp hi
    exact h.nonempty k hk
  disjoint := List.pairwise_map.mpr h.disjoint
  cover u := by
    rw [← h.cover u]
    constructor
    · rintro ⟨i, hi, hu⟩
      obtain ⟨k, hk, rfl⟩ := List.mem_map.mp hi
      exact ⟨k, hk, hu⟩
    · rintro ⟨k, hk, hu⟩
      exact ⟨f k, List.mem_map_of_mem hk, hu⟩

theorem congr {other : ι → Set α} (h : Tiles piece l region) (he : ∀ i ∈ l, other i = piece i) :
    Tiles other l region where
  nonempty i hi := he i hi ▸ h.nonempty i hi
  disjoint := h.disjoint.imp_of_mem fun hi hj hd => by rw [he _ hi, he _ hj]; exact hd
  cover u := by
    rw [← h.cover u]
    constructor
    · rintro ⟨i, hi, hu⟩
      exact ⟨i, hi, he i hi ▸ hu⟩
    · rintro ⟨i, hi, hu⟩
      exact ⟨i, hi, by rw [he i hi]; exact hu⟩

-- Pieces that do not overlap have as many members together as one by one.
theorem ncard_pieces (hd : l.Pairwise fun i j => Disjoint (piece i) (piece j))
    (hfin : ∀ i ∈ l, (piece i).Finite) :
    { u | ∃ i ∈ l, u ∈ piece i }.ncard = (l.map fun i => (piece i).ncard).sum := by
  induction l with
  | nil => simp
  | cons i l ih =>
      obtain ⟨hfirst, hrest⟩ := List.pairwise_cons.mp hd
      have hsplit : { u | ∃ j ∈ i :: l, u ∈ piece j } = piece i ∪ { u | ∃ j ∈ l, u ∈ piece j } := by
        ext u
        simp
      have hdisjoint : Disjoint (piece i) { u | ∃ j ∈ l, u ∈ piece j } := by
        rw [Set.disjoint_left]
        rintro u hu ⟨j, hj, hu'⟩
        exact Set.disjoint_left.mp (hfirst j hj) hu hu'
      have hfinite : { u | ∃ j ∈ l, u ∈ piece j }.Finite := by
        have hunion : { u | ∃ j ∈ l, u ∈ piece j } = ⋃ j ∈ l, piece j := by
          ext u
          simp
        rw [hunion]
        exact Set.Finite.biUnion (List.finite_toSet l)
          fun j hj => hfin j (List.mem_cons_of_mem i hj)
      rw [hsplit, Set.ncard_union_eq hdisjoint (hfin i List.mem_cons_self) hfinite,
        ih hrest fun j hj => hfin j (List.mem_cons_of_mem i hj), List.map_cons, List.sum_cons]

theorem ncard (h : Tiles piece l region) (hfin : ∀ i ∈ l, (piece i).Finite) :
    region.ncard = (l.map fun i => (piece i).ncard).sum := by
  have hregion : region = { u | ∃ i ∈ l, u ∈ piece i } := by
    ext u
    exact (h.cover u).symm
  rw [hregion]
  exact ncard_pieces h.disjoint hfin

end Tiles

-- Cells of one width in a row, each filled from its start to its own level.
def prefixes (width : Nat) (levels : List Nat) : Set Nat :=
  { u | ∃ i level, levels[i]? = some level ∧ i * width ≤ u ∧ u < i * width + level }

namespace prefixes

variable {width i level count : Nat} {levels : List Nat}

@[simp] theorem mem_iff {u : Nat} : u ∈ prefixes width levels ↔
    ∃ i level, levels[i]? = some level ∧ i * width ≤ u ∧ u < i * width + level := Iff.rfl

theorem replicate_zero (width n : Nat) : prefixes width (List.replicate n 0) = ∅ := by
  apply Set.eq_empty_of_forall_notMem
  rintro u ⟨i, level, hi, hlo, hhi⟩
  rw [List.getElem?_replicate] at hi
  split at hi
  · cases hi
    omega
  · cases hi

-- Two filled cells that share a unit are the same cell.
theorem cell_unique {j a b u : Nat} (ha : a ≤ width) (hb : b ≤ width) (hi : i * width ≤ u)
    (hi' : u < i * width + a) (hj : j * width ≤ u) (hj' : u < j * width + b) : i = j := by
  rcases Nat.lt_trichotomy i j with h | h | h
  · have := Nat.mul_le_mul_right width (Nat.succ_le_of_lt h)
    rw [Nat.succ_mul] at this
    omega
  · exact h
  · have := Nat.mul_le_mul_right width (Nat.succ_le_of_lt h)
    rw [Nat.succ_mul] at this
    omega

theorem level_raised {j a : Nat} (h : levels[i]? = some level)
    (hj : (levels.modify i (· + count))[j]? = some a) :
    (j = i ∧ a = level + count) ∨ (j ≠ i ∧ levels[j]? = some a) := by
  by_cases hij : i = j
  · subst hij
    rw [List.getElem?_modify_eq, h] at hj
    exact .inl ⟨rfl, (Option.some.inj hj).symm⟩
  · rw [List.getElem?_modify_ne _ _ hij] at hj
    exact .inr ⟨Ne.symm hij, hj⟩

-- Raising one level adds the run of units above it.
theorem modify_add (h : levels[i]? = some level) :
    prefixes width (levels.modify i (· + count)) =
      prefixes width levels ∪ (Span.mk (i * width + level) count).units := by
  ext u
  simp only [mem_iff, Set.mem_union, Span.mem_units]
  constructor
  · rintro ⟨j, a, hj, hlo, hhi⟩
    rcases level_raised h hj with ⟨rfl, rfl⟩ | ⟨-, hj⟩
    · by_cases hu : u < j * width + level
      · exact .inl ⟨j, level, h, hlo, hu⟩
      · exact .inr ⟨by omega, by omega⟩
    · exact .inl ⟨j, a, hj, hlo, hhi⟩
  · rintro (⟨j, a, hj, hlo, hhi⟩ | ⟨hlo, hhi⟩)
    · by_cases hij : i = j
      · subst hij
        rw [h] at hj
        cases hj
        exact ⟨i, level + count, by simp [h], hlo, by omega⟩
      · exact ⟨j, a, by rw [List.getElem?_modify_ne _ _ hij]; exact hj, hlo, hhi⟩
    · exact ⟨i, level + count, by simp [h], by omega, by omega⟩

theorem disjoint_above (hle : ∀ a ∈ levels, a ≤ width) (h : levels[i]? = some level)
    (hc : level + count ≤ width) :
    Disjoint (prefixes width levels) (Span.mk (i * width + level) count).units := by
  rw [Set.disjoint_left]
  rintro u ⟨j, a, hj, hlo, hhi⟩ ⟨hlo', hhi'⟩
  dsimp only at hlo' hhi'
  have hij : i = j := cell_unique hc (hle a (List.mem_of_getElem? hj))
    (by omega) (by omega) hlo hhi
  subst hij
  rw [h] at hj
  cases hj
  omega

theorem sum_modify (h : levels[i]? = some level) :
    (levels.modify i (· + count)).sum = levels.sum + count := by
  induction levels generalizing i with
  | nil => cases h
  | cons a levels ih =>
      cases i with
      | zero => simp only [List.modify_zero_cons, List.sum_cons]; omega
      | succ i =>
          rw [List.getElem?_cons_succ] at h
          simp only [List.modify_succ_cons, List.sum_cons, ih h]
          omega

theorem le_of_modify (hle : ∀ a ∈ levels, a ≤ width) (h : levels[i]? = some level)
    (hc : level + count ≤ width) : ∀ a ∈ levels.modify i (· + count), a ≤ width := by
  intro a ha
  obtain ⟨j, hj⟩ := List.mem_iff_getElem?.mp ha
  rcases level_raised h hj with ⟨-, rfl⟩ | ⟨-, hj⟩
  · exact hc
  · exact hle a (List.mem_of_getElem? hj)

theorem sum_le (hle : ∀ a ∈ levels, a ≤ width) : levels.sum ≤ levels.length * width := by
  induction levels with
  | nil => simp
  | cons a levels ih =>
      have ha := hle a List.mem_cons_self
      have hrest := ih fun b hb => hle b (List.mem_cons_of_mem _ hb)
      rw [List.sum_cons, List.length_cons, Nat.succ_mul]
      omega

-- A row whose levels add up to all it can hold is full.
theorem full (hle : ∀ a ∈ levels, a ≤ width) (hsum : levels.length * width ≤ levels.sum) :
    ∀ a ∈ levels, a = width := by
  induction levels with
  | nil => simp
  | cons a levels ih =>
      have ha := hle a List.mem_cons_self
      have hle' : ∀ b ∈ levels, b ≤ width := fun b hb => hle b (List.mem_cons_of_mem _ hb)
      have hrest := sum_le hle'
      rw [List.sum_cons, List.length_cons, Nat.succ_mul] at hsum
      intro b hb
      rcases List.mem_cons.mp hb with rfl | hb
      · omega
      · exact ih hle' (by omega) b hb

theorem eq_of_full (h : ∀ a ∈ levels, a = width) :
    prefixes width levels = Set.Iio (levels.length * width) := by
  ext u
  simp only [mem_iff, Set.mem_Iio]
  constructor
  · rintro ⟨i, a, hi, hlo, hhi⟩
    have hlt : i < levels.length := (List.getElem?_eq_some_iff.mp hi).1
    have := Nat.mul_le_mul_right width (Nat.succ_le_of_lt hlt)
    rw [Nat.succ_mul] at this
    rw [h a (List.mem_of_getElem? hi)] at hhi
    omega
  · intro hu
    have hw : 0 < width := Nat.pos_of_ne_zero (by rintro rfl; simp at hu)
    have hi : u / width < levels.length := (Nat.div_lt_iff_lt_mul hw).mpr hu
    have hdiv := Nat.div_add_mod u width
    have hmod := Nat.mod_lt u hw
    rw [Nat.mul_comm] at hdiv
    refine ⟨u / width, width, ?_, by omega, by omega⟩
    rw [List.getElem?_eq_getElem hi, h _ (List.getElem_mem hi)]

theorem cons (width a : Nat) (levels : List Nat) : prefixes width (a :: levels) =
    Set.Iio a ∪ { u | width ≤ u ∧ u - width ∈ prefixes width levels } := by
  ext u
  simp only [mem_iff, Set.mem_union, Set.mem_Iio, Set.mem_ofPred_eq]
  constructor
  · rintro ⟨i, level, hi, hlo, hhi⟩
    cases i with
    | zero =>
        cases hi
        exact .inl (by omega)
    | succ i =>
        rw [Nat.succ_mul] at hlo hhi
        exact .inr ⟨by omega, i, level, hi, by omega, by omega⟩
  · rintro (hu | ⟨hw, i, level, hi, hlo, hhi⟩)
    · exact ⟨0, a, rfl, by omega, by omega⟩
    · refine ⟨i + 1, level, hi, ?_, ?_⟩ <;> rw [Nat.succ_mul] <;> omega

theorem eq_empty (h : ∀ a ∈ levels, a = 0) : prefixes width levels = ∅ := by
  apply Set.eq_empty_of_forall_notMem
  rintro u ⟨i, level, hi, hlo, hhi⟩
  have := h level (List.mem_of_getElem? hi)
  omega

-- Cells that are filled one after the other leave no gap.
theorem eq_iio {k : Nat} (hfull : ∀ a ∈ levels.take k, a = width)
    (hnone : ∀ a ∈ levels.drop (k + 1), a = 0) :
    prefixes width levels = Set.Iio levels.sum := by
  induction levels generalizing k with
  | nil =>
      rw [eq_empty (by simp)]
      simp
  | cons a levels ih =>
      rw [cons]
      cases k with
      | zero =>
          have hrest : ∀ b ∈ levels, b = 0 := hnone
          have hsum : levels.sum = 0 := List.sum_eq_zero hrest
          rw [eq_empty hrest, List.sum_cons, hsum]
          simp
      | succ k =>
          have ha : a = width := hfull a List.mem_cons_self
          have hrest := ih (k := k) (fun b hb => hfull b (List.mem_cons_of_mem _ hb)) hnone
          ext u
          simp only [hrest, ha, Set.mem_union, Set.mem_Iio, Set.mem_ofPred_eq, List.sum_cons]
          omega

end prefixes

-- What a cursor has passed, and the run it passes next.
theorem iio_union_units (next count : Nat) :
    Set.Iio next ∪ (Span.mk next count).units = Set.Iio (next + count) := by
  ext u
  simp only [Set.mem_union, Set.mem_Iio, Span.mem_units]
  omega

theorem disjoint_iio_units (next count : Nat) :
    Disjoint (Set.Iio next) (Span.mk next count).units := by
  rw [Set.disjoint_left]
  intro u hu hu'
  simp only [Set.mem_Iio, Span.mem_units] at hu hu'
  omega

end P2pGpu
