import Mathlib.Algebra.Order.BigOperators.Group.List
import P2pGpu.Coordinator.Job.Family
import P2pGpu.Coordinator.Job.Progress

namespace P2pGpu.Coordinator

open P2pGpu.Protocol

-- A sum of words that is less than a word holds did not wrap around.
theorem toNat_sum {l : List UInt64} (h : (l.map UInt64.toNat).sum < 2 ^ 64) :
    l.sum.toNat = (l.map UInt64.toNat).sum := by
  induction l with
  | nil => rfl
  | cons a l ih =>
      rw [List.map_cons, List.sum_cons] at h
      have hrest : l.sum.toNat = (l.map UInt64.toNat).sum := ih (by omega)
      rw [List.sum_cons, List.map_cons, List.sum_cons, UInt64.toNat_add, hrest]
      exact Nat.mod_eq_of_lt h

-- Leaving out entries that count leaves a smaller sum.
theorem sum_filter_eq_iff {α : Type} {p : α → Bool} {f : α → Nat} {l : List α}
    (hpos : ∀ a ∈ l, 0 < f a) :
    ((l.filter p).map f).sum = (l.map f).sum ↔ ∀ a ∈ l, p a = true := by
  have hle : ∀ l : List α, ((l.filter p).map f).sum ≤ (l.map f).sum := fun l =>
    (List.filter_sublist.map f).sum_le_sum fun n _ => Nat.zero_le n
  induction l with
  | nil => simp
  | cons a l ih =>
      have hrest := ih fun b hb => hpos b (List.mem_cons_of_mem a hb)
      have hhead := hpos a List.mem_cons_self
      have hbound := hle l
      rw [List.forall_mem_cons]
      refine Iff.trans ?_ (and_congr Iff.rfl hrest)
      by_cases hp : p a = true
      · rw [List.filter_cons_of_pos hp, and_iff_right hp]
        simp only [List.map_cons, List.sum_cons]
        omega
      · rw [List.filter_cons_of_neg hp]
        simp only [List.map_cons, List.sum_cons]
        exact iff_of_false (by omega) fun hboth => hp hboth.1

-- Only units of the job are handed out.
theorem Job.Carvable.carvedUnits_below {job : Job} (hc : job.Carvable) :
    job.carvedUnits ⊆ Set.Iio job.totalUnits.toNat := by
  intro u hu
  unfold Job.carvedUnits at hu
  split at hu
  · have hbound := UInt64.le_iff_toNat_le.mp hc.bound
    exact Nat.lt_of_lt_of_le hu hbound
  · rename_i render hrender
    have ht := hc.tiled hrender
    obtain ⟨i, level, hi, -, hhi⟩ := prefixes.mem_iff.mp hu
    have hlevel := ht.budget level (List.mem_of_getElem? hi)
    have hlength : i < job.tileGranted.length := by
      have hlt := (List.getElem?_eq_some_iff.mp hi).1
      rwa [List.length_map] at hlt
    have hcell := Nat.mul_le_mul_right render.samplesPerTile.toNat (Nat.succ_le_of_lt hlength)
    rw [Nat.succ_mul, ← ht.total] at hcell
    show u < job.totalUnits.toNat
    omega

namespace JobManager

-- The tasks of which the fraction of a job takes the units.
def counted (m : JobManager) (job : Job) : List Task :=
  (m.originals job).filter fun t => t.state = .accepted

-- Every unit is counted once at most, and none that the job does not have.
structure CountsOnce (m : JobManager) (job : Job) : Prop where
  disjoint : (m.counted job).Pairwise fun s t => Disjoint s.span.units t.span.units
  below : ∀ t ∈ m.counted job, t.span.units ⊆ Set.Iio job.totalUnits.toNat
  total : (m.acceptedUnits job).toNat = { u | ∃ t ∈ m.counted job, u ∈ t.span.units }.ncard

section

variable {m : JobManager} {jobId : JobId} {job : Job} {id : TaskId} {t : Task}
  {good : JobId → Prop}

theorem acceptedUnits_eq (m : JobManager) (job : Job) :
    m.acceptedUnits job = ((m.counted job).map Task.unitCount).sum := by
  unfold acceptedUnits counted originals
  congr 1
  induction job.tasks with
  | nil => rfl
  | cons id ids ih =>
      cases hfind : m.find id with
      | none => simp [hfind, ih]
      | some t =>
          by_cases haccepted : t.state = .accepted <;> by_cases horig : t.replicaOf = Id.nil <;>
            simp [hfind, haccepted, horig, ih]

theorem mem_originals : t ∈ m.originals job ↔
    ∃ id ∈ job.tasks, m.find id = some t ∧ t.replicaOf = Id.nil := by
  unfold originals
  rw [List.mem_filter, List.mem_filterMap, decide_eq_true_iff]
  constructor
  · rintro ⟨⟨id, hid, hf⟩, horig⟩
    exact ⟨id, hid, hf, horig⟩
  · rintro ⟨id, hid, hf, horig⟩
    exact ⟨⟨id, hid, hf⟩, horig⟩

theorem sum_originals (hp : m.Partition good) (hgood : good jobId)
    (hjob : m.findJob jobId = some job) (hfits : job.Fits) :
    ((m.originals job).map fun t => t.unitCount.toNat).sum = job.carvedUnits.ncard := by
  obtain ⟨-, htiles⟩ := hp.tiles hgood hjob hfits
  rw [htiles.ncard fun s _ => s.finite_units, spans_eq, List.map_map]
  congr 1
  refine List.map_congr_left fun t _ => ?_
  exact (Span.ncard_units t.span).symm

theorem counted_total (hp : m.Partition good) (hgood : good jobId)
    (hjob : m.findJob jobId = some job) (hfits : job.Fits) :
    (m.acceptedUnits job).toNat = ((m.counted job).map fun t => t.unitCount.toNat).sum := by
  obtain ⟨hcarvable, htiles⟩ := hp.tiles hgood hjob hfits
  have hsub : (m.counted job).Sublist (m.originals job) := List.filter_sublist
  have hle := (hsub.map fun t => t.unitCount.toNat).sum_le_sum fun n _ => Nat.zero_le n
  have hcard := Set.ncard_le_ncard hcarvable.carvedUnits_below (Set.finite_Iio _)
  rw [sum_originals hp hgood hjob hfits] at hle
  rw [Set.ncard_eq_toFinset_card' (Set.Iio _), Set.toFinset_Iio, Nat.card_Iio] at hcard
  have hword := job.totalUnits.toNat_lt
  rw [acceptedUnits_eq, toNat_sum, List.map_map]
  · rfl
  · rw [List.map_map]
    exact Nat.lt_of_le_of_lt (hle.trans hcard) hword

theorem countsOnce (hp : m.Partition good) (hgood : good jobId)
    (hjob : m.findJob jobId = some job) (hfits : job.Fits) : m.CountsOnce job := by
  obtain ⟨hcarvable, htiles⟩ := hp.tiles hgood hjob hfits
  have hcarved := hp.carved hgood hjob hfits
  have hdisjoint : (m.counted job).Pairwise fun s t => Disjoint s.span.units t.span.units :=
    hcarved.disjoint.sublist List.filter_sublist
  refine ⟨hdisjoint, fun t ht => ?_, ?_⟩
  · have hspan : t.span ∈ m.spans job := by
      rw [spans_eq]
      exact List.mem_map_of_mem (List.mem_of_mem_filter ht)
    exact (htiles.subset hspan).trans hcarvable.carvedUnits_below
  · rw [counted_total hp hgood hjob hfits,
      Tiles.ncard_pieces hdisjoint fun t _ => t.span.finite_units]
    congr 1
    refine List.map_congr_left fun t _ => ?_
    exact (Span.ncard_units t.span).symm

-- A job that is done is counted as a whole unless one of its originals was cancelled.
theorem complete_counted_iff (hp : m.Partition good) (hv : m.Vindicated) (hgood : good jobId)
    (hjob : m.findJob jobId = some job) (hfits : job.Fits)
    (hcomplete : m.jobComplete jobId = true) :
    m.acceptedUnits job = job.totalUnits ↔
      ∀ id ∈ job.tasks, ∀ t, m.find id = some t → t.replicaOf = Id.nil → t.state ≠ .cancelled := by
  obtain ⟨job', hjob', hspent, hdone⟩ := jobComplete_iff.mp hcomplete
  rw [hjob] at hjob'
  cases hjob'
  obtain ⟨hcarvable, -⟩ := hp.tiles hgood hjob hfits
  have htotal : ((m.originals job).map fun t => t.unitCount.toNat).sum = job.totalUnits.toNat := by
    rw [sum_originals hp hgood hjob hfits, hcarvable.carvedUnits_exhausted hspent,
      Set.ncard_eq_toFinset_card' (Set.Iio _), Set.toFinset_Iio, Nat.card_Iio]
  have hpos : ∀ t ∈ m.originals job, 0 < t.unitCount.toNat :=
    (hp.carved hgood hjob hfits).nonempty
  rw [← UInt64.toNat_inj, counted_total hp hgood hjob hfits, ← htotal]
  refine (sum_filter_eq_iff hpos).trans ?_
  constructor
  · intro hall id hid t hf horig hcancelled
    have haccepted := of_decide_eq_true (hall t (mem_originals.mpr ⟨id, hid, hf, horig⟩))
    rw [hcancelled] at haccepted
    cases haccepted
  · intro hnone t ht
    obtain ⟨id, hid, hf, horig⟩ := mem_originals.mp ht
    obtain ⟨u, hu, hterminal⟩ := hdone id hid
    rw [hf] at hu
    cases hu
    have hnot := hnone id hid t hf horig
    obtain ⟨hrejected, -⟩ := hv id t hf
    refine decide_eq_true ?_
    cases hstate : t.state with
    | accepted => rfl
    | rejected => exact absurd hstate hrejected
    | cancelled => exact absurd hstate hnot
    | queued => rw [hstate] at hterminal; cases hterminal
    | leased => rw [hstate] at hterminal; cases hterminal
    | validating => rw [hstate] at hterminal; cases hterminal
    | needsReplica => rw [hstate] at hterminal; cases hterminal

end

end JobManager

end P2pGpu.Coordinator
