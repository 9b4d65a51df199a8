import P2pGpu.Coordinator.Job.Run
import P2pGpu.Data.LittleEndian

namespace P2pGpu.Coordinator

open P2pGpu.Protocol

namespace Job

variable {job : Job} {render : RenderConfig} {units start count : UInt64} {tile : Option Nat}
  {id : TaskId}

theorem leastGranted_some {budget fewest : UInt64} {granted : List UInt64} {i k : Nat}
    {best : Option Nat} (h : leastGranted budget granted i fewest best = some k) :
    best = some k ∨ ∃ j g, k = i + j ∧ granted[j]? = some g ∧ g < budget := by
  induction granted generalizing i fewest best with
  | nil => exact .inl h
  | cons g granted ih =>
      have hshift : ∀ {fewest best}, leastGranted budget granted (i + 1) fewest best = some k →
          best = some k ∨ ∃ j a, k = i + j ∧ (g :: granted)[j]? = some a ∧ a < budget := by
        intro fewest best h
        rcases ih h with hbest | ⟨j, a, hk, ha, hlt⟩
        · exact .inl hbest
        · exact .inr ⟨j + 1, a, by omega, ha, hlt⟩
      unfold leastGranted at h
      split at h
      · exact hshift h
      · rename_i hbudget
        split at h
        · rcases hshift h with hk | hfound
          · refine .inr ⟨0, g, ?_, rfl, UInt64.not_le.mp hbudget⟩
            exact (Option.some.inj hk).symm
          · exact .inr hfound
        · exact hshift h

-- A render job as it is set up: every tile has one budget, the counters stay
-- inside it, and the cursor is their sum.
structure Tiled (job : Job) (render : RenderConfig) : Prop where
  group : job.unitsPerGroup = render.samplesPerTile
  length : job.tileGranted.length = render.grid.tileCount.toNat
  total : job.totalUnits.toNat = job.tileGranted.length * render.samplesPerTile.toNat
  budget : ∀ g ∈ job.tileGranted.map UInt64.toNat, g ≤ render.samplesPerTile.toNat
  sum : job.nextUnit.toNat = (job.tileGranted.map UInt64.toNat).sum

-- The keyspace of a render is as large as its tiles say.
def Fits (job : Job) : Prop :=
  ∀ render, job.render = some render →
    render.grid.tileCount.toNat * render.samplesPerTile.toNat < 2 ^ 64

structure Carvable (job : Job) : Prop where
  bound : job.nextUnit ≤ job.totalUnits
  tiled : ∀ {render}, job.render = some render → job.Tiled render

-- The units that were handed out so far.
def carvedUnits (job : Job) : Set Nat :=
  match job.render with
  | none => Set.Iio job.nextUnit.toNat
  | some render => prefixes render.samplesPerTile.toNat (job.tileGranted.map UInt64.toNat)

theorem keyspaceExhausted_false (h : job.keyspaceExhausted = false) :
    job.nextUnit < job.totalUnits := by
  simpa [keyspaceExhausted] using h

theorem carveCount_le (hleft : job.keyspaceExhausted = false)
    (hcount : job.carveCount units start = count) :
    job.nextUnit.toNat + count.toNat ≤ job.totalUnits.toNat := by
  have hlt := keyspaceExhausted_false hleft
  have hrem : job.remainingUnits.toNat = job.totalUnits.toNat - job.nextUnit.toNat := by
    simp only [remainingUnits, hleft, Bool.false_eq_true, if_false]
    exact UInt64.toNat_sub_of_le _ _ (UInt64.le_of_lt hlt)
  have hle : count.toNat ≤ job.remainingUnits.toNat := by
    rw [← hcount]
    simp only [carveCount]
    split
    · rw [LittleEndian.toNat_minU64, LittleEndian.toNat_minU64]
      exact Nat.le_trans (Nat.min_le_left _ _) (Nat.min_le_right _ _)
    · rw [LittleEndian.toNat_minU64]
      exact Nat.min_le_right _ _
  have := UInt64.lt_iff_toNat_lt.mp hlt
  omega

theorem carveCount_within (hcount : job.carveCount units start = count) :
    (Span.mk start.toNat count.toNat).Within job.unitsPerGroup.toNat := by
  intro hwidth
  have hne : job.unitsPerGroup ≠ 0 := fun h => hwidth (by rw [h]; rfl)
  have hmod : (start % job.unitsPerGroup).toNat = start.toNat % job.unitsPerGroup.toNat :=
    UInt64.toNat_mod _ _
  have hlt := Nat.mod_lt start.toNat (Nat.pos_of_ne_zero hwidth)
  have hsub : (job.unitsPerGroup - start % job.unitsPerGroup).toNat =
      job.unitsPerGroup.toNat - start.toNat % job.unitsPerGroup.toNat := by
    rw [UInt64.toNat_sub_of_le, hmod]
    rw [UInt64.le_iff_toNat_le, hmod]
    exact Nat.le_of_lt hlt
  have hle : count.toNat ≤ job.unitsPerGroup.toNat - start.toNat % job.unitsPerGroup.toNat := by
    rw [← hcount, ← hsub]
    simp only [carveCount, if_pos hne]
    rw [LittleEndian.toNat_minU64]
    exact Nat.min_le_right _ _
  dsimp only
  omega

-- Where the carve starts: at the cursor, or on top of a tile below its budget.
theorem carveStart_some (hstart : job.carveStart = some (tile, start)) :
    (tile = none ∧ start = job.nextUnit ∧ job.byTile = none) ∨
      ∃ render i g, job.render = some render ∧ tile = some i ∧ job.tileGranted[i]? = some g ∧
        g < render.samplesPerTile ∧ start = UInt64.ofNat i * render.samplesPerTile + g := by
  unfold carveStart at hstart
  cases hby : job.byTile with
  | none =>
      rw [hby] at hstart
      cases hstart
      exact .inl ⟨rfl, rfl, rfl⟩
  | some samplesPerTile =>
      rw [hby] at hstart
      simp only [Option.map_eq_some_iff, Prod.mk.injEq] at hstart
      obtain ⟨i, hleast, rfl, rfl⟩ := hstart
      unfold byTile at hby
      cases hr : job.render with
      | none => rw [hr] at hby; cases hby
      | some render =>
          rw [hr] at hby
          dsimp only at hby
          split at hby <;> cases hby
          rcases leastGranted_some hleast with h | ⟨j, g, rfl, hg, hlt⟩
          · cases h
          · rw [Nat.zero_add] at hleast ⊢
            refine .inr ⟨render, j, g, rfl, rfl, hg, hlt, ?_⟩
            rw [List.getD_eq_getElem?_getD, hg, Option.getD_some]

theorem map_modify_toNat (count : UInt64) {granted : List UInt64} {i : Nat} {g : UInt64}
    (hg : granted[i]? = some g) (hfit : g.toNat + count.toNat < 2 ^ 64) :
    (granted.modify i (· + count)).map UInt64.toNat =
      (granted.map UInt64.toNat).modify i (· + count.toNat) := by
  apply List.ext_getElem?
  intro j
  rw [List.getElem?_map]
  by_cases hij : i = j
  · subst hij
    rw [List.getElem?_modify_eq, List.getElem?_modify_eq, List.getElem?_map, hg]
    simp only [Option.map_some, Option.map_eq_map, UInt64.toNat_add]
    rw [Nat.mod_eq_of_lt hfit]
  · rw [List.getElem?_modify_ne _ _ hij, List.getElem?_modify_ne _ _ hij, List.getElem?_map]

namespace Carvable

theorem next_toNat (hleft : job.keyspaceExhausted = false)
    (hcount : job.carveCount units start = count) :
    (job.nextUnit + count).toNat = job.nextUnit.toNat + count.toNat := by
  have hle := carveCount_le hleft hcount
  have := UInt64.toNat_lt job.totalUnits
  rw [UInt64.toNat_add, Nat.mod_eq_of_lt (by omega)]

-- The arithmetic of one carve out of a tile.
theorem tile_fits (ht : job.Tiled render) {i : Nat} {g : UInt64}
    (hg : job.tileGranted[i]? = some g) (hlt : g < render.samplesPerTile)
    (hcount : job.carveCount units
      (UInt64.ofNat i * render.samplesPerTile + g) = count) :
    (UInt64.ofNat i * render.samplesPerTile + g).toNat =
        i * render.samplesPerTile.toNat + g.toNat ∧
      g.toNat + count.toNat ≤ render.samplesPerTile.toNat := by
  have hi : i < job.tileGranted.length := (List.getElem?_eq_some_iff.mp hg).1
  have hcell := Nat.mul_le_mul_right render.samplesPerTile.toNat (Nat.succ_le_of_lt hi)
  rw [Nat.succ_mul] at hcell
  have htotal := ht.total
  have hbound := UInt64.toNat_lt job.totalUnits
  have hlt' := UInt64.lt_iff_toNat_lt.mp hlt
  have hpos : 0 < render.samplesPerTile.toNat := by omega
  have hi64 : i < 2 ^ 64 := by
    have := Nat.mul_le_mul_left i (Nat.succ_le_of_lt hpos)
    rw [Nat.mul_one] at this
    omega
  have hofNat : (UInt64.ofNat i).toNat = i := UInt64.toNat_ofNat_of_lt hi64
  have hstart : (UInt64.ofNat i * render.samplesPerTile + g).toNat =
      i * render.samplesPerTile.toNat + g.toNat := by
    rw [UInt64.toNat_add, UInt64.toNat_mul, hofNat,
      Nat.mod_eq_of_lt (show i * render.samplesPerTile.toNat < 2 ^ 64 by omega),
      Nat.mod_eq_of_lt (by omega)]
  refine ⟨hstart, ?_⟩
  have hwithin := carveCount_within hcount
  rw [ht.group, hstart] at hwithin
  have := hwithin (by omega)
  dsimp only at this
  rwa [Nat.mul_add_mod', Nat.mod_eq_of_lt hlt'] at this

-- One carve: the new range starts where the tiling ends, and extends it.
theorem carve (hc : job.Carvable) (hleft : job.keyspaceExhausted = false)
    (hstart : job.carveStart = some (tile, start))
    (hcount : job.carveCount units start = count) (id : TaskId) :
    (job.carved id tile count).Carvable ∧
      Disjoint job.carvedUnits (Span.mk start.toNat count.toNat).units ∧
      (job.carved id tile count).carvedUnits =
        job.carvedUnits ∪ (Span.mk start.toNat count.toNat).units := by
  have hnext := next_toNat hleft hcount
  have hle := carveCount_le hleft hcount
  have hbound : job.nextUnit + count ≤ job.totalUnits := by
    rw [UInt64.le_iff_toNat_le, hnext]
    exact hle
  rcases carveStart_some hstart with ⟨rfl, rfl, hby⟩ | ⟨render, i, g, hr, rfl, hg, hlt, rfl⟩
  · cases hr : job.render with
    | none =>
        refine ⟨⟨hbound, fun h => ?_⟩, ?_, ?_⟩
        · simp [carved, hr] at h
        · simp only [carvedUnits, hr]
          exact disjoint_iio_units _ _
        · simp only [carvedUnits, carved, hr, hnext]
          exact (iio_union_units _ _).symm
    | some render =>
        -- A render without tiles or samples has nothing to carve.
        have ht := hc.tiled hr
        have hnone : job.tileGranted = [] ∨ render.samplesPerTile.toNat = 0 := by
          by_contra hne
          rw [not_or] at hne
          have hpos := Nat.pos_of_ne_zero hne.2
          simp [byTile, hr, hne.1, UInt64.lt_iff_toNat_lt, hpos] at hby
        have htotal : job.totalUnits.toNat = 0 := by
          rw [ht.total]
          rcases hnone with h | h <;> simp [h]
        have := UInt64.lt_iff_toNat_lt.mp (keyspaceExhausted_false hleft)
        omega
  · have ht := hc.tiled hr
    obtain ⟨hstartNat, hfit⟩ := tile_fits ht hg hlt hcount
    have hg' : (job.tileGranted.map UInt64.toNat)[i]? = some g.toNat := by
      rw [List.getElem?_map, hg]
      rfl
    have hmap := map_modify_toNat count hg
      (Nat.lt_of_le_of_lt hfit (UInt64.toNat_lt _))
    refine ⟨⟨hbound, fun h => ?_⟩, ?_, ?_⟩
    · have hrender : render = _ := Option.some.inj (hr.symm.trans h)
      subst hrender
      refine ⟨ht.group, ?_, ?_, ?_, ?_⟩
      · simp only [carved, List.length_modify]
        exact ht.length
      · simp only [carved, List.length_modify]
        exact ht.total
      · simp only [carved, hmap]
        exact prefixes.le_of_modify ht.budget hg' hfit
      · simp only [carved, hmap, hnext, prefixes.sum_modify hg', ht.sum]
    · simp only [carvedUnits, hr, hstartNat]
      exact prefixes.disjoint_above ht.budget hg' hfit
    · simp only [carvedUnits, carved, hr, hmap, hstartNat]
      exact prefixes.modify_add hg'

-- Where the cursor has reached the end, every unit was handed out.
theorem carvedUnits_exhausted (hc : job.Carvable) (h : job.keyspaceExhausted = true) :
    job.carvedUnits = Set.Iio job.totalUnits.toNat := by
  have heq : job.nextUnit.toNat = job.totalUnits.toNat := by
    have hge : job.totalUnits ≤ job.nextUnit := by simpa [keyspaceExhausted] using h
    have := UInt64.le_iff_toNat_le.mp hge
    have := UInt64.le_iff_toNat_le.mp hc.bound
    omega
  cases hr : job.render with
  | none => simp only [carvedUnits, hr, heq]
  | some render =>
      have ht := hc.tiled hr
      have hlen : (job.tileGranted.map UInt64.toNat).length = job.tileGranted.length :=
        List.length_map _
      have hfull := prefixes.full ht.budget (by rw [hlen, ← ht.sum, heq, ht.total])
      simp only [carvedUnits, hr]
      rw [prefixes.eq_of_full hfull, hlen, ht.total]

end Carvable

end Job

namespace JobManager

-- The tasks that were carved, in the order of the job's list.
def originals (m : JobManager) (job : Job) : List Task :=
  (job.tasks.filterMap m.find).filter fun t => t.replicaOf = Id.nil

def originalSpan (m : JobManager) (id : TaskId) : Option Span :=
  (m.find id).bind fun t => if t.replicaOf = Id.nil then some t.span else none

def spans (m : JobManager) (job : Job) : List Span := job.tasks.filterMap m.originalSpan

theorem spans_eq (m : JobManager) (job : Job) : m.spans job = (m.originals job).map Task.span := by
  unfold spans originals originalSpan
  induction job.tasks with
  | nil => rfl
  | cons id ids ih =>
      cases hfind : m.find id with
      | none => simp [hfind, ih]
      | some t => by_cases hr : t.replicaOf = Id.nil <;> simp [hfind, hr, ih]

section

variable {m m' : JobManager} {l : Label} {jobId : JobId} {job job' : Job} {id : TaskId} {t : Task}

theorem originalSpan_move (h : Move m l m') (hm : m.Minted) (hf : m.find id = some t) :
    m'.originalSpan id = m.originalSpan id := by
  unfold originalSpan
  rcases h.find_some hm hf with hf' | ⟨a, t', -, hr, -, hf'⟩
  · rw [hf, hf']
  · obtain ⟨-, -, hspan, hreplica⟩ := Act.result_shape hr
    rw [hf, hf']
    simp only [Option.bind_some, hspan, hreplica]

-- What a move does to the table of jobs.
theorem Move.findJob_some (h : Move m l m') (hfresh : m.findJob ⟨0, m.nextId⟩ = none)
    (hf : m'.findJob jobId = some job') :
    m.findJob jobId = some job' ∨
      (l = .create job' ∧ jobId = ⟨0, m.nextId⟩ ∧ m.findJob jobId = none ∧ job'.id = jobId ∧
        job'.nextUnit = 0 ∧ job'.tasks = [] ∧ job'.render = none) ∨
      (∃ job edit, l = .edit jobId edit ∧ m.findJob jobId = some job ∧ job' = edit job) ∨
      (∃ job tile t units, l = .carve tile t ∧ t.job = jobId ∧ m.findJob jobId = some job ∧
        job' = job.carved t.id tile t.unitCount ∧ job.keyspaceExhausted = false ∧ m.Born t ∧
        t.replicaOf = Id.nil ∧ job.carveStart = some (tile, t.startUnit) ∧
        job.carveCount units t.startUnit = t.unitCount ∧ t.unitCount ≠ 0) ∨
      ∃ job t original, l = .replica t ∧ t.job = jobId ∧ m.findJob jobId = some job ∧
        job' = { job with tasks := job.tasks ++ [t.id] } ∧ m.Born t ∧ t.replicaOf ∈ job.tasks ∧
        m.find t.replicaOf = some original ∧ original.replicaOf = Id.nil ∧
        t.span = original.span := by
  cases h with
  | create job hid hnext htasks hrender =>
      rw [findJob_addJob m job (by rw [hid]; exact hfresh)] at hf
      split at hf
      · rename_i hj
        cases hf
        exact .inr (.inl ⟨rfl, hj.trans hid, by rw [hj, hid]; exact hfresh, hj.symm, hnext,
          htasks, hrender⟩)
      · exact .inl hf
  | edit id edit =>
      rw [findJob_mutableJob] at hf
      split at hf
      · rename_i hj
        obtain ⟨job, hjob, rfl⟩ := Option.map_eq_some_iff.mp hf
        exact .inr (.inr (.inl ⟨job, edit, by rw [hj], hjob, rfl⟩))
      · exact .inl hf
  | carve job tile t units hjob hleft hborn horig hstart hcount hpos =>
      have hf' : (m.mutableJob t.job fun job => job.carved t.id tile t.unitCount).findJob jobId =
          some job' := hf
      rw [findJob_mutableJob] at hf'
      split at hf'
      · rename_i hj
        rw [hj, hjob] at hf'
        cases hf'
        exact .inr (.inr (.inr (.inl ⟨job, tile, t, units, rfl, hj.symm, by rw [hj]; exact hjob,
          rfl, hleft, hborn, horig, hstart, hcount, hpos⟩)))
      · exact .inl hf'
  | replica job original t hjob hmem hfind horig hborn hstart hcount =>
      have hf' : (m.mutableJob t.job fun job =>
          { job with tasks := job.tasks ++ [t.id] }).findJob jobId = some job' := hf
      rw [findJob_mutableJob] at hf'
      split at hf'
      · rename_i hj
        rw [hj, hjob] at hf'
        cases hf'
        exact .inr (.inr (.inr (.inr ⟨job, t, original, rfl, hj.symm, by rw [hj]; exact hjob,
          rfl, hborn, hmem, hfind, horig, by simp only [Task.span, hstart, hcount]⟩)))
      · exact .inl hf'
  | aux _ h => exact .inl ((h.findJob_eq jobId) ▸ hf)
  | mint => exact .inl hf
  | act => exact .inl hf
  | probe => exact .inl hf
  | flush => exact .inl hf

end

end JobManager

end P2pGpu.Coordinator
