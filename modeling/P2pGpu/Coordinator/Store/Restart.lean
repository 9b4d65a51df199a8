import P2pGpu.Coordinator.Store.Durable

namespace P2pGpu.Coordinator

open P2pGpu.Protocol

namespace JobManager

-- What a restart keeps of a manager. The groups, the tiles and the counters of a
-- render have no column, and every task that names a job is in its list.
structure Restored (m m' : JobManager) : Prop where
  next : 0 < m'.nextId
  task : ∀ {id t}, m'.find id = some t → t.id = id ∧ id.lo < m'.nextId ∧
    ∃ o, m.find id = some o ∧ t.job = o.job ∧ t.span = o.span ∧ t.replicaOf = o.replicaOf
  taskKept : ∀ {id o}, m.find id = some o → ∃ t, m'.find id = some t
  job : ∀ {jobId job'}, m'.findJob jobId = some job' → jobId.lo < m'.nextId ∧
    ∃ job, m.findJob jobId = some job ∧ job'.totalUnits = job.totalUnits ∧
      job'.nextUnit = job.nextUnit
  jobKept : ∀ {jobId job}, m.findJob jobId = some job → ∃ job', m'.findJob jobId = some job'
  bare : ∀ {jobId job'}, m'.findJob jobId = some job' → job'.id = jobId ∧ job'.render = none ∧
    job'.unitsPerGroup = 0 ∧ job'.tasks.Nodup ∧
    ∀ id, id ∈ job'.tasks ↔ ∃ o, m.find id = some o ∧ o.job = jobId

-- What of a job has no column and matters all the same: no task is outside its
-- list, its tiles were handed out one after the other, and what is left of it
-- has no boundary inside.
structure Survives (m : JobManager) (jobId : JobId) (job : Job) : Prop where
  fits : job.Fits
  listed : ∀ id t, m.find id = some t → t.job = jobId → id ∈ job.tasks
  filled : ∀ render, job.render = some render → ∃ k,
    (∀ g ∈ job.tileGranted.take k, g = render.samplesPerTile) ∧
      ∀ g ∈ job.tileGranted.drop (k + 1), g = 0
  whole : job.unitsPerGroup ≠ 0 → ¬ ∃ k, job.nextUnit.toNat < k * job.unitsPerGroup.toNat ∧
    k * job.unitsPerGroup.toNat < job.totalUnits.toNat

end JobManager

namespace Durable

open JobManager

variable {m m' : JobManager} {s : Store}

theorem Synced.restored (hs : Synced ⟨m, s⟩) (hclean : m.hasDirty = false) :
    m.Restored (recoverInto {} s.loadAll) := by
  have hdirty : m.dirtyJobs = [] ∧ m.dirtyTasks = [] := by
    simpa [hasDirty] using hclean
  have hnext := Store.nextId_recoverInto {} s
  have hrow : ∀ {id t}, (recoverInto {} s.loadAll).find id = some t →
      ∃ row, s.tasks.lookup id = some row ∧ (s.taskOf id row).recovered = t := by
    intro id t ht
    rw [Store.find_recoverInto, Option.map_eq_some_iff] at ht
    exact ht
  have hjobRow : ∀ {id job}, (recoverInto {} s.loadAll).findJob id = some job →
      ∃ row, s.jobs.lookup id = some row ∧ { row.toJob id with tasks := s.tasksOf id } = job := by
    intro id job hjob
    rw [Store.findJob_recoverInto, Option.map_eq_some_iff] at hjob
    exact hjob
  constructor
  case next => exact hnext.1
  case task =>
    intro id t ht
    obtain ⟨row, hlookup, rfl⟩ := hrow ht
    obtain ⟨o, ho, hjob, hspan, hreplica⟩ := hs.agrees.tasks hlookup
    have hmem : id ∈ s.tasks.keys := AList.mem_keys.mpr (Table.mem_iff_lookup.mpr ⟨row, hlookup⟩)
    exact ⟨rfl, hnext.2.2 id hmem, o, ho, hjob, hspan, hreplica⟩
  case taskKept =>
    intro id o ho
    obtain ⟨row, hlookup⟩ := hs.task ho (hdirty.2 ▸ List.not_mem_nil)
    rw [Store.find_recoverInto, hlookup]
    exact ⟨_, rfl⟩
  case job =>
    intro id job' hjob'
    obtain ⟨row, hlookup, rfl⟩ := hjobRow hjob'
    obtain ⟨job, hjob, htotal⟩ := hs.agrees.jobs hlookup
    obtain ⟨row', hlookup', hcursor⟩ := hs.job hjob (hdirty.1 ▸ List.not_mem_nil)
    have hmem : id ∈ s.jobs.keys := AList.mem_keys.mpr (Table.mem_iff_lookup.mpr ⟨row, hlookup⟩)
    rw [hlookup] at hlookup'
    cases hlookup'
    exact ⟨hnext.2.1 id hmem, job, hjob, htotal, hcursor⟩
  case jobKept =>
    intro id job hjob
    obtain ⟨row, hlookup, -⟩ := hs.job hjob (hdirty.1 ▸ List.not_mem_nil)
    rw [Store.findJob_recoverInto, hlookup]
    exact ⟨_, rfl⟩
  case bare =>
    intro id job' hjob'
    obtain ⟨row, hlookup, rfl⟩ := hjobRow hjob'
    refine ⟨rfl, rfl, rfl, Store.nodup_tasksOf s id, fun i => ?_⟩
    rw [Store.mem_tasksOf]
    constructor
    · rintro ⟨row', hlookup', hown⟩
      obtain ⟨o, ho, hjob, -⟩ := hs.agrees.tasks hlookup'
      exact ⟨o, ho, hjob.symm.trans hown⟩
    · rintro ⟨o, ho, hown⟩
      obtain ⟨row', hlookup'⟩ := hs.task ho (hdirty.2 ▸ List.not_mem_nil)
      obtain ⟨o', ho', hjob, -⟩ := hs.agrees.tasks hlookup'
      rw [ho] at ho'
      cases ho'
      exact ⟨row', hlookup', hjob.trans hown⟩

end Durable

namespace JobManager

variable {m m' : JobManager} {good : JobId → Prop} {jobId : JobId} {job job' : Job}

namespace Restored

theorem minted (h : m.Restored m') (hm : m.Minted) : m'.Minted where
  pos := h.next
  task := by
    intro id t ht
    obtain ⟨hid, hlt, o, ho, -⟩ := h.task ht
    obtain ⟨-, n, hpos, -, rfl⟩ := hm.task ho
    exact ⟨hid, n, hpos, hlt, rfl⟩

theorem originalSpan (h : m.Restored m') (id : TaskId) :
    m'.originalSpan id = m.originalSpan id := by
  unfold JobManager.originalSpan
  cases ho : m.find id with
  | none =>
      cases ht : m'.find id with
      | none => rfl
      | some t =>
          obtain ⟨-, -, o, ho', -⟩ := h.task ht
          rw [ho] at ho'
          cases ho'
  | some o =>
      obtain ⟨t, ht⟩ := h.taskKept ho
      obtain ⟨-, -, o', ho', -, hspan, hreplica⟩ := h.task ht
      rw [ho] at ho'
      cases ho'
      rw [ht]
      simp only [Option.bind_some, hspan, hreplica]

-- The list of a job that survives holds the same tasks, in some order.
theorem tasks_perm (h : m.Restored m') (hp : m.Partition good)
    (hjob : m.findJob jobId = some job) (hjob' : m'.findJob jobId = some job')
    (hsurvives : m.Survives jobId job) : job.tasks.Perm job'.tasks := by
  obtain ⟨-, -, -, hnodup, hmem⟩ := h.bare hjob'
  refine (List.perm_ext_iff_of_nodup (hp.nodup hjob) hnodup).mpr fun id => ?_
  rw [hmem]
  constructor
  · intro hid
    obtain ⟨o, ho, hlisted⟩ := hp.listed hjob hid
    exact ⟨o, ho, hlisted.own⟩
  · rintro ⟨o, ho, hown⟩
    exact hsurvives.listed id o ho hown

theorem carvedUnits (h : m.Restored m') (hcarvable : job.Carvable)
    (hjob : m.findJob jobId = some job) (hjob' : m'.findJob jobId = some job')
    (hsurvives : m.Survives jobId job) : job'.carvedUnits = job.carvedUnits := by
  obtain ⟨-, old, hold, -, hnext⟩ := h.job hjob'
  rw [hjob] at hold
  cases hold
  obtain ⟨-, hrender, -⟩ := h.bare hjob'
  cases hr : job.render with
  | none => simp only [Job.carvedUnits, hrender, hr, hnext]
  | some render =>
      obtain ⟨k, hfull, hnone⟩ := hsurvives.filled render hr
      have ht := hcarvable.tiled hr
      have hlevels : prefixes render.samplesPerTile.toNat (job.tileGranted.map UInt64.toNat) =
          Set.Iio (job.tileGranted.map UInt64.toNat).sum := by
        refine prefixes.eq_iio (k := k) ?_ ?_
        · intro a ha
          rw [← List.map_take] at ha
          obtain ⟨g, hg, rfl⟩ := List.mem_map.mp ha
          rw [hfull g hg]
        · intro a ha
          rw [← List.map_drop] at ha
          obtain ⟨g, hg, rfl⟩ := List.mem_map.mp ha
          rw [hnone g hg]
          rfl
      simp only [Job.carvedUnits, hrender, hr, hlevels, hnext, ht.sum]

-- The partition of a job outlives a restart that the job survives.
theorem partition (h : m.Restored m') (hp : m.Partition good)
    (hgood : ∀ jobId job, good jobId → m.findJob jobId = some job → m.Survives jobId job) :
    m'.Partition good where
  jobId := by
    intro jobId job' hjob'
    obtain ⟨hlt, job, hjob, -⟩ := h.job hjob'
    obtain ⟨n, -, rfl⟩ := hp.jobId hjob
    exact ⟨n, hlt, rfl⟩
  owner := by
    intro id t ht
    obtain ⟨-, -, o, ho, hown, -⟩ := h.task ht
    obtain ⟨job, hjob⟩ := hp.owner ho
    rw [hown]
    exact h.jobKept hjob
  nonempty := by
    intro id t ht
    obtain ⟨-, -, o, ho, -, hspan, -⟩ := h.task ht
    rw [hspan]
    exact hp.nonempty ho
  family := by
    intro id t ht hne
    obtain ⟨-, -, o, ho, hown, hspan, hreplica⟩ := h.task ht
    rw [hreplica] at hne ⊢
    obtain ⟨p, hfind, horig, hjob, hsame⟩ := hp.family ho hne
    obtain ⟨q, hq⟩ := h.taskKept hfind
    obtain ⟨-, -, p', hp', hown', hspan', hreplica'⟩ := h.task hq
    rw [hfind] at hp'
    cases hp'
    exact ⟨q, hq, hreplica'.trans horig, hown'.trans (hjob.trans hown.symm),
      hspan'.trans (hsame.trans hspan.symm)⟩
  nodup hjob' := (h.bare hjob').2.2.2.1
  listed := by
    intro jobId job' id hjob' hid
    obtain ⟨-, -, hgroup, -, hmem⟩ := h.bare hjob'
    obtain ⟨o, ho, hown⟩ := (hmem id).mp hid
    obtain ⟨t, ht⟩ := h.taskKept ho
    obtain ⟨-, -, o', ho', hown', hspan, hreplica⟩ := h.task ht
    rw [ho] at ho'
    cases ho'
    refine ⟨t, ht, hown'.trans hown, ?_⟩
    rw [hgroup]
    exact fun hne => absurd rfl hne
  tiles := by
    intro jobId job' hg hjob' _
    obtain ⟨-, job, hjob, htotal, hnext⟩ := h.job hjob'
    obtain ⟨-, hrender, -⟩ := h.bare hjob'
    have hsurvives := hgood jobId job hg hjob
    obtain ⟨hcarvable, htiles⟩ := hp.tiles hg hjob hsurvives.fits
    refine ⟨⟨?_, fun hr => by rw [hrender] at hr; cases hr⟩, ?_⟩
    · rw [htotal, hnext]
      exact hcarvable.bound
    · rw [h.carvedUnits hcarvable hjob hjob' hsurvives]
      have hspans : m'.spans job' = job'.tasks.filterMap m.originalSpan :=
        List.filterMap_congr fun id _ => h.originalSpan id
      rw [hspans]
      exact htiles.perm ((h.tasks_perm hp hjob hjob' hsurvives).filterMap _)

end Restored

-- What later grants make of a manager `m`: one job of it is carved further.
structure CarvedFurther (m : JobManager) (jobId : JobId) (total : UInt64) (n : JobManager) :
    Prop where
  minted : n.Minted
  partition : n.Partition (· = jobId)
  job : ∃ job, n.findJob jobId = some job ∧ job.totalUnits = total ∧ job.render = none
  listed : ∀ {id t job}, n.find id = some t → t.job = jobId → n.findJob jobId = some job →
    id ∈ job.tasks
  kept : ∀ {id t}, m.find id = some t →
    ∃ t', n.find id = some t' ∧ t'.job = t.job ∧ t'.span = t.span ∧ t'.replicaOf = t.replicaOf
  fresh : ∀ {id t}, n.find id = some t → m.find id = none → t.replicaOf = Id.nil

def IsGrant {F : Type} : Operation F → Prop
  | .grant _ _ _ _ _ => True
  | _ => False

namespace CarvedFurther

variable {n n' : JobManager} {l : Label} {total : UInt64} {id : TaskId} {t : Task}

-- The moves of a grant: none enters a probe or a replica.
theorem move (hc : m.CarvedFurther jobId total n) (h : Move n l n') {worker : WorkerId}
    {deadline : UInt64} (hl : l.grants worker deadline .plain) :
    m.CarvedFurther jobId total n' := by
  have hseeds : n.SeedsOnly l := by cases l <;> trivial
  have hprobe : ∀ u, l ≠ .probe u := by
    rintro u rfl
    cases hl.2
  have hpart := hc.partition.move hc.minted h hseeds
  obtain ⟨job, hjob, htotal, hrender⟩ := hc.job
  obtain ⟨job', hjob'⟩ := h.findJob_mono hc.partition.fresh hjob
  have hsame : job'.totalUnits = job.totalUnits ∧ job'.render = job.render ∧
      job.tasks ⊆ job'.tasks := by
    rcases h.findJob_some hc.partition.fresh hjob' with hold | ⟨-, -, hnone, -⟩ |
      ⟨_, _, rfl, -⟩ | ⟨old, tile, u, units, -, -, hold, rfl, -⟩ |
      ⟨old, u, original, -, -, hold, rfl, -⟩
    · rw [hjob] at hold
      cases hold
      exact ⟨rfl, rfl, List.Subset.refl _⟩
    · rw [hjob] at hnone
      cases hnone
    · exact hl.elim
    · rw [hjob] at hold
      cases hold
      exact ⟨rfl, rfl, List.subset_append_left _ _⟩
    · rw [hjob] at hold
      cases hold
      exact ⟨rfl, rfl, List.subset_append_left _ _⟩
  refine ⟨h.minted hc.minted, hpart, ⟨job', hjob', hsame.1.trans htotal,
    hsame.2.1.trans hrender⟩, ?_, ?_, ?_⟩
  · intro id t j hf hown hj
    rw [hjob'] at hj
    cases hj
    rcases h.find_eq hc.minted id with ⟨heq, -⟩ | ⟨a, u, u', -, hu, hr, -, hf'⟩ |
      ⟨u, he, -, hid, -, hf'⟩
    · exact hsame.2.2 (hc.listed (heq ▸ hf) hown hjob)
    · rw [hf] at hf'
      cases hf'
      exact hsame.2.2 (hc.listed hu ((Act.result_shape hr).2.1.symm.trans hown) hjob)
    · rw [hf] at hf'
      cases hf'
      obtain ⟨j, hj, hmem⟩ := h.entered_listed he (hprobe _)
      rw [hown, hjob'] at hj
      cases hj
      exact hid ▸ hmem
  · intro id t hf
    obtain ⟨u, hu, hown, hspan, hreplica⟩ := hc.kept hf
    obtain ⟨u', hu', hown', hspan', hreplica'⟩ := Partition.find_shape hc.minted h hu
    exact ⟨u', hu', hown'.trans hown, hspan'.trans hspan, hreplica'.trans hreplica⟩
  · intro id t hf hnone
    rcases h.find_eq hc.minted id with ⟨heq, -⟩ | ⟨a, u, u', -, hu, hr, -, hf'⟩ |
      ⟨u, he, -, -, -, hf'⟩
    · exact hc.fresh (heq ▸ hf) hnone
    · rw [hf] at hf'
      cases hf'
      exact (Act.result_shape hr).2.2.2.trans (hc.fresh hu hnone)
    · rw [hf] at hf'
      cases hf'
      cases h with
      | carve _ _ _ _ _ _ _ horig => cases he; exact horig
      | probe => exact absurd rfl (hprobe _)
      | replica => cases hl.2
      | create => cases he
      | edit => cases he
      | mint => cases he
      | act => cases he
      | aux => cases he
      | flush => cases he

theorem run {F : Type} [Double F] (hc : m.CarvedFurther jobId total n)
    (h : Reach Step (fun _ (o : Operation F) => IsGrant o) n n') :
    m.CarvedFurther jobId total n' := by
  refine h.invariant _ hc fun p o q hp ho hstep => ?_
  cases o with
  | grant worker nowMs leaseMs units cached =>
      have hmoves := (grant_grants p worker nowMs leaseMs units cached).moves
      have hrun : m.CarvedFurther jobId total (Operation.run p
          (.grant worker nowMs leaseMs units cached : Operation F)) :=
        hmoves.invariant _ hp fun _ _ _ hi hg hmove => hi.move hmove hg
      have haux : Label.grants worker 0 .plain .aux := trivial
      exact hrun.move (Move.aux _ _ hstep.sameRows) haux
  | _ => exact ho.elim

theorem fits (hc : m.CarvedFurther jobId total n) (hjob : n.findJob jobId = some job) :
    job.Fits := by
  obtain ⟨job', hjob', -, hrender⟩ := hc.job
  rw [hjob] at hjob'
  cases hjob'
  intro render hr
  rw [hrender] at hr
  cases hr

-- What was carved since meets no other task of the job. A replica stands where
-- its original does.
theorem fresh_disjoint (hc : m.CarvedFurther jobId total n) (hp : m.Partition good)
    (hf : n.find id = some t) (hown : t.job = jobId) (hnone : m.find id = none) {i : TaskId}
    {u : Task} (hu : n.find i = some u) (huown : u.job = jobId) (hne : i ≠ id) :
    Disjoint t.span.units u.span.units := by
  obtain ⟨job, hjob, -⟩ := hc.job
  have hmem := hc.listed hf hown hjob
  have horig := hc.fresh hf hnone
  by_cases hu' : u.replicaOf = Id.nil
  · exact hc.partition.disjoint rfl hjob (hc.fits hjob) hmem (hc.listed hu huown hjob) hne.symm
      hf hu horig hu'
  · obtain ⟨o, ho, hoorig, hojob, hospan⟩ := hc.partition.family hu hu'
    have hold : u.replicaOf ≠ id := by
      rintro rfl
      cases hi : m.find i with
      | none => exact hu' (hc.fresh hu hi)
      | some w =>
          obtain ⟨w', hw', -, -, hreplica⟩ := hc.kept hi
          rw [hu] at hw'
          cases hw'
          rw [hreplica] at hu' hnone
          obtain ⟨p, hfind, -⟩ := hp.family hi hu'
          rw [hnone] at hfind
          cases hfind
    rw [← hospan]
    exact hc.partition.disjoint rfl hjob (hc.fits hjob) hmem
      (hc.listed ho (hojob.trans huown) hjob) hold.symm hf ho horig hoorig

-- It lies between the cursor of then and the end.
theorem fresh_between (hc : m.CarvedFurther jobId total n) (hp : m.Partition (· = jobId))
    (hjob : m.findJob jobId = some job) (hrender : job.render = none)
    (hf : n.find id = some t) (hown : t.job = jobId) (hnone : m.find id = none) :
    job.nextUnit.toNat ≤ t.span.start ∧ t.span.start + t.span.count ≤ total.toNat := by
  have hpos := hc.partition.nonempty hf
  have hfits : job.Fits := fun render hr => by rw [hrender] at hr; cases hr
  obtain ⟨job', hjob', htotal, hrender'⟩ := hc.job
  constructor
  · by_contra hlt
    have hcover := (hp.tiles rfl hjob hfits).2.cover t.span.start
    simp only [Job.carvedUnits, hrender, Set.mem_Iio] at hcover
    obtain ⟨s, hs, hin⟩ := hcover.mpr (by omega)
    rw [spans_eq] at hs
    obtain ⟨o, ho, rfl⟩ := List.mem_map.mp hs
    obtain ⟨ho, -⟩ := List.mem_filter.mp ho
    obtain ⟨i, hi, hfind⟩ := List.mem_filterMap.mp ho
    obtain ⟨u, hu, huown, huspan, -⟩ := hc.kept hfind
    have hne : i ≠ id := by
      rintro rfl
      rw [hnone] at hfind
      cases hfind
    have hjobOf := (hp.member hjob hi hfind).own
    have hdisjoint := hc.fresh_disjoint hp hf hown hnone hu (huown.trans hjobOf) hne
    rw [huspan] at hdisjoint
    exact Set.disjoint_left.mp hdisjoint ⟨Nat.le_refl _, by omega⟩ hin
  · obtain ⟨hcarvable, htiles⟩ := hc.partition.tiles rfl hjob' (hc.fits hjob')
    have hspan : t.span ∈ n.spans job' := by
      rw [spans, List.mem_filterMap]
      refine ⟨id, hc.listed hf hown hjob', ?_⟩
      simp [originalSpan, hf, hc.fresh hf hnone]
    have hlast : t.span.start + t.span.count - 1 ∈ t.span.units := ⟨by omega, by omega⟩
    have hin := htiles.subset hspan hlast
    simp only [Job.carvedUnits, hrender', Set.mem_Iio] at hin
    have hbound := UInt64.le_iff_toNat_le.mp hcarvable.bound
    rw [htotal] at hbound
    omega

-- At the end of the keyspace nothing of it is left out.
theorem exhausted (hc : m.CarvedFurther jobId total n) (hjob : n.findJob jobId = some job)
    (hend : job.keyspaceExhausted = true) (u : Nat) :
    (∃ t ∈ n.originals job, u ∈ t.span.units) ↔ u < total.toNat := by
  obtain ⟨job', hjob', htotal, -⟩ := hc.job
  rw [hjob] at hjob'
  cases hjob'
  obtain ⟨hcarvable, htiles⟩ := hc.partition.tiles rfl hjob (hc.fits hjob)
  rw [mem_originals_units, htiles.cover, hcarvable.carvedUnits_exhausted hend, htotal]
  rfl

end CarvedFurther

end JobManager

namespace Durable

open JobManager

section

variable {F : Type} [Double F] {good : JobId → Prop} {d d' : Durable} {e : Event F}

-- The marks of dirty rows are cleared by a flush alone, and a restart finds none
-- and finds the jobs in question fit for it.
def Kept (good : JobId → Prop) (d : Durable) : Event F → Prop
  | .operation o => KeepsShape o ∧ o ≠ .clearDirty
  | .flush => True
  | .restart => d.jobs.hasDirty = false ∧ ∀ jobId job, good jobId →
      d.jobs.findJob jobId = some job → d.jobs.Survives jobId job

structure Sound (good : JobId → Prop) (d : Durable) : Prop where
  minted : d.jobs.Minted
  partition : d.jobs.Partition good
  synced : d.Synced

theorem Synced.restart {m m' : JobManager} {s : Store} (hs : Synced ⟨m, s⟩)
    (hr : m.Restored m') (hclean : m.hasDirty = false) : Synced ⟨m', s⟩ := by
  have hdirty : m.dirtyJobs = [] ∧ m.dirtyTasks = [] := by
    simpa [hasDirty] using hclean
  constructor
  case jobId => exact fun hf => (hr.bare hf).1
  case agrees =>
    constructor
    · intro id row hrow
      obtain ⟨job, hjob, htotal⟩ := hs.agrees.jobs hrow
      obtain ⟨job', hjob'⟩ := hr.jobKept hjob
      obtain ⟨-, old, hold, htotal', -⟩ := hr.job hjob'
      rw [hjob] at hold
      cases hold
      exact ⟨job', hjob', htotal.trans htotal'.symm⟩
    · intro id row hrow
      obtain ⟨o, ho, hjob, hspan, hreplica⟩ := hs.agrees.tasks hrow
      obtain ⟨t, ht⟩ := hr.taskKept ho
      obtain ⟨-, -, o', ho', hjob', hspan', hreplica'⟩ := hr.task ht
      rw [ho] at ho'
      cases ho'
      exact ⟨t, ht, hjob.trans hjob'.symm, hspan.trans hspan'.symm,
        hreplica.trans hreplica'.symm⟩
  case job =>
    intro id job hf _
    obtain ⟨-, old, hold, -, hnext⟩ := hr.job hf
    obtain ⟨row, hrow, hcursor⟩ := hs.job hold (hdirty.1 ▸ List.not_mem_nil)
    exact ⟨row, hrow, hcursor.trans hnext.symm⟩
  case task =>
    intro id t hf _
    obtain ⟨-, -, o, ho, -⟩ := hr.task hf
    exact hs.task ho (hdirty.2 ▸ List.not_mem_nil)

theorem Sound.next (hs : Sound good d) (hg : Kept good d e) : Sound good (d.next e) := by
  cases e with
  | operation o =>
      have hmoves := run_seeds hg.1 hs.partition.fresh
      have hinv := hmoves.invariant
        (fun n => n.Minted ∧ n.Partition good ∧ Synced ⟨n, d.store⟩)
        ⟨hs.minted, hs.partition, hs.synced⟩ fun n l _ hi hguard hmove =>
          ⟨hmove.minted hi.1, hi.2.1.move hi.1 hmove hguard.1,
            hi.2.2.move hi.1 hi.2.1 hmove hguard.1 (hguard.2.2 hg.2)⟩
      exact ⟨hinv.1, hinv.2.1, hinv.2.2⟩
  | flush =>
      have hmove := Move.flush d.jobs
      exact ⟨hmove.minted hs.minted, hs.partition.move hs.minted hmove trivial,
        hs.synced.flush hs.minted⟩
  | restart =>
      have hr := hs.synced.restored hg.1
      exact ⟨hr.minted hs.minted, hr.partition hs.partition hg.2, hs.synced.restart hr hg.1⟩

theorem Sound.step (hs : Sound good d) (hg : Kept good d e) (h : Step d e d') :
    Sound good d' := by
  have hnext := hs.next hg
  have hrows := Move.aux _ _ h.1.sameRows
  exact ⟨hrows.minted hnext.minted, hnext.partition.move hnext.minted hrows trivial,
    hnext.synced.reorder h.1.sameRows h.2⟩

theorem Sound.empty : Sound good {} := ⟨Minted.empty, Partition.empty, Synced.empty⟩

theorem run_sound (h : Reach Step (fun d (e : Event F) => Kept good d e) {} d) : Sound good d :=
  h.invariant _ Sound.empty fun _ _ _ hs hg hstep => hs.step hg hstep

end

end Durable

namespace JobManager

-- What is asked of the grants that follow a restart, of one job.
structure Refines (restarted n : JobManager) (jobId : JobId) (job : Job) : Prop where
  fresh : ∀ id t, n.find id = some t → t.job = jobId → restarted.find id = none →
    ∀ i u, n.find i = some u → u.job = jobId → i ≠ id → Disjoint t.span.units u.span.units
  exhausted : ∀ job', n.findJob jobId = some job' → job'.keyspaceExhausted = true →
    ∀ u, (∃ t ∈ n.originals job', u ∈ t.span.units) ↔ u < job.totalUnits.toNat
  uncrossed : ∀ id t, n.find id = some t → t.job = jobId → Uncrossed job t

theorem CarvedFurther.refines {m restarted n : JobManager} {good : JobId → Prop} {jobId : JobId}
    {job job' : Job} (hc : restarted.CarvedFurther jobId job.totalUnits n)
    (hr : m.Restored restarted) (hm : m.Partition good) (hp : restarted.Partition (· = jobId))
    (hjob : m.findJob jobId = some job) (hjob' : restarted.findJob jobId = some job')
    (hsurvives : m.Survives jobId job) : restarted.Refines n jobId job where
  fresh id t hf hown hnone i u hu huown hne := hc.fresh_disjoint hp hf hown hnone hu huown hne
  exhausted job' hjob' hend u := hc.exhausted hjob' hend u
  uncrossed := by
    intro id t hf hown
    cases hnone : restarted.find id with
    | some t₀ =>
        obtain ⟨t', ht', hown', hspan', -⟩ := hc.kept hnone
        rw [hf] at ht'
        cases ht'
        obtain ⟨-, -, o, ho, hjobOf, hspan, -⟩ := hr.task hnone
        have hown₀ : o.job = jobId := hjobOf.symm.trans (hown'.symm.trans hown)
        have hlisted := hm.member hjob (hsurvives.listed id o ho hown₀) ho
        refine uncrossed_of_within ?_
        rw [hspan', hspan]
        exact hlisted.within
    | none =>
        obtain ⟨-, old, hold, -, hnext⟩ := hr.job hjob'
        rw [hjob] at hold
        cases hold
        obtain ⟨hlo, hhi⟩ := hc.fresh_between hp hjob' (hr.bare hjob').2.1 hf hown hnone
        rintro hne ⟨k, hstart, hend⟩
        simp only [Task.span, hnext] at hlo hhi
        exact hsurvives.whole hne ⟨k, by omega, by omega⟩

end JobManager

namespace Durable

open JobManager

section

variable {F : Type} [Double F] {d : Durable} {jobId : JobId} {job : Job}

-- A job that survives is carved after the restart as it would have been without.
theorem restart_refines (h : Reach Step (fun d (e : Event F) => Kept (· = jobId) d e) {} d)
    (hclean : d.jobs.hasDirty = false) (hjob : d.jobs.findJob jobId = some job)
    (hsurvives : d.jobs.Survives jobId job) :
    (∃ job', (recoverInto {} d.store.loadAll).findJob jobId = some job' ∧
      job.tasks.Perm job'.tasks) ∧
    ∀ n, Reach JobManager.Step (fun _ (o : Operation F) => IsGrant o)
        (recoverInto {} d.store.loadAll) n →
      (recoverInto {} d.store.loadAll).Refines n jobId job := by
  have hs : Sound (· = jobId) d := run_sound h
  have hr := hs.synced.restored hclean
  have hgood : ∀ j k, j = jobId → d.jobs.findJob j = some k → d.jobs.Survives j k := by
    rintro j k rfl hk
    rw [hjob] at hk
    cases hk
    exact hsurvives
  have hp := hr.partition hs.partition hgood
  obtain ⟨job', hjob'⟩ := hr.jobKept hjob
  refine ⟨⟨job', hjob', hr.tasks_perm hs.partition hjob hjob' hsurvives⟩, fun n hn => ?_⟩
  obtain ⟨-, old, hold, htotal, -⟩ := hr.job hjob'
  rw [hjob] at hold
  cases hold
  have hstart : (recoverInto {} d.store.loadAll).CarvedFurther jobId job.totalUnits
      (recoverInto {} d.store.loadAll) := by
    refine ⟨hr.minted hs.minted, hp, ⟨job', hjob', htotal, (hr.bare hjob').2.1⟩, ?_, ?_, ?_⟩
    · intro id t k hf hown hk
      obtain ⟨-, -, o, ho, hjobOf, -⟩ := hr.task hf
      exact ((hr.bare hk).2.2.2.2 id).mpr ⟨o, ho, hjobOf.symm.trans hown⟩
    · exact fun hf => ⟨_, hf, rfl, rfl, rfl⟩
    · intro id t hf hnone
      rw [hf] at hnone
      cases hnone
  exact (hstart.run hn).refines hr hs.partition hp hjob hjob' hsurvives

def runAll (d : Durable) (events : List (Event F)) : Durable := events.foldl next d

theorem step_next (d : Durable) (e : Event F) : Step d e (d.next e) :=
  ⟨Rehashed.refl _, Store.Reordered.refl _⟩

end

-- A keyspace of eight units, half of it leased when the rows are flushed.
def keyspaceRun : List (Event Rat) :=
  [.operation (.createJob "brute_search_v1" 8 42 0), .operation (.grant ⟨1, 1⟩ 0 10 4 []), .flush]

def keyspaceJob : Job :=
  { id := ⟨0, 1⟩, kernelId := "brute_search_v1", seed := 42, totalUnits := 8, nextUnit := 4
    unitsPerGroup := 0, tasks := [⟨0, 2⟩] }

theorem restart_refines_keyspace :
    let m := recoverInto {} ((runAll {} keyspaceRun).store.loadAll)
    let n := m.runAll ([.grant ⟨2, 2⟩ 20 10 4 [], .grant ⟨2, 2⟩ 20 10 9 []] : List (Operation Rat))
    (n.find ⟨0, 3⟩).map Task.span = some ⟨4, 4⟩ ∧ m.Refines n ⟨0, 1⟩ keyspaceJob := by
  refine ⟨by decide, (restart_refines (F := Rat) (Reach.foldl step_next keyspaceRun ?_)
    (by decide) (by decide) ?_).2 _ (JobManager.reach_runAll _ _ ?_)⟩
  · intro e he d
    simp only [keyspaceRun, List.mem_cons, List.not_mem_nil, or_false] at he
    rcases he with rfl | rfl | rfl
    · exact ⟨trivial, nofun⟩
    · exact ⟨trivial, nofun⟩
    · trivial
  · refine ⟨nofun, ?_, nofun, fun hne => absurd rfl hne⟩
    have hall : ∀ e ∈ (runAll {} keyspaceRun).jobs.tasks.entries, e.1 ∈ keyspaceJob.tasks := by
      decide
    exact fun id t ht _ => hall _ (Table.mem_entries_iff.mpr ht)
  · intro o ho n
    simp only [List.mem_cons, List.not_mem_nil, or_false] at ho
    rcases ho with rfl | rfl <;> trivial

-- Two tiles of four samples, two samples of each handed out when the rows are
-- flushed. After the restart the cursor stands at four, where the second tile starts.
def halfRenderRun : List (Event Rat) :=
  let grid : TileGrid := ⟨128, 64, 64, 64⟩
  let camera : Camera := ⟨(0, 0, 0), (0, 0, 0), (0, 0, 0), (0, 0, 0)⟩
  let render : RenderConfig :=
    { grid, samplesPerTile := 4, camera, nodeCount := 1, primCount := 1, materialCount := 1 }
  [.operation (.seedRender render []), .operation (.grant ⟨1, 1⟩ 0 10 2 []),
    .operation (.grant ⟨1, 1⟩ 0 10 2 []), .flush]

theorem restart_carves_again : ¬ ∀ d : Durable,
    Reach Step (fun d (e : Event Rat) => Kept (fun _ => False) d e) {} d →
      d.jobs.hasDirty = false → ∀ jobId job, d.jobs.findJob jobId = some job →
        (∃ job', (recoverInto {} d.store.loadAll).findJob jobId = some job' ∧
          job.tasks.Perm job'.tasks) ∧
        ∀ n, Reach JobManager.Step (fun _ (o : Operation Rat) => IsGrant o)
            (recoverInto {} d.store.loadAll) n →
          (recoverInto {} d.store.loadAll).Refines n jobId job := by
  intro h
  have hrun : Reach Step (fun d (e : Event Rat) => Kept (fun _ => False) d e) {}
      (runAll {} halfRenderRun) := by
    refine Reach.foldl step_next halfRenderRun ?_
    intro e he d
    simp only [halfRenderRun, List.mem_cons, List.not_mem_nil, or_false] at he
    rcases he with rfl | rfl | rfl | rfl
    · exact ⟨trivial, nofun⟩
    · exact ⟨trivial, nofun⟩
    · exact ⟨trivial, nofun⟩
    · trivial
  obtain ⟨job, hjob⟩ : ∃ job, (runAll {} halfRenderRun).jobs.findJob ⟨0, 1⟩ = some job :=
    ⟨_, rfl⟩
  let m := recoverInto {} (runAll {} halfRenderRun).store.loadAll
  let grants : List (Operation Rat) :=
    [.grant ⟨2, 2⟩ 20 10 4 [], .grant ⟨2, 2⟩ 20 10 4 [], .grant ⟨2, 2⟩ 20 10 4 []]
  have hgrants : Reach JobManager.Step (fun _ (o : Operation Rat) => IsGrant o) m
      (m.runAll grants) := by
    refine JobManager.reach_runAll grants m ?_
    intro o ho n
    simp only [grants, List.mem_cons, List.not_mem_nil, or_false] at ho
    rcases ho with rfl | rfl | rfl <;> trivial
  have hfresh := ((h _ hrun (by decide) ⟨0, 1⟩ job hjob).2 _ hgrants).fresh
  have hnew : ((m.runAll grants).find ⟨0, 4⟩).map (fun t => (t.job, t.span)) =
      some (⟨0, 1⟩, ⟨4, 4⟩) := by decide
  have hold : ((m.runAll grants).find ⟨0, 3⟩).map (fun t => (t.job, t.span)) =
      some (⟨0, 1⟩, ⟨4, 2⟩) := by decide
  obtain ⟨t, ht, htspan⟩ := Option.map_eq_some_iff.mp hnew
  obtain ⟨u, hu, huspan⟩ := Option.map_eq_some_iff.mp hold
  simp only [Prod.mk.injEq] at htspan huspan
  have hdisjoint := hfresh ⟨0, 4⟩ t ht htspan.1 (by decide) ⟨0, 3⟩ u hu huspan.1 (by decide)
  rw [htspan.2, huspan.2, Set.disjoint_left] at hdisjoint
  have hnot := @hdisjoint 4 ⟨by decide, by decide⟩
  exact hnot ⟨by decide, by decide⟩

end Durable

end P2pGpu.Coordinator
