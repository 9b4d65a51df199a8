import P2pGpu.Coordinator.Job.Partition
import P2pGpu.Coordinator.Store.Recovery

namespace P2pGpu.Coordinator

open P2pGpu.Protocol

-- What of a task never changes, as it stands in its row.
def TaskRow.Shape (row : TaskRow) (t : Task) : Prop :=
  row.job = t.job ∧ Span.mk row.startUnit.toNat row.unitCount.toNat = t.span ∧
    row.replicaOf = t.replicaOf

namespace Store

variable {s : Store} {m : JobManager}

-- Every row is the row of a job or of a task in memory.
structure Agrees (s : Store) (m : JobManager) : Prop where
  jobs : ∀ {id row}, s.jobs.lookup id = some row →
    ∃ job, m.findJob id = some job ∧ row.totalUnits = job.totalUnits
  tasks : ∀ {id row}, s.tasks.lookup id = some row → ∃ t, m.find id = some t ∧ row.Shape t

-- The row of a job, up to date.
def HasJob (s : Store) (id : JobId) (job : Job) : Prop :=
  ∃ row, s.jobs.lookup id = some row ∧ row.nextUnit = job.nextUnit

def HasTask (s : Store) (id : TaskId) : Prop := ∃ row, s.tasks.lookup id = some row

theorem lookup_upsertJob (s : Store) (job : Job) (id : JobId) :
    (s.upsertJob job).jobs.lookup id =
      if id = job.id then
        some ((s.jobs.lookup id).elim job.toRow fun row => { row with nextUnit := job.nextUnit })
      else s.jobs.lookup id :=
  Table.lookup_upsert _ _ _ _ _

theorem lookup_upsertTask (s : Store) (task : Task) (id : TaskId) :
    (s.upsertTask task).tasks.lookup id =
      if id = task.id then
        some ((s.tasks.lookup id).elim task.toRow fun row =>
          { row with state := task.state.toUInt64 })
      else s.tasks.lookup id :=
  Table.lookup_upsert _ _ _ _ _

namespace Agrees

theorem upsertJob (h : s.Agrees m) {job : Job} (hjob : m.findJob job.id = some job) :
    (s.upsertJob job).Agrees m where
  jobs := by
    intro id row hrow
    rw [lookup_upsertJob] at hrow
    split at hrow
    · rename_i hid
      rw [hid]
      refine ⟨job, hjob, ?_⟩
      cases hold : s.jobs.lookup id with
      | none =>
          rw [hold] at hrow
          cases hrow
          rfl
      | some old =>
          obtain ⟨job', hjob', htotal⟩ := h.jobs hold
          rw [hid, hjob] at hjob'
          rw [hold] at hrow
          cases hrow
          cases hjob'
          exact htotal
    · exact h.jobs hrow
  tasks := h.tasks

theorem upsertTask (h : s.Agrees m) {t : Task} (ht : m.find t.id = some t) :
    (s.upsertTask t).Agrees m where
  jobs := h.jobs
  tasks := by
    intro id row hrow
    rw [lookup_upsertTask] at hrow
    split at hrow
    · rename_i hid
      rw [hid]
      refine ⟨t, ht, ?_⟩
      cases hold : s.tasks.lookup id with
      | none =>
          rw [hold] at hrow
          cases hrow
          exact ⟨rfl, rfl, rfl⟩
      | some old =>
          obtain ⟨t', ht', hshape⟩ := h.tasks hold
          rw [hid, ht] at ht'
          rw [hold] at hrow
          cases hrow
          cases ht'
          exact hshape
    · exact h.tasks hrow

theorem upsertJobs (jobs : List Job) (h : s.Agrees m)
    (hjobs : ∀ job ∈ jobs, m.findJob job.id = some job) :
    (jobs.foldl Store.upsertJob s).Agrees m := by
  induction jobs generalizing s with
  | nil => exact h
  | cons job jobs ih =>
      have hone := h.upsertJob (hjobs job List.mem_cons_self)
      exact ih hone fun j hj => hjobs j (List.mem_cons_of_mem _ hj)

theorem upsertTasks (tasks : List Task) (h : s.Agrees m)
    (htasks : ∀ t ∈ tasks, m.find t.id = some t) :
    (tasks.foldl Store.upsertTask s).Agrees m := by
  induction tasks generalizing s with
  | nil => exact h
  | cons t tasks ih =>
      have hone := h.upsertTask (htasks t List.mem_cons_self)
      exact ih hone fun u hu => htasks u (List.mem_cons_of_mem _ hu)

end Agrees

section Flush

variable {id : JobId} {job : Job} {i : TaskId}

theorem HasJob.upsertJob {j : Job} (hj : id = j.id → j = job) (h : s.HasJob id job ∨ id = j.id) :
    (s.upsertJob j).HasJob id job := by
  unfold HasJob
  rw [lookup_upsertJob]
  by_cases hid : id = j.id
  · rw [if_pos hid, hj hid]
    refine ⟨_, rfl, ?_⟩
    cases s.jobs.lookup id <;> rfl
  · rw [if_neg hid]
    exact h.resolve_right hid

theorem HasTask.upsertTask {t : Task} (h : s.HasTask i ∨ i = t.id) :
    (s.upsertTask t).HasTask i := by
  unfold HasTask
  rw [lookup_upsertTask]
  by_cases hid : i = t.id
  · rw [if_pos hid]
    exact ⟨_, rfl⟩
  · rw [if_neg hid]
    exact h.resolve_right hid

theorem upsertTasks_jobs (tasks : List Task) (s : Store) :
    (tasks.foldl Store.upsertTask s).jobs = s.jobs := by
  induction tasks generalizing s with
  | nil => rfl
  | cons t tasks ih => exact ih (s.upsertTask t)

theorem upsertJobs_tasks (jobs : List Job) (s : Store) :
    (jobs.foldl Store.upsertJob s).tasks = s.tasks := by
  induction jobs generalizing s with
  | nil => rfl
  | cons job jobs ih => exact ih (s.upsertJob job)

theorem HasTask.upsertTasks (tasks : List Task) (h : s.HasTask i ∨ i ∈ tasks.map Task.id) :
    (tasks.foldl Store.upsertTask s).HasTask i := by
  induction tasks generalizing s with
  | nil => exact h.resolve_right List.not_mem_nil
  | cons t tasks ih =>
      apply ih
      rcases h with h | h
      · exact .inl (HasTask.upsertTask (.inl h))
      · rcases List.mem_cons.mp h with h | h
        · exact .inl (HasTask.upsertTask (.inr h))
        · exact .inr h

theorem HasJob.upsertJobs (jobs : List Job) (hjob : m.findJob id = some job)
    (hjobs : ∀ job ∈ jobs, m.findJob job.id = some job)
    (h : s.HasJob id job ∨ id ∈ jobs.map Job.id) :
    (jobs.foldl Store.upsertJob s).HasJob id job := by
  induction jobs generalizing s with
  | nil => exact h.resolve_right List.not_mem_nil
  | cons j jobs ih =>
      have hj : id = j.id → j = job := by
        intro hid
        have hfind := hjobs j List.mem_cons_self
        rw [← hid, hjob] at hfind
        exact (Option.some.inj hfind).symm
      apply ih fun k hk => hjobs k (List.mem_cons_of_mem _ hk)
      rcases h with h | h
      · exact .inl (HasJob.upsertJob hj (.inl h))
      · rcases List.mem_cons.mp h with h | h
        · exact .inl (HasJob.upsertJob hj (.inr h))
        · exact .inr h

end Flush

-- Tables in another order of iteration.
structure Reordered (s s' : Store) : Prop where
  jobs : s.jobs.entries.Perm s'.jobs.entries
  tasks : s.tasks.entries.Perm s'.tasks.entries
  taskPriorWorkers : s.taskPriorWorkers.Perm s'.taskPriorWorkers

theorem Reordered.refl (s : Store) : s.Reordered s := ⟨.refl _, .refl _, .refl _⟩

end Store

-- A coordinator and the file it writes.
structure Durable where
  jobs : JobManager := {}
  store : Store := {}

-- What happens to it. A flush that fails is no event: the rows stay dirty and
-- the file stays as it was.
inductive Durable.Event (F : Type) where
  | operation (o : Operation F)
  | flush
  | restart

namespace Durable

variable {F : Type} [Double F]

def next (d : Durable) : Event F → Durable
  | .operation o => { d with jobs := o.run d.jobs }
  | .flush =>
      { jobs := d.jobs.clearDirty
        store := d.store.flush d.jobs.dirtyJobRows d.jobs.dirtyTaskRows }
  | .restart => { d with jobs := recoverInto {} d.store.loadAll }

def Step (d : Durable) (e : Event F) (d' : Durable) : Prop :=
  (d.next e).jobs.Rehashed d'.jobs ∧ (d.next e).store.Reordered d'.store

-- The file and the memory, where the dirty rows are those that may differ.
structure Synced (d : Durable) : Prop where
  jobId : ∀ {id job}, d.jobs.findJob id = some job → job.id = id
  agrees : d.store.Agrees d.jobs
  job : ∀ {id job}, d.jobs.findJob id = some job → id ∉ d.jobs.dirtyJobs → d.store.HasJob id job
  task : ∀ {id t}, d.jobs.find id = some t → id ∉ d.jobs.dirtyTasks → d.store.HasTask id

end Durable

namespace JobManager

variable {m m' : JobManager} {l : Label} {jobId : JobId} {job job' : Job} {id : TaskId} {t : Task}

-- A move marks what it touches, and no move but a flush clears a mark.
theorem Move.dirty (h : Move m l m') (hl : l ≠ .flush) :
    (∀ {i}, i ∈ m.dirtyTasks → i ∈ m'.dirtyTasks) ∧
      (∀ {j}, j ∈ m.dirtyJobs → j ∈ m'.dirtyJobs) ∧
      (∀ {t}, l.entered = some t → t.id ∈ m'.dirtyTasks) ∧
      (∀ {job}, l = .create job → job.id ∈ m'.dirtyJobs) ∧
      ∀ {tile t}, l = .carve tile t → t.job ∈ m'.dirtyJobs := by
  cases h with
  | flush => exact absurd rfl hl
  | aux _ h =>
      exact ⟨fun hi => h.dirtyTasks.mem_iff.mp hi, fun hj => h.dirtyJobs.mem_iff.mp hj,
        nofun, nofun, nofun⟩
  | edit => exact ⟨id, id, nofun, nofun, nofun⟩
  | mint => exact ⟨id, id, nofun, nofun, nofun⟩
  | act i => exact ⟨fun hi => List.mem_insert_of_mem hi, id, nofun, nofun, nofun⟩
  | create job =>
      refine ⟨id, fun hj => List.mem_insert_of_mem hj, nofun, ?_, nofun⟩
      intro j hj
      cases hj
      exact List.mem_insert_self
  | carve job tile t =>
      refine ⟨fun hi => List.mem_insert_of_mem hi, fun hj => List.mem_insert_of_mem hj, ?_, nofun,
        ?_⟩
      · intro u hu
        cases hu
        exact List.mem_insert_self
      · intro tile' u hu
        cases hu
        exact List.mem_insert_self
  | probe job t =>
      refine ⟨fun hi => List.mem_insert_of_mem hi, id, ?_, nofun, nofun⟩
      intro u hu
      cases hu
      exact List.mem_insert_self
  | replica job original t =>
      refine ⟨fun hi => List.mem_insert_of_mem hi, id, ?_, nofun, nofun⟩
      intro u hu
      cases hu
      exact List.mem_insert_self

-- What a job keeps through a move: all but its cursor, and that too unless it is marked.
theorem Move.findJob_kept (h : Move m l m') (hl : m.SeedsOnly l) (hflush : l ≠ .flush)
    (hfresh : m.findJob ⟨0, m.nextId⟩ = none) (hf : m'.findJob jobId = some job') :
    (∃ job, m.findJob jobId = some job ∧ job'.id = job.id ∧ job'.totalUnits = job.totalUnits ∧
      (jobId ∉ m'.dirtyJobs → job'.nextUnit = job.nextUnit)) ∨
      (m.findJob jobId = none ∧ job'.id = jobId ∧ jobId ∈ m'.dirtyJobs) := by
  have hdirty := h.dirty hflush
  rcases h.findJob_some hfresh hf with hjob | ⟨hcreate, -, hnone, hid, -⟩ |
    ⟨job, edit, rfl, hjob, rfl⟩ | ⟨job, tile, t, units, hcarve, hown, hjob, rfl, -⟩ |
    ⟨job, t, original, -, -, hjob, rfl, -⟩
  · exact .inl ⟨job', hjob, rfl, rfl, fun _ => rfl⟩
  · exact .inr ⟨hnone, hid, hid ▸ hdirty.2.2.2.1 hcreate⟩
  · obtain ⟨render, inputRef, -, rfl, -⟩ := hl
    exact .inl ⟨job, hjob, rfl, rfl, fun _ => rfl⟩
  · have hmem : jobId ∈ m'.dirtyJobs := hown ▸ hdirty.2.2.2.2 hcarve
    exact .inl ⟨job, hjob, rfl, rfl, fun hnot => absurd hmem hnot⟩
  · exact .inl ⟨job, hjob, rfl, rfl, fun _ => rfl⟩

end JobManager

namespace Durable

open JobManager

variable {m m' : JobManager} {s s' : Store} {l : Label} {good : JobId → Prop}

theorem Synced.empty : Synced {} where
  jobId h := by cases h
  agrees := by constructor <;> intro _ _ h <;> cases h
  job h := by cases h
  task h := by cases h

theorem Synced.move (hs : Synced ⟨m, s⟩) (hm : m.Minted) (hp : m.Partition good)
    (h : Move m l m') (hl : m.SeedsOnly l) (hflush : l ≠ .flush) : Synced ⟨m', s⟩ := by
  have hdirty := h.dirty hflush
  constructor
  case jobId =>
    intro id job hf
    rcases h.findJob_kept hl hflush hp.fresh hf with ⟨old, hjob, hid, -⟩ | ⟨-, hid, -⟩
    · exact hid.trans (hs.jobId hjob)
    · exact hid
  case agrees =>
    constructor
    · intro id row hrow
      obtain ⟨job, hjob, htotal⟩ := hs.agrees.jobs hrow
      obtain ⟨job', hjob'⟩ := h.findJob_mono hp.fresh hjob
      rcases h.findJob_kept hl hflush hp.fresh hjob' with ⟨old, hold, -, htotal', -⟩ | ⟨hnone, -⟩
      · rw [hjob] at hold
        cases hold
        exact ⟨job', hjob', htotal.trans htotal'.symm⟩
      · rw [hjob] at hnone
        cases hnone
    · intro id row hrow
      obtain ⟨t, ht, hjob, hspan, hreplica⟩ := hs.agrees.tasks hrow
      obtain ⟨t', ht', hown', hspan', hreplica'⟩ := Partition.find_shape hm h ht
      exact ⟨t', ht', hjob.trans hown'.symm, hspan.trans hspan'.symm,
        hreplica.trans hreplica'.symm⟩
  case job =>
    intro id job hf hnot
    rcases h.findJob_kept hl hflush hp.fresh hf with ⟨old, hjob, -, -, hnext⟩ | ⟨-, -, hmem⟩
    · obtain ⟨row, hrow, hcursor⟩ := hs.job hjob fun hold => hnot (hdirty.2.1 hold)
      exact ⟨row, hrow, hcursor.trans (hnext hnot).symm⟩
    · exact absurd hmem hnot
  case task =>
    intro id t hf hnot
    have hold : id ∉ m.dirtyTasks := fun hmem => hnot (hdirty.1 hmem)
    rcases h.find_eq hm id with ⟨heq, -⟩ | ⟨a, u, u', -, hu, -⟩ | ⟨u, he, -, hid, -, -⟩
    · exact hs.task (heq ▸ hf) hold
    · exact hs.task hu hold
    · exact absurd (hid ▸ hdirty.2.2.1 he) hnot

theorem Synced.flush (hs : Synced ⟨m, s⟩) (hm : m.Minted) :
    Synced ⟨m.clearDirty, s.flush m.dirtyJobRows m.dirtyTaskRows⟩ := by
  have hjobs : ∀ job ∈ m.dirtyJobRows, m.findJob job.id = some job := by
    intro job hjob
    obtain ⟨id, -, hf⟩ := List.mem_filterMap.mp hjob
    rw [hs.jobId hf]
    exact hf
  have htasks : ∀ t ∈ m.dirtyTaskRows, m.find t.id = some t := by
    intro t ht
    obtain ⟨id, -, hf⟩ := List.mem_filterMap.mp ht
    rw [hm.id_eq hf]
    exact hf
  constructor
  case jobId => exact hs.jobId
  case agrees =>
    have hagrees := (hs.agrees.upsertJobs _ hjobs).upsertTasks _ htasks
    exact { jobs := hagrees.jobs, tasks := hagrees.tasks }
  case job =>
    intro id job hf _
    unfold Store.HasJob Store.flush
    rw [Store.upsertTasks_jobs]
    refine Store.HasJob.upsertJobs (m := m) _ hf hjobs ?_
    by_cases hmem : id ∈ m.dirtyJobs
    · exact .inr (List.mem_map.mpr ⟨job, List.mem_filterMap.mpr ⟨id, hmem, hf⟩, hs.jobId hf⟩)
    · exact .inl (hs.job hf hmem)
  case task =>
    intro id t hf _
    refine Store.HasTask.upsertTasks _ ?_
    by_cases hmem : id ∈ m.dirtyTasks
    · exact .inr (List.mem_map.mpr ⟨t, List.mem_filterMap.mpr ⟨id, hmem, hf⟩, hm.id_eq hf⟩)
    · left
      unfold Store.HasTask
      rw [Store.upsertJobs_tasks]
      exact hs.task hf hmem

theorem Synced.reorder (hs : Synced ⟨m, s⟩) (hm : m.SameRows m') (hstore : s.Reordered s') :
    Synced ⟨m', s'⟩ := by
  have hjobs : ∀ id, s'.jobs.lookup id = s.jobs.lookup id := fun id =>
    (Table.lookup_of_perm hstore.jobs id).symm
  have htasks : ∀ id, s'.tasks.lookup id = s.tasks.lookup id := fun id =>
    (Table.lookup_of_perm hstore.tasks id).symm
  constructor
  case jobId =>
    intro id job hf
    rw [hm.findJob_eq] at hf
    exact hs.jobId hf
  case agrees =>
    constructor
    · intro id row hrow
      rw [hjobs] at hrow
      rw [hm.findJob_eq]
      exact hs.agrees.jobs hrow
    · intro id row hrow
      rw [htasks] at hrow
      rw [hm.find_eq]
      exact hs.agrees.tasks hrow
  case job =>
    intro id job hf hnot
    rw [hm.findJob_eq] at hf
    unfold Store.HasJob
    rw [hjobs]
    exact hs.job hf fun hmem => hnot (hm.dirtyJobs.mem_iff.mp hmem)
  case task =>
    intro id t hf hnot
    rw [hm.find_eq] at hf
    unfold Store.HasTask
    rw [htasks]
    exact hs.task hf fun hmem => hnot (hm.dirtyTasks.mem_iff.mp hmem)

end Durable

end P2pGpu.Coordinator
