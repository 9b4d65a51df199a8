import P2pGpu.Coordinator.Job.Progress
import P2pGpu.Coordinator.Store.Durable
import P2pGpu.Data.WriteBehind

namespace P2pGpu.Coordinator

open P2pGpu.Protocol

-- A row with the workers that stand beside it.
abbrev FiledTask : Type := TaskRow × Set WorkerId

-- What of a task is written once, or only added to.
structure Task.Shapes (t : Task) (filed : FiledTask) : Prop where
  job : filed.1.job = t.job
  startUnit : filed.1.startUnit = t.startUnit
  unitCount : filed.1.unitCount = t.unitCount
  replicaOf : filed.1.replicaOf = t.replicaOf
  priorWorkers : ∀ w ∈ filed.2, w ∈ t.priorWorkers

structure Task.Shows (t : Task) (filed : FiledTask) : Prop where
  row : filed.1 = t.toRow
  priorWorkers : ∀ w, w ∈ filed.2 ↔ w ∈ t.priorWorkers

theorem Task.Shows.shapes {t : Task} {filed : FiledTask} (h : t.Shows filed) :
    t.Shapes filed where
  job := by rw [h.row]; rfl
  startUnit := by rw [h.row]; rfl
  unitCount := by rw [h.row]; rfl
  replicaOf := by rw [h.row]; rfl
  priorWorkers w hw := (h.priorWorkers w).mp hw

-- The same piece of work, seen by at least as many.
structure Task.Grows (t t' : Task) : Prop where
  job : t'.job = t.job
  startUnit : t'.startUnit = t.startUnit
  unitCount : t'.unitCount = t.unitCount
  replicaOf : t'.replicaOf = t.replicaOf
  priorWorkers : ∀ w ∈ t.priorWorkers, w ∈ t'.priorWorkers

theorem Task.Grows.refl (t : Task) : t.Grows t := ⟨rfl, rfl, rfl, rfl, fun _ h => h⟩

theorem Task.Shapes.grows {t t' : Task} {filed : FiledTask} (h : t.Shapes filed)
    (hg : t.Grows t') : t'.Shapes filed where
  job := h.job.trans hg.job.symm
  startUnit := h.startUnit.trans hg.startUnit.symm
  unitCount := h.unitCount.trans hg.unitCount.symm
  replicaOf := h.replicaOf.trans hg.replicaOf.symm
  priorWorkers w hw := hg.priorWorkers w (h.priorWorkers w hw)

-- The row of a job says how far it is carved.
def Job.Shows (job : Job) (row : JobRow) : Prop := row.nextUnit = job.nextUnit

theorem Act.result_grows {a : Act} {t t' : Task} (h : a.result t = some t') : t.Grows t' := by
  have hlater := Task.Later.of_result h
  refine ⟨hlater.job, hlater.startUnit, hlater.unitCount, hlater.replicaOf, fun w hw => ?_⟩
  cases a with
  | submit worker =>
      simp only [Act.result] at h
      split at h <;> cases h
      exact List.mem_append_left _ hw
  | record =>
      cases h
      exact hw
  | _ =>
      simp only [Act.result] at h
      split at h <;> cases h
      exact hw

namespace Store

variable {s s' : Store} {m : JobManager} {id : TaskId} {t : Task}

-- A task as it is read back from both tables.
def filed (s : Store) (id : TaskId) : Option FiledTask :=
  (s.tasks.lookup id).map fun row => (row, {w | (id, w) ∈ s.taskPriorWorkers})

-- No workers are kept of a task that has no row.
def Owned (s : Store) : Prop := ∀ id w, (id, w) ∈ s.taskPriorWorkers → s.HasTask id

theorem mem_foldl_insert (id i : TaskId) (w : WorkerId) (workers : List WorkerId)
    (rows : List (TaskId × WorkerId)) :
    (i, w) ∈ workers.foldl (fun rows w => rows.insert (id, w)) rows ↔
      (i, w) ∈ rows ∨ i = id ∧ w ∈ workers := by
  induction workers generalizing rows with
  | nil => simp
  | cons a workers ih =>
      rw [List.foldl_cons, ih, List.mem_insert_iff, List.mem_cons, Prod.mk.injEq]
      constructor
      · rintro ((⟨hi, hw⟩ | h) | ⟨hi, hw⟩)
        · exact .inr ⟨hi, .inl hw⟩
        · exact .inl h
        · exact .inr ⟨hi, .inr hw⟩
      · rintro (h | ⟨hi, hw | hw⟩)
        · exact .inl (.inr h)
        · exact .inl (.inl ⟨hi, hw⟩)
        · exact .inr ⟨hi, hw⟩

theorem mem_upsertTask {w : WorkerId} :
    (id, w) ∈ (s.upsertTask t).taskPriorWorkers ↔
      (id, w) ∈ s.taskPriorWorkers ∨ id = t.id ∧ w ∈ t.priorWorkers :=
  mem_foldl_insert t.id id w t.priorWorkers s.taskPriorWorkers

theorem filed_upsertTask_ne (h : id ≠ t.id) : (s.upsertTask t).filed id = s.filed id := by
  have hworkers : {w | (id, w) ∈ (s.upsertTask t).taskPriorWorkers} =
      {w | (id, w) ∈ s.taskPriorWorkers} := by
    ext w
    simp only [Set.mem_ofPred_eq, mem_upsertTask]
    exact or_iff_left fun hid => h hid.1
  unfold filed
  rw [lookup_upsertTask, if_neg h, hworkers]

-- A row that was written before is updated in its state, and shows the task again.
theorem filed_upsertTask (hs : s.Owned) (hold : ∀ filed, s.filed t.id = some filed → t.Shapes filed) :
    ∃ filed, (s.upsertTask t).filed t.id = some filed ∧ t.Shows filed := by
  have hlookup := lookup_upsertTask s t t.id
  rw [if_pos rfl] at hlookup
  unfold filed
  rw [hlookup]
  refine ⟨_, rfl, ?_⟩
  cases hrow : s.tasks.lookup t.id with
  | none =>
      refine ⟨rfl, fun w => ?_⟩
      simp only [Set.mem_ofPred_eq, mem_upsertTask, true_and]
      refine or_iff_right fun hmem => ?_
      obtain ⟨row, hr⟩ := hs t.id w hmem
      rw [hrow] at hr
      cases hr
  | some row =>
      have hfiled : s.filed t.id = some (row, {w | (t.id, w) ∈ s.taskPriorWorkers}) := by
        rw [filed, hrow]
        rfl
      obtain ⟨hjob, hstart, hcount, hreplica, hworkers⟩ := hold _ hfiled
      refine ⟨?_, fun w => ?_⟩
      · dsimp only at hjob hstart hcount hreplica
        simp only [Option.elim_some, Task.toRow, ← hjob, ← hstart, ← hcount, ← hreplica]
      · simp only [Set.mem_ofPred_eq, mem_upsertTask, true_and]
        exact or_iff_right_of_imp (hworkers w)

theorem Owned.upsertTask (hs : s.Owned) : (s.upsertTask t).Owned := by
  intro id w hmem
  rcases mem_upsertTask.mp hmem with hold | ⟨rfl, -⟩
  · exact HasTask.upsertTask (.inl (hs id w hold))
  · exact HasTask.upsertTask (.inr rfl)

theorem upsertJobs_taskPriorWorkers (jobs : List Job) (s : Store) :
    (jobs.foldl Store.upsertJob s).taskPriorWorkers = s.taskPriorWorkers := by
  induction jobs generalizing s with
  | nil => rfl
  | cons job jobs ih => exact ih (s.upsertJob job)

end Store

-- The file as it lies behind the memory.
structure JobManager.Tracked (m : JobManager) (s : Store) : Prop where
  taskId : ∀ {id t}, m.find id = some t → t.id = id
  jobId : ∀ {id job}, m.findJob id = some job → job.id = id
  owned : s.Owned
  tasks : Behind Task.Shapes Task.Shows m.find s.filed (· ∈ m.dirtyTasks)
  jobs : Behind (fun _ _ => True) Job.Shows m.findJob s.jobs.lookup (· ∈ m.dirtyJobs)

namespace JobManager

variable {m m' : JobManager} {s s' : Store}

theorem Tracked.empty : Tracked {} {} where
  taskId h := by cases h
  jobId h := by cases h
  owned _ _ h := by cases h
  tasks := Behind.empty
  jobs := Behind.empty

theorem upsertTasks_behind (tasks : List Task) {dirty : TaskId → Prop} (hs : s.Owned)
    (h : Behind Task.Shapes Task.Shows m.find s.filed dirty)
    (htasks : ∀ t ∈ tasks, m.find t.id = some t) :
    (tasks.foldl Store.upsertTask s).Owned ∧
      Behind Task.Shapes Task.Shows m.find (tasks.foldl Store.upsertTask s).filed
        fun i => dirty i ∧ i ∉ tasks.map Task.id := by
  induction tasks generalizing s dirty with
  | nil => exact ⟨hs, h.mono fun _ _ _ hd => ⟨hd, List.not_mem_nil⟩⟩
  | cons t tasks ih =>
      have hown := htasks t List.mem_cons_self
      have hold : ∀ filed, s.filed t.id = some filed → t.Shapes filed := by
        intro filed hf
        obtain ⟨u, hu, hshape⟩ := h.known hf
        rw [hown] at hu
        cases hu
        exact hshape
      have hrow := Store.filed_upsertTask hs hold
      have hone := h.write (fun _ _ hshows => hshows.shapes) hown hrow
        fun i hi => Store.filed_upsertTask_ne hi
      obtain ⟨howned, hrest⟩ := ih hs.upsertTask hone fun u hu =>
        htasks u (List.mem_cons_of_mem _ hu)
      refine ⟨howned, hrest.mono fun i _ _ hd => ⟨hd.1.1, fun hmem => ?_⟩⟩
      rcases List.mem_cons.mp hmem with hi | hi
      · exact hd.1.2 hi
      · exact hd.2 hi

theorem upsertJobs_behind (jobs : List Job) {dirty : JobId → Prop}
    (h : Behind (fun _ _ => True) Job.Shows m.findJob s.jobs.lookup dirty)
    (hjobs : ∀ job ∈ jobs, m.findJob job.id = some job) :
    Behind (fun _ _ => True) Job.Shows m.findJob (jobs.foldl Store.upsertJob s).jobs.lookup
      fun i => dirty i ∧ i ∉ jobs.map Job.id := by
  induction jobs generalizing s dirty with
  | nil => exact h.mono fun _ _ _ hd => ⟨hd, List.not_mem_nil⟩
  | cons job jobs ih =>
      have hrow : ∃ row, (s.upsertJob job).jobs.lookup job.id = some row ∧ job.Shows row := by
        rw [Store.lookup_upsertJob, if_pos rfl]
        refine ⟨_, rfl, ?_⟩
        cases s.jobs.lookup job.id <;> rfl
      have hone : Behind (fun _ _ => True) Job.Shows m.findJob (s.upsertJob job).jobs.lookup
          fun i => dirty i ∧ i ≠ job.id := by
        refine h.write (fun _ _ _ => trivial) (hjobs job List.mem_cons_self) hrow fun i hi => ?_
        rw [Store.lookup_upsertJob, if_neg hi]
      have hrest := ih hone fun j hj => hjobs j (List.mem_cons_of_mem _ hj)
      refine hrest.mono fun i _ _ hd => ⟨hd.1.1, fun hmem => ?_⟩
      rcases List.mem_cons.mp hmem with hi | hi
      · exact hd.1.2 hi
      · exact hd.2 hi

-- What a flush writes, beside the marks that it may clear.
theorem Tracked.flush (h : m.Tracked s) :
    m.clearDirty.Tracked (s.flush m.dirtyJobRows m.dirtyTaskRows) := by
  have hjobs : ∀ job ∈ m.dirtyJobRows, m.findJob job.id = some job := by
    intro job hjob
    obtain ⟨id, -, hf⟩ := List.mem_filterMap.mp hjob
    rw [h.jobId hf]
    exact hf
  have htasks : ∀ t ∈ m.dirtyTaskRows, m.find t.id = some t := by
    intro t ht
    obtain ⟨id, -, hf⟩ := List.mem_filterMap.mp ht
    rw [h.taskId hf]
    exact hf
  have hjobRows := upsertJobs_behind m.dirtyJobRows h.jobs hjobs
  have hsame : (m.dirtyJobRows.foldl Store.upsertJob s).filed = s.filed := by
    funext id
    unfold Store.filed
    rw [Store.upsertJobs_tasks, Store.upsertJobs_taskPriorWorkers]
  have howned : (m.dirtyJobRows.foldl Store.upsertJob s).Owned := by
    intro id w hmem
    rw [Store.upsertJobs_taskPriorWorkers] at hmem
    obtain ⟨row, hrow⟩ := h.owned id w hmem
    exact ⟨row, by rw [Store.upsertJobs_tasks]; exact hrow⟩
  obtain ⟨howned', htaskRows⟩ := upsertTasks_behind m.dirtyTaskRows howned
    (hsame ▸ h.tasks) htasks
  refine ⟨h.taskId, h.jobId, howned', ?_, ?_⟩
  · refine htaskRows.mono fun id t hf hd => absurd ?_ hd.2
    exact List.mem_map.mpr ⟨t, List.mem_filterMap.mpr ⟨id, hd.1, hf⟩, h.taskId hf⟩
  · have hstore : (s.flush m.dirtyJobRows m.dirtyTaskRows).jobs =
        (m.dirtyJobRows.foldl Store.upsertJob s).jobs := Store.upsertTasks_jobs _ _
    rw [hstore]
    refine hjobRows.mono fun id job hf hd => absurd ?_ hd.2
    exact List.mem_map.mpr ⟨job, List.mem_filterMap.mpr ⟨id, hd.1, hf⟩, h.jobId hf⟩

-- An operation marks what it makes differ from its row.
structure Marked (m m' : JobManager) : Prop where
  task : ∀ id t, m.find id = some t → ∃ t', m'.find id = some t' ∧ t.Grows t'
  taskClean : ∀ id t', m'.find id = some t' → id ∉ m'.dirtyTasks →
    ∃ t, m.find id = some t ∧ id ∉ m.dirtyTasks ∧ t'.toRow = t.toRow ∧
      t'.priorWorkers = t.priorWorkers
  taskId : ∀ id t', m'.find id = some t' → (∃ t, m.find id = some t ∧ t'.id = t.id) ∨ t'.id = id
  job : ∀ id job, m.findJob id = some job → ∃ job', m'.findJob id = some job'
  jobClean : ∀ id job', m'.findJob id = some job' → id ∉ m'.dirtyJobs →
    ∃ job, m.findJob id = some job ∧ id ∉ m.dirtyJobs ∧ job'.nextUnit = job.nextUnit
  jobId : ∀ id job', m'.findJob id = some job' →
    (∃ job, m.findJob id = some job ∧ job'.id = job.id) ∨ job'.id = id

theorem Tracked.marked (h : m.Tracked s) (hm : m.Marked m') : m'.Tracked s where
  taskId := by
    intro id t' hf
    rcases hm.taskId id t' hf with ⟨t, ht, heq⟩ | heq
    · exact heq.trans (h.taskId ht)
    · exact heq
  jobId := by
    intro id job' hf
    rcases hm.jobId id job' hf with ⟨job, hjob, heq⟩ | heq
    · exact heq.trans (h.jobId hjob)
    · exact heq
  owned := h.owned
  tasks := by
    refine h.tasks.moves (fun id t hf => ?_) fun id t' hf hclean => ?_
    · obtain ⟨t', hf', hgrows⟩ := hm.task id t hf
      exact ⟨t', hf', fun _ hshape => hshape.grows hgrows⟩
    · obtain ⟨t, ht, hold, hrow, hworkers⟩ := hm.taskClean id t' hf hclean
      refine ⟨t, ht, hold, fun filed hshows => ⟨hshows.row.trans hrow.symm, fun w => ?_⟩⟩
      rw [hworkers]
      exact hshows.priorWorkers w
  jobs := by
    refine h.jobs.moves (fun id job hf => ?_) fun id job' hf hclean => ?_
    · obtain ⟨job', hf'⟩ := hm.job id job hf
      exact ⟨job', hf', fun _ _ => trivial⟩
    · obtain ⟨job, hjob, hold, hnext⟩ := hm.jobClean id job' hf hclean
      exact ⟨job, hjob, hold, fun row hshows => Eq.trans hshows hnext.symm⟩

-- Nothing but the marks and what goes with them.
theorem Marked.of_same (htask : ∀ id, m'.find id = m.find id)
    (hjob : ∀ id, m'.findJob id = m.findJob id)
    (hdirtyTasks : ∀ id, id ∉ m'.dirtyTasks → id ∉ m.dirtyTasks)
    (hdirtyJobs : ∀ id, id ∉ m'.dirtyJobs → id ∉ m.dirtyJobs) : m.Marked m' where
  task id t hf := ⟨t, (htask id).trans hf, .refl t⟩
  taskClean id t' hf hclean := ⟨t', (htask id) ▸ hf, hdirtyTasks id hclean, rfl, rfl⟩
  taskId id t' hf := .inl ⟨t', (htask id) ▸ hf, rfl⟩
  job id job hf := ⟨job, (hjob id).trans hf⟩
  jobClean id job' hf hclean := ⟨job', (hjob id) ▸ hf, hdirtyJobs id hclean, rfl⟩
  jobId id job' hf := .inl ⟨job', (hjob id) ▸ hf, rfl⟩

-- One task is rewritten, and it is marked.
theorem Marked.of_put {id : TaskId} {t : Task} (t' : Task) (hf : m.find id = some t) (hgrows : t.Grows t')
    (hid : t'.id = t.id) (hfind : ∀ i, m'.find i = if i = id then some t' else m.find i)
    (hjob : ∀ i, m'.findJob i = m.findJob i)
    (hdirtyTasks : ∀ i, i ∉ m'.dirtyTasks → i ≠ id ∧ i ∉ m.dirtyTasks)
    (hdirtyJobs : m'.dirtyJobs = m.dirtyJobs) : m.Marked m' where
  task := by
    intro i s hs
    by_cases hi : i = id
    · rw [hi, hf] at hs
      cases hs
      exact ⟨t', (hfind i).trans (if_pos hi), hgrows⟩
    · exact ⟨s, ((hfind i).trans (if_neg hi)).trans hs, .refl s⟩
  taskClean := by
    intro i s hs hclean
    obtain ⟨hi, hold⟩ := hdirtyTasks i hclean
    rw [hfind i, if_neg hi] at hs
    exact ⟨s, hs, hold, rfl, rfl⟩
  taskId := by
    intro i s hs
    rw [hfind i] at hs
    by_cases hi : i = id
    · rw [if_pos hi] at hs
      cases hs
      exact .inl ⟨t, by rw [hi]; exact hf, hid⟩
    · rw [if_neg hi] at hs
      exact .inl ⟨s, hs, rfl⟩
  job i job hjob' := ⟨job, (hjob i).trans hjob'⟩
  jobClean i job' hj hclean := ⟨job', (hjob i) ▸ hj, hdirtyJobs ▸ hclean, rfl⟩
  jobId i job' hj := .inl ⟨job', (hjob i) ▸ hj, rfl⟩

-- A task is entered, and it is marked, after the jobs were told of it.
theorem Marked.of_enter {n : JobManager} (hn : m.Marked n) (t : Task) : m.Marked (n.enter t) := by
  have hne : ∀ {i}, i ≠ t.id → (n.enter t).find i = n.find i := fun hi =>
    Table.lookup_emplace_ne hi n.tasks t
  have hdirty : ∀ i, i ∉ (n.enter t).dirtyTasks → i ≠ t.id ∧ i ∉ n.dirtyTasks := by
    intro i hi
    refine ⟨fun he => hi ?_, fun hmem => hi (List.mem_insert_of_mem hmem)⟩
    rw [he]
    exact List.mem_insert_self
  refine ⟨fun id s hs => ?_, fun id s hs hclean => ?_, fun id s hs => ?_, hn.job, hn.jobClean,
    hn.jobId⟩
  · obtain ⟨s', hs', hgrows⟩ := hn.task id s hs
    exact ⟨s', find_enter_kept hs', hgrows⟩
  · obtain ⟨hid, hold⟩ := hdirty id hclean
    rw [hne hid] at hs
    exact hn.taskClean id s hs hold
  · by_cases hid : id = t.id
    · cases hold : n.find id with
      | none =>
          have hnew : (n.enter t).find id = some t := by
            refine (Table.lookup_emplace n.tasks t.id id t (hid ▸ hold)).trans ?_
            rw [if_pos hid]
          rw [hnew] at hs
          cases hs
          exact .inr hid.symm
      | some u =>
          have hkept : (n.enter t).find id = some u := find_enter_kept hold
          rw [hkept] at hs
          cases hs
          exact hn.taskId id _ hold
    · rw [hne hid] at hs
      exact hn.taskId id s hs

-- One job is rewritten, and it is marked unless its cursor stays.
theorem Marked.of_mutableJob {n : JobManager} (id : JobId) (edit : Job → Job)
    (hid : ∀ job, (edit job).id = job.id)
    (hjobs : ∀ i, n.findJob i = (m.mutableJob id edit).findJob i)
    (htask : ∀ i, n.find i = m.find i) (hdirtyTasks : n.dirtyTasks = m.dirtyTasks)
    (hdirtyJobs : ∀ i, i ∉ n.dirtyJobs → i ∉ m.dirtyJobs ∧
      (i = id → ∀ job, (edit job).nextUnit = job.nextUnit)) : m.Marked n where
  task i t hf := ⟨t, (htask i).trans hf, .refl t⟩
  taskClean i t' hf hclean := ⟨t', (htask i) ▸ hf, hdirtyTasks ▸ hclean, rfl, rfl⟩
  taskId i t' hf := .inl ⟨t', (htask i) ▸ hf, rfl⟩
  job := by
    intro i job hjob
    rw [hjobs, findJob_mutableJob, hjob]
    split
    · exact ⟨edit job, rfl⟩
    · exact ⟨job, rfl⟩
  jobClean := by
    intro i job' hjob hclean
    obtain ⟨hold, hkeeps⟩ := hdirtyJobs i hclean
    rw [hjobs, findJob_mutableJob] at hjob
    split at hjob
    · rename_i hi
      obtain ⟨job, hjob', rfl⟩ := Option.map_eq_some_iff.mp hjob
      exact ⟨job, hjob', hold, hkeeps hi job⟩
    · exact ⟨job', hjob, hold, rfl⟩
  jobId := by
    intro i job' hjob
    rw [hjobs, findJob_mutableJob] at hjob
    split at hjob
    · obtain ⟨job, hjob', rfl⟩ := Option.map_eq_some_iff.mp hjob
      exact .inl ⟨job, hjob', hid job⟩
    · exact .inl ⟨job', hjob, rfl⟩

-- Another order of iteration, in memory and in the file.
theorem Tracked.reorder {s' : Store} (h : m.Tracked s)
    (hm : m.Rehashed m') (hs : s.Reordered s') : m'.Tracked s' := by
  have hrows := hm.sameRows
  have hmarked := Marked.of_same hrows.find_eq hrows.findJob_eq
    (fun i hi hmem => hi (hrows.dirtyTasks.mem_iff.mp hmem))
    fun i hi hmem => hi (hrows.dirtyJobs.mem_iff.mp hmem)
  have hmoved := h.marked hmarked
  have htasks : ∀ id, s'.tasks.lookup id = s.tasks.lookup id := fun id =>
    (Table.lookup_of_perm hs.tasks id).symm
  have hjobs : s'.jobs.lookup = s.jobs.lookup := by
    funext id
    exact (Table.lookup_of_perm hs.jobs id).symm
  have hfiled : s'.filed = s.filed := by
    funext id
    unfold Store.filed
    simp only [htasks id, hs.taskPriorWorkers.mem_iff]
  refine ⟨hmoved.taskId, hmoved.jobId, fun id w hmem => ?_, ?_, ?_⟩
  · obtain ⟨row, hrow⟩ := h.owned id w (hs.taskPriorWorkers.mem_iff.mpr hmem)
    exact ⟨row, (htasks id).trans hrow⟩
  · rw [hfiled]
    exact hmoved.tasks
  · rw [hjobs]
    exact hmoved.jobs

end JobManager

-- What of a job's metadata an edit may not touch where its rows are kept.
def Label.KeepsIds : Label → Prop
  | .edit _ f => ∀ job, (f job).id = job.id
  | .create _ | .mint | .act _ _ | .carve _ _ | .probe _ | .replica _ | .aux | .flush => True

def Operation.KeepsIds {F : Type} : Operation F → Prop
  | .mutableJob _ edit => ∀ job, (edit job).id = job.id
  | _ => True

namespace JobManager

variable {m m' : JobManager} {l : Label}

theorem Move.marked (h : Move m l m') (hl : l.EditsMetadata) (hids : l.KeepsIds)
    (hflush : l ≠ .flush) : m.Marked m' := by
  cases h with
  | create job hid hnext htasks hrender =>
      have hne : ∀ {i}, i ≠ job.id → (m.addJob job).findJob i = m.findJob i := fun hi =>
        Table.lookup_emplace_ne hi m.jobs job
      refine ⟨fun id t hf => ⟨t, hf, .refl t⟩, fun id t hf hclean => ⟨t, hf, hclean, rfl, rfl⟩,
        fun id t hf => .inl ⟨t, hf, rfl⟩, fun id j hj => ⟨j, findJob_addJob_kept hj job⟩,
        fun id j hj hclean => ?_, fun id j hj => ?_⟩
      · have hid : id ≠ job.id := by
          rintro rfl
          exact hclean List.mem_insert_self
        rw [hne hid] at hj
        exact ⟨j, hj, fun hmem => hclean (List.mem_insert_of_mem hmem), rfl⟩
      · by_cases hid : id = job.id
        · cases hold : m.findJob id with
          | none =>
              have hnew : (m.addJob job).findJob id = some job := by
                rw [findJob_addJob m job (hid ▸ hold), if_pos hid]
              rw [hnew] at hj
              cases hj
              exact .inr hid.symm
          | some u =>
              have hkept := findJob_addJob_kept hold job
              rw [hkept] at hj
              cases hj
              exact .inl ⟨_, rfl, rfl⟩
        · rw [hne hid] at hj
          exact .inl ⟨j, hj, rfl⟩
  | edit id f =>
      exact Marked.of_mutableJob id f hids (fun _ => rfl) (fun _ => rfl) rfl
        fun i hi => ⟨hi, fun _ => hl.nextUnit⟩
  | mint => exact Marked.of_same (fun _ => rfl) (fun _ => rfl) (fun _ h => h) fun _ h => h
  | act id a t t' hfind hresult hqueue =>
      refine Marked.of_put t' hfind (Act.result_grows hresult) (Act.result_shape hresult).1
        (fun i => find_perform hfind a t' i) (fun i => findJob_perform m id a t' i)
        (fun i hi => ?_) rfl
      refine ⟨fun he => hi ?_, fun hmem => hi (List.mem_insert_of_mem hmem)⟩
      rw [he]
      exact List.mem_insert_self
  | carve job tile t units hjob hleft hborn horig hstart hcount hpos =>
      refine Marked.of_enter ?_ t
      refine Marked.of_mutableJob t.job (fun job => job.carved t.id tile t.unitCount)
        (fun _ => rfl) (fun _ => rfl) (fun _ => rfl) rfl fun i hi => ?_
      refine ⟨fun hmem => hi (List.mem_insert_of_mem hmem), fun he => absurd ?_ hi⟩
      rw [he]
      exact List.mem_insert_self
  | probe job t hjob hborn horig hpos =>
      have hsame : m.Marked m :=
        Marked.of_same (fun _ => rfl) (fun _ => rfl) (fun _ h => h) fun _ h => h
      exact Marked.of_enter hsame t
  | replica job original t hjob hmem hfind horig hborn hstart hcount hrace =>
      refine Marked.of_enter ?_ t
      exact Marked.of_mutableJob t.job (fun job => { job with tasks := job.tasks ++ [t.id] })
        (fun _ => rfl) (fun _ => rfl) (fun _ => rfl) rfl fun i hi => ⟨hi, fun _ _ => rfl⟩
  | aux _ h =>
      exact Marked.of_same h.find_eq h.findJob_eq (fun i hi hmem => hi (h.dirtyTasks.mem_iff.mp hmem))
        fun i hi hmem => hi (h.dirtyJobs.mem_iff.mp hmem)
  | flush => exact absurd rfl hflush

section

variable {F : Type} [Double F] {o : Operation F} {s : Store}

end

end JobManager

namespace Durable

open JobManager

-- An operation, or a try to write what is dirty, whose transaction is committed or
-- rolled back as a whole.
inductive Attempt (F : Type) where
  | operation (o : Operation F)
  | flush (committed : Bool)

section

variable {F : Type} [Double F] {d d' : Durable} {a : Attempt F}

def attempt (d : Durable) : Attempt F → Durable
  | .operation o => d.next (.operation o)
  | .flush true => d.next (.flush : Event F)
  | .flush false => d

end

end Durable

end P2pGpu.Coordinator
