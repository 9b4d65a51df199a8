import P2pGpu.Coordinator.Job.Operations
import P2pGpu.Coordinator.Job.Run
import P2pGpu.Coordinator.Store

namespace P2pGpu.Coordinator

open P2pGpu.Protocol

namespace JobManager

section Adopt

variable {m : JobManager} {tasks : List Task} {jobs : List Job} {t : Task}

theorem queue_adopt (tasks : List Task) (m : JobManager) :
    (tasks.foldl adoptTask m).queue = m.queue ++ (tasks.filter Task.inFlight).map Task.id := by
  induction tasks generalizing m with
  | nil => simp
  | cons t tasks ih =>
      have hone : (m.adoptTask t).queue =
          m.queue ++ ([t].filter Task.inFlight).map Task.id := by
        unfold adoptTask
        cases h : t.inFlight <;> simp [h, mutableJob]
      rw [List.foldl_cons, ih, hone, List.append_assoc, ← List.map_append, ← List.filter_append,
        List.singleton_append]

theorem find_adoptTask (h : m.find t.id = none) (id : TaskId) :
    (m.adoptTask t).find id = if id = t.id then some t.recovered else m.find id :=
  Table.lookup_emplace m.tasks t.id id t.recovered h

theorem find_adopt_ne (hnodup : (tasks.map Task.id).Nodup)
    (hnew : ∀ t ∈ tasks, m.find t.id = none) {id : TaskId} (hid : id ∉ tasks.map Task.id) :
    (tasks.foldl adoptTask m).find id = m.find id := by
  induction tasks generalizing m with
  | nil => rfl
  | cons t tasks ih =>
      obtain ⟨ht, hnodup⟩ := List.nodup_cons.mp hnodup
      have hfind := find_adoptTask (hnew t List.mem_cons_self)
      have hne : id ≠ t.id := fun he => hid (he ▸ List.mem_cons_self)
      rw [List.foldl_cons, ih hnodup, hfind, if_neg hne]
      · intro u hu
        have hut : u.id ≠ t.id := fun he => ht (he ▸ List.mem_map_of_mem hu)
        rw [hfind, if_neg hut]
        exact hnew u (List.mem_cons_of_mem _ hu)
      · exact fun hmem => hid (List.mem_cons_of_mem _ hmem)

-- Every task that was read back stands there as the policy leaves it.
theorem find_adopt (hnodup : (tasks.map Task.id).Nodup)
    (hnew : ∀ t ∈ tasks, m.find t.id = none) (ht : t ∈ tasks) :
    (tasks.foldl adoptTask m).find t.id = some t.recovered := by
  induction tasks generalizing m with
  | nil => cases ht
  | cons u tasks ih =>
      obtain ⟨hu, hnodup'⟩ := List.nodup_cons.mp hnodup
      have hfind := find_adoptTask (hnew u List.mem_cons_self)
      have hrest : ∀ v ∈ tasks, (m.adoptTask u).find v.id = none := by
        intro v hv
        have hne : v.id ≠ u.id := fun he => hu (he ▸ List.mem_map_of_mem hv)
        rw [hfind, if_neg hne]
        exact hnew v (List.mem_cons_of_mem _ hv)
      rw [List.foldl_cons]
      rcases List.mem_cons.mp ht with rfl | ht
      · rw [find_adopt_ne hnodup' hrest hu, hfind, if_pos rfl]
      · exact ih hnodup' hrest ht

theorem findJob_adopt (tasks : List Task) (m : JobManager) (j : JobId) :
    (tasks.foldl adoptTask m).findJob j = (m.findJob j).map fun job =>
      { job with tasks := job.tasks ++ (tasks.filter fun t => t.job = j).map Task.id } := by
  induction tasks generalizing m with
  | nil => simp
  | cons t tasks ih =>
      have hone : (m.adoptTask t).findJob j = (m.findJob j).map fun job =>
          { job with tasks := job.tasks ++ ([t].filter fun t => t.job = j).map Task.id } := by
        change (m.mutableJob t.job fun job => { job with tasks := job.tasks ++ [t.id] }).findJob j
          = _
        rw [findJob_mutableJob]
        by_cases hj : j = t.job
        · simp [hj]
        · have hj' : ¬ t.job = j := fun he => hj he.symm
          simp [hj, hj']
      rw [List.foldl_cons, ih, hone, Option.map_map]
      congr 1
      funext job
      simp only [Function.comp_apply, List.append_assoc, ← List.map_append, ← List.filter_append,
        List.singleton_append]

theorem foldl_adoptTask_rest (tasks : List Task) (m : JobManager) :
    (tasks.foldl adoptTask m).nextId = m.nextId ∧
      (tasks.foldl adoptTask m).dirtyTasks = m.dirtyTasks ∧
      (tasks.foldl adoptTask m).dirtyJobs = m.dirtyJobs := by
  induction tasks generalizing m with
  | nil => exact ⟨rfl, rfl, rfl⟩
  | cons t tasks ih => exact ih (m.adoptTask t)

-- The jobs that were read back, before any task was.
def adoptJob (m : JobManager) (job : Job) : JobManager :=
  { m with jobs := m.jobs.emplace job.id { job with tasks := [] } }

theorem foldl_adoptJob_rest (jobs : List Job) (m : JobManager) :
    (jobs.foldl adoptJob m).find = m.find ∧ (jobs.foldl adoptJob m).queue = m.queue ∧
      (jobs.foldl adoptJob m).nextId = m.nextId ∧
      (jobs.foldl adoptJob m).dirtyTasks = m.dirtyTasks ∧
      (jobs.foldl adoptJob m).dirtyJobs = m.dirtyJobs := by
  induction jobs generalizing m with
  | nil => exact ⟨rfl, rfl, rfl, rfl, rfl⟩
  | cons job jobs ih => exact ih (m.adoptJob job)

theorem findJob_adoptJob {job : Job} (h : m.findJob job.id = none) (j : JobId) :
    (m.adoptJob job).findJob j = if j = job.id then some { job with tasks := [] } else m.findJob j :=
  Table.lookup_emplace m.jobs job.id j _ h

theorem findJob_adoptJobs_ne (hnodup : (jobs.map Job.id).Nodup)
    (hnew : ∀ job ∈ jobs, m.findJob job.id = none) {j : JobId} (hj : j ∉ jobs.map Job.id) :
    (jobs.foldl adoptJob m).findJob j = m.findJob j := by
  induction jobs generalizing m with
  | nil => rfl
  | cons job jobs ih =>
      obtain ⟨hjob, hnodup⟩ := List.nodup_cons.mp hnodup
      have hfind := findJob_adoptJob (hnew job List.mem_cons_self)
      have hne : j ≠ job.id := fun he => hj (he ▸ List.mem_cons_self)
      rw [List.foldl_cons, ih hnodup, hfind, if_neg hne]
      · intro u hu
        have hut : u.id ≠ job.id := fun he => hjob (he ▸ List.mem_map_of_mem hu)
        rw [hfind, if_neg hut]
        exact hnew u (List.mem_cons_of_mem _ hu)
      · exact fun hmem => hj (List.mem_cons_of_mem _ hmem)

theorem findJob_adoptJobs (hnodup : (jobs.map Job.id).Nodup)
    (hnew : ∀ job ∈ jobs, m.findJob job.id = none) {job : Job} (hjob : job ∈ jobs) :
    (jobs.foldl adoptJob m).findJob job.id = some { job with tasks := [] } := by
  induction jobs generalizing m with
  | nil => cases hjob
  | cons u jobs ih =>
      obtain ⟨hu, hnodup'⟩ := List.nodup_cons.mp hnodup
      have hfind := findJob_adoptJob (hnew u List.mem_cons_self)
      have hrest : ∀ v ∈ jobs, (m.adoptJob u).findJob v.id = none := by
        intro v hv
        have hne : v.id ≠ u.id := fun he => hu (he ▸ List.mem_map_of_mem hv)
        rw [hfind, if_neg hne]
        exact hnew v (List.mem_cons_of_mem _ hv)
      rw [List.foldl_cons]
      rcases List.mem_cons.mp hjob with rfl | hjob
      · rw [findJob_adoptJobs_ne hnodup' hrest hu, hfind, if_pos rfl]
      · exact ih hnodup' hrest hjob

end Adopt

end JobManager

namespace Store

variable {s : Store} {m : JobManager} {id : TaskId} {row : TaskRow}

-- The task that is read from a row.
def taskOf (s : Store) (id : TaskId) (row : TaskRow) : Task := row.toTask id (s.priorWorkersOf id)

theorem ids_loadAll (s : Store) : s.loadAll.tasks.map Task.id = s.tasks.keys := by
  simp only [loadAll, List.map_map, AList.keys, List.keys]
  rfl

theorem jobIds_loadAll (s : Store) : s.loadAll.jobs.map Job.id = s.jobs.keys := by
  simp only [loadAll, List.map_map, AList.keys, List.keys]
  rfl

theorem mem_loadAll {t : Task} : t ∈ s.loadAll.tasks ↔
    ∃ id row, s.tasks.lookup id = some row ∧ s.taskOf id row = t := by
  simp only [loadAll, List.mem_map, Sigma.exists, Table.mem_entries_iff, taskOf]

theorem mem_jobs_loadAll {job : Job} : job ∈ s.loadAll.jobs ↔
    ∃ id row, s.jobs.lookup id = some row ∧ row.toJob id = job := by
  simp only [loadAll, List.mem_map, Sigma.exists, Table.mem_entries_iff]

theorem recoverInto_eq (m : JobManager) (state : RecoveredState) :
    recoverInto m state = state.tasks.foldl JobManager.adoptTask (state.jobs.foldl
      JobManager.adoptJob
      { m with jobs := ∅, tasks := ∅, queue := [], nextId := state.nextId }.clearDirty) := rfl

-- The tasks of a job, in the order in which the rows are read.
def tasksOf (s : Store) (jobId : JobId) : List TaskId :=
  (s.loadAll.tasks.filter fun t => t.job = jobId).map Task.id

theorem mem_tasksOf {s : Store} {jobId : JobId} {id : TaskId} : id ∈ s.tasksOf jobId ↔
    ∃ row, s.tasks.lookup id = some row ∧ row.job = jobId := by
  simp only [tasksOf, List.mem_map, List.mem_filter, mem_loadAll, decide_eq_true_eq]
  constructor
  · rintro ⟨t, ⟨⟨i, row, hrow, rfl⟩, hjob⟩, rfl⟩
    exact ⟨row, hrow, hjob⟩
  · rintro ⟨row, hrow, hjob⟩
    exact ⟨_, ⟨⟨id, row, hrow, rfl⟩, hjob⟩, rfl⟩

theorem nodup_tasksOf (s : Store) (jobId : JobId) : (s.tasksOf jobId).Nodup := by
  have hnodup : (s.loadAll.tasks.map Task.id).Nodup := by
    rw [ids_loadAll]
    exact AList.keys_nodup _
  exact hnodup.sublist (List.filter_sublist.map _)

-- The recovered jobs are those of the rows, each with the tasks that name it.
theorem findJob_recoverInto (m : JobManager) (s : Store) (id : JobId) :
    (recoverInto m s.loadAll).findJob id =
      (s.jobs.lookup id).map fun row => { row.toJob id with tasks := s.tasksOf id } := by
  have hnodup : (s.loadAll.jobs.map Job.id).Nodup := by
    rw [jobIds_loadAll]
    exact AList.keys_nodup _
  rw [recoverInto_eq, JobManager.findJob_adopt]
  have hnew : ∀ i, (JobManager.clearDirty
      { m with jobs := ∅, tasks := ∅, queue := [], nextId := s.loadAll.nextId }).findJob i =
        none := fun _ => rfl
  cases hrow : s.jobs.lookup id with
  | none =>
      have hid : id ∉ s.loadAll.jobs.map Job.id := by
        rw [jobIds_loadAll]
        exact AList.lookup_eq_none.mp hrow
      rw [JobManager.findJob_adoptJobs_ne hnodup (fun _ _ => hnew _) hid, hnew]
      rfl
  | some row =>
      have hmem : row.toJob id ∈ s.loadAll.jobs := mem_jobs_loadAll.mpr ⟨id, row, hrow, rfl⟩
      have hfind := JobManager.findJob_adoptJobs hnodup (fun _ _ => hnew _) hmem
      have hid : (row.toJob id).id = id := rfl
      rw [hid] at hfind
      rw [hfind]
      rfl

theorem foldl_nextId (ids : List Nat) (next : Nat) :
    next ≤ ids.foldl (fun next lo => max next (lo + 1)) next ∧
      ∀ lo ∈ ids, lo < ids.foldl (fun next lo => max next (lo + 1)) next := by
  induction ids generalizing next with
  | nil => exact ⟨Nat.le_refl _, nofun⟩
  | cons a ids ih =>
      obtain ⟨hle, hlt⟩ := ih (max next (a + 1))
      refine ⟨Nat.le_trans (Nat.le_max_left _ _) hle, fun lo hlo => ?_⟩
      rcases List.mem_cons.mp hlo with rfl | hlo
      · exact Nat.lt_of_lt_of_le (Nat.lt_succ_self _) (Nat.le_trans (Nat.le_max_right _ _) hle)
      · exact hlt lo hlo

-- The next identifier is beyond every one that was read.
theorem nextId_recoverInto (m : JobManager) (s : Store) :
    0 < (recoverInto m s.loadAll).nextId ∧
      (∀ id ∈ s.jobs.keys, id.lo < (recoverInto m s.loadAll).nextId) ∧
      ∀ id ∈ s.tasks.keys, id.lo < (recoverInto m s.loadAll).nextId := by
  have hnext : (recoverInto m s.loadAll).nextId = s.loadAll.nextId := by
    rw [recoverInto_eq, (JobManager.foldl_adoptTask_rest _ _).1,
      (JobManager.foldl_adoptJob_rest _ _).2.2.1]
    rfl
  obtain ⟨hle, hlt⟩ := foldl_nextId
    (s.jobs.keys.map (fun id => id.lo) ++ s.tasks.keys.map fun id => id.lo) 1
  rw [hnext]
  refine ⟨hle, fun id hid => hlt _ ?_, fun id hid => hlt _ ?_⟩
  · exact List.mem_append_left _ (List.mem_map_of_mem hid)
  · exact List.mem_append_right _ (List.mem_map_of_mem hid)

-- The recovered tasks are those of the rows, and no others.
theorem find_recoverInto (m : JobManager) (s : Store) (id : TaskId) :
    (recoverInto m s.loadAll).find id =
      (s.tasks.lookup id).map fun row => (s.taskOf id row).recovered := by
  have hnodup : (s.loadAll.tasks.map Task.id).Nodup := by
    rw [ids_loadAll]
    exact AList.keys_nodup _
  rw [recoverInto_eq]
  obtain ⟨hfind, -⟩ := JobManager.foldl_adoptJob_rest s.loadAll.jobs
    { m with jobs := ∅, tasks := ∅, queue := [], nextId := s.loadAll.nextId }.clearDirty
  have hempty : ∀ i, (s.loadAll.jobs.foldl JobManager.adoptJob
      { m with jobs := ∅, tasks := ∅, queue := [], nextId := s.loadAll.nextId }.clearDirty).find i =
        none := by
    intro i
    rw [hfind]
    rfl
  cases hrow : s.tasks.lookup id with
  | none =>
      have hid : id ∉ s.loadAll.tasks.map Task.id := by
        rw [ids_loadAll]
        exact AList.lookup_eq_none.mp hrow
      rw [JobManager.find_adopt_ne hnodup (fun _ _ => hempty _) hid, hempty]
      rfl
  | some row =>
      have hmem : s.taskOf id row ∈ s.loadAll.tasks := mem_loadAll.mpr ⟨id, row, hrow, rfl⟩
      exact JobManager.find_adopt hnodup (fun _ _ => hempty _) hmem

theorem queue_recoverInto (m : JobManager) (s : Store) :
    (recoverInto m s.loadAll).queue = (s.loadAll.tasks.filter Task.inFlight).map Task.id := by
  rw [recoverInto_eq, JobManager.queue_adopt, (JobManager.foldl_adoptJob_rest _ _).2.1]
  exact List.nil_append _

theorem nodup_queue_recoverInto (m : JobManager) (s : Store) :
    (recoverInto m s.loadAll).queue.Nodup := by
  have hnodup : (s.loadAll.tasks.map Task.id).Nodup := by
    rw [ids_loadAll]
    exact AList.keys_nodup _
  rw [queue_recoverInto]
  exact hnodup.sublist (List.filter_sublist.map _)

theorem mem_queue_recoverInto (m : JobManager) (s : Store) (id : TaskId) :
    id ∈ (recoverInto m s.loadAll).queue ↔
      ∃ row, s.tasks.lookup id = some row ∧ (s.taskOf id row).inFlight = true := by
  simp only [queue_recoverInto, List.mem_map, List.mem_filter, mem_loadAll]
  constructor
  · rintro ⟨t, ⟨⟨i, row, hrow, rfl⟩, hflight⟩, rfl⟩
    exact ⟨row, hrow, hflight⟩
  · rintro ⟨row, hrow, hflight⟩
    exact ⟨_, ⟨⟨id, row, hrow, rfl⟩, hflight⟩, rfl⟩

end Store

namespace TaskRow

-- The stored values of Accepted, Rejected and Cancelled.
def Terminal (row : TaskRow) : Prop := row.state = 4 ∨ row.state = 5 ∨ row.state = 6

-- What narrows to Leased or to Validating.
def UnderWay (row : TaskRow) : Prop := row.state.toNat % 256 = 1 ∨ row.state.toNat % 256 = 2

end TaskRow

namespace TaskState

theorem ofColumn_leased_or_validating {raw : UInt64} :
    (ofColumn raw = .leased ∨ ofColumn raw = .validating) ↔
      raw.toNat % 256 = 1 ∨ raw.toNat % 256 = 2 := by
  unfold ofColumn
  split <;> simp_all

theorem isTerminal_ofColumn {raw : UInt64} (h : raw = 4 ∨ raw = 5 ∨ raw = 6) :
    isTerminal (ofColumn raw) = true ∧ raw = (ofColumn raw).toUInt64 := by
  rcases h with rfl | rfl | rfl
  · exact ⟨rfl, rfl⟩
  · exact ⟨rfl, rfl⟩
  · exact ⟨rfl, rfl⟩

end TaskState

namespace Store

variable {s : Store} {m : JobManager} {id : TaskId} {row : TaskRow}

theorem inFlight_taskOf : (s.taskOf id row).inFlight = true ↔ row.UnderWay := by
  have hstate : (s.taskOf id row).state = TaskState.ofColumn row.state := rfl
  simp only [Task.inFlight, hstate, Bool.or_eq_true, beq_iff_eq]
  exact TaskState.ofColumn_leased_or_validating

theorem recovered_underWay (h : row.UnderWay) : (s.taskOf id row).recovered.state = .queued :=
  if_pos (inFlight_taskOf.mpr h)

theorem recovered_terminal (h : row.Terminal) :
    isTerminal (s.taskOf id row).recovered.state = true ∧
      row.state = (s.taskOf id row).recovered.state.toUInt64 := by
  have hterminal := TaskState.isTerminal_ofColumn h
  have hnot : ¬ (s.taskOf id row).inFlight = true := by
    rw [inFlight_taskOf, TaskRow.UnderWay]
    rcases h with h | h | h <;> rw [h] <;> decide
  have hstate : (s.taskOf id row).recovered.state = TaskState.ofColumn row.state := if_neg hnot
  rw [hstate]
  exact hterminal

-- No work that the file holds is lost on the way back into memory.
structure LosesNothing (s : Store) (m : JobManager) : Prop where
  queued : ∀ id row, s.tasks.lookup id = some row → ¬ row.Terminal →
    ∃ t, m.find id = some t ∧ t.state = .queued ∧ m.queue.count id = 1
  done : ∀ id t, m.find id = some t → isTerminal t.state = true → id ∉ m.queue
  stored : ∀ id t, m.find id = some t → isTerminal t.state = true →
    ∃ row, s.tasks.lookup id = some row ∧ row.state = t.state.toUInt64

-- The policy names two states, so what is stored in another one is not queued.
theorem losesNothing_recoverInto (m : JobManager) (s : Store) :
    s.LosesNothing (recoverInto m s.loadAll) ↔
      ∀ id row, s.tasks.lookup id = some row → row.Terminal ∨ row.UnderWay := by
  constructor
  · intro h id row hrow
    by_cases hterminal : row.Terminal
    · exact .inl hterminal
    · obtain ⟨t, -, -, hcount⟩ := h.queued id row hrow hterminal
      have hmem : id ∈ (recoverInto m s.loadAll).queue := by
        rw [← List.count_pos_iff]
        omega
      obtain ⟨row', hrow', hflight⟩ := (mem_queue_recoverInto m s id).mp hmem
      cases hrow.symm.trans hrow'
      exact .inr (inFlight_taskOf.mp hflight)
  · intro h
    have hfound : ∀ id t, (recoverInto m s.loadAll).find id = some t →
        isTerminal t.state = true → ∃ row, s.tasks.lookup id = some row ∧ row.Terminal ∧
          t = (s.taskOf id row).recovered := by
      intro id t ht hterminal
      rw [find_recoverInto, Option.map_eq_some_iff] at ht
      obtain ⟨row, hrow, rfl⟩ := ht
      rcases h id row hrow with hrow' | hrow'
      · exact ⟨row, hrow, hrow', rfl⟩
      · rw [recovered_underWay hrow'] at hterminal
        cases hterminal
    constructor
    case queued =>
      intro id row hrow hterminal
      have hunder := (h id row hrow).resolve_left hterminal
      have hmem := (mem_queue_recoverInto m s id).mpr ⟨row, hrow, inFlight_taskOf.mpr hunder⟩
      refine ⟨(s.taskOf id row).recovered, ?_, recovered_underWay hunder, ?_⟩
      · rw [find_recoverInto, hrow]
        rfl
      · exact List.count_eq_one_of_mem (nodup_queue_recoverInto m s) hmem
    case done =>
      intro id t ht hterminal hmem
      obtain ⟨row, hrow, hrow', -⟩ := hfound id t ht hterminal
      obtain ⟨row'', hrow'', hflight⟩ := (mem_queue_recoverInto m s id).mp hmem
      cases hrow.symm.trans hrow''
      have hqueued : (s.taskOf id row).recovered.state = .queued := if_pos hflight
      have hdone := (@recovered_terminal s id row hrow').1
      rw [hqueued] at hdone
      cases hdone
    case stored =>
      intro id t ht hterminal
      obtain ⟨row, hrow, hrow', rfl⟩ := hfound id t ht hterminal
      exact ⟨row, hrow, (recovered_terminal hrow').2⟩

-- A lease that expired is flushed as Queued. No restart grants that task again.
theorem recovery_loses_queued :
    let m := JobManager.runAll {} ([.createJob "k" 8 42 0, .grant ⟨1, 1⟩ 0 10 8 [],
      .sweepExpiredLeases 10] : List (Operation Rat))
    let s := Store.flush {} m.dirtyJobRows m.dirtyTaskRows
    ¬ s.LosesNothing (recoverInto {} s.loadAll) ∧ (recoverInto {} s.loadAll).queue = [] ∧
      ((recoverInto {} s.loadAll).grant ⟨2, 2⟩ 20 10 8 []).1 = none := by
  refine ⟨fun h => ?_, by decide, by decide⟩
  obtain ⟨t, -, -, hcount⟩ := h.queued ⟨0, 2⟩ ⟨⟨0, 1⟩, 0, 0, 8, Id.nil⟩ (by decide) (by
    rw [TaskRow.Terminal]
    decide)
  revert hcount
  decide

end Store

end P2pGpu.Coordinator
