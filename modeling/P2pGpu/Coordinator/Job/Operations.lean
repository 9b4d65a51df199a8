import P2pGpu.Coordinator.Job.Moves

namespace P2pGpu.Coordinator.JobManager

open P2pGpu.Protocol

section Lookups

variable {m : JobManager} {id i : TaskId} {t t' : Task}

@[simp] theorem find_put (m : JobManager) (id i : TaskId) (t : Task) :
    (m.put id t).find i = if i = id then (m.find i).map fun _ => t else m.find i :=
  Table.lookup_modify m.tasks id i fun _ => t

theorem find_perform (h : m.find id = some t) (a : Act) (t' : Task) (i : TaskId) :
    (m.perform id a t').find i = if i = id then some t' else m.find i := by
  have hput := find_put m id i t'
  by_cases hi : i = id
  · rw [if_pos hi, hi, h] at hput
    rw [if_pos hi, hi]
    exact hput
  · rw [if_neg hi] at hput
    rw [if_neg hi]
    exact hput

@[simp] theorem findJob_perform (m : JobManager) (id : TaskId) (a : Act) (t : Task) (j : JobId) :
    (m.perform id a t).findJob j = m.findJob j := rfl

@[simp] theorem findJob_mutableJob (m : JobManager) (id j : JobId) (f : Job → Job) :
    (m.mutableJob id f).findJob j = if j = id then (m.findJob j).map f else m.findJob j :=
  Table.lookup_modify m.jobs id j f

theorem find_enter (m : JobManager) (t : Task) (h : m.find t.id = none) (i : TaskId) :
    (m.enter t).find i = if i = t.id then some t else m.find i :=
  Table.lookup_emplace m.tasks t.id i t h

theorem findJob_addJob (m : JobManager) (job : Job) (h : m.findJob job.id = none) (j : JobId) :
    (m.addJob job).findJob j = if j = job.id then some job else m.findJob j :=
  Table.lookup_emplace m.jobs job.id j job h

namespace SameRows

variable {m' m'' : JobManager}

theorem refl (m : JobManager) : m.SameRows m :=
  ⟨.refl _, .refl _, .refl _, .refl _, rfl, rfl⟩

theorem trans (h : m.SameRows m') (h' : m'.SameRows m'') : m.SameRows m'' where
  tasks := h.tasks.trans h'.tasks
  jobs := h.jobs.trans h'.jobs
  dirtyTasks := h.dirtyTasks.trans h'.dirtyTasks
  dirtyJobs := h.dirtyJobs.trans h'.dirtyJobs
  queue := h.queue.trans h'.queue
  nextId := h.nextId.trans h'.nextId

theorem find_eq (h : m.SameRows m') (i : TaskId) : m'.find i = m.find i :=
  (Table.lookup_of_perm h.tasks i).symm

theorem findJob_eq (h : m.SameRows m') (j : JobId) : m'.findJob j = m.findJob j :=
  (Table.lookup_of_perm h.jobs j).symm

end SameRows

end Lookups

-- An operation that is one step of one task, or an error that changes nothing.
def Performs (m : JobManager) (id : TaskId) (a : Act) (r : Status × JobManager) : Prop :=
  (∃ e, r = (.error e, m)) ∨
    ∃ t t' m', m.find id = some t ∧ a.result t = some t' ∧
      (m.perform id a t').SameRows m' ∧ r = (.ok (), m')

namespace Performs

variable {m : JobManager} {id : TaskId} {a : Act} {r : Status × JobManager}

theorem moves (h : m.Performs id a r) (ha : ∀ q, a.finds id q) :
    Moves (fun n l => l = .aux ∨ (n = m ∧ l = .act id a)) m r.2 := by
  rcases h with ⟨e, rfl⟩ | ⟨t, t', m', hfind, hresult, hrows, rfl⟩
  · exact Reach.refl m
  · refine Reach.tail (Reach.single (.inr ⟨rfl, rfl⟩) ?_) (.inl rfl) (Move.aux _ _ hrows)
    exact Move.act m id a t t' hfind hresult (ha _)

-- The task that was found, and what became of it.
theorem ok (h : m.Performs id a r) (hok : r.1 = .ok ()) :
    ∃ t t', m.find id = some t ∧ a.result t = some t' ∧ r.2.find id = some t' := by
  rcases h with ⟨e, rfl⟩ | ⟨t, t', m', hfind, hresult, hrows, rfl⟩
  · cases hok
  · refine ⟨t, t', hfind, hresult, ?_⟩
    rw [hrows.find_eq, find_perform hfind, if_pos rfl]

theorem error (h : m.Performs id a r) {e : Error} (he : r.1 = .error e) : r.2 = m := by
  rcases h with ⟨e', rfl⟩ | ⟨t, t', m', hfind, hresult, hrows, rfl⟩
  · rfl
  · cases he

theorem frame (h : m.Performs id a r) {i : TaskId} (hi : i ≠ id) : r.2.find i = m.find i := by
  rcases h with ⟨e, rfl⟩ | ⟨t, t', m', hfind, hresult, hrows, rfl⟩
  · rfl
  · rw [hrows.find_eq, find_perform hfind, if_neg hi]

end Performs

section Single

variable {m : JobManager} {worker : WorkerId} {id : TaskId} {t : Task}

theorem apply_ok {ev : TaskEvent} {r : Task × JobManager} :
    m.apply id t ev = .ok r ↔ ∃ next, advance t.state ev = .ok next ∧
      r = ({ t with state := next }, (m.put id { t with state := next }).markTaskDirty id) := by
  unfold apply
  cases advance t.state ev with
  | error e => simp
  | ok next => simp [eq_comm]

theorem heldTask_ok (h : m.heldTask worker id = .ok t) :
    m.find id = some t ∧ t.state = .leased ∧ t.holder = worker := by
  unfold heldTask at h
  cases hfind : m.find id with
  | none => rw [hfind] at h; cases h
  | some found =>
      rw [hfind] at h
      dsimp only at h
      split at h
      · cases h
      · rename_i hheld
        split at h
        · cases h
        · injection h with h
          subst h
          simp only [ne_eq, not_or, not_not] at hheld
          exact ⟨rfl, hheld.1, hheld.2⟩

theorem checkLease_ok (h : m.checkLease worker id = .ok ()) :
    ∃ t, m.find id = some t ∧ t.state = .leased ∧ t.holder = worker := by
  unfold checkLease at h
  cases hheld : m.heldTask worker id with
  | error e => rw [hheld] at h; cases h
  | ok t => exact ⟨t, heldTask_ok hheld⟩

theorem submit_performs (m : JobManager) (worker : WorkerId) (id : TaskId) :
    m.Performs id (.submit worker) (m.submit worker id) := by
  unfold submit
  cases hheld : m.heldTask worker id with
  | error e => exact .inl ⟨e, rfl⟩
  | ok t =>
      dsimp only
      obtain ⟨hfind, hstate, hholder⟩ := heldTask_ok hheld
      cases happly : m.apply id t .submit with
      | error e => exact .inl ⟨e, rfl⟩
      | ok r =>
          obtain ⟨next, hto, rfl⟩ := apply_ok.mp happly
          obtain ⟨-, rfl⟩ := advance_submit.mp hto
          refine .inr ⟨t, _, _, hfind, if_pos ⟨hstate, hholder⟩, SameRows.refl _, ?_⟩
          simp only [perform, put, markTaskDirty, Table.modify_modify_const]
          rfl

theorem renewLease_performs (m : JobManager) (worker : WorkerId) (id : TaskId) (nowMs : UInt64)
    (leaseMs : UInt32) :
    m.Performs id (.renew worker (nowMs + leaseMs.toUInt64))
      (m.renewLease worker id nowMs leaseMs) := by
  unfold renewLease
  cases hheld : m.heldTask worker id with
  | error e => exact .inl ⟨e, rfl⟩
  | ok t =>
      dsimp only
      obtain ⟨hfind, hstate, hholder⟩ := heldTask_ok hheld
      cases happly : m.apply id t .renew with
      | error e => exact .inl ⟨e, rfl⟩
      | ok r =>
          obtain ⟨next, hto, rfl⟩ := apply_ok.mp happly
          obtain ⟨-, rfl⟩ := advance_renew.mp hto
          refine .inr ⟨t, _, _, hfind, if_pos ⟨hstate, hholder⟩, SameRows.refl _, ?_⟩
          simp only [perform, put, markTaskDirty, Table.modify_modify_const, hstate]
          rfl

theorem recordPartial_performs (m : JobManager) (worker : WorkerId) (id : TaskId)
    (sequence : UInt32) (unitsDone : UInt64) (payload : Payload) (nowMs : UInt64)
    (leaseMs : UInt32) :
    m.Performs id (.renew worker (nowMs + leaseMs.toUInt64))
      (m.recordPartial worker id sequence unitsDone payload nowMs leaseMs) := by
  unfold recordPartial
  cases m.checkLease worker id with
  | error e => exact .inl ⟨e, rfl⟩
  | ok _ =>
      dsimp only
      split
      · exact .inl ⟨_, rfl⟩
      · rcases renewLease_performs m worker id nowMs leaseMs with
          ⟨e, hr⟩ | ⟨t, t', m', hfind, hresult, hrows, hr⟩
        · rw [hr]
          exact .inl ⟨e, rfl⟩
        · rw [hr]
          refine .inr ⟨t, t', _, hfind, hresult, ?_, rfl⟩
          exact ⟨hrows.tasks, hrows.jobs, hrows.dirtyTasks, hrows.dirtyJobs, hrows.queue,
            hrows.nextId⟩

theorem requeue_performs (m : JobManager) (id : TaskId) {why : TaskEvent}
    (hwhy : why = .release ∨ why = .leaseExpired) :
    m.Performs id .requeue (m.requeue id why) := by
  unfold requeue
  cases hfind : m.find id with
  | none => exact .inl ⟨_, rfl⟩
  | some t =>
      dsimp only
      cases happly : m.apply id t why with
      | error e => exact .inl ⟨e, rfl⟩
      | ok r =>
          obtain ⟨next, hto, rfl⟩ := apply_ok.mp happly
          have hedge : t.state = .leased ∧ next = .queued := by
            rcases hwhy with rfl | rfl
            · exact advance_release.mp hto
            · exact advance_leaseExpired.mp hto
          obtain ⟨hstate, rfl⟩ := hedge
          refine .inr ⟨t, _, _, hfind, if_pos hstate, SameRows.refl _, ?_⟩
          simp only [perform, release, put, markTaskDirty, Table.modify_modify_const]
          rfl

theorem finish_performs (m : JobManager) (id : TaskId) (accepted : Bool) :
    m.Performs id (.finish accepted) (m.finish id accepted) := by
  unfold finish
  cases hfind : m.find id with
  | none => exact .inl ⟨_, rfl⟩
  | some t =>
      dsimp only
      cases happly : m.apply id t (if accepted then .accept else .reject) with
      | error e => exact .inl ⟨e, rfl⟩
      | ok r =>
          obtain ⟨next, hto, rfl⟩ := apply_ok.mp happly
          have hedge : t.state = .validating ∧ next = if accepted then .accepted else .rejected := by
            cases accepted
            · exact advance_reject.mp hto
            · exact advance_accept.mp hto
          obtain ⟨hstate, rfl⟩ := hedge
          refine .inr ⟨t, _, _, hfind, if_pos hstate, ?_, rfl⟩
          simp only [perform, put, markTaskDirty, Table.modify_modify_const]
          exact ⟨.refl _, .refl _, .refl _, .refl _, rfl, rfl⟩

theorem recordSubmission_performs (m : JobManager) (id : TaskId) (worker : WorkerId)
    (checksum : UInt64) (payload : Payload) :
    ∃ s : Status, m.Performs id (.record ⟨worker, checksum, payload⟩)
      (s, m.recordSubmission id worker checksum payload) := by
  unfold recordSubmission
  cases hfind : m.find id with
  | none => exact ⟨.error illegal, .inl ⟨_, rfl⟩⟩
  | some t =>
      refine ⟨.ok (), .inr ⟨t, _, _, hfind, rfl, SameRows.refl _, rfl⟩⟩

-- Both edges are taken at once: the one in between is seen by nobody.
theorem apply_replicate {r r' : Task × JobManager} (h : m.apply id t .disagreement = .ok r)
    (h' : r.2.apply id r.1 .issueReplica = .ok r') :
    t.state = .validating ∧ r' = ({ t with state := .queued },
      (m.put id { t with state := .queued }).markTaskDirty id) := by
  obtain ⟨next, hto, rfl⟩ := apply_ok.mp h
  obtain ⟨hstate, rfl⟩ := advance_disagreement.mp hto
  obtain ⟨next', hto', rfl⟩ := apply_ok.mp h'
  obtain ⟨-, rfl⟩ := advance_issueReplica.mp hto'
  refine ⟨hstate, ?_⟩
  simp only [put, markTaskDirty, Table.modify_modify_const,
    List.insert_of_mem List.mem_insert_self]

theorem apply_issueReplica (h : m.apply id t .disagreement = .ok r) (e : Error) :
    r.2.apply id r.1 .issueReplica ≠ .error e := by
  obtain ⟨next, hto, rfl⟩ := apply_ok.mp h
  obtain ⟨-, rfl⟩ := advance_disagreement.mp hto
  intro he
  simp [apply, advance] at he

theorem requestReplica_performs (m : JobManager) (id : TaskId) :
    m.Performs id (.replicate false) (m.requestReplica id) := by
  unfold requestReplica
  cases hfind : m.find id with
  | none => exact .inl ⟨_, rfl⟩
  | some t =>
      dsimp only
      cases happly : m.apply id t .disagreement with
      | error e => exact .inl ⟨e, rfl⟩
      | ok r =>
          dsimp only
          cases hissue : r.2.apply id r.1 .issueReplica with
          | error e => exact absurd hissue (apply_issueReplica happly e)
          | ok r' =>
              obtain ⟨hstate, rfl⟩ := apply_replicate happly hissue
              refine .inr ⟨t, _, _, hfind, if_pos hstate, SameRows.refl _, ?_⟩
              simp only [perform, release, put, markTaskDirty, Table.modify_modify_const]
              rfl

theorem restartValidation_performs (m : JobManager) (id : TaskId) :
    m.Performs id (.replicate true) (m.restartValidation id) := by
  unfold restartValidation
  cases hfind : m.find id with
  | none => exact .inl ⟨_, rfl⟩
  | some t =>
      dsimp only
      cases happly : m.apply id t .disagreement with
      | error e => exact .inl ⟨e, rfl⟩
      | ok r =>
          dsimp only
          cases hissue : r.2.apply id r.1 .issueReplica with
          | error e => exact absurd hissue (apply_issueReplica happly e)
          | ok r' =>
              obtain ⟨hstate, rfl⟩ := apply_replicate happly hissue
              refine .inr ⟨t, _, _, hfind, if_pos hstate, SameRows.refl _, ?_⟩
              simp only [perform, release, put, markTaskDirty, Table.modify_modify_const]
              rfl

end Single

end P2pGpu.Coordinator.JobManager
