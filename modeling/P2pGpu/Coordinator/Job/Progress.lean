import P2pGpu.Coordinator.Job.Carve

namespace P2pGpu.Coordinator

open P2pGpu.Protocol

-- What a task may have become later on: the same piece of work, and once it is over
-- it stays as it ended.
structure Task.Later (t t' : Task) : Prop where
  job : t'.job = t.job
  startUnit : t'.startUnit = t.startUnit
  unitCount : t'.unitCount = t.unitCount
  replicaOf : t'.replicaOf = t.replicaOf
  ended : isTerminal t.state = true → t'.state = t.state

namespace Task.Later

variable {t t' t'' : Task}

theorem refl (t : Task) : t.Later t := ⟨rfl, rfl, rfl, rfl, fun _ => rfl⟩

theorem trans (h : t.Later t') (h' : t'.Later t'') : t.Later t'' where
  job := h'.job.trans h.job
  startUnit := h'.startUnit.trans h.startUnit
  unitCount := h'.unitCount.trans h.unitCount
  replicaOf := h'.replicaOf.trans h.replicaOf
  ended := by
    intro hover
    have hsame := h.ended hover
    rw [h'.ended (by rw [hsame]; exact hover), hsame]

-- No event is legal for a task that is over.
theorem of_advance {next : TaskState} {ev : TaskEvent} (h : advance t.state ev = .ok next) :
    isTerminal t.state = false := by
  cases hs : t.state with
  | queued => rfl
  | leased => rfl
  | validating => rfl
  | needsReplica => rfl
  | accepted =>
      rw [hs] at h
      cases ev <;> cases h
  | rejected =>
      rw [hs] at h
      cases ev <;> cases h
  | cancelled =>
      rw [hs] at h
      cases ev <;> cases h

theorem of_result {a : Act} (h : a.result t = some t') : t.Later t' := by
  obtain ⟨-, hjob, hspan, hreplica⟩ := Act.result_shape h
  have hstart : t'.startUnit = t.startUnit := by
    have := congrArg Span.start hspan
    exact UInt64.toNat_inj.mp this
  have hcount : t'.unitCount = t.unitCount := by
    have := congrArg Span.count hspan
    exact UInt64.toNat_inj.mp this
  refine ⟨hjob, hstart, hcount, hreplica, fun hover => ?_⟩
  have hnot : ∀ {s : TaskState}, t.state = s → isTerminal s = false → t'.state = t.state := by
    intro s hs hs'
    rw [hs, hs'] at hover
    cases hover
  cases a with
  | record =>
      cases h
      rfl
  | cancel =>
      simp only [Act.result] at h
      split at h
      · rename_i hstate
        rcases hstate with hs | hs | hs
        · exact hnot hs rfl
        · exact hnot hs rfl
        · exact hnot hs rfl
      · cases h
  | grant =>
      simp only [Act.result] at h
      split at h
      · rename_i hstate
        exact hnot hstate.1 rfl
      · cases h
  | submit =>
      simp only [Act.result] at h
      split at h
      · rename_i hstate
        exact hnot hstate.1 rfl
      · cases h
  | renew =>
      simp only [Act.result] at h
      split at h
      · rename_i hstate
        exact hnot hstate.1 rfl
      · cases h
  | requeue =>
      simp only [Act.result] at h
      split at h
      · rename_i hstate
        exact hnot hstate rfl
      · cases h
  | replicate =>
      simp only [Act.result] at h
      split at h
      · rename_i hstate
        exact hnot hstate rfl
      · cases h
  | finish =>
      simp only [Act.result] at h
      split at h
      · rename_i hstate
        exact hnot hstate rfl
      · cases h

end Task.Later

-- What the edit of a job's metadata leaves alone.
structure Job.KeepsCursor (edit : Job → Job) : Prop where
  totalUnits : ∀ job, (edit job).totalUnits = job.totalUnits
  nextUnit : ∀ job, (edit job).nextUnit = job.nextUnit
  tasks : ∀ job, (edit job).tasks = job.tasks

namespace Label

def EditsMetadata : Label → Prop
  | .edit _ f => Job.KeepsCursor f
  | .create _ | .mint | .act _ _ | .carve _ _ | .probe _ | .replica _ | .aux | .flush => True

end Label

def Operation.EditsMetadata {F : Type} : Operation F → Prop
  | .mutableJob _ edit => Job.KeepsCursor edit
  | _ => True

namespace JobManager

-- What is behind a job cannot be taken back.
structure Progresses (m m' : JobManager) : Prop where
  task : ∀ id t, m.find id = some t → ∃ t', m'.find id = some t' ∧ t.Later t'
  cursor : ∀ jobId job, m.findJob jobId = some job →
    ∃ job', m'.findJob jobId = some job' ∧ job.nextUnit ≤ job'.nextUnit
  complete : ∀ jobId, m.jobComplete jobId = true → m'.jobComplete jobId = true

variable {m m' m'' : JobManager} {l : Label} {jobId : JobId} {job : Job} {id : TaskId}

theorem Progresses.refl (m : JobManager) : m.Progresses m where
  task _ t h := ⟨t, h, .refl t⟩
  cursor _ job h := ⟨job, h, UInt64.le_refl _⟩
  complete _ h := h

theorem Progresses.trans (h : m.Progresses m') (h' : m'.Progresses m'') : m.Progresses m'' where
  task := by
    intro id t hf
    obtain ⟨t', hf', hlater⟩ := h.task id t hf
    obtain ⟨t'', hf'', hlater'⟩ := h'.task id t' hf'
    exact ⟨t'', hf'', hlater.trans hlater'⟩
  cursor := by
    intro jobId job hjob
    obtain ⟨job', hjob', hle⟩ := h.cursor jobId job hjob
    obtain ⟨job'', hjob'', hle'⟩ := h'.cursor jobId job' hjob'
    exact ⟨job'', hjob'', UInt64.le_trans hle hle'⟩
  complete jobId hc := h'.complete jobId (h.complete jobId hc)

-- A job whose keyspace is carved and whose tasks are all over.
theorem jobComplete_iff : m.jobComplete jobId = true ↔
    ∃ job, m.findJob jobId = some job ∧ job.keyspaceExhausted = true ∧
      ∀ id ∈ job.tasks, ∃ t, m.find id = some t ∧ isTerminal t.state = true := by
  unfold jobComplete
  cases hjob : m.findJob jobId with
  | none => simp
  | some job =>
      simp only [Bool.and_eq_true, List.all_eq_true, Option.some.injEq, exists_eq_left']
      refine and_congr_right fun _ => forall₂_congr fun id _ => ?_
      cases hf : m.find id with
      | none => simp
      | some t => simp

-- A complete job stays so where its list and its bounds stay as they are.
theorem complete_of_same (htask : ∀ id t, m.find id = some t → ∃ t', m'.find id = some t' ∧
      t.Later t')
    (hsame : ∀ job, m.findJob jobId = some job → m.jobComplete jobId = true →
      ∃ job', m'.findJob jobId = some job' ∧ job'.totalUnits = job.totalUnits ∧
        job'.nextUnit = job.nextUnit ∧ job'.tasks = job.tasks)
    (h : m.jobComplete jobId = true) : m'.jobComplete jobId = true := by
  obtain ⟨job, hjob, hcarved, hover⟩ := jobComplete_iff.mp h
  obtain ⟨job', hjob', htotal, hnext, htasks⟩ := hsame job hjob h
  refine jobComplete_iff.mpr ⟨job', hjob', ?_, fun id hid => ?_⟩
  · rw [Job.keyspaceExhausted, htotal, hnext]
    exact hcarved
  · rw [htasks] at hid
    obtain ⟨t, hf, hterminal⟩ := hover id hid
    obtain ⟨t', hf', hlater⟩ := htask id t hf
    exact ⟨t', hf', by rw [hlater.ended hterminal]; exact hterminal⟩

-- A task that is entered takes nobody's place.
theorem find_enter_kept {t s : Task} (hf : m.find id = some s) :
    (m.enter t).find id = some s :=
  Table.lookup_emplace_kept hf t.id t

theorem findJob_addJob_kept (hjob : m.findJob jobId = some job) (new : Job) :
    (m.addJob new).findJob jobId = some job :=
  Table.lookup_emplace_kept hjob new.id new

theorem Move.later (h : Move m l m') {t : Task} (hf : m.find id = some t) :
    ∃ t', m'.find id = some t' ∧ t.Later t' := by
  cases h with
  | act i a s s' hs hresult hqueue =>
      have hperform := find_perform hs a s' id
      by_cases hi : id = i
      · rw [if_pos hi] at hperform
        rw [hi, hs] at hf
        cases hf
        exact ⟨s', hperform, .of_result hresult⟩
      · rw [if_neg hi] at hperform
        exact ⟨t, hperform.trans hf, .refl t⟩
  | carve job tile s units hjob hleft hborn horig hstart hcount hpos =>
      exact ⟨t, find_enter_kept hf, .refl t⟩
  | probe job s hjob hborn horig hpos => exact ⟨t, find_enter_kept hf, .refl t⟩
  | replica job original s hjob hmem hfind horig hborn hstart hcount hrace =>
      exact ⟨t, find_enter_kept hf, .refl t⟩
  | aux _ h => exact ⟨t, by rw [h.find_eq]; exact hf, .refl t⟩
  | create => exact ⟨t, hf, .refl t⟩
  | edit => exact ⟨t, hf, .refl t⟩
  | mint => exact ⟨t, hf, .refl t⟩
  | flush => exact ⟨t, hf, .refl t⟩

theorem Moves.later {guard : JobManager → Label → Prop} (h : Moves guard m m') {t : Task}
    (hf : m.find id = some t) : ∃ t', m'.find id = some t' ∧ t.Later t' := by
  refine h.invariant (fun n => ∃ t', n.find id = some t' ∧ t.Later t') ⟨t, hf, .refl t⟩ ?_
  rintro n l n' ⟨s, hs, hlater⟩ - hmove
  obtain ⟨s', hs', hnext⟩ := hmove.later hs
  exact ⟨s', hs', hlater.trans hnext⟩

-- What a move makes of the jobs that are there. Only a job with keyspace left is
-- carved, and only one with a task under way gets a replica.
theorem Move.job_later (h : Move m l m') (hl : l.EditsMetadata)
    (hjob : m.findJob jobId = some job) :
    ∃ job', m'.findJob jobId = some job' ∧ job'.totalUnits = job.totalUnits ∧
      job.nextUnit ≤ job'.nextUnit ∧
      (m.jobComplete jobId = true → job'.nextUnit = job.nextUnit ∧ job'.tasks = job.tasks) := by
  have hsame : ∀ {n : JobManager}, n.findJob jobId = some job →
      ∃ job', n.findJob jobId = some job' ∧ job'.totalUnits = job.totalUnits ∧
        job.nextUnit ≤ job'.nextUnit ∧
        (m.jobComplete jobId = true → job'.nextUnit = job.nextUnit ∧ job'.tasks = job.tasks) :=
    fun hn => ⟨job, hn, rfl, UInt64.le_refl _, fun _ => ⟨rfl, rfl⟩⟩
  cases h with
  | create new => exact hsame (findJob_addJob_kept hjob new)
  | edit i edit =>
      by_cases hi : jobId = i
      · refine ⟨edit job, ?_, hl.totalUnits job, ?_, fun _ => ⟨hl.nextUnit job, hl.tasks job⟩⟩
        · rw [findJob_mutableJob, if_pos hi, hjob]
          rfl
        · rw [hl.nextUnit]
          exact UInt64.le_refl _
      · refine hsame ?_
        rw [findJob_mutableJob, if_neg hi]
        exact hjob
  | carve carved tile t units hcarved hleft hborn horig hstart hcount hpos =>
      have hfind : ∀ n : JobManager, n = m.mutableJob t.job (fun job =>
          job.carved t.id tile t.unitCount) → n.findJob jobId =
            if jobId = t.job then some (job.carved t.id tile t.unitCount) else some job := by
        rintro n rfl
        rw [findJob_mutableJob, hjob]
        rfl
      by_cases hi : jobId = t.job
      · have hown : carved = job := Option.some.inj (hcarved.symm.trans (hi ▸ hjob))
        have hnext := Job.Carvable.next_toNat hleft hcount
        rw [hown] at hnext hleft
        refine ⟨job.carved t.id tile t.unitCount, (hfind _ rfl).trans (if_pos hi), rfl, ?_, ?_⟩
        · rw [UInt64.le_iff_toNat_le]
          change job.nextUnit.toNat ≤ (job.nextUnit + t.unitCount).toNat
          omega
        · intro hcomplete
          obtain ⟨j, hj, hexhausted, -⟩ := jobComplete_iff.mp hcomplete
          rw [hjob] at hj
          cases hj
          rw [hleft] at hexhausted
          cases hexhausted
      · exact hsame ((hfind _ rfl).trans (if_neg hi))
  | replica raced original t hraced hmem hfind horig hborn hstart hcount hrace =>
      have hmutable : ∀ n : JobManager, n = m.mutableJob t.job (fun job =>
          { job with tasks := job.tasks ++ [t.id] }) → n.findJob jobId =
            if jobId = t.job then some { job with tasks := job.tasks ++ [t.id] }
            else some job := by
        rintro n rfl
        rw [findJob_mutableJob, hjob]
        rfl
      by_cases hi : jobId = t.job
      · refine ⟨_, (hmutable _ rfl).trans (if_pos hi), rfl, UInt64.le_refl _, ?_⟩
        intro hcomplete
        obtain ⟨j, hj, -, hover⟩ := jobComplete_iff.mp hcomplete
        rw [hjob] at hj
        cases hj
        have hown : raced = job := Option.some.inj (hraced.symm.trans (hi ▸ hjob))
        rw [hown] at hmem
        obtain ⟨s, hs, hterminal⟩ := hover t.replicaOf hmem
        rw [hfind] at hs
        cases hs
        have hleased : original.state = .leased := by
          simp only [speculable, hfind] at hrace
          split at hrace
          · rename_i hcond
            exact hcond.1
          · cases hrace
        rw [hleased] at hterminal
        cases hterminal
      · exact hsame ((hmutable _ rfl).trans (if_neg hi))
  | aux _ h => exact hsame (by rw [h.findJob_eq]; exact hjob)
  | mint => exact hsame hjob
  | act => exact hsame hjob
  | probe => exact hsame hjob
  | flush => exact hsame hjob

theorem Move.progresses (h : Move m l m') (hl : l.EditsMetadata) : m.Progresses m' where
  task _ _ hf := h.later hf
  cursor := by
    intro jobId job hjob
    obtain ⟨job', hjob', -, hle, -⟩ := h.job_later hl hjob
    exact ⟨job', hjob', hle⟩
  complete := by
    intro jobId hcomplete
    refine complete_of_same (fun id t hf => h.later hf) (fun job hjob hc => ?_) hcomplete
    obtain ⟨job', hjob', htotal, -, hkept⟩ := h.job_later hl hjob
    exact ⟨job', hjob', htotal, hkept hc⟩

theorem Moves.progresses {guard : JobManager → Label → Prop}
    (hguard : ∀ m l, guard m l → l.EditsMetadata) (h : Moves guard m m') : m.Progresses m' :=
  h.invariant (fun n => m.Progresses n) (.refl m) fun n l _ hi hl hmove =>
    hi.trans (hmove.progresses (hguard n l hl))

-- Whatever event a task is sent back with, it is one that it may take, and the task
-- is marked.
theorem requeue_cases (m : JobManager) (id : TaskId) (why : TaskEvent) :
    (m.requeue id why).2 = m ∨ ∃ t next, m.find id = some t ∧ advance t.state why = .ok next ∧
      (m.requeue id why).2 =
        { (m.put id { t with state := next, holder := Id.nil, leaseExpiresAtMs := 0 }).markTaskDirty
            id with
          queue := m.queue ++ [id] } := by
  cases hf : m.find id with
  | none =>
      left
      simp [requeue, hf]
  | some t =>
      cases happly : m.apply id t why with
      | error e =>
          left
          simp [requeue, hf, happly]
      | ok r =>
          obtain ⟨next, hnext, hr⟩ := apply_ok.mp happly
          refine .inr ⟨t, next, rfl, hnext, ?_⟩
          simp [requeue, hf, happly, hr, release, put, markTaskDirty]

theorem requeue_progresses (m : JobManager) (id : TaskId) (why : TaskEvent) :
    m.Progresses (m.requeue id why).2 := by
  rcases requeue_cases m id why with hsame | ⟨t, next, hf, hnext, hback⟩
  · rw [hsame]
    exact .refl m
  · have hopen := Task.Later.of_advance hnext
    have hlater : ∀ i s, m.find i = some s →
        ∃ s', (m.requeue id why).2.find i = some s' ∧ s.Later s' := by
      intro i s hs
      have hfind : (m.requeue id why).2.find i = if i = id then
          some { t with state := next, holder := Id.nil, leaseExpiresAtMs := 0 } else some s := by
        rw [hback]
        refine (find_put m id i _).trans ?_
        rw [hs]
        rfl
      by_cases hi : i = id
      · rw [hi, hf] at hs
        cases hs
        refine ⟨_, hfind.trans (if_pos hi), rfl, rfl, rfl, rfl, fun hover => ?_⟩
        rw [hopen] at hover
        cases hover
      · exact ⟨s, hfind.trans (if_neg hi), .refl s⟩
    have hjobs : ∀ jobId, (m.requeue id why).2.findJob jobId = m.findJob jobId := by
      intro jobId
      rw [hback]
      rfl
    refine ⟨hlater, fun jobId job hjob => ?_, fun jobId hc => ?_⟩
    · exact ⟨job, (hjobs jobId).trans hjob, UInt64.le_refl _⟩
    · exact complete_of_same hlater
        (fun job hjob _ => ⟨job, (hjobs jobId).trans hjob, rfl, rfl, rfl⟩) hc

section

variable {F : Type} [Double F] {o : Operation F}

omit [Double F] in
theorem takes_editsMetadata (ho : o.EditsMetadata) (m : JobManager) (l : Label)
    (h : Takes o m l) : l.EditsMetadata := by
  cases l with
  | edit jobId edit =>
      cases o with
      | mutableJob id f =>
          cases h
          exact ho
      | _ => cases h
  | _ => trivial

theorem run_progresses (m : JobManager) (ho : o.EditsMetadata) : m.Progresses (o.run m) := by
  cases o with
  | requeue id why => exact requeue_progresses m id why
  | seedRender render inputRef =>
      obtain ⟨n, hcreate, hedit⟩ := seedRender_moves m render inputRef
      have hmetadata : Label.EditsMetadata
          (.edit ⟨0, m.nextId⟩ (Label.seedsRender render inputRef)) :=
        ⟨fun _ => rfl, fun _ => rfl, fun _ => rfl⟩
      exact (hcreate.progresses trivial).trans (hedit.progresses hmetadata)
  | _ => exact Moves.progresses (takes_editsMetadata ho) (run_moves _ trivial nofun)

theorem step_progresses (ho : o.EditsMetadata) (h : Step m o m') : m.Progresses m' := by
  have hrows := Move.aux _ _ h.sameRows
  exact (run_progresses m ho).trans (hrows.progresses trivial)

-- Whatever the operations are, and whatever they return.
theorem completion_final (h : Reach Step (fun _ (o : Operation F) => o.EditsMetadata) m m') :
    m.Progresses m' :=
  h.invariant (fun n => m.Progresses n) (.refl m) fun _ _ _ hi ho hstep =>
    hi.trans (step_progresses ho hstep)

-- A job of one task, answered and accepted, and more asked of it afterwards.
theorem completion_final_search :
    let m := runAll {} ([.createJob "brute_search_v1" 8 42 0, .grant ⟨1, 1⟩ 0 10 8 [],
      .submit ⟨1, 1⟩ ⟨0, 2⟩, .finish ⟨0, 2⟩ true] : List (Operation Rat))
    let m' := runAll m ([.requeue ⟨0, 2⟩ .release, .grant ⟨2, 1⟩ 20 10 8 []] :
      List (Operation Rat))
    m.jobComplete ⟨0, 1⟩ = true ∧ m.Progresses m' := by
  refine ⟨by decide, completion_final (reach_runAll _ _ ?_)⟩
  intro o ho n
  simp only [List.mem_cons, List.not_mem_nil, or_false] at ho
  rcases ho with rfl | rfl
  · exact trivial
  · exact trivial

end

end JobManager

end P2pGpu.Coordinator
