import P2pGpu.Coordinator.Job.Offers
import P2pGpu.Coordinator.Job.Siblings

namespace P2pGpu.Coordinator

open P2pGpu.Protocol

-- A preferred place is tried first, and takes nothing away from the order.
section

variable {α β : Type} (xs : List α) (f : α → Option β)

theorem findSome?_places :
    (List.range xs.length).findSome? (fun i => (xs[i]?).bind f) = xs.findSome? f := by
  induction xs with
  | nil => rfl
  | cons x xs ih =>
      rw [List.length_cons, List.range_succ_eq_map, List.findSome?_cons, List.findSome?_cons,
        List.findSome?_map]
      simp only [List.getElem?_cons_zero, Option.bind_some]
      cases f x with
      | some y => rfl
      | none => exact ih

theorem findSome?_preferring (place : Option Nat) :
    (match place with
      | none => List.range xs.length
      | some i => i :: (List.range xs.length).filter fun j => j ≠ i).findSome?
        (fun i => (xs[i]?).bind f) =
      ((place.bind fun i => xs[i]?).bind f).or (xs.findSome? f) := by
  rw [← findSome?_places xs f]
  cases place with
  | none => simp
  | some i =>
      rw [List.findSome?_cons, Option.bind_some]
      cases hfirst : (xs[i]?).bind f with
      | some y => rfl
      | none =>
          -- The place that is left out has nothing to give.
          rw [Option.none_or]
          show ((List.range xs.length).filter fun j => j ≠ i).findSome? _ = _
          induction List.range xs.length with
          | nil => rfl
          | cons j js ih =>
              by_cases hj : j = i
              · subst hj
                rw [List.filter_cons_of_neg (by simp), List.findSome?_cons, hfirst]
                exact ih
              · rw [List.filter_cons_of_pos (by simpa using hj), List.findSome?_cons,
                  List.findSome?_cons, ih]

end

-- The job has a range for a task of at most that many units.
def Job.yields (job : Job) (units : UInt64) : Bool :=
  !job.keyspaceExhausted &&
    match job.carveStart with
    | none => false
    | some (_, start) => job.carveCount units start ≠ 0

namespace JobManager

-- A bulk input that is needed, and that the worker holds.
def isCached (cached : List AssetId) (need : Option AssetId) : Bool :=
  match need with
  | some want => hasAsset cached want
  | none => false

def neededInput (m : JobManager) (id : TaskId) : Option AssetId :=
  match m.find id with
  | none => none
  | some task =>
      match m.findJob task.job with
      | none => none
      | some job => job.inputRef

def needsHeld (m : JobManager) (cached : List AssetId) (id : TaskId) : Bool :=
  isCached cached (m.neededInput id)

-- The task, if it is queued and may go to the worker.
def free (m : JobManager) (worker : WorkerId) (id : TaskId) : Option Task :=
  (m.find id).filter fun t =>
    t.state = .queued ∧ (checkReplicaAssignment t.priorWorkers worker).isOk

-- The job of the first task of the queue, or where the queue has none the first job
-- with keyspace left.
def Leads (m : JobManager) (jobId : JobId) : Prop :=
  ∃ job, m.findJob jobId = some job ∧
    match m.queue.filterMap m.find with
    | t :: _ => m.findJob t.job = some job
    | [] => ∃ i, m.jobs.entries.find? (fun e => !e.2.keyspaceExhausted) = some ⟨i, job⟩

-- Whatever the worker is given first is of the job that leads.
structure Aligned (m : JobManager) (worker : WorkerId) (units : UInt64) (cached : List AssetId) :
    Prop where
  -- The first queued task whose input the worker holds, if it may have it.
  preferred : ∀ id t, m.queue.find? (m.needsHeld cached) = some id → m.free worker id = some t →
    m.Leads t.job
  -- Or else the one that waits longest of those it may have.
  waiting : ∀ t, ((m.queue.find? (m.needsHeld cached)).bind (m.free worker)) = none →
    m.queue.findSome? (m.free worker) = some t → m.Leads t.job
  -- Or else the first job that yields a task, of those whose input it holds,
  affine : ∀ e, m.queue.findSome? (m.free worker) = none →
    m.jobs.entries.find? (fun e => isCached cached e.2.inputRef && e.2.yields units) = some e →
      m.Leads e.1
  -- and of all jobs.
  carved : ∀ e, m.queue.findSome? (m.free worker) = none →
    m.jobs.entries.find? (fun e => isCached cached e.2.inputRef && e.2.yields units) = none →
      m.jobs.entries.find? (fun e => e.2.yields units) = some e → m.Leads e.1

-- A granted task is of the job that its size was computed for.
def SizedAlike (m : JobManager) (worker : WorkerId) (units : UInt64) (cached : List AssetId) :
    Prop :=
  ∀ nowMs leaseMs task, (m.grant worker nowMs leaseMs units cached).1 = some task →
    ∃ job, m.peekNextJob = some job ∧ m.findJob task.job = some job

section

variable {m : JobManager} {worker : WorkerId} {nowMs : UInt64} {leaseMs : UInt32}
  {units : UInt64} {cached : List AssetId} {jobId : JobId}

theorem isCached_nil (need : Option AssetId) : isCached [] need = false := by
  cases need <;> rfl

theorem leads_iff : m.Leads jobId ↔
    ∃ job, m.peekNextJob = some job ∧ m.findJob jobId = some job := by
  have hhead : m.queue.findSome? m.find = (m.queue.filterMap m.find).head? :=
    List.head?_filterMap.symm
  unfold Leads peekNextJob
  rw [hhead]
  cases m.queue.filterMap m.find with
  | nil => simp [and_comm]
  | cons t rest => simp [and_comm]

-- The place that affinity prefers is that of the first task whose input is held.
theorem preferred_eq (m : JobManager) (cached : List AssetId) :
    (preferCached (m.queue.map m.neededInput) cached).bind (fun i => m.queue[i]?) =
      m.queue.find? (m.needsHeld cached) := by
  unfold preferCached
  by_cases hcached : cached.isEmpty = true
  · have hnone : m.queue.find? (m.needsHeld cached) = none := by
      rw [List.isEmpty_iff.mp hcached]
      exact List.find?_eq_none.mpr fun id _ => by simp [needsHeld, isCached_nil]
    rw [if_pos hcached, hnone, Option.bind_none]
  · rw [if_neg hcached, List.findIdx?_map, List.find?_eq_bind_findIdx?_getElem?]
    rfl

theorem nextQueued_eq (m : JobManager) (worker : WorkerId) (cached : List AssetId) :
    m.nextQueued worker cached =
      ((m.queue.find? (m.needsHeld cached)).bind (m.free worker)).or
        (m.queue.findSome? (m.free worker)) := by
  rw [← preferred_eq]
  exact findSome?_preferring m.queue (m.free worker) _

theorem carveFrom_job (entries : List (Sigma fun _ : JobId => Job)) (m : JobManager) :
    (carveFrom worker nowMs leaseMs units cached entries m).1.map Task.job =
      (entries.find? fun e => e.2.yields units).map Sigma.fst := by
  induction entries generalizing m with
  | nil => rfl
  | cons e entries ih =>
      obtain ⟨jobId, job⟩ := e
      rw [List.find?_cons]
      unfold carveFrom
      by_cases hleft : job.keyspaceExhausted = true
      · simp only [Job.yields, hleft, if_true, Bool.not_true, Bool.false_and]
        exact ih m
      · rw [if_neg hleft]
        cases hstart : job.carveStart with
        | none =>
            simp only [Job.yields, hstart, Bool.and_false]
            exact ih m.mint.2
        | some start =>
            obtain ⟨tile, start⟩ := start
            by_cases hcount : job.carveCount units start = 0
            · simp only [Job.yields, hstart, hcount, if_true, ne_eq, not_true_eq_false, decide_false,
                Bool.and_false]
              exact ih m.mint.2
            · simp [Job.yields, hstart, hcount, hleft]

theorem carveOrder_eq (m : JobManager) (cached : List AssetId) : m.carveOrder cached =
    (if cached.isEmpty then [] else m.jobs.entries.filter fun e => isCached cached e.2.inputRef) ++
      m.jobs.entries := by
  unfold carveOrder
  dsimp only
  congr 2
  apply List.filter_congr
  intro e _
  unfold isCached
  cases e.2.inputRef <;> rfl

theorem carveOrder_find? (m : JobManager) (units : UInt64) (cached : List AssetId) :
    ((m.carveOrder cached).find? fun e => e.2.yields units) =
      (m.jobs.entries.find? fun e => isCached cached e.2.inputRef && e.2.yields units).or
        (m.jobs.entries.find? fun e => e.2.yields units) := by
  rw [carveOrder_eq, List.find?_append]
  congr 1
  by_cases hcached : cached.isEmpty = true
  · have hnone : m.jobs.entries.find? (fun e => isCached cached e.2.inputRef && e.2.yields units) =
        none := by
      rw [List.isEmpty_iff.mp hcached]
      exact List.find?_eq_none.mpr fun e _ => by simp [isCached_nil]
    rw [if_pos hcached, hnone, List.find?_nil]
  · rw [if_neg hcached, List.find?_filter]
    congr 1
    funext e
    simp

-- Queued work first, and then a job in the order that affinity gives.
theorem grant_job (hunits : units ≠ 0) :
    (m.grant worker nowMs leaseMs units cached).1.map Task.job =
      ((m.nextQueued worker cached).map Task.job).or
        (((m.carveOrder cached).find? fun e => e.2.yields units).map Sigma.fst) := by
  cases hnext : m.nextQueued worker cached with
  | some t =>
      rw [grant_queued hnext]
      rfl
  | none =>
      have hscan := nextQueued_scan m worker nowMs leaseMs (m.grantOrder cached)
      unfold nextQueued at hnext
      rw [hnext, Option.map_none, Option.map_eq_none_iff] at hscan
      unfold grant
      rw [hscan]
      dsimp only
      rw [if_neg hunits, carveFrom_job]
      rfl

theorem bind_free_none (h : m.queue.findSome? (m.free worker) = none) :
    (m.queue.find? (m.needsHeld cached)).bind (m.free worker) = none := by
  refine Option.bind_eq_none_iff.mpr fun id hid => ?_
  exact List.findSome?_eq_none_iff.mp h id (List.mem_of_find?_eq_some hid)

theorem sizedAlike_iff_source (hunits : units ≠ 0) : m.SizedAlike worker units cached ↔
    ∀ jobId, ((m.nextQueued worker cached).map Task.job).or
      (((m.carveOrder cached).find? fun e => e.2.yields units).map Sigma.fst) = some jobId →
        m.Leads jobId := by
  constructor
  · intro h jobId hsource
    have hgrant : (m.grant worker 0 0 units cached).1.map Task.job = _ := grant_job hunits
    rw [← hgrant] at hsource
    obtain ⟨task, htask, rfl⟩ := Option.map_eq_some_iff.mp hsource
    exact leads_iff.mpr (h 0 0 task htask)
  · intro h nowMs leaseMs task htask
    have hgrant : (m.grant worker nowMs leaseMs units cached).1.map Task.job = _ := grant_job hunits
    refine leads_iff.mp (h task.job ?_)
    rw [← hgrant, htask]
    rfl

-- A task is of the job it was sized for exactly if whatever comes first for the worker
-- is of the job that leads.
theorem sizedAlike_iff (hunits : units ≠ 0) :
    m.SizedAlike worker units cached ↔ m.Aligned worker units cached := by
  rw [sizedAlike_iff_source hunits, nextQueued_eq, carveOrder_find?]
  constructor
  · intro h
    refine ⟨fun id t hid ht => ?_, fun t hnone ht => ?_, fun e hnone he => ?_,
      fun e hnone haffine he => ?_⟩
    · exact h t.job (by simp [hid, ht])
    · exact h t.job (by simp [hnone, ht])
    · exact h e.1 (by simp [bind_free_none hnone, hnone, he])
    · exact h e.1 (by simp [bind_free_none hnone, hnone, haffine, he])
  · rintro ⟨hpreferred, hwaiting, haffine, hcarved⟩ jobId hsource
    cases hfirst : (m.queue.find? (m.needsHeld cached)).bind (m.free worker) with
    | some t =>
        obtain ⟨id, hid, ht⟩ := Option.bind_eq_some_iff.mp hfirst
        rw [hfirst] at hsource
        cases hsource
        exact hpreferred id t hid ht
    | none =>
        rw [hfirst, Option.none_or] at hsource
        cases hfree : m.queue.findSome? (m.free worker) with
        | some t =>
            rw [hfree] at hsource
            cases hsource
            exact hwaiting t hfirst hfree
        | none =>
            rw [hfree, Option.map_none, Option.none_or] at hsource
            cases haff : m.jobs.entries.find? fun e =>
                isCached cached e.2.inputRef && e.2.yields units with
            | some e =>
                rw [haff] at hsource
                cases hsource
                exact haffine e hfree haff
            | none =>
                rw [haff, Option.none_or] at hsource
                obtain ⟨e, he, rfl⟩ := Option.map_eq_some_iff.mp hsource
                exact hcarved e hfree haff he

-- Over the one job of a manager there is nothing to disagree on.
theorem leads_of_single {good : JobId → Prop} {job : Job} (hp : m.Partition good)
    (hone : ∀ i j, m.findJob i = some j → i = jobId) (hjob : m.findJob jobId = some job)
    (hgives : m.queue.filterMap m.find = [] → job.keyspaceExhausted = false) :
    m.Leads jobId := by
  refine ⟨job, hjob, ?_⟩
  cases hqueue : m.queue.filterMap m.find with
  | cons t rest =>
      have hmem : t ∈ m.queue.filterMap m.find := by simp [hqueue]
      obtain ⟨id, -, hfind⟩ := List.mem_filterMap.mp hmem
      obtain ⟨own, hown⟩ := hp.owner hfind
      have heq := hone _ _ hown
      dsimp only
      rw [heq, hjob]
  | nil =>
      dsimp only
      have hmem : (⟨jobId, job⟩ : Sigma fun _ : JobId => Job) ∈ m.jobs.entries :=
        Table.mem_entries_iff.mpr hjob
      cases hfirst : m.jobs.entries.find? fun e => !e.2.keyspaceExhausted with
      | none =>
          have hnone := List.find?_eq_none.mp hfirst _ hmem
          simp [hgives hqueue] at hnone
      | some e =>
          obtain ⟨i, j⟩ := e
          have hentry : m.findJob i = some j :=
            Table.mem_entries_iff.mp (List.mem_of_find?_eq_some hfirst)
          have heq := hone i j hentry
          subst heq
          rw [hjob] at hentry
          cases hentry
          exact ⟨i, rfl⟩

theorem aligned_of_single {good : JobId → Prop} (hp : m.Partition good)
    (hone : ∀ i j, m.findJob i = some j → i = jobId) : m.Aligned worker units cached := by
  have htask : ∀ id t, id ∈ m.queue → m.free worker id = some t → m.Leads t.job := by
    intro id t hid ht
    have hfind := (Option.filter_eq_some_iff.mp ht).1
    obtain ⟨job, hjob⟩ := hp.owner hfind
    have heq := hone _ _ hjob
    refine heq ▸ leads_of_single hp hone (heq ▸ hjob) fun hempty => ?_
    have hmem : t ∈ m.queue.filterMap m.find := List.mem_filterMap.mpr ⟨id, hid, hfind⟩
    rw [hempty] at hmem
    cases hmem
  have hcarve : ∀ e : Sigma fun _ : JobId => Job, e ∈ m.jobs.entries → e.2.yields units = true →
      m.Leads e.1 := by
    intro e he hyields
    have hjob : m.findJob e.1 = some e.2 := Table.mem_entries_iff.mp he
    have heq := hone _ _ hjob
    have hleft : e.2.keyspaceExhausted = false := by
      unfold Job.yields at hyields
      simpa using (Bool.and_eq_true_iff.mp hyields).1
    exact heq ▸ leads_of_single hp hone (heq ▸ hjob) fun _ => hleft
  refine ⟨fun id t hid ht => ?_, fun t _ ht => ?_, fun e _ he => ?_, fun e _ _ he => ?_⟩
  · exact htask id t (List.mem_of_find?_eq_some hid) ht
  · obtain ⟨id, hid, hfree⟩ := List.exists_of_findSome?_eq_some ht
    exact htask id t hid hfree
  · have hyields := List.find?_some he
    exact hcarve e (List.mem_of_find?_eq_some he) (Bool.and_eq_true_iff.mp hyields).2
  · have hyields : e.2.yields units = true := by simpa using List.find?_some he
    exact hcarve e (List.mem_of_find?_eq_some he) hyields

end

-- One task of each of two jobs waits, and that of the search waits longer.
def twoJobRun : List (Operation Rat) :=
  let grid : TileGrid := ⟨64, 64, 64, 64⟩
  let camera : Camera := ⟨(0, 0, 0), (0, 0, 0), (0, 0, 0), (0, 0, 0)⟩
  let render : RenderConfig :=
    { grid, samplesPerTile := 1, camera, nodeCount := 1, primCount := 1, materialCount := 1 }
  [.createJob "brute_search_v1" 100 42 0, .seedRender render [7], .grant ⟨1, 1⟩ 0 10 1 [],
    .grant ⟨1, 1⟩ 0 10 1 [], .releaseAllHeldBy ⟨1, 1⟩]

-- A worker that holds nothing is given the task that waits longest.
theorem sizedAlike_iff_search :
    (({} : JobManager).runAll twoJobRun).SizedAlike ⟨1, 2⟩ 5 [] := by
  have hpreferred : (({} : JobManager).runAll twoJobRun).queue.find?
      ((({} : JobManager).runAll twoJobRun).needsHeld []) = none := by decide
  have hwaits : ((({} : JobManager).runAll twoJobRun).queue.findSome?
      ((({} : JobManager).runAll twoJobRun).free ⟨1, 2⟩)).map (fun t => t.job) = some ⟨0, 1⟩ := by
    decide
  have hleads : (({} : JobManager).runAll twoJobRun).Leads ⟨0, 1⟩ := by
    refine leads_iff.mpr ?_
    have hpeek : (({} : JobManager).runAll twoJobRun).peekNextJob =
        (({} : JobManager).runAll twoJobRun).findJob ⟨0, 1⟩ := by decide
    have hsome : ((({} : JobManager).runAll twoJobRun).findJob ⟨0, 1⟩).isSome = true := by decide
    obtain ⟨job, hjob⟩ := Option.isSome_iff_exists.mp hsome
    exact ⟨job, hpeek.trans hjob, hjob⟩
  refine (sizedAlike_iff (by decide)).mpr ⟨fun id t hid => ?_, fun t _ ht => ?_, fun e hnone => ?_,
    fun e hnone => ?_⟩
  · rw [hpreferred] at hid
    cases hid
  · rw [ht, Option.map_some, Option.some.injEq] at hwaits
    rw [hwaits]
    exact hleads
  · rw [hnone] at hwaits
    cases hwaits
  · rw [hnone] at hwaits
    cases hwaits

-- The worker that holds the scene is sized for the search, and given a tile.
theorem sized_for_another_job : ¬ ∀ m : JobManager,
    Reach Step (fun _ (_ : Operation Rat) => True) {} m →
      ∀ worker units cached, units ≠ 0 → m.SizedAlike worker units cached := by
  intro h
  have hrun : Reach Step (fun _ (_ : Operation Rat) => True) {} (({} : JobManager).runAll twoJobRun) :=
    reach_runAll twoJobRun {} fun _ _ _ => trivial
  have hsame := h _ hrun ⟨1, 2⟩ 5 [[7]] (by decide)
  have hgranted : ((({} : JobManager).runAll twoJobRun).grant ⟨1, 2⟩ 0 10 5 [[7]]).1.map
      (fun t => t.job) = some ⟨0, 2⟩ := by decide
  have hpeeked : (({} : JobManager).runAll twoJobRun).peekNextJob.map (fun job => job.id) =
      some ⟨0, 1⟩ := by decide
  have hother : ((({} : JobManager).runAll twoJobRun).findJob ⟨0, 2⟩).map (fun job => job.id) =
      some ⟨0, 2⟩ := by decide
  obtain ⟨task, htask, hjob⟩ := Option.map_eq_some_iff.mp hgranted
  obtain ⟨job, hpeek, hfind⟩ := hsame 0 10 task htask
  rw [hpeek] at hpeeked
  rw [hjob] at hfind
  rw [hfind] at hother
  exact absurd (hpeeked.symm.trans hother) (by decide)

end JobManager

end P2pGpu.Coordinator
