import P2pGpu.Coordinator.Job.Grants
import P2pGpu.Coordinator.Job.Sweeps

namespace P2pGpu.Coordinator

open P2pGpu.Protocol

-- The manager's own operations, as its callers choose them.
inductive Operation (F : Type) where
  | createJob (kernelId : String) (totalUnits seed unitsPerGroup : UInt64)
  | seedRender (render : RenderConfig) (inputRef : AssetId)
  | mutableJob (id : JobId) (edit : Job → Job)
  | grant (worker : WorkerId) (nowMs : UInt64) (leaseMs : UInt32) (units : UInt64)
      (cached : List AssetId)
  | submit (worker : WorkerId) (id : TaskId)
  | renewLease (worker : WorkerId) (id : TaskId) (nowMs : UInt64) (leaseMs : UInt32)
  | recordPartial (worker : WorkerId) (id : TaskId) (sequence : UInt32) (unitsDone : UInt64)
      (payload : Payload) (nowMs : UInt64) (leaseMs : UInt32)
  | recordAssetSource (source : AssetSource)
  | recordIceOutcome (gathered attempts : UInt8) (connected : Bool)
  | sweepExpiredLeases (nowMs : UInt64)
  | releaseAllHeldBy (worker : WorkerId)
  | finish (id : TaskId) (accepted : Bool)
  | recordSubmission (id : TaskId) (worker : WorkerId) (checksum : UInt64) (payload : Payload)
  | requestReplica (id : TaskId)
  | restartValidation (id : TaskId)
  | issueKnownRange (worker : WorkerId) (nowMs : UInt64) (leaseMs : UInt32)
      (startUnit unitCount : UInt64)
  | requeue (id : TaskId) (why : TaskEvent)
  | issueSpeculative (worker : WorkerId) (nowMs : UInt64) (leaseMs : UInt32) (threshold : F)
  | cancelSiblingsOf (id : TaskId)
  | clearDirty

namespace Operation

variable {F : Type} [Double F]

def run (m : JobManager) : Operation F → JobManager
  | .createJob kernelId totalUnits seed unitsPerGroup =>
      (m.createJob kernelId totalUnits seed unitsPerGroup).2
  | .seedRender render inputRef => (m.seedRender render inputRef).2
  | .mutableJob id edit => m.mutableJob id edit
  | .grant worker nowMs leaseMs units cached => (m.grant worker nowMs leaseMs units cached).2
  | .submit worker id => (m.submit worker id).2
  | .renewLease worker id nowMs leaseMs => (m.renewLease worker id nowMs leaseMs).2
  | .recordPartial worker id sequence unitsDone payload nowMs leaseMs =>
      (m.recordPartial worker id sequence unitsDone payload nowMs leaseMs).2
  | .recordAssetSource source => m.recordAssetSource source
  | .recordIceOutcome gathered attempts connected =>
      m.recordIceOutcome gathered attempts connected
  | .sweepExpiredLeases nowMs => (m.sweepExpiredLeases nowMs).2
  | .releaseAllHeldBy worker => (m.releaseAllHeldBy worker).2
  | .finish id accepted => (m.finish id accepted).2
  | .recordSubmission id worker checksum payload => m.recordSubmission id worker checksum payload
  | .requestReplica id => (m.requestReplica id).2
  | .restartValidation id => (m.restartValidation id).2
  | .issueKnownRange worker nowMs leaseMs startUnit unitCount =>
      (m.issueKnownRange worker nowMs leaseMs startUnit unitCount).2
  | .requeue id why => (m.requeue id why).2
  | .issueSpeculative worker nowMs leaseMs threshold =>
      (m.issueSpeculative worker nowMs leaseMs threshold).2
  | .cancelSiblingsOf id => (m.cancelSiblingsOf id).2
  | .clearDirty => m.clearDirty

-- The events that `Requeue` is called with.
def requeuesLeased : Operation F → Prop
  | .requeue _ why => why = .release ∨ why = .leaseExpired
  | _ => True

-- The worker that an operation hands work to.
def handsTo (worker : WorkerId) : Operation F → Prop
  | .grant w _ _ _ _ => w = worker
  | .issueKnownRange w _ _ _ _ => w = worker
  | .issueSpeculative w _ _ _ => w = worker
  | _ => False

end Operation

namespace JobManager

-- One operation, and any order of iteration afterwards.
def Step {F : Type} [Double F] (m : JobManager) (o : Operation F) (m' : JobManager) : Prop :=
  (o.run m).Rehashed m'

def runAll {F : Type} [Double F] (m : JobManager) (ops : List (Operation F)) : JobManager :=
  ops.foldl (fun m o => o.run m) m

end JobManager

namespace Label

-- What an operation does to tasks that it does not hand out.
def Settles : Label → Prop
  | .aux => True
  | .act _ (.grant _ _ _) => False
  | .act _ _ => True
  | .create _ | .edit _ _ | .mint | .carve _ _ | .probe _ | .replica _ | .flush => False

-- What brings in a job, or sets it up.
def Plants : Label → Prop
  | .create _ | .edit _ _ => True
  | .mint | .act _ _ | .carve _ _ | .probe _ | .replica _ | .aux | .flush => False

-- The render that is set up on a job that was created for it.
def seedsRender (render : RenderConfig) (inputRef : AssetId) (job : Job) : Job :=
  { job with
    render := some render
    tileGranted := List.replicate render.grid.tileCount.toNat 0
    inputRef := some inputRef }

end Label

namespace JobManager

-- The moves an operation may take.
def Takes {F : Type} (o : Operation F) (m : JobManager) (l : Label) : Prop :=
  match o with
  | .createJob kernelId totalUnits seed unitsPerGroup =>
      l = .create { id := ⟨0, m.nextId⟩, kernelId, seed, totalUnits, unitsPerGroup }
  | .mutableJob id edit => l = .edit id edit
  | .seedRender _ _ => False
  | .grant worker nowMs leaseMs _ _ => l.grants worker (nowMs + leaseMs.toUInt64) .plain
  | .issueKnownRange worker nowMs leaseMs start count =>
      l.grants worker (nowMs + leaseMs.toUInt64) (.knownRange start count)
  | .issueSpeculative worker nowMs leaseMs _ =>
      l.grants worker (nowMs + leaseMs.toUInt64) .speculative
  | .clearDirty => l = .flush
  | _ => l.Settles

section

variable {F : Type} [Double F] {m m' : JobManager}

theorem Rehashed.sameRows (h : m.Rehashed m') : m.SameRows m' where
  tasks := h.tasks
  jobs := h.jobs
  dirtyTasks := h.dirtyTasks
  dirtyJobs := h.dirtyJobs
  queue := by rw [h.rest]
  nextId := by rw [h.rest]

theorem Rehashed.refl (m : JobManager) : m.Rehashed m :=
  ⟨.refl _, .refl _, .refl _, .refl _, .refl _, rfl⟩

-- A list of operations is a run, in the order of iteration that it leaves.
theorem reach_runAll {guard : JobManager → Operation F → Prop} (ops : List (Operation F))
    (m : JobManager) (h : ∀ o ∈ ops, ∀ n, guard n o) : Reach Step guard m (m.runAll ops) := by
  have hstep : ∀ (n : JobManager) (o : Operation F), Step n o (o.run n) := fun n o =>
    Rehashed.refl (o.run n)
  exact Reach.foldl hstep ops h

theorem Performs.settles {id : TaskId} {a : Act} {r : Status × JobManager}
    (h : m.Performs id a r) (ha : ∀ q, a.finds id q) (hs : (Label.act id a).Settles) :
    Moves (fun _ l => l.Settles) m r.2 := by
  refine Reach.mono ?_ (h.moves ha)
  rintro n l (rfl | ⟨-, rfl⟩)
  · trivial
  · exact hs

theorem Requeues.settles {p : Task → Prop} {l : Label} (h : Requeues p m l) : l.Settles := by
  obtain ⟨id, t, rfl, -⟩ := h
  trivial

theorem Cancels.settles {winner root : TaskId} {l : Label} (h : Cancels winner root m l) :
    l.Settles := by
  rcases h with rfl | ⟨id, t, rfl, -⟩ <;> trivial

theorem createJob_move (m : JobManager) (kernelId : String)
    (totalUnits seed unitsPerGroup : UInt64) :
    Move m (.create { id := ⟨0, m.nextId⟩, kernelId, seed, totalUnits, unitsPerGroup })
      (m.createJob kernelId totalUnits seed unitsPerGroup).2 :=
  Move.create m _ rfl rfl rfl rfl

-- The one operation of two moves that belong together.
theorem seedRender_moves (m : JobManager) (render : RenderConfig) (inputRef : AssetId) :
    ∃ n, Move m (.create
        { id := ⟨0, m.nextId⟩
          kernelId := kRenderKernel
          seed := 42
          totalUnits := render.grid.tileCount.toUInt64 * render.samplesPerTile
          unitsPerGroup := render.samplesPerTile }) n ∧
      Move n (.edit ⟨0, m.nextId⟩ (Label.seedsRender render inputRef))
        (m.seedRender render inputRef).2 :=
  ⟨_, Move.create m _ rfl rfl rfl rfl, Move.edit _ _ _⟩

theorem run_moves (o : Operation F) (hreq : o.requeuesLeased)
    (hseed : ∀ render inputRef, o ≠ .seedRender render inputRef) :
    Moves (Takes o) m (o.run m) := by
  cases o with
  | seedRender render inputRef => exact absurd rfl (hseed render inputRef)
  | createJob kernelId totalUnits seed unitsPerGroup =>
      exact Reach.single rfl (createJob_move m kernelId totalUnits seed unitsPerGroup)
  | mutableJob id edit => exact Reach.single rfl (Move.edit m id edit)
  | grant worker nowMs leaseMs units cached =>
      exact (grant_grants m worker nowMs leaseMs units cached).moves
  | issueKnownRange worker nowMs leaseMs start count =>
      exact (issueKnownRange_grants m worker nowMs leaseMs start count).moves
  | issueSpeculative worker nowMs leaseMs threshold =>
      exact (issueSpeculative_grants m worker nowMs leaseMs threshold).moves
  | submit worker id => exact (submit_performs m worker id).settles (fun _ => trivial) trivial
  | renewLease worker id nowMs leaseMs =>
      exact (renewLease_performs m worker id nowMs leaseMs).settles (fun _ => trivial) trivial
  | recordPartial worker id sequence unitsDone payload nowMs leaseMs =>
      exact (recordPartial_performs m worker id sequence unitsDone payload nowMs
        leaseMs).settles (fun _ => trivial) trivial
  | recordAssetSource source =>
      have haux : Takes (.recordAssetSource source : Operation F) m .aux := trivial
      exact Reach.single haux (Move.aux _ _ ⟨.refl _, .refl _, .refl _, .refl _, rfl, rfl⟩)
  | recordIceOutcome gathered attempts connected =>
      have haux : Takes (.recordIceOutcome gathered attempts connected : Operation F) m .aux :=
        trivial
      refine Reach.single haux (Move.aux _ _ ?_)
      simp only [Operation.run, recordIceOutcome]
      split <;> exact ⟨.refl _, .refl _, .refl _, .refl _, rfl, rfl⟩
  | sweepExpiredLeases nowMs =>
      exact Reach.mono (fun _ _ h => h.settles) (sweepExpiredLeases_moves m nowMs)
  | releaseAllHeldBy worker =>
      exact Reach.mono (fun _ _ h => h.settles) (releaseAllHeldBy_moves m worker)
  | finish id accepted =>
      exact (finish_performs m id accepted).settles (fun _ => trivial) trivial
  | recordSubmission id worker checksum payload =>
      obtain ⟨s, hs⟩ := recordSubmission_performs m id worker checksum payload
      exact hs.settles (fun _ => trivial) trivial
  | requestReplica id =>
      exact (requestReplica_performs m id).settles (fun _ => trivial) trivial
  | restartValidation id =>
      exact (restartValidation_performs m id).settles (fun _ => trivial) trivial
  | requeue id why => exact (requeue_performs m id hreq).settles (fun _ => trivial) trivial
  | cancelSiblingsOf id =>
      exact Reach.mono (fun _ _ ⟨_, _, h⟩ => h.settles) (cancelSiblingsOf_moves m id)
  | clearDirty => exact Reach.single rfl (Move.flush m)

end

end JobManager

end P2pGpu.Coordinator
