import P2pGpu.Coordinator.Job
import P2pGpu.Data.Reach

namespace P2pGpu.Coordinator

open P2pGpu.Protocol

-- The task as it stands when nobody holds it and it waits in the queue.
def Task.requeued (t : Task) : Task :=
  { t with state := .queued, holder := Id.nil, leaseExpiresAtMs := 0 }

-- What one step does to one task.
inductive Act where
  | grant (place : Nat) (worker : WorkerId) (deadline : UInt64)
  | submit (worker : WorkerId)
  | renew (worker : WorkerId) (deadline : UInt64)
  | requeue
  | replicate (drop : Bool)
  | record (submission : Submission)
  | finish (accepted : Bool)
  | cancel
deriving DecidableEq, Repr

namespace Act

-- The task afterwards, where the step applies to it at all.
def result : Act → Task → Option Task
  | .grant _ worker deadline, t =>
      if t.state = .queued ∧ worker ∉ t.priorWorkers then
        some { t with state := .leased, holder := worker, leaseExpiresAtMs := deadline }
      else none
  | .submit worker, t =>
      if t.state = .leased ∧ t.holder = worker then
        some { t with
          state := .validating
          priorWorkers := t.priorWorkers ++ [worker]
          holder := Id.nil }
      else none
  | .renew worker deadline, t =>
      if t.state = .leased ∧ t.holder = worker then some { t with leaseExpiresAtMs := deadline }
      else none
  | .requeue, t =>
      if t.state = .leased then
        some t.requeued
      else none
  | .replicate drop, t =>
      if t.state = .validating then
        some { t with
          state := .queued
          holder := Id.nil
          leaseExpiresAtMs := 0
          submissions := if drop then [] else t.submissions }
      else none
  | .record submission, t => some { t with submissions := t.submissions ++ [submission] }
  | .finish accepted, t =>
      if t.state = .validating then
        some { t with state := if accepted then .accepted else .rejected, submissions := [] }
      else none
  | .cancel, t =>
      if t.state = .leased ∨ t.state = .validating ∨ t.state = .needsReplica then
        some { t with state := .cancelled, holder := Id.nil, leaseExpiresAtMs := 0 }
      else none

def queue : Act → TaskId → List TaskId → List TaskId
  | .grant place _ _, _, q => q.eraseIdx place
  | .requeue, id, q => q ++ [id]
  | .replicate _, id, q => q ++ [id]
  | .cancel, id, q => q.filter fun i => i ≠ id
  | .submit _, _, q => q
  | .renew _ _, _, q => q
  | .record _, _, q => q
  | .finish _, _, q => q

-- Only a grant looks at the queue.
def finds : Act → TaskId → List TaskId → Prop
  | .grant place _ _, id, q => q[place]? = some id
  | _, _, _ => True

end Act

-- A move never touches what the task is: its range, its job and its family.
theorem Act.result_shape {a : Act} {t t' : Task} (h : a.result t = some t') :
    t'.id = t.id ∧ t'.job = t.job ∧ t'.span = t.span ∧ t'.replicaOf = t.replicaOf := by
  cases a <;> simp only [Act.result] at h <;> try split at h
  all_goals first
    | cases h; exact ⟨rfl, rfl, rfl, rfl⟩
    | cases h

-- What an operation may enter beside a task that it carves.
inductive Issue where
  | plain
  | knownRange (startUnit unitCount : UInt64)
  | speculative
deriving DecidableEq, Repr

inductive Label where
  | create (job : Job)
  | edit (jobId : JobId) (edit : Job → Job)
  | mint
  | act (id : TaskId) (act : Act)
  | carve (tile : Option Nat) (task : Task)
  | probe (task : Task)
  | replica (task : Task)
  | aux
  | flush

namespace Label

-- The task that a move enters.
def entered : Label → Option Task
  | .carve _ t => some t
  | .probe t => some t
  | .replica t => some t
  | .create _ | .edit _ _ | .mint | .act _ _ | .aux | .flush => none

def queue : Label → List TaskId → List TaskId
  | .act id a, q => a.queue id q
  | .create _, q | .edit _ _, q | .mint, q | .carve _ _, q | .probe _, q | .replica _, q
  | .aux, q | .flush, q => q

-- Work handed to one worker until one deadline.
def grants (worker : WorkerId) (deadline : UInt64) (issue : Issue) : Label → Prop
  | .mint | .aux => True
  | .act _ (.grant _ w d) => w = worker ∧ d = deadline
  | .carve _ t => t.holder = worker ∧ t.leaseExpiresAtMs = deadline
  | .probe t => (t.holder = worker ∧ t.leaseExpiresAtMs = deadline) ∧
      issue = .knownRange t.startUnit t.unitCount
  | .replica t => (t.holder = worker ∧ t.leaseExpiresAtMs = deadline) ∧ issue = .speculative
  | .act _ _ | .create _ | .edit _ _ | .flush => False

end Label

namespace JobManager

-- A task as it is first entered, leased under the identifier just minted.
structure Born (m : JobManager) (t : Task) : Prop where
  id : t.id = m.mint.1
  state : t.state = .leased
  submissions : t.submissions = []
  priorWorkers : t.priorWorkers = []

-- Equal up to telemetry, partial results and the order of iteration.
structure SameRows (m m' : JobManager) : Prop where
  tasks : m.tasks.entries.Perm m'.tasks.entries
  jobs : m.jobs.entries.Perm m'.jobs.entries
  dirtyTasks : m.dirtyTasks.Perm m'.dirtyTasks
  dirtyJobs : m.dirtyJobs.Perm m'.dirtyJobs
  queue : m.queue = m'.queue
  nextId : m.nextId = m'.nextId

def perform (m : JobManager) (id : TaskId) (a : Act) (t : Task) : JobManager :=
  { (m.put id t).markTaskDirty id with queue := a.queue id m.queue }

def enter (m : JobManager) (t : Task) : JobManager := m.mint.2.addTask t

def addJob (m : JobManager) (job : Job) : JobManager :=
  { m with jobs := m.jobs.emplace job.id job, nextId := m.nextId + 1 }.markJobDirty job.id

-- One move of the manager. Every operation is a run of these, and what all of
-- them keep is kept by every operation.
inductive Move : JobManager → Label → JobManager → Prop where
  | create (m : JobManager) (job : Job) (hid : job.id = ⟨0, m.nextId⟩) (hnext : job.nextUnit = 0)
      (htasks : job.tasks = []) (hrender : job.render = none) :
      Move m (.create job) (m.addJob job)
  | edit (m : JobManager) (jobId : JobId) (edit : Job → Job) :
      Move m (.edit jobId edit) (m.mutableJob jobId edit)
  | mint (m : JobManager) : Move m .mint m.mint.2
  | act (m : JobManager) (id : TaskId) (a : Act) (t t' : Task) (hfind : m.find id = some t)
      (hresult : a.result t = some t') (hqueue : a.finds id m.queue) :
      Move m (.act id a) (m.perform id a t')
  | carve (m : JobManager) (job : Job) (tile : Option Nat) (t : Task) (units : UInt64)
      (hjob : m.findJob t.job = some job) (hleft : job.keyspaceExhausted = false)
      (hborn : m.Born t) (horig : t.replicaOf = Id.nil)
      (hstart : job.carveStart = some (tile, t.startUnit))
      (hcount : job.carveCount units t.startUnit = t.unitCount) (hpos : t.unitCount ≠ 0) :
      Move m (.carve tile t)
        (((m.mutableJob t.job fun job => job.carved t.id tile t.unitCount).markJobDirty
          t.job).enter t)
  | probe (m : JobManager) (job : Job) (t : Task) (hjob : m.knownRangeJob t.startUnit t.unitCount =
      some ⟨t.job, job⟩) (hborn : m.Born t) (horig : t.replicaOf = Id.nil)
      (hpos : t.unitCount ≠ 0) :
      Move m (.probe t) (m.enter t)
  | replica (m : JobManager) (job : Job) (original t : Task)
      (hjob : m.findJob t.job = some job) (hmem : t.replicaOf ∈ job.tasks)
      (hfind : m.find t.replicaOf = some original) (horig : original.replicaOf = Id.nil)
      (hborn : m.Born t) (hstart : t.startUnit = original.startUnit)
      (hcount : t.unitCount = original.unitCount)
      (hrace : m.speculable t.holder job t.replicaOf = some original) :
      Move m (.replica t)
        ((m.mutableJob t.job fun job => { job with tasks := job.tasks ++ [t.id] }).enter t)
  | aux (m m' : JobManager) (h : m.SameRows m') : Move m .aux m'
  | flush (m : JobManager) : Move m .flush m.clearDirty

-- Runs of moves under a guard.
abbrev Moves (guard : JobManager → Label → Prop) : JobManager → JobManager → Prop :=
  Reach Move guard

end JobManager

end P2pGpu.Coordinator
