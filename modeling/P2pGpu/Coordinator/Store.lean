import P2pGpu.Coordinator.Job

namespace P2pGpu.Coordinator

open P2pGpu.Protocol

namespace TaskState

-- The number of the enumerator, as it is written.
def toUInt64 : TaskState → UInt64
  | .queued => 0
  | .leased => 1
  | .validating => 2
  | .needsReplica => 3
  | .accepted => 4
  | .rejected => 5
  | .cancelled => 6

-- What is read is narrowed to eight bits first. Where no enumerator has that
-- number the task counts as queued.
def ofColumn (raw : UInt64) : TaskState :=
  match raw.toNat % 256 with
  | 1 => .leased
  | 2 => .validating
  | 3 => .needsReplica
  | 4 => .accepted
  | 5 => .rejected
  | 6 => .cancelled
  | _ => .queued

@[simp] theorem ofColumn_toUInt64 (s : TaskState) : ofColumn s.toUInt64 = s := by
  cases s <;> rfl

end TaskState

-- The columns beside the primary key.
structure JobRow where
  kernelId : String
  seed : UInt64
  totalUnits : UInt64
  nextUnit : UInt64
deriving DecidableEq, Repr

structure TaskRow where
  job : JobId
  state : UInt64
  startUnit : UInt64
  unitCount : UInt64
  replicaOf : TaskId
deriving DecidableEq, Repr

-- The tables of the database file, each under its primary key.
structure Store where
  jobs : Table JobId JobRow := ∅
  tasks : Table TaskId TaskRow := ∅
  taskPriorWorkers : List (TaskId × WorkerId) := []

structure RecoveredState where
  jobs : List Job
  tasks : List Task
  nextId : Nat

def Job.toRow (job : Job) : JobRow := ⟨job.kernelId, job.seed, job.totalUnits, job.nextUnit⟩

-- What has no column starts from its default.
def JobRow.toJob (id : JobId) (row : JobRow) : Job :=
  { id, kernelId := row.kernelId, seed := row.seed, totalUnits := row.totalUnits
    nextUnit := row.nextUnit, unitsPerGroup := 0 }

def Task.toRow (task : Task) : TaskRow :=
  ⟨task.job, task.state.toUInt64, task.startUnit, task.unitCount, task.replicaOf⟩

def TaskRow.toTask (id : TaskId) (priorWorkers : List WorkerId) (row : TaskRow) : Task :=
  { id, job := row.job, state := .ofColumn row.state, startUnit := row.startUnit
    unitCount := row.unitCount, replicaOf := row.replicaOf, priorWorkers }

namespace Store

-- An upsert. On a conflict the cursor is all that is updated.
def upsertJob (s : Store) (job : Job) : Store :=
  { s with jobs := s.jobs.upsert job.id job.toRow fun row => { row with nextUnit := job.nextUnit } }

-- On a conflict the state is all that is updated.
def upsertTask (s : Store) (task : Task) : Store :=
  { s with
    tasks := s.tasks.upsert task.id task.toRow fun row =>
      { row with state := task.state.toUInt64 }
    taskPriorWorkers :=
      task.priorWorkers.foldl (fun rows w => rows.insert (task.id, w)) s.taskPriorWorkers }

-- One transaction: all of it, or none.
def flush (s : Store) (jobs : List Job) (tasks : List Task) : Store :=
  tasks.foldl upsertTask (jobs.foldl upsertJob s)

def priorWorkersOf (s : Store) (id : TaskId) : List WorkerId :=
  (s.taskPriorWorkers.filter fun row => row.1 = id).map Prod.snd

def loadAll (s : Store) : RecoveredState where
  jobs := s.jobs.entries.map fun e => e.2.toJob e.1
  tasks := s.tasks.entries.map fun e => e.2.toTask e.1 (s.priorWorkersOf e.1)
  nextId :=
    let ids := s.jobs.keys.map (fun id => id.lo) ++ s.tasks.keys.map fun id => id.lo
    ids.foldl (fun next lo => max next (lo + 1)) 1

end Store

def recoverInto (m : JobManager) (state : RecoveredState) : JobManager :=
  m.adoptRecovered state.jobs state.tasks state.nextId

end P2pGpu.Coordinator
