import P2pGpu.Coordinator.Reputation
import P2pGpu.Coordinator.Store
import P2pGpu.Data.Transaction

namespace P2pGpu.Coordinator

open P2pGpu.Protocol

-- A row of what is known of a worker, as it is read back.
structure RecoveredReputation (F : Type) where
  id : WorkerId
  alpha : F
  beta : F
  accepted : UInt32
  rejected : UInt32
  spotCheckFailures : UInt32
  blacklistedUntilMs : UInt64
  onProbation : Bool
  token : Token

-- The columns beside the primary key.
structure ReputationRow (F : Type) where
  alpha : F
  beta : F
  accepted : UInt64
  rejected : UInt64
  spotFailures : UInt64
  blacklistedUntilMs : UInt64
  onProbation : UInt64
  token : Token

-- The whole of the database file.
structure File (F : Type) where
  store : Store := {}
  reputation : Table WorkerId (ReputationRow F) := ∅

abbrev Database (F : Type) : Type := Link (File F)

-- A text is bound and read back up to its first zero byte.
def cString (s : Token) : Token := s.takeWhile fun c => c ≠ 0

namespace Store

def upsertTaskRow (s : Store) (task : Task) : Store :=
  { s with
    tasks := s.tasks.upsert task.id task.toRow fun row =>
      { row with state := task.state.toUInt64 } }

def insertPriorWorker (s : Store) (task : TaskId) (worker : WorkerId) : Store :=
  { s with taskPriorWorkers := s.taskPriorWorkers.insert (task, worker) }

theorem upsertTask_eq (s : Store) (task : Task) :
    s.upsertTask task =
      task.priorWorkers.foldl (fun s w => s.insertPriorWorker task.id w)
        (s.upsertTaskRow task) := by
  have hfold : ∀ (workers : List WorkerId) (s : Store),
      workers.foldl (fun s w => s.insertPriorWorker task.id w) s =
        { s with
          taskPriorWorkers :=
            workers.foldl (fun rows w => rows.insert (task.id, w)) s.taskPriorWorkers } := by
    intro workers
    induction workers with
    | nil => exact fun _ => rfl
    | cons w workers ih => exact fun s => ih _
  rw [hfold]
  rfl

end Store

section

variable {F : Type} [Double F]

def RecoveredReputation.toRow (r : RecoveredReputation F) : ReputationRow F where
  alpha := r.alpha
  beta := r.beta
  accepted := r.accepted.toUInt64
  rejected := r.rejected.toUInt64
  spotFailures := r.spotCheckFailures.toUInt64
  blacklistedUntilMs := r.blacklistedUntilMs
  onProbation := if r.onProbation then 1 else 0
  token := cString r.token

-- What is not a number is bound as NULL, which no column allows.
def RecoveredReputation.storable (r : RecoveredReputation F) : Bool :=
  !Double.isNaN r.alpha && !Double.isNaN r.beta

namespace File

-- On a conflict the token is not updated.
def upsertReputation (file : File F) (r : RecoveredReputation F) : Except String (File F) :=
  if r.storable then
    .ok { file with
      reputation := file.reputation.upsert r.id r.toRow fun row =>
        { r.toRow with token := row.token } }
  else .error "NOT NULL constraint failed"

def edit (file : File F) (f : Store → Store) : File F := { file with store := f file.store }

end File

namespace Database

open Link

def failed (what detail : String) : Error := makeError .internal (what ++ detail)

def writeJobs : List Job → Database F → Status × Database F
  | [] => fun db => (.ok (), db)
  | job :: jobs =>
      andThen
        (attempt (fun file => .ok (file.edit fun s => s.upsertJob job))
          (failed "job write failed: "))
        (writeJobs jobs)

-- The statement is prepared anew for every row.
def writePriorWorkers (task : TaskId) : List WorkerId → Database F → Status × Database F
  | [] => fun db => (.ok (), db)
  | w :: workers =>
      andThen (attempt .ok (failed "sqlite prepare failed: "))
        (andThen
          (attempt (fun file => .ok (file.edit fun s => s.insertPriorWorker task w))
            fun _ => makeError .internal "prior_worker write failed")
          (writePriorWorkers task workers))

def writeTasks : List Task → Database F → Status × Database F
  | [] => fun db => (.ok (), db)
  | task :: tasks =>
      andThen
        (attempt (fun file => .ok (file.edit fun s => s.upsertTaskRow task))
          (failed "task write failed: "))
        (andThen (writePriorWorkers task.id task.priorWorkers) (writeTasks tasks))

def flush (jobs : List Job) (tasks : List Task) (db : Database F) : Status × Database F :=
  if jobs.isEmpty && tasks.isEmpty then (.ok (), db)
  else
    transacted (failed "sqlite exec failed: ") (andThen (writeJobs jobs) (writeTasks tasks)) db

def writeReputation : List (RecoveredReputation F) → Database F → Status × Database F
  | [] => fun db => (.ok (), db)
  | r :: rows =>
      andThen
        (attempt (fun file => file.upsertReputation r) (failed "reputation write failed: "))
        (writeReputation rows)

def flushReputation (rows : List (RecoveredReputation F)) (db : Database F) :
    Status × Database F :=
  if rows.isEmpty then (.ok (), db)
  else transacted (failed "sqlite exec failed: ") (writeReputation rows) db

end Database

-- One of the two ways to write to the file.
inductive Call (F : Type) where
  | flush (jobs : List Job) (tasks : List Task)
  | flushReputation (rows : List (RecoveredReputation F))

namespace Call

def run : Call F → Database F → Status × Database F
  | .flush jobs tasks => Database.flush jobs tasks
  | .flushReputation rows => Database.flushReputation rows

def isEmpty : Call F → Bool
  | .flush jobs tasks => jobs.isEmpty && tasks.isEmpty
  | .flushReputation rows => rows.isEmpty

-- The statements of a call between BEGIN and COMMIT.
def statements : Call F → Nat
  | .flush jobs tasks => jobs.length + (tasks.map fun t => 1 + 2 * t.priorWorkers.length).sum
  | .flushReputation rows => rows.length

def storable : Call F → Bool
  | .flush _ _ => true
  | .flushReputation rows => rows.all RecoveredReputation.storable

-- What all of its statements make of the file.
def rows : Call F → File F → Except String (File F)
  | .flush jobs tasks, file => .ok (file.edit fun s => s.flush jobs tasks)
  | .flushReputation rows, file => rows.foldlM File.upsertReputation file

-- Every statement of the call succeeds but the last, and that leaves the transaction open.
def Hangs (call : Call F) (faults : List Outcome) : Prop :=
  call.isEmpty = false ∧ call.storable = true ∧
    ({ committed := (), ahead := faults } : Link Unit).HangsAt (1 + call.statements)

end Call

namespace Database

open Link

omit [Double F] in
theorem writeJobs_block (jobs : List Job) :
    Block (fun file : File F => .ok (file.edit fun s => jobs.foldl Store.upsertJob s)) jobs.length
      (writeJobs jobs) := by
  induction jobs with
  | nil => exact Block.nil
  | cons job jobs ih =>
      rw [List.length_cons, Nat.add_comm]
      exact (Block.attempt (fun file => .ok (file.edit fun s => s.upsertJob job))
        (failed "job write failed: ")).seq ih

omit [Double F] in
theorem writePriorWorkers_block (task : TaskId) (workers : List WorkerId) :
    Block (fun file : File F => .ok (file.edit fun s =>
        workers.foldl (fun s w => s.insertPriorWorker task w) s)) (2 * workers.length)
      (writePriorWorkers task workers) := by
  induction workers with
  | nil => exact Block.nil
  | cons w workers ih =>
      have hcount : 2 * (w :: workers).length = 1 + (1 + 2 * workers.length) := by
        rw [List.length_cons]
        omega
      rw [hcount]
      have hinsert := Block.attempt
        (fun file : File F => .ok (file.edit fun s => s.insertPriorWorker task w))
        (fun _ => makeError .internal "prior_worker write failed")
      exact (Block.attempt .ok (failed "sqlite prepare failed: ")).seq (hinsert.seq ih)

omit [Double F] in
theorem writeTasks_block (tasks : List Task) :
    Block (fun file : File F => .ok (file.edit fun s => tasks.foldl Store.upsertTask s))
      (tasks.map fun t => 1 + 2 * t.priorWorkers.length).sum (writeTasks tasks) := by
  induction tasks with
  | nil => exact Block.nil
  | cons task tasks ih =>
      have hfold : ∀ s : Store, (task :: tasks).foldl Store.upsertTask s = tasks.foldl
          Store.upsertTask (task.priorWorkers.foldl (fun s w => s.insertPriorWorker task.id w)
            (s.upsertTaskRow task)) := by
        intro s
        rw [List.foldl_cons, Store.upsertTask_eq]
      simp only [hfold, List.map_cons, List.sum_cons, Nat.add_assoc]
      exact (Block.attempt (fun file => .ok (file.edit fun s => s.upsertTaskRow task))
        (failed "task write failed: ")).seq
          ((writePriorWorkers_block task.id task.priorWorkers).seq ih)

theorem writeReputation_block (rows : List (RecoveredReputation F)) :
    Block (fun file : File F => rows.foldlM File.upsertReputation file) rows.length
      (writeReputation rows) := by
  induction rows with
  | nil => exact Block.nil
  | cons r rows ih =>
      rw [List.length_cons, Nat.add_comm]
      exact (Block.attempt _ _).seq ih

end Database

end

end P2pGpu.Coordinator
