import P2pGpu.Coordinator.Job.Queue
import P2pGpu.Coordinator.Job.Stock

namespace P2pGpu.Coordinator.JobManager

open P2pGpu.Protocol

section

variable {m : JobManager} {worker : WorkerId} {nowMs : UInt64} {leaseMs : UInt32}
  {units : UInt64} {cached : List AssetId} {good : JobId → Prop} {job : Job}

-- Whatever is queued was seen by the worker before.
def Barred (m : JobManager) (worker : WorkerId) : Prop :=
  ∀ id t, m.find id = some t → t.state = .queued → worker ∈ t.priorWorkers

-- The job that a size is computed for: that of the task which waits longest, or
-- where none waits the first one with keyspace left.
def InLine (m : JobManager) (job : Job) : Prop :=
  match m.queue with
  | id :: _ => ∃ t, m.find id = some t ∧ m.findJob t.job = some job
  | [] => ∃ jobId, m.jobs.entries.find? (fun e => !e.2.keyspaceExhausted) = some ⟨jobId, job⟩

end

end P2pGpu.Coordinator.JobManager
