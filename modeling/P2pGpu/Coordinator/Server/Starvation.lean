import P2pGpu.Coordinator.Job.Offers
import P2pGpu.Coordinator.Server.Published

namespace P2pGpu.Coordinator

open P2pGpu.Protocol

section

variable {F : Type} [Double F] {cfg : Config F} {s : Session} {w : Shared F}
  {rec : WorkerRecord F} {nowMs : UInt64} {req : LeaseRequest} {good : JobId → Prop} {job : Job}
  {task : Task} {n : Nat}

namespace Session

open JobManager

-- The job in line gives no size.
def Unsized (cfg : Config F) (rec : WorkerRecord F) (m : JobManager) : Prop :=
  ∃ job, m.InLine job ∧ (job.keyspaceExhausted = true ∨ ¬ Sized (sizing cfg rec job))

-- What the draws of a lease request start from.
def beforeDraw (s : Session) (w : Shared F) (req : LeaseRequest) (nowMs : UInt64) : Shared F :=
  let w := s.editRecord (s.heardFrom w nowMs) fun r =>
    { r with cachedAssets := adoptCachedAssets req.cachedAssets }
  { w with reputation := w.reputation.map fun rep => (rep.isBlacklisted s.workerId nowMs).2 }

-- The kernel of a drawn task is registered, and its parameters can be built.
def Described (cfg : Config F) (drawn : Option Task × Shared F) : Prop :=
  ∀ task, drawn.1 = some task → ∃ job spec params,
    kernelOf cfg drawn.2.jobs task = some (job, spec) ∧ buildParams spec job task = .ok params

end Session

namespace Server

open JobManager Session

variable {v₀ v : Server F} {connId : Nat} {conn : Conn} {payload : Payload} {token : Token}
  {turn : Turn F}

-- Whatever its request draws can be described to it.
def Describes (cfg : Config F) (v : Server F) (conn : Conn) (req : LeaseRequest)
    (nowMs : UInt64) : Prop :=
  ∀ rec, (conn.session.beforeDraw v.shared req nowMs).fleet.find conn.session.workerId = some rec →
    Described cfg (({ conn.session with nowMs } : Session).drawTask cfg nowMs rec
      (conn.session.beforeDraw v.shared req nowMs))

end Server

end

namespace Server

open JobManager Session

-- A job with nothing carved yet, and a worker that was measured.
def fresh : Server Rat :=
  searchStart.runAll (searches {}) (.createJob "brute_search_v1" 1000000 7 0 :: joins 1 10 1e9)

-- The one task of a small job is answered and waits for a second opinion, when
-- another job comes in.
def waitingRun : List (Event Rat) :=
  .createJob "brute_search_v1" 1000 7 0 :: joins 1 10 1e9 ++
    [asks 1 20, tells 1 ⟨0, 2⟩ [1] 30, .createJob "brute_search_v1" 1000000 9 0]

def waiting : Server Rat := searchStart.runAll doubled waitingRun

end Server

end P2pGpu.Coordinator
