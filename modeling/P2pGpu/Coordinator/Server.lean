import P2pGpu.Coordinator.Session.Result
import P2pGpu.Data.Reach

namespace P2pGpu.Coordinator

open P2pGpu.Protocol

def kRejectedFramesNoWork : UInt32 := 16
def kRejectedFramesDisconnect : UInt32 := 64

structure Conn where
  session : Session
  rejectedFrames : UInt32 := 0

-- The coordinator, with every connection that is open.
structure Server (F : Type) [Double F] where
  shared : Shared F
  conns : Table Nat Conn := ∅
  -- Where a worker is reached, by the connection it spoke on last.
  live : Table WorkerId Nat := ∅
  nextConnId : Nat := 1

-- What happens to a coordinator.
inductive Event (F : Type) where
  | createJob (kernelId : String) (totalUnits seed unitsPerGroup : UInt64)
  | seedRender (render : RenderConfig) (inputRef : AssetId)
  | open
  -- A frame that is not binary, and one that does not verify.
  | text (connId : Nat)
  | malformed (connId : Nat)
  -- A verified frame, when it came, and the random draw of a new token.
  | message (connId : Nat) (body : Body F) (payload : Payload) (nowMs : UInt64) (token : Token)
  | close (connId : Nat)
  -- The timer, and whether there was a store to flush to.
  | sweep (nowMs : UInt64) (flushed : Bool)

namespace Server

section

variable {F : Type} [Double F]

def jobs (v : Server F) : JobManager := v.shared.jobs

def withJobs (v : Server F) (jobs : JobManager) : Server F :=
  { v with shared := { v.shared with jobs } }

def openConn (v : Server F) : Server F :=
  { v with
    conns := v.conns.insert v.nextConnId { session := { connId := v.nextConnId } }
    nextConnId := v.nextConnId + 1 }

-- However a connection ends.
def closeConn (v : Server F) (connId : Nat) : Server F :=
  match v.conns.lookup connId with
  | none => v
  | some conn =>
      { v with
        shared := conn.session.onDisconnect v.shared
        conns := v.conns.erase connId
        live := v.live.erase conn.session.workerId }

def editConn (v : Server F) (connId : Nat) (edit : Conn → Conn) : Server F :=
  { v with conns := v.conns.modify connId edit }

def countRejected (conn : Conn) : Conn := { conn with rejectedFrames := conn.rejectedFrames + 1 }

-- No work for a peer that keeps sending what cannot be read, and then no connection.
def rejectFrame (v : Server F) (connId : Nat) : Server F :=
  match v.conns.lookup connId with
  | none => v
  | some conn =>
      let rejected := conn.rejectedFrames + 1
      let v := v.editConn connId fun conn =>
        let conn := countRejected conn
        if kRejectedFramesNoWork ≤ rejected then
          { conn with session := { conn.session with abusive := true } }
        else conn
      if kRejectedFramesDisconnect ≤ rejected then v.closeConn connId else v

-- What a verified frame on an open connection does to both states.
def turn (cfg : Config F) (v : Server F) (connId : Nat) (body : Body F) (payload : Payload)
    (nowMs : UInt64) (token : Token) : Option (Turn F) :=
  (v.conns.lookup connId).map fun conn =>
    conn.session.onMessage cfg v.shared body payload nowMs token

def onFrame (cfg : Config F) (v : Server F) (connId : Nat) (body : Body F) (payload : Payload)
    (nowMs : UInt64) (token : Token) : Server F :=
  match v.turn cfg connId body payload nowMs token with
  | none => v
  | some turn =>
      let v := { v with shared := turn.shared }.editConn connId fun conn =>
        { conn with session := turn.session }
      if turn.reaction.close then v.closeConn connId
      else if turn.session.workerId ≠ Id.nil then
        { v with live := v.live.insert turn.session.workerId connId }
      else v

-- An expiry is evidence that the task was too large.
def observeExpiry (leaseMs : UInt32) (r : WorkerRecord F) : WorkerRecord F :=
  if 0.0 < r.predictedMs then
    { r with
      correction := updateCorrection r.correction r.predictedMs
        (Double.ofUInt64 leaseMs.toUInt64) Session.kAlpha
      predictedMs := 0.0 }
  else r

def expireLeases (cfg : Config F) (v : Server F) (nowMs : UInt64) : Server F :=
  let (expired, jobs) := v.jobs.sweepExpiredLeases nowMs
  let fleet := expired.foldl
    (fun fleet e => fleet.mutable e.holder (observeExpiry cfg.leaseMs)) v.shared.fleet
  { v with shared := { v.shared with jobs, fleet } }

def dropWorker (v : Server F) (lost : WorkerId) : Server F :=
  { v with
    shared := { v.shared with
      jobs := (v.jobs.releaseAllHeldBy lost).2
      fleet := v.shared.fleet.leave lost }
    live := v.live.erase lost }

def dropLost (cfg : Config F) (v : Server F) (nowMs : UInt64) : Server F :=
  (v.shared.fleet.findLost nowMs cfg.workerTimeoutMs).foldl dropWorker v

-- A worker that is busy says nothing, so it is told.
def pushRevokes (v : Server F) : Server F :=
  let fleet := v.live.keys.foldl
    (fun fleet id => fleet.mutable id fun r => { r with pendingRevokes := [] }) v.shared.fleet
  { v with shared := { v.shared with fleet } }

def resetSignalWindows (v : Server F) : Server F :=
  v.live.entries.foldl
    (fun v e => v.editConn e.2 fun conn =>
      { conn with session := { conn.session with signalsThisWindow := 0 } }) v

def sweep (cfg : Config F) (v : Server F) (nowMs : UInt64) (flushed : Bool) : Server F :=
  let v := (((v.expireLeases cfg nowMs).dropLost cfg nowMs).pushRevokes).resetSignalWindows
  if flushed then v.withJobs v.jobs.clearDirty else v

def next (cfg : Config F) (v : Server F) : Event F → Server F
  | .createJob kernelId totalUnits seed unitsPerGroup =>
      v.withJobs (v.jobs.createJob kernelId totalUnits seed unitsPerGroup).2
  | .seedRender render inputRef => v.withJobs (v.jobs.seedRender render inputRef).2
  | .open => v.openConn
  | .text connId => v.editConn connId countRejected
  | .malformed connId => v.rejectFrame connId
  | .message connId body payload nowMs token => v.onFrame cfg connId body payload nowMs token
  | .close connId => v.closeConn connId
  | .sweep nowMs flushed => v.sweep cfg nowMs flushed

-- The order in which a hash table is iterated may change between events.
structure Rehashed (v v' : Server F) : Prop where
  jobs : v.jobs.Rehashed v'.jobs
  workers : v.shared.fleet.workers.entries.Perm v'.shared.fleet.workers.entries
  live : v.live.entries.Perm v'.live.entries
  rest : v' = { v with
    shared := { v.shared with jobs := v'.shared.jobs, fleet := v'.shared.fleet }
    live := v'.live }

def Step (cfg : Config F) (v : Server F) (e : Event F) (v' : Server F) : Prop :=
  (v.next cfg e).Rehashed v'

def runAll (cfg : Config F) (v : Server F) (events : List (Event F)) : Server F :=
  events.foldl (next cfg) v

end

end Server

end P2pGpu.Coordinator
