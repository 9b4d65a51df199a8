import P2pGpu.Coordinator.Server.Settles
import P2pGpu.Worker.Loop.Tasks

namespace P2pGpu

open P2pGpu.Protocol
open P2pGpu.Coordinator (Body Double KernelDescriptor Payload Reply Server TaskEnvelope TaskStats
  Token)
open P2pGpu.Worker (KernelInfo LoopEvent Said TaskGrant WorkerLoop)

-- A worker: its loop, the frames that wait for its next poll, and the connection it speaks on.
structure Station where
  worker : WorkerLoop := {}
  inbox : List Reply := []
  conn : Option Nat := none

-- The coordinator and its workers, and for each connection what is on its way up and down.
structure Grid (F : Type) [Double F] where
  server : Server F
  stations : Nat → Station := fun _ => {}
  up : Nat → List (Body F × Payload) := fun _ => []
  down : Nat → List Reply := fun _ => []

namespace Station

def kernelInfo (k : KernelDescriptor) : KernelInfo where
  kernelId := k.kernelId
  workgroupSize := if k.workgroupSize.1 ≠ 0 then k.workgroupSize.1 else 64
  workgroupSizeY := if k.workgroupSize.2.1 ≠ 0 then k.workgroupSize.2.1 else 1
  outputBytes := k.outputBytes

def grant (envelope : TaskEnvelope) : TaskGrant where
  task := some envelope.taskId
  job := some envelope.jobId
  kernelId := some envelope.kernelId
  startUnit := envelope.startUnit
  workUnits := envelope.workUnits
  params := some envelope.params
  outputBytes := some envelope.outputBytes
  inputRef := envelope.input.map Prod.fst
  inputBytes := (envelope.input.map Prod.snd).getD 0

-- What the loop makes of a frame. What it does not answer to with its tasks is left out.
def read : Reply → Option LoopEvent
  | .welcome _ _ _ kernels _ => some (.welcome (kernels.map kernelInfo))
  | .benchmarkRequest _ _ => none
  | .peerList peers => some (.peerList peers)
  | .taskGrant envelope => some (.taskGrant (grant envelope))
  | .revoke task => some (.revoke (some task))
  -- One that is fatal stops the loop.
  | .error e => if e.fatal then some .stop else none
  | .assetChunk hash index total bytes => some (.assetChunk ⟨some hash, index, total, some bytes⟩)
  | .assetMiss _ => some .assetMiss

-- What comes to the loop from no frame and from no connection.
def isOwn : LoopEvent → Bool
  | .start | .stop | .peerBytes _ _ | .peerOpen _ | .deviceLost | .deviceUnrecoverable | .poll _
  | .executed _ _ => true
  | .opened | .closed | .welcome _ | .taskGrant _ | .revoke _ | .peerList _ | .assetChunk _
  | .assetMiss => false

end Station

namespace Grid

section

variable {F : Type} [Double F]

structure Setup (F : Type) where
  coordinator : Coordinator.Config F
  worker : Worker.Config

inductive Event (F : Type) where
  -- what happens to the coordinator and is told to nobody
  | coordinator (e : Coordinator.Event F)
  | sweep (nowMs : UInt64) (flushed : Bool)
  -- a frame gets to the coordinator
  | deliver (connId : Nat) (nowMs : UInt64) (token : Token)
  -- a worker gets a connection, and sees that it has none any more
  | connect (n : Nat)
  | lose (n : Nat)
  -- a frame gets to a worker, and a poll takes it up
  | arrive (n : Nat)
  | handle (n : Nat) (now : Nat)
  -- what else happens to a loop, with what a task that is done with it has computed
  | turn (n : Nat) (now : Nat) (e : LoopEvent) (output : Payload) (stats : Option TaskStats)
  -- what else a loop says
  | speak (n : Nat) (body : Body F) (payload : Payload)

-- The frame of what is said of a task.
def frame (cfg : Coordinator.Config F) (output : Payload) (stats : Option TaskStats) :
    Said → Body F × Payload
  | .release task _ => (.release (some task), [])
  | .result task =>
      (.resultHeader
        { taskId := some task
          payloadBytes := UInt32.ofNat output.length
          checksum := cfg.blake3 output
          stats
          sequence := 0
          unitsDone := 0 }, output)
  | .goodbye _ => (.goodbye, [])

-- The replies to a frame.
def replies (cfg : Coordinator.Config F) (v : Server F) (connId : Nat) (body : Body F)
    (payload : Payload) (nowMs : UInt64) (token : Token) : List Reply :=
  match v.turn cfg connId body payload nowMs token with
  | none => []
  | some turn => turn.reaction.replies

-- One event of a loop. What it sends goes up its connection.
def act (cfg : Setup F) (g : Grid F) (n : Nat) (s : Station) (e : WorkerLoop.Event)
    (output : Payload) (stats : Option TaskStats) : Grid F :=
  { g with
    stations := Function.update g.stations n { s with worker := s.worker.moved cfg.worker e }
    up :=
      match s.conn with
      | none => g.up
      | some k => Function.update g.up k
          (g.up k ++ (s.worker.sends cfg.worker e).map (frame cfg.coordinator output stats)) }

def next (cfg : Setup F) (g : Grid F) : Event F → Grid F
  | .coordinator e => { g with server := g.server.next cfg.coordinator e }
  | .sweep nowMs flushed =>
      { g with
        server := g.server.next cfg.coordinator (.sweep nowMs flushed)
        down := fun k => g.down k ++ g.server.pushed cfg.coordinator nowMs k }
  | .deliver k nowMs token =>
      match g.up k with
      | [] => g
      | (body, payload) :: rest =>
          { g with
            server := g.server.next cfg.coordinator (.message k body payload nowMs token)
            up := Function.update g.up k rest
            down := Function.update g.down k
              (g.down k ++ replies cfg.coordinator g.server k body payload nowMs token) }
  | .connect n =>
      let s := g.stations n
      { g with
        server := g.server.next cfg.coordinator .open
        stations := Function.update g.stations n
          { s with
            worker := s.worker.moved cfg.worker (0, .opened)
            conn := some g.server.nextConnId } }
  | .lose n =>
      let s := g.stations n
      { g with
        stations := Function.update g.stations n
          { s with worker := s.worker.moved cfg.worker (0, .closed), conn := none } }
  | .arrive n =>
      let s := g.stations n
      match s.conn with
      | none => g
      | some k =>
          match g.down k with
          | [] => g
          | reply :: rest =>
              { g with
                stations := Function.update g.stations n { s with inbox := s.inbox ++ [reply] }
                down := Function.update g.down k rest }
  | .handle n now =>
      let s := g.stations n
      match s.inbox with
      | [] => g
      | reply :: rest =>
          match Station.read reply with
          | none => { g with stations := Function.update g.stations n { s with inbox := rest } }
          | some e => g.act cfg n { s with inbox := rest } (now, e) [] none
  | .turn n now e output stats => g.act cfg n (g.stations n) (now, e) output stats
  | .speak n body payload =>
      match (g.stations n).conn with
      | none => g
      | some k => { g with up := Function.update g.up k (g.up k ++ [(body, payload)]) }

-- A connection is sought where there is none, frames are taken up between two tasks, and
-- what is said goes to an open transport. An output fits a frame.
def possible (g : Grid F) : Event F → Bool
  | .coordinator (.createJob _ _ _ _) | .coordinator (.seedRender _ _) | .coordinator (.text _)
  | .coordinator (.malformed _) | .coordinator (.close _) => true
  | .coordinator _ => false
  | .sweep _ _ | .deliver _ _ _ | .lose _ | .arrive _ => true
  | .connect n => !(g.stations n).worker.isOpen
  | .handle n _ => (g.stations n).worker.executing.isNone
  | .turn n now e output _ =>
      Station.isOwn e && decide ((g.stations n).worker.Possible (now, e)) &&
        decide (output.length ≤ kMaxOutputBytes)
  | .speak n _ _ => (g.stations n).worker.isOpen

-- The event that the coordinator sees of it.
def seen (g : Grid F) : Event F → Option (Coordinator.Event F)
  | .coordinator e => some e
  | .sweep nowMs flushed => some (.sweep nowMs flushed)
  | .deliver k nowMs token =>
      match g.up k with
      | [] => none
      | (body, payload) :: _ => some (.message k body payload nowMs token)
  | .connect _ => some .open
  | .lose _ | .arrive _ | .handle _ _ | .turn _ _ _ _ _ | .speak _ _ _ => none

-- What the coordinator iterates over may be ordered in any way.
inductive Step (cfg : Setup F) (g : Grid F) (e : Event F) : Grid F → Prop
  | unseen (h : g.seen e = none) : Step cfg g e (g.next cfg e)
  | seen (e' : Coordinator.Event F) (v' : Server F) (h : g.seen e = some e')
      (hstep : Server.Step cfg.coordinator g.server e' v') :
      Step cfg g e { g.next cfg e with server := v' }

end

end Grid

end P2pGpu
