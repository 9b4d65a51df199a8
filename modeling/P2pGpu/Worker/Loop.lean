import P2pGpu.Data.EraseWalk
import P2pGpu.Data.LittleEndian
import P2pGpu.Data.Since
import P2pGpu.Worker.Fetch.Swarm

namespace P2pGpu.Worker

open LittleEndian
open P2pGpu.Protocol
open P2pGpu.Coordinator (AssetSource Hash32 WireString)

-- Why a task is given back.
inductive Reason where
  | userStopped
  | deviceLost
  | kernelUnavailable
  | executionFailed
  | assetUnavailable
deriving DecidableEq, Repr

-- What the loop hands to its transport that is about a task, and its last word.
inductive Said where
  | release (task : TaskId) (reason : Reason)
  | result (task : TaskId)
  | goodbye (reason : Reason)
deriving DecidableEq, Repr

-- The envelope of a grant, with nothing for a field that is not there.
structure TaskGrant where
  task : Option TaskId
  job : Option JobId
  kernelId : Option String := none
  startUnit : UInt64 := 0
  workUnits : UInt64 := 0
  params : Option (List UInt8) := none
  -- The bytes of the output spec.
  outputBytes : Option UInt32 := none
  inputRef : Option Hash32 := none
  inputBytes : UInt64 := 0
deriving DecidableEq, Repr

-- What the coordinator says of a kernel, as far as a grant needs it.
structure KernelInfo where
  kernelId : String
  workgroupSize : UInt32 := 64
  workgroupSizeY : UInt32 := 1
  outputBytes : UInt32 := 0
deriving DecidableEq, Repr

namespace PendingTask

def readU32 (task : PendingTask) (i : Nat) : UInt32 :=
  readU32LE (task.params.getD i 0) (task.params.getD (i + 1) 0) (task.params.getD (i + 2) 0)
    (task.params.getD (i + 3) 0)

-- A kernel with a workgroup of two dimensions runs over the grid that the params name.
def forKernel (task : PendingTask) (info : KernelInfo) : PendingTask :=
  let task := { task with
    workgroupSize := info.workgroupSize
    workgroupSizeY := info.workgroupSizeY }
  if 1 < info.workgroupSizeY ∧ 24 ≤ task.params.length then
    { task with invocationsX := task.readU32 16, invocationsY := task.readU32 20 }
  else task

def sized (task : PendingTask) (info : KernelInfo) : PendingTask :=
  if task.outputBytes = 0 then { task with outputBytes := info.outputBytes } else task

def withAsset (task : PendingTask) (address : WireString) : PendingTask :=
  { task with asset := address }

@[simp] theorem forKernel_id (task : PendingTask) (info : KernelInfo) :
    (task.forKernel info).id = task.id := by
  unfold forKernel
  dsimp only
  split <;> rfl

@[simp] theorem forKernel_outputBytes (task : PendingTask) (info : KernelInfo) :
    (task.forKernel info).outputBytes = task.outputBytes := by
  unfold forKernel
  dsimp only
  split <;> rfl

@[simp] theorem sized_id (task : PendingTask) (info : KernelInfo) :
    (task.sized info).id = task.id := by
  unfold sized
  split <;> rfl

@[simp] theorem sized_asset (task : PendingTask) (info : KernelInfo) :
    (task.sized info).asset = task.asset := by
  unfold sized
  split <;> rfl

end PendingTask

def TaskGrant.pending (grant : TaskGrant) (id : TaskId) (job : JobId) : PendingTask where
  id := id
  job := job
  kernelId := grant.kernelId.getD ""
  startUnit := grant.startUnit
  workUnits := grant.workUnits
  params := grant.params.getD []
  outputBytes := grant.outputBytes.getD 0

-- The worker, with what it keeps for the fetch of a bulk input.
structure WorkerLoop where
  loop : TaskLoop := {}
  kernelInfo : List KernelInfo := []
  running : Bool := false
  handshaked : Bool := false
  gpuUnavailable : Bool := false
  -- Of the transport.
  isOpen : Bool := false
  -- The poll that goes on is inside `RunTask`.
  executing : Option PendingTask := none

-- What `Execute` finds before it runs a task.
inductive Ability where
  | able
  | noDevice
  | noSource
  | noKernel
deriving DecidableEq, Repr

inductive LoopEvent where
  | start
  | stop
  -- called by the transports and by the device
  | opened
  | closed
  | peerBytes (servingCurrent : Option WorkerId) (m : AssetMsg)
  | peerOpen (isOpen : Bool)
  | deviceLost
  | deviceUnrecoverable
  -- frames, which a poll takes out of the inbox
  | welcome (kernels : List KernelInfo)
  | taskGrant (grant : TaskGrant)
  | revoke (task : Option TaskId)
  | peerList (peers : List WorkerId)
  | assetChunk (c : AssetChunk)
  | assetMiss
  -- the rest of a poll, and the end of a task that it runs
  | poll (ability : Ability)
  | executed (ok healthy : Bool)

namespace LoopEvent

-- What can come while a task executes. All else waits for the next poll.
def comesBetween : LoopEvent → Bool
  | .opened | .closed | .peerBytes _ _ | .peerOpen _ | .deviceLost | .deviceUnrecoverable
  | .executed _ _ => true
  | _ => false

end LoopEvent

namespace WorkerLoop

-- What belongs to the fetch. It gives back what it cannot have the input for.
def inLoop (w : WorkerLoop) (f : TaskLoop → TaskLoop) : WorkerLoop × List Said :=
  ({ w with loop := f w.loop.cleared },
    (f w.loop.cleared).released.map fun task => .release task .assetUnavailable)

def eraseHeld (w : WorkerLoop) (task : TaskId) : WorkerLoop :=
  { w with loop := { w.loop with held := w.loop.held.filter (· ≠ task) } }

def sendRelease (w : WorkerLoop) (task : TaskId) (reason : Reason) : WorkerLoop × List Said :=
  (w.eraseHeld task, [.release task reason])

-- A complete result. Where the input came from is told once.
def sendResult (w : WorkerLoop) (task : TaskId) : WorkerLoop × List Said :=
  let w := w.eraseHeld task
  let fetched := w.loop.assetSource = .peer ∨ w.loop.assetSource = .coordinator
  ({ w with loop := { w.loop with
      assetSource := if fetched then .cached else w.loop.assetSource } }, [.result task])

-- The list is walked while each release erases from it.
def releaseHeld (w : WorkerLoop) (reason : Reason) : WorkerLoop × List Said :=
  ({ w with loop := { w.loop with held := [], queue := [] } },
    (Cells.walked w.loop.held).map fun task => .release task reason)

def start (w : WorkerLoop) : WorkerLoop :=
  if w.running || w.gpuUnavailable then w else { w with running := true }

def stop (w : WorkerLoop) : WorkerLoop × List Said :=
  if !w.running then (w, [])
  else
    let (w, said) := w.releaseHeld .userStopped
    ({ w with running := false, isOpen := false }, said)

def onClosed (w : WorkerLoop) : WorkerLoop :=
  { w with
    isOpen := false
    handshaked := false
    loop := { w.loop with held := [], queue := [] } }

def onDeviceUnrecoverable (w : WorkerLoop) : WorkerLoop × List Said :=
  ({ w with isOpen := false, running := false, handshaked := false, gpuUnavailable := true },
    [.goodbye .deviceLost])

def unsourced (w : WorkerLoop) : WorkerLoop :=
  { w with loop := { w.loop with assetSource := .none } }

def findKernel (w : WorkerLoop) (kernelId : String) : Option KernelInfo :=
  w.kernelInfo.find? fun info => info.kernelId = kernelId

-- A grant without an envelope or without its identifiers is dropped.
def handleTaskGrant (w : WorkerLoop) (now : Nat) (grant : TaskGrant) : WorkerLoop × List Said :=
  match grant.task, grant.job with
  | some id, some job =>
      let task := grant.pending id job
      let w := w.unsourced
      match w.findKernel task.kernelId with
      | none => w.sendRelease id .kernelUnavailable
      | some info =>
          let task := task.forKernel info
          match grant.inputRef with
          | some hash =>
              let task := task.withAsset hash.address
              if task.asset = w.loop.residentAsset then
                w.inLoop fun l => l.parkOnAsset now (task.sized info) grant.inputBytes
              else
                -- It waits as it is here.
                w.inLoop fun l => l.parkOnAsset now task grant.inputBytes
          | none =>
              ({ w with loop := { w.loop with
                  held := w.loop.held ++ [id]
                  queue := w.loop.queue ++ [task.sized info] } }, [])
  | _, _ => (w, [])

-- A task that executes is left to finish.
def handleRevoke (w : WorkerLoop) : Option TaskId → WorkerLoop
  | none => w
  | some task =>
      { w with loop := { w.loop with
          queue := w.loop.queue.filter fun t => t.id ≠ task
          held := w.loop.held.filter (· ≠ task) } }

-- Without a bulk input there is no source to tell of.
def sourced (w : WorkerLoop) (task : PendingTask) : WorkerLoop :=
  if task.asset = [] then w.unsourced else w

def execute (w : WorkerLoop) (task : PendingTask) : Ability → WorkerLoop × List Said
  | .noDevice => w.sendRelease task.id .deviceLost
  | .noSource => w.sendRelease task.id .kernelUnavailable
  | .noKernel => (w.sourced task).sendRelease task.id .kernelUnavailable
  | .able => ({ w.sourced task with executing := some task }, [])

-- One task a poll. Without one, the fetch is looked after.
def poll (w : WorkerLoop) (now : Nat) (ability : Ability) : WorkerLoop × List Said :=
  if !w.running || !w.handshaked then (w, [])
  else
    match w.loop.queue with
    | task :: rest => { w with loop := { w.loop with queue := rest } }.execute task ability
    | [] => w.inLoop fun l => l.pollFetch now

def onExecuted (w : WorkerLoop) (ok healthy : Bool) : WorkerLoop × List Said :=
  match w.executing with
  | none => (w, [])
  | some task =>
      let w := { w with executing := none }
      if ok then w.sendResult task.id
      else w.sendRelease task.id (if healthy then .executionFailed else .deviceLost)

def next (cfg : Config) (w : WorkerLoop) (now : Nat) : LoopEvent → WorkerLoop × List Said
  | .start => (w.start, [])
  | .stop => w.stop
  | .opened => ({ w with isOpen := true }, [])
  | .closed => (w.onClosed, [])
  | .peerBytes servingCurrent m => w.inLoop fun l => l.onPeerBytes cfg now servingCurrent m
  | .peerOpen isOpen => w.inLoop fun l => l.onOpen isOpen
  | .deviceLost => w.releaseHeld .deviceLost
  | .deviceUnrecoverable => w.onDeviceUnrecoverable
  | .welcome kernels => ({ w with handshaked := true, kernelInfo := kernels }, [])
  | .taskGrant grant => w.handleTaskGrant now grant
  | .revoke task => (w.handleRevoke task, [])
  | .peerList peers => w.inLoop fun l => { l with peerCandidates := peers.take 8 }
  | .assetChunk c => w.inLoop fun l => l.handleAssetChunk cfg now c
  | .assetMiss => w.inLoop fun l => l.handleAssetMiss now
  | .poll ability => w.poll now ability
  | .executed ok healthy => w.onExecuted ok healthy

abbrev Event : Type := Nat × LoopEvent

def moved (cfg : Config) (w : WorkerLoop) (e : Event) : WorkerLoop := (w.next cfg e.1 e.2).1

def handsOver (cfg : Config) (w : WorkerLoop) (e : Event) : List Said := (w.next cfg e.1 e.2).2

-- A transport that is not open drops what it is handed.
def sends (cfg : Config) (w : WorkerLoop) (e : Event) : List Said :=
  if w.isOpen then w.handsOver cfg e else []

def Step (cfg : Config) (w : WorkerLoop) (e : Event) (w' : WorkerLoop) : Prop :=
  w' = w.moved cfg e

-- The one thread of the loop is inside `RunTask` as long as a task executes.
def Possible (w : WorkerLoop) (e : Event) : Prop :=
  w.executing.isSome = true → e.2.comesBetween = true

instance (w : WorkerLoop) (e : Event) : Decidable (w.Possible e) :=
  inferInstanceAs (Decidable (w.executing.isSome = true → e.2.comesBetween = true))

theorem possible_of_idle {w : WorkerLoop} {e : Event} (h : w.executing = none) :
    w.Possible e := by
  intro hbusy
  rw [h] at hbusy
  cases hbusy

abbrev History : Type := List (WorkerLoop × Event)

-- Where a task can be that was granted, beside the list of what is held.
def tasks (w : WorkerLoop) : List PendingTask :=
  w.loop.waitingOnAsset ++ w.loop.queue ++ w.executing.toList

end WorkerLoop

end P2pGpu.Worker
