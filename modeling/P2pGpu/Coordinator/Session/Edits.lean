import P2pGpu.Coordinator.Job.Run
import P2pGpu.Coordinator.Session.Message

namespace P2pGpu.Coordinator

open P2pGpu.Protocol

-- What a message is made of: an operation of the manager, a word in the record of a
-- worker, and whatever touches neither.
inductive Edit (F : Type) [Double F] where
  | operate (o : Operation F)
  | revise (id : WorkerId) (edit : WorkerRecord F → WorkerRecord F)
  | aside

section

variable {F : Type}

-- The operations that a connection performs for its worker.
def Operation.driven : Operation F → Prop
  | .finish _ accepted => accepted = true
  | .requeue _ why => why = .release
  | .createJob _ _ _ _ | .seedRender _ _ | .mutableJob _ _ | .sweepExpiredLeases _
  | .clearDirty => False
  | _ => True

-- Those among them that neither deliver nor judge.
def Operation.quiet : Operation F → Prop
  | .finish _ _ | .recordPartial _ _ _ _ _ _ _ => False
  | o => o.driven

theorem Operation.quiet_driven {o : Operation F} (h : o.quiet) : o.driven := by
  cases o <;> first | exact h | exact h.elim

end

section

variable {F : Type} [Double F]

namespace Shared

inductive Edited : Shared F → Edit F → Shared F → Prop
  | operate (w : Shared F) (o : Operation F) :
      Edited w (.operate o) { w with jobs := o.run w.jobs }
  | revise (w : Shared F) (id : WorkerId) (edit : WorkerRecord F → WorkerRecord F) :
      Edited w (.revise id edit) { w with fleet := w.fleet.mutable id edit }
  | aside (w w' : Shared F) (hjobs : w'.jobs = w.jobs) (hfleet : w'.fleet = w.fleet) :
      Edited w .aside w'

def Within (p : Operation F → Prop) (_ : Shared F) : Edit F → Prop
  | .operate o => p o
  | .revise _ _ | .aside => True

-- A run of such changes, with the operations that it may use.
abbrev Edits (p : Operation F → Prop) : Shared F → Shared F → Prop := Reach Edited (Within p)

namespace Edits

variable {p q : Operation F → Prop} {w w' w'' : Shared F}

theorem mono (h : Edits p w w') (hpq : ∀ o, p o → q o) : Edits q w w' := by
  refine Reach.mono (fun _ l hl => ?_) h
  cases l with
  | operate o => exact hpq o hl
  | revise => trivial
  | aside => trivial

theorem operate {o : Operation F} (ho : p o) (w : Shared F) :
    Edits p w { w with jobs := o.run w.jobs } :=
  Reach.single (show Within p w (.operate o) from ho) (Edited.operate w o)

-- The manager as an operation leaves it, where the operation also answers.
theorem operated {o : Operation F} {m : JobManager} (ho : p o) (h : o.run w.jobs = m) :
    Edits p w { w with jobs := m } := by
  rw [← h]
  exact operate ho w

theorem revise (w : Shared F) (id : WorkerId) (edit : WorkerRecord F → WorkerRecord F) :
    Edits p w { w with fleet := w.fleet.mutable id edit } :=
  Reach.single (show Within p w (.revise id edit) from trivial) (Edited.revise w id edit)

theorem aside (hjobs : w'.jobs = w.jobs) (hfleet : w'.fleet = w.fleet) : Edits p w w' :=
  Reach.single (show Within p w .aside from trivial) (Edited.aside w w' hjobs hfleet)

-- Words are put into records that exist, and none is made or dropped.
theorem workers (h : Edits p w w') (id : WorkerId) :
    (w'.fleet.find id).isSome = (w.fleet.find id).isSome := by
  refine h.invariant (fun x => (x.fleet.find id).isSome = (w.fleet.find id).isSome) rfl ?_
  rintro x l x' hx - hstep
  cases hstep with
  | operate => exact hx
  | revise i edit =>
      rw [← hx]
      dsimp only
      rw [Fleet.find_mutable]
      split
      · rw [Option.isSome_map]
      · rfl
  | aside _ hjobs hfleet =>
      rw [hfleet]
      exact hx

-- What the manager does is a run of its operations.
theorem operations (h : Edits p w w') :
    Reach (fun (m : JobManager) (o : Operation F) m' => m' = o.run m) (fun _ o => p o) w.jobs
      w'.jobs := by
  induction h with
  | refl => exact Reach.refl _
  | @tail x x' hrun hlast ih =>
      obtain ⟨l, hl, hstep⟩ := hlast
      cases hstep with
      | operate o => exact ih.tail hl rfl
      | revise => exact ih
      | aside _ hjobs hfleet =>
          rw [hjobs]
          exact ih

end Edits

end Shared

namespace Session

open Shared

variable {cfg : Config F} {s : Session} {w : Shared F} {p : Operation F → Prop}

theorem editRecord_edits (s : Session) (w : Shared F) (edit : WorkerRecord F → WorkerRecord F) :
    Edits p w (s.editRecord w edit) := Edits.revise w s.workerId edit

theorem drainRevokes_edits (s : Session) (w : Shared F) : Edits p w (s.drainRevokes w).2 := by
  unfold drainRevokes
  split
  · exact Reach.refl w
  · exact editRecord_edits s w _

theorem heardFrom_edits (s : Session) (w : Shared F) (nowMs : UInt64) :
    Edits p w (s.heardFrom w nowMs) := Edits.revise w s.workerId _

theorem grantSized_edits (nowMs : UInt64) (rec : WorkerRecord F) (w : Shared F) :
    Edits Operation.quiet w (s.grantSized cfg nowMs rec w).2 := by
  unfold grantSized
  split
  · exact Reach.refl w
  · exact Edits.operate (o := .grant _ _ _ _ _) trivial w

theorem injectProbe_edits (nowMs : UInt64) (w : Shared F) (task : Task) :
    Edits Operation.quiet w (s.injectProbe cfg nowMs w task).2 := by
  unfold injectProbe
  split
  · exact Reach.refl w
  · rename_i pick _
    have hissue : (Operation.issueKnownRange s.workerId nowMs cfg.leaseMs pick.startUnit
        pick.unitCount : Operation F).run w.jobs = (w.jobs.issueKnownRange s.workerId nowMs
          cfg.leaseMs pick.startUnit pick.unitCount).2 := rfl
    split
    · rename_i jobs heq
      rw [heq] at hissue
      exact Edits.operated (o := .issueKnownRange _ _ _ _ _) trivial hissue
    · rename_i probe jobs heq
      rw [heq] at hissue
      have hissued : Edits Operation.quiet w { w with jobs } :=
        Edits.operated (o := .issueKnownRange _ _ _ _ _) trivial hissue
      have hquiet : (Operation.requeue task.id .release : Operation F).quiet := rfl
      have hback : Edits Operation.quiet { w with jobs } _ := Edits.operate hquiet _
      exact (hissued.trans hback).trans (Edits.aside rfl rfl)

theorem speculate_edits (nowMs : UInt64) (w : Shared F) :
    Edits Operation.quiet w (s.speculate cfg nowMs w).2 := by
  unfold speculate
  split
  · exact Edits.operate (o := .issueSpeculative _ _ _ _) trivial w
  · exact Reach.refl w

theorem drawTask_edits (nowMs : UInt64) (rec : WorkerRecord F) (w : Shared F) :
    Edits Operation.quiet w (s.drawTask cfg nowMs rec w).2 := by
  have hgrant : Edits Operation.quiet w (s.grantSized cfg nowMs rec w).2 :=
    grantSized_edits nowMs rec w
  unfold drawTask
  split
  · rename_i w' heq
    rw [heq] at hgrant
    exact hgrant.trans (speculate_edits nowMs w')
  · rename_i task w' heq
    rw [heq] at hgrant
    exact hgrant.trans (injectProbe_edits nowMs w' task)

theorem sendTask_edits (nowMs : UInt64) (rec : WorkerRecord F) (w : Shared F) (task : Task) :
    Edits Operation.quiet w (s.sendTask cfg nowMs rec w task).2 := by
  have hquiet : (Operation.requeue task.id .release : Operation F).quiet := rfl
  have hback : Edits Operation.quiet w { w with jobs := (w.jobs.requeue task.id .release).2 } :=
    Edits.operate hquiet w
  unfold sendTask
  split
  · exact hback
  · split
    · exact hback
    · exact editRecord_edits s w _

theorem grantLoop_edits (nowMs : UInt64) (rec : WorkerRecord F) (n : Nat) (w : Shared F) :
    Edits Operation.quiet w (s.grantLoop cfg nowMs rec n w).2 := by
  induction n generalizing w with
  | zero => exact Reach.refl w
  | succ n ih =>
      have hone : Edits Operation.quiet w (s.grantOne cfg nowMs rec w).2 := by
        have hdraw : Edits Operation.quiet w (s.drawTask cfg nowMs rec w).2 :=
          drawTask_edits nowMs rec w
        unfold grantOne
        split
        · rename_i w' heq
          rw [heq] at hdraw
          exact hdraw
        · rename_i task w' heq
          rw [heq] at hdraw
          exact hdraw.trans (sendTask_edits nowMs rec w' task)
      unfold grantLoop
      split
      · rename_i w' heq
        rw [heq] at hone
        exact hone
      · rename_i replies w' heq
        rw [heq] at hone
        exact hone.trans (ih w')

theorem onLeaseRequest_edits (w : Shared F) (req : LeaseRequest) (nowMs : UInt64) :
    Edits Operation.quiet w (s.onLeaseRequest cfg w req nowMs).shared := by
  have hcached : Edits Operation.quiet w _ := editRecord_edits s w fun r =>
    { r with cachedAssets := adoptCachedAssets req.cachedAssets }
  unfold onLeaseRequest
  dsimp only
  split
  · exact hcached
  · split
    · exact hcached
    · split
      · exact hcached
      · have hbarred : Edits Operation.quiet w
            { s.editRecord w (fun r =>
                { r with cachedAssets := adoptCachedAssets req.cachedAssets }) with
              reputation := (w.reputation.map fun rep =>
                rep.isBlacklisted s.workerId nowMs).map Prod.snd } :=
          hcached.trans (Edits.aside rfl rfl)
        split
        · exact hbarred
        · exact hbarred.trans (grantLoop_edits nowMs _ _ _)

theorem onBenchmarkResult_edits (w : Shared F) (score : F) :
    Edits p w (s.onBenchmarkResult w score).shared := by
  unfold onBenchmarkResult
  split
  · exact Reach.refl w
  · split
    · exact Reach.refl w
    · exact editRecord_edits s w _

theorem onProgress_edits (w : Shared F) (progress : ProgressReport) (nowMs : UInt64) :
    Edits Operation.quiet w (s.onProgress cfg w progress nowMs).shared := by
  unfold onProgress
  split
  · exact Reach.refl w
  · rename_i taskId _
    split
    · exact Reach.refl w
    · have hrenew : (Operation.renewLease s.workerId taskId nowMs cfg.leaseMs : Operation F).run
          w.jobs = (w.jobs.renewLease s.workerId taskId nowMs cfg.leaseMs).2 := rfl
      have hquiet : (Operation.renewLease s.workerId taskId nowMs cfg.leaseMs :
          Operation F).quiet := trivial
      split
      · rename_i heq
        rw [heq] at hrenew
        exact Edits.operated hquiet hrenew
      · rename_i heq
        rw [heq] at hrenew
        exact Edits.operated hquiet hrenew

theorem onRelease_edits (w : Shared F) (taskId : Option TaskId) :
    Edits Operation.quiet w (s.onRelease w taskId).shared := by
  unfold onRelease
  split
  · exact Reach.refl w
  · rename_i taskId
    split
    · exact Reach.refl w
    · have hback : (Operation.requeue taskId .release : Operation F).run w.jobs =
          (w.jobs.requeue taskId .release).2 := rfl
      have hquiet : (Operation.requeue taskId .release : Operation F).quiet := rfl
      split
      · rename_i heq
        rw [heq] at hback
        exact Edits.operated hquiet hback
      · rename_i heq
        rw [heq] at hback
        exact Edits.operated hquiet hback

theorem onSignal_shared (w : Shared F) (signal : Signal) : (s.onSignal w signal).shared = w := by
  unfold onSignal
  dsimp only
  repeat' split
  all_goals rfl

theorem onAssetRequest_edits (w : Shared F) (req : AssetRequest) :
    Edits p w (s.onAssetRequest cfg w req).shared := by
  have hsame : (s.onAssetRequest cfg w req).shared.jobs = w.jobs ∧
      (s.onAssetRequest cfg w req).shared.fleet = w.fleet := by
    unfold onAssetRequest
    dsimp only
    repeat' split
    all_goals exact ⟨rfl, rfl⟩
  exact Edits.aside hsame.1 hsame.2

-- What comes before a judgement changes no task.
theorem prepare_edits (w : Shared F) (taskId : TaskId) (header : ResultHeader) :
    Edits Operation.quiet w (s.prepare w taskId header) := by
  have hstats : Edits Operation.quiet w (s.recordStats w header.stats) := by
    unfold recordStats
    split
    · exact Reach.refl w
    · rename_i stats _
      have hsource : (Operation.recordAssetSource stats.assetSource : Operation F).quiet := trivial
      have hice : (Operation.recordIceOutcome stats.iceGathered stats.peerAttempts
          stats.peerConnected : Operation F).quiet := trivial
      exact ((Edits.operate hsource w).trans (Edits.operate hice _)).trans
        (editRecord_edits s _ _)
  have hasset : ∀ w : Shared F, Edits Operation.quiet w (s.creditAsset w taskId) := by
    intro w
    unfold creditAsset
    split
    · exact Reach.refl w
    · split
      · exact Reach.refl w
      · exact editRecord_edits s w _
  have hprobe : ∀ w : Shared F, Edits Operation.quiet w (s.checkProbe w taskId header.checksum) := by
    intro w
    unfold checkProbe
    split
    · exact Reach.refl w
    · split
      · exact Reach.refl w
      · exact Edits.aside rfl rfl
  exact (hstats.trans (hasset _)).trans (hprobe _)

theorem notifyLosers_edits (revoked : List Revocation) (w : Shared F) :
    Edits p w { w with fleet := notifyLosers w.fleet revoked } := by
  unfold notifyLosers
  induction revoked generalizing w with
  | nil => exact Reach.refl w
  | cons rev rest ih =>
      have hfirst : Edits p w { w with fleet := w.fleet.mutable rev.holder fun r =>
          { r with pendingRevokes := r.pendingRevokes ++ [rev.task] } } := Edits.revise w _ _
      exact hfirst.trans (ih _)

theorem complete_edits (w : Shared F) (taskId : TaskId) :
    Edits Operation.driven w (s.complete w taskId).shared := by
  have hcancel : (Operation.cancelSiblingsOf taskId : Operation F).driven := trivial
  unfold complete
  dsimp only [quiet]
  exact (((Edits.operate hcancel w).trans (notifyLosers_edits _ _)).trans
    (Edits.revise _ s.workerId _)).trans (Edits.revise _ s.workerId _)

theorem acceptResult_edits (w : Shared F) (taskId : TaskId) (q : QuorumResult F)
    (checksum : UInt64) (payload : Payload) :
    Edits Operation.driven w (s.acceptResult w taskId q checksum payload).shared := by
  let settled : Shared F := { w with reputation := w.reputation.map (settleReputation q s.nowMs) }
  have hpublished : Edits Operation.driven w (publish settled taskId q checksum payload) := by
    have hsettled : Edits Operation.driven w settled := Edits.aside rfl rfl
    refine hsettled.trans ?_
    unfold publish
    split
    · exact Reach.refl settled
    · exact Edits.aside rfl rfl
  have hfinish : (Operation.finish taskId true : Operation F).run
      (publish settled taskId q checksum payload).jobs =
        ((publish settled taskId q checksum payload).jobs.finish taskId true).2 := rfl
  have hdriven : (Operation.finish taskId true : Operation F).driven := rfl
  unfold acceptResult
  dsimp only
  split
  · rename_i heq
    rw [heq] at hfinish
    exact hpublished.trans (Edits.operated hdriven hfinish)
  · rename_i jobs heq
    rw [heq] at hfinish
    exact (hpublished.trans (Edits.operated hdriven hfinish)).trans (complete_edits _ taskId)

theorem judge_edits (w : Shared F) (taskId : TaskId) (spec : KernelSpec) (checksum : UInt64)
    (payload : Payload) :
    Edits Operation.driven w (s.judge cfg w taskId spec checksum payload).shared := by
  have hrecord : (Operation.recordSubmission taskId s.workerId checksum (retained spec payload) :
      Operation F).driven := trivial
  have hrecorded := Edits.operate hrecord w
  unfold judge
  dsimp only
  split
  · have hreplica : (Operation.requestReplica taskId : Operation F).run
        (w.jobs.recordSubmission taskId s.workerId checksum (retained spec payload)) =
          ((w.jobs.recordSubmission taskId s.workerId checksum
            (retained spec payload)).requestReplica taskId).2 := rfl
    have hdriven : (Operation.requestReplica taskId : Operation F).driven := trivial
    split
    · rename_i heq
      rw [heq] at hreplica
      exact hrecorded.trans (Edits.operated hdriven hreplica)
    · rename_i heq
      rw [heq] at hreplica
      exact hrecorded.trans (Edits.operated hdriven hreplica)
  · have hrestart : (Operation.restartValidation taskId : Operation F).run
        (w.jobs.recordSubmission taskId s.workerId checksum (retained spec payload)) =
          ((w.jobs.recordSubmission taskId s.workerId checksum
            (retained spec payload)).restartValidation taskId).2 := rfl
    have hdriven : (Operation.restartValidation taskId : Operation F).driven := trivial
    split
    · rename_i heq
      rw [heq] at hrestart
      exact hrecorded.trans (Edits.operated hdriven hrestart)
    · rename_i heq
      rw [heq] at hrestart
      exact hrecorded.trans (Edits.operated hdriven hrestart)
  · exact hrecorded.trans (acceptResult_edits _ taskId _ checksum payload)

theorem onReadable_edits (w : Shared F) (taskId : TaskId) (header : ResultHeader)
    (payload : Payload) :
    Edits Operation.driven w (s.onReadable cfg w taskId header payload).shared := by
  unfold onReadable
  split
  · have hdriven : (Operation.recordPartial s.workerId taskId header.sequence header.unitsDone
        payload s.nowMs cfg.leaseMs : Operation F).driven := trivial
    exact Edits.operate hdriven w
  · have hsubmit : (Operation.submit s.workerId taskId : Operation F).run w.jobs =
        (w.jobs.submit s.workerId taskId).2 := rfl
    have hdriven : (Operation.submit s.workerId taskId : Operation F).driven := trivial
    split
    · rename_i heq
      rw [heq] at hsubmit
      exact Edits.operated hdriven hsubmit
    · rename_i jobs heq
      rw [heq] at hsubmit
      have hready : Edits Operation.driven w (s.prepare { w with jobs } taskId header) :=
        (Edits.operated hdriven hsubmit).trans
          ((prepare_edits _ taskId header).mono fun _ ho => Operation.quiet_driven ho)
      unfold weigh
      split
      · exact hready
      · exact hready.trans (judge_edits _ taskId _ header.checksum payload)

theorem onResultHeader_edits (w : Shared F) (header : ResultHeader) (payload : Payload) :
    Edits Operation.driven w (s.onResultHeader cfg w header payload).shared := by
  have hback : ∀ taskId : TaskId, Edits Operation.driven w
      { w with jobs := (w.jobs.requeue taskId .release).2 } := by
    intro taskId
    have hdriven : (Operation.requeue taskId .release : Operation F).driven := rfl
    exact Edits.operate hdriven w
  unfold onResultHeader
  repeat' split
  all_goals first
    | exact Reach.refl w
    | exact hback _
    | exact onReadable_edits w _ header payload

-- What a worker says that has greeted, unless it brings a result or takes its leave.
theorem dispatch_quiet (hs : s.handshaked = true) (body : Body F) (payload : Payload)
    (token : Token) (w : Shared F) (hresult : ∀ header, body ≠ .resultHeader header)
    (hstays : body ≠ .goodbye) :
    Edits Operation.quiet w (s.dispatch cfg w body payload token).shared := by
  cases body with
  | hello m =>
      have hagain : s.onHello cfg w m token = s.nonFatal w .malformedMessage "duplicate Hello" :=
        if_pos hs
      show Edits Operation.quiet w (s.onHello cfg w m token).shared
      rw [hagain]
      exact Reach.refl w
  | leaseRequest m => exact onLeaseRequest_edits w m s.nowMs
  | resultHeader m => exact absurd rfl (hresult m)
  | release taskId => exact onRelease_edits w taskId
  | progress m => exact onProgress_edits w m s.nowMs
  | goodbye => exact absurd rfl hstays
  | assetRequest m => exact onAssetRequest_edits w m
  | assetData => exact Reach.refl w
  | benchmarkResult score => exact onBenchmarkResult_edits w score
  | throttle level => exact editRecord_edits s w _
  | signal m =>
      show Edits Operation.quiet w (s.onSignal w m).shared
      rw [onSignal_shared]
      exact Reach.refl w
  | coordinatorOnly => exact Reach.refl w

variable {body : Body F} {payload : Payload} {nowMs : UInt64} {token : Token}

-- A message is heard, handled, and answered with what is owed to its worker.
theorem onMessage_edits_of (hs : s.handshaked = true)
    (h : Edits p (s.heardFrom w nowMs)
      (({ s with nowMs } : Session).dispatch cfg (s.heardFrom w nowMs) body payload token).shared) :
    Edits p w (s.onMessage cfg w body payload nowMs token).shared := by
  have hheard : Edits p w (s.receive cfg w body payload nowMs token).shared := by
    rw [receive_known cfg w body payload nowMs token hs]
    exact (heardFrom_edits s w nowMs).trans h
  unfold onMessage
  dsimp only
  split
  · exact hheard.trans (drainRevokes_edits _ _)
  · exact hheard

theorem onMessage_quiet (hs : s.handshaked = true) (hresult : ∀ header, body ≠ .resultHeader header)
    (hstays : body ≠ .goodbye) :
    Edits Operation.quiet w (s.onMessage cfg w body payload nowMs token).shared :=
  onMessage_edits_of hs (dispatch_quiet (s := { s with nowMs }) hs body payload token _ hresult hstays)

theorem onMessage_edits (hs : s.handshaked = true) (hstays : body ≠ .goodbye) :
    Edits Operation.driven w (s.onMessage cfg w body payload nowMs token).shared := by
  by_cases hresult : ∃ header, body = .resultHeader header
  · obtain ⟨header, rfl⟩ := hresult
    exact onMessage_edits_of hs (onResultHeader_edits _ header payload)
  · have hother : ∀ header, body ≠ .resultHeader header := fun header he => hresult ⟨header, he⟩
    exact (onMessage_quiet hs hother hstays).mono fun _ ho => Operation.quiet_driven ho

end Session

end

end P2pGpu.Coordinator
