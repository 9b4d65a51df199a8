import P2pGpu.Coordinator.Job.Answer
import P2pGpu.Coordinator.Session.Routine

namespace P2pGpu.Coordinator

open P2pGpu.Protocol

namespace Session

open JobManager

section

variable {F : Type} [Double F] {cfg : Config F} {s : Session} {w : Shared F}
  {header : ResultHeader} {payload : Payload} {taskId : TaskId} {n : JobManager}

-- A complete result whose bytes were read correctly, from the holder of the lease.
structure Landed (cfg : Config F) (s : Session) (w : Shared F) (header : ResultHeader)
    (payload : Payload) (taskId : TaskId) (n : JobManager) : Prop where
  named : header.taskId = some taskId
  fresh : taskId ∉ s.completed
  alone : checkSingleInFlightResult (s.inFlightResults.contains taskId) = .ok ()
  length : checkPayloadLength header.payloadBytes payload.length = .ok ()
  lease : w.jobs.checkLease s.workerId taskId = .ok ()
  checksum : checkPayloadChecksum header.checksum (cfg.blake3 payload) = .ok ()
  complete : isComplete w.jobs taskId header.unitsDone = true
  submitted : w.jobs.submit s.workerId taskId = (.ok (), n)

-- The coordinator as it is when the answer comes to be judged.
def readied (s : Session) (w : Shared F) (header : ResultHeader) (taskId : TaskId)
    (n : JobManager) : Shared F := s.prepare { w with jobs := n } taskId header

theorem onResultHeader_landed (h : Landed cfg s w header payload taskId n) :
    s.onResultHeader cfg w header payload =
      s.weigh cfg (readied s w header taskId n) taskId header payload := by
  unfold onResultHeader
  simp only [h.named, h.fresh, if_false, h.alone, h.length, h.lease, h.checksum, onReadable,
    h.complete, Bool.not_true, h.submitted]
  rfl

-- Every other result is refused, given back, or taken as progress.
theorem onResultHeader_cases (cfg : Config F) (asked : Prop) (s : Session) (w : Shared F)
    (header : ResultHeader) (payload : Payload) :
    (s.onResultHeader cfg w header payload).Routine cfg asked s w s.nowMs ∨
      ∃ taskId n, Landed cfg s w header payload taskId n := by
  unfold onResultHeader
  split
  · exact .inl (nonFatal_routine (.refl w) _ _)
  · rename_i taskId hnamed
    split
    · exact .inl (quiet_routine (.refl w))
    · rename_i hfresh
      split
      · exact .inl (nonFatal_routine (.refl w) _ _)
      · rename_i halone
        split
        · exact .inl (nonFatal_routine (.refl w) _ _)
        · rename_i hlength
          split
          · exact .inl (nonFatal_routine (.refl w) _ _)
          · rename_i hlease
            split
            · exact .inl (nonFatal_routine (requeue_routine hlease) _ _)
            · rename_i hchecksum
              unfold onReadable
              split
              · exact .inl (quiet_routine (.of_jobs (Lends.renews
                  (recordPartial_performs w.jobs s.workerId taskId header.sequence
                    header.unitsDone payload s.nowMs cfg.leaseMs))))
              · rename_i hcomplete
                have hsubmit := submit_performs w.jobs s.workerId taskId
                split
                · rename_i e jobs hr
                  have hsame := hsubmit.error (e := e) (by rw [hr])
                  rw [hr] at hsame
                  dsimp only at hsame
                  subst hsame
                  exact .inl (nonFatal_routine (.refl w) _ _)
                · rename_i jobs hr
                  refine .inr ⟨taskId, jobs, hnamed, hfresh, ?_, ?_, hlease, ?_, ?_, hr⟩
                  · exact halone
                  · exact hlength
                  · exact hchecksum
                  · simpa using hcomplete

theorem sameRows_recordAssetSource (m : JobManager) (source : AssetSource) :
    m.SameRows (m.recordAssetSource source) := ⟨.refl _, .refl _, .refl _, .refl _, rfl, rfl⟩

theorem sameRows_recordIceOutcome (m : JobManager) (gathered attempts : UInt8)
    (connected : Bool) : m.SameRows (m.recordIceOutcome gathered attempts connected) := by
  unfold recordIceOutcome
  split
  · exact SameRows.refl m
  · exact ⟨.refl _, .refl _, .refl _, .refl _, rfl, rfl⟩

-- What is done with a result before it is judged.
structure Readies (worker : WorkerId) (w w' : Shared F) : Prop where
  jobs : w.jobs.SameRows w'.jobs
  fleet : w.fleet.OnlyRevokes worker w'.fleet
  tokens : w'.reputation.map ReputationTable.byToken = w.reputation.map ReputationTable.byToken
  compositor : w'.compositor = w.compositor
  known : w'.spotChecks.map SpotCheckPool.known = w.spotChecks.map SpotCheckPool.known

theorem recordAccepted_byToken (rep : ReputationTable F) (id : WorkerId) :
    (rep.recordAccepted id).byToken = rep.byToken := rfl

theorem recordRejected_byToken (rep : ReputationTable F) (id : WorkerId) (severity : F)
    (spotCheck : Bool) : (rep.recordRejected id severity spotCheck).byToken = rep.byToken := by
  cases spotCheck <;> rfl

theorem maybeBlacklist_byToken (rep : ReputationTable F) (id : WorkerId) (nowMs : UInt64) :
    (rep.maybeBlacklist id nowMs).2.byToken = rep.byToken := by
  unfold ReputationTable.maybeBlacklist
  dsimp only
  split
  · rfl
  · split
    · rfl
    · rfl

theorem recordStats_readies (s : Session) (w : Shared F) (stats : Option TaskStats) :
    Readies s.workerId w (s.recordStats w stats) := by
  unfold recordStats
  split
  · exact ⟨SameRows.refl _, .refl _ _, rfl, rfl, rfl⟩
  · refine ⟨?_, .mutable _ _, rfl, rfl, rfl⟩
    exact (sameRows_recordAssetSource w.jobs _).trans (sameRows_recordIceOutcome _ _ _ _)

theorem creditAsset_readies (s : Session) (w : Shared F) (taskId : TaskId) :
    Readies s.workerId w (s.creditAsset w taskId) := by
  unfold creditAsset
  split
  · exact ⟨SameRows.refl _, .refl _ _, rfl, rfl, rfl⟩
  · split
    · exact ⟨SameRows.refl _, .refl _ _, rfl, rfl, rfl⟩
    · exact ⟨SameRows.refl _, .mutable _ _, rfl, rfl, rfl⟩

theorem checkProbe_readies (s : Session) (w : Shared F) (taskId : TaskId) (checksum : UInt64) :
    Readies s.workerId w (s.checkProbe w taskId checksum) := by
  unfold checkProbe
  split
  · exact ⟨SameRows.refl _, .refl _ _, rfl, rfl, rfl⟩
  · rename_i pool hpool
    split
    · exact ⟨SameRows.refl _, .refl _ _, rfl, rfl, rfl⟩
    · refine ⟨SameRows.refl _, .refl _ _, ?_, rfl, by rw [hpool]; rfl⟩
      dsimp only
      rw [Option.map_map]
      congr 1
      funext rep
      simp only [Function.comp_apply]
      split
      · exact recordAccepted_byToken rep s.workerId
      · rw [maybeBlacklist_byToken, recordRejected_byToken]

theorem prepare_readies (s : Session) (w : Shared F) (taskId : TaskId) (header : ResultHeader) :
    Readies s.workerId w (s.prepare w taskId header) := by
  have hstats := recordStats_readies s w header.stats
  have hasset := creditAsset_readies s (s.recordStats w header.stats) taskId
  have hprobe := checkProbe_readies s (s.creditAsset (s.recordStats w header.stats) taskId) taskId
    header.checksum
  exact ⟨(hstats.jobs.trans hasset.jobs).trans hprobe.jobs,
    (hstats.fleet.trans hasset.fleet).trans hprobe.fleet,
    hprobe.tokens.trans (hasset.tokens.trans hstats.tokens),
    hprobe.compositor.trans (hasset.compositor.trans hstats.compositor),
    hprobe.known.trans (hasset.known.trans hstats.known)⟩

end

section

variable {F : Type} [Double F] {cfg : Config F} {s : Session} {w : Shared F}
  {header : ResultHeader} {payload : Payload} {taskId : TaskId} {n : JobManager}
  {spec : KernelSpec} {t : Task}

-- The worker's answer, as it is kept.
def answerOf (s : Session) (spec : KernelSpec) (header : ResultHeader) (payload : Payload) :
    Submission := ⟨s.workerId, header.checksum, retained spec payload⟩

-- The judgement that the answer leads to, beside those that came before it.
def verdict (cfg : Config F) (s : Session) (spec : KernelSpec) (w : Shared F)
    (earlier : List Submission) (answer : Submission) : QuorumResult F :=
  Quorum.decide spec (quorumFor cfg s w.reputation) (earlier ++ [answer])

-- The jobs once the answer is written down.
def recorded (w : Shared F) (taskId : TaskId) (answer : Submission) : JobManager :=
  w.jobs.recordSubmission taskId answer.worker answer.checksum answer.payload

-- What an accepted answer leads to, before its siblings are cancelled.
def settled (s : Session) (w : Shared F) (taskId : TaskId) (answer : Submission)
    (q : QuorumResult F) (payload : Payload) : Shared F :=
  let w := { w with
    jobs := recorded w taskId answer
    reputation := w.reputation.map (settleReputation q s.nowMs) }
  { publish w taskId q answer.checksum payload with jobs := (w.jobs.finish taskId true).2 }

theorem quorumFor_policy (cfg : Config F) (s : Session)
    (reputation : Option (ReputationTable F)) :
    (quorumFor cfg s reputation).policy = cfg.quorum.policy ∧
      (quorumFor cfg s reputation).maxReplicas = cfg.quorum.maxReplicas := by
  cases reputation <;> exact ⟨rfl, rfl⟩

theorem publish_jobs (w : Shared F) (taskId : TaskId) (q : QuorumResult F) (checksum : UInt64)
    (payload : Payload) : (publish w taskId q checksum payload).jobs = w.jobs := by
  unfold publish
  split <;> rfl

-- A judgement never fails: the task is where its answer is judged.
theorem judge_eq (hf : (recorded w taskId (answerOf s spec header payload)).find taskId = some t)
    (hs : t.state = .validating) :
    s.judge cfg w taskId spec header.checksum payload =
      let answer := answerOf s spec header payload
      let q : QuorumResult F :=
        Quorum.decide spec (quorumFor cfg s w.reputation) t.submissions
      match q.action with
      | .needMoreReplicas => (s.landed taskId).quiet
          { w with jobs := ((recorded w taskId answer).requestReplica taskId).2 }
      | .inconclusive => (s.landed taskId).quiet
          { w with jobs := ((recorded w taskId answer).restartValidation taskId).2 }
      | .accept => s.complete (settled s w taskId answer q payload) taskId := by
  have hrecorded : w.jobs.recordSubmission taskId s.workerId header.checksum
      (retained spec payload) = recorded w taskId (answerOf s spec header payload) := rfl
  have hsubs : submissionsOf (recorded w taskId (answerOf s spec header payload)) taskId =
      t.submissions := by
    unfold submissionsOf
    rw [hf]
  unfold judge
  dsimp only
  rw [hrecorded, hsubs]
  cases haction : (Quorum.decide spec (quorumFor cfg s w.reputation) t.submissions :
      QuorumResult F).action with
  | needMoreReplicas =>
      have hok := requestReplica_ok hf hs
      dsimp only
      split
      · rename_i he
        rw [he] at hok
        cases hok
      · rename_i jobs he
        rw [he]
  | inconclusive =>
      have hok := restartValidation_ok hf hs
      dsimp only
      split
      · rename_i he
        rw [he] at hok
        cases hok
      · rename_i jobs he
        rw [he]
  | accept =>
      have hok := finish_ok hf hs
      dsimp only
      unfold acceptResult
      dsimp only
      rw [publish_jobs]
      split
      · rename_i he
        rw [he] at hok
        cases hok
      · rename_i jobs he
        unfold settled
        dsimp only
        rw [he]
        rfl


-- More answers are only asked for below the cap.
theorem decide_needMore {quorum : QuorumConfig} {submissions : List Submission}
    (h : (Quorum.decide spec quorum submissions : QuorumResult F).action = .needMoreReplicas)
    (hne : submissions ≠ []) :
    quorum.policy ≠ .none ∧ UInt32.ofNat submissions.length < quorum.maxReplicas := by
  unfold Quorum.decide at h
  split at h
  · exact absurd rfl hne
  · split at h
    · cases h
    · rename_i hpolicy
      dsimp only at h
      split at h
      · cases h
      · split at h
        · rename_i hroom
          exact ⟨hpolicy, hroom⟩
        · split at h <;> cases h

-- The task whose answer landed, and the jobs in which it is judged.
theorem Landed.receives (h : Landed cfg s w header payload taskId n) (spec : KernelSpec) :
    Receives w.jobs taskId (answerOf s spec header payload)
      (recorded (readied s w header taskId n) taskId (answerOf s spec header payload)) := by
  have hready := prepare_readies s { w with jobs := n } taskId header
  exact receives_of_submit (answerOf s spec header payload) h.submitted hready.jobs

theorem Landed.readied_find (h : Landed cfg s w header payload taskId n) :
    ∃ t, w.jobs.find taskId = some t ∧ t.isLeasedTo s.workerId ∧
      (readied s w header taskId n).jobs.find taskId = some { t with
        state := .validating
        priorWorkers := t.priorWorkers ++ [s.workerId]
        holder := Id.nil } := by
  have hready := prepare_readies s { w with jobs := n } taskId header
  have hsubmit := submit_performs w.jobs s.workerId taskId
  rw [h.submitted] at hsubmit
  obtain ⟨t, u, hf, hr, hu⟩ := hsubmit.ok rfl
  simp only [Act.result] at hr
  split at hr <;> cases hr
  rename_i hheld
  exact ⟨t, hf, isLeasedTo_iff.mpr hheld, (hready.jobs.find_eq taskId).trans hu⟩

theorem Landed.findJob (h : Landed cfg s w header payload taskId n) (j : JobId) :
    (readied s w header taskId n).jobs.findJob j = w.jobs.findJob j := by
  have hready := prepare_readies s { w with jobs := n } taskId header
  have hsubmit := submit_performs w.jobs s.workerId taskId
  rw [h.submitted] at hsubmit
  exact (hready.jobs.findJob_eq j).trans (hsubmit.findJob j)

-- A task without a known kernel is the only one that an answer strands.
theorem Landed.kernel (h : Landed cfg s w header payload taskId n)
    (hf : w.jobs.find taskId = some t) :
    (∃ spec, kernelFor cfg (readied s w header taskId n).jobs taskId = some spec) ∨
      (kernelFor cfg (readied s w header taskId n).jobs taskId = none ∧
        ¬ w.jobs.Known cfg.kernels t) := by
  obtain ⟨u, hu, -, hready⟩ := h.readied_find
  rw [hf] at hu
  cases hu
  cases hkernel : kernelFor cfg (readied s w header taskId n).jobs taskId with
  | some spec => exact .inl ⟨spec, rfl⟩
  | none =>
      refine .inr ⟨rfl, ?_⟩
      rintro ⟨job, spec, hjob, hspec⟩
      have hjob' : (readied s w header taskId n).jobs.findJob t.job = some job :=
        (h.findJob t.job).trans hjob
      simp [kernelFor, kernelOf, hready, hjob', hspec] at hkernel

-- The turn that a judgement leads to.
def rule (s : Session) (w : Shared F) (taskId : TaskId) (answer : Submission) (payload : Payload)
    (q : QuorumResult F) : Turn F :=
  match q.action with
  | .needMoreReplicas => (s.landed taskId).quiet
      { w with jobs := ((recorded w taskId answer).requestReplica taskId).2 }
  | .inconclusive => (s.landed taskId).quiet
      { w with jobs := ((recorded w taskId answer).restartValidation taskId).2 }
  | .accept => s.complete (settled s w taskId answer q payload) taskId

theorem Landed.rules (h : Landed cfg s w header payload taskId n)
    (hf : w.jobs.find taskId = some t)
    (hspec : kernelFor cfg (readied s w header taskId n).jobs taskId = some spec) :
    s.onResultHeader cfg w header payload =
      s.rule (readied s w header taskId n) taskId (answerOf s spec header payload) payload
        (verdict cfg s spec (readied s w header taskId n) t.submissions
          (answerOf s spec header payload)) := by
  obtain ⟨u, hu, -, hsubmitted⟩ := (h.receives spec).task
  rw [hf] at hu
  cases hu
  rw [onResultHeader_landed h, weigh, hspec]
  dsimp only
  rw [judge_eq hsubmitted rfl]
  rfl

theorem verdict_needMore {earlier : List Submission} {answer : Submission}
    (h : (verdict cfg s spec w earlier answer).action = .needMoreReplicas) :
    cfg.quorum.policy ≠ .none ∧
      UInt32.ofNat (earlier ++ [answer]).length < cfg.quorum.maxReplicas := by
  obtain ⟨hpolicy, hroom⟩ := decide_needMore h (by simp)
  obtain ⟨hsame, hmax⟩ := quorumFor_policy cfg s w.reputation
  exact ⟨hsame ▸ hpolicy, hmax ▸ hroom⟩

-- The jobs are left as the verdict says, whatever it is.
theorem Landed.answers (h : Landed cfg s w header payload taskId n)
    (hf : w.jobs.find taskId = some t)
    (hspec : kernelFor cfg (readied s w header taskId n).jobs taskId = some spec)
    {action : QuorumAction}
    (haction : (verdict cfg s spec (readied s w header taskId n) t.submissions
      (answerOf s spec header payload)).action = action) :
    ∃ m, Answers cfg.quorum w.jobs taskId (answerOf s spec header payload) action m ∧
      (s.onResultHeader cfg w header payload).shared.jobs =
        if action = .accept then (m.cancelSiblingsOf taskId).2 else m := by
  have hreceives := h.receives spec
  obtain ⟨u, hu, -, hsubmitted⟩ := hreceives.task
  rw [hf] at hu
  cases hu
  have hroom : ∀ u, w.jobs.find taskId = some u → action = .needMoreReplicas →
      cfg.quorum.policy ≠ .none ∧ UInt32.ofNat (u.submissions ++
        [answerOf s spec header payload]).length < cfg.quorum.maxReplicas := by
    intro u hu hmore
    rw [hf] at hu
    cases hu
    exact verdict_needMore (haction.trans hmore)
  rw [h.rules hf hspec, rule, haction]
  cases action with
  | needMoreReplicas =>
      refine ⟨_, hreceives.answers (requestReplica_performs _ _) (requestReplica_ok hsubmitted rfl)
        (.inr ⟨_, rfl, .inr (.inr (.inl ⟨_, rfl⟩))⟩) (fun _ => rfl) hroom, rfl⟩
  | inconclusive =>
      refine ⟨_, hreceives.answers (restartValidation_performs _ _)
        (restartValidation_ok hsubmitted rfl) (.inr ⟨_, rfl, .inr (.inr (.inl ⟨_, rfl⟩))⟩)
        (fun _ => rfl) hroom, rfl⟩
  | accept =>
      refine ⟨_, hreceives.answers (finish_performs _ _ true) (finish_ok hsubmitted rfl)
        (.inr ⟨_, rfl, .inr (.inr (.inr rfl))⟩) (fun _ => rfl) hroom, ?_⟩
      rw [if_pos rfl]
      rfl

end

end Session

end P2pGpu.Coordinator
