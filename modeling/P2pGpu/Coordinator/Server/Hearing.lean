import P2pGpu.Coordinator.Quorum.Ties
import P2pGpu.Coordinator.Server.Standing

namespace P2pGpu.Coordinator

open P2pGpu.Protocol

-- An answer that comes to be judged: who gave it, on what connection, and what it
-- is an answer to.
structure Hearing where
  connId : Nat
  session : Session
  header : ResultHeader
  payload : Payload
  taskId : TaskId
  submitted : JobManager
  task : Task
  spec : KernelSpec

section

variable {F : Type} [Double F]

-- How many tasks a worker has completed.
def Fleet.completed (f : Fleet F) (id : WorkerId) : Option UInt32 :=
  (f.find id).map WorkerRecord.tasksCompleted

theorem Fleet.completed_mutable (f : Fleet F) (id i : WorkerId)
    {edit : WorkerRecord F → WorkerRecord F}
    (h : ∀ r, (edit r).tasksCompleted = r.tasksCompleted) :
    (f.mutable id edit).completed i = f.completed i := by
  unfold Fleet.completed
  rw [Fleet.find_mutable]
  by_cases hi : i = id
  · rw [if_pos hi, Option.map_map]
    congr 1
    funext r
    exact h r
  · rw [if_neg hi]

-- One worker has completed a task, and the others are as they were.
structure Fleet.Credits (worker : WorkerId) (f f' : Fleet F) : Prop where
  others : f.OnlyRevokes worker f'
  completed : f'.completed worker = (f.completed worker).map fun n => n + 1

namespace Session

variable {s : Session} {w : Shared F} {taskId : TaskId} {answer : Submission}
  {payload : Payload} {q : QuorumResult F} {t : Task}

variable (s w taskId answer payload) in
-- Nothing is published, and nobody is credited, while the answer is not accepted.
theorem rule_unsettled (h : q.action ≠ .accept) :
    (s.rule w taskId answer payload q).shared.spotChecks = w.spotChecks ∧
      (s.rule w taskId answer payload q).shared.compositor = w.compositor ∧
      (s.rule w taskId answer payload q).shared.reputation = w.reputation ∧
      (s.rule w taskId answer payload q).shared.fleet = w.fleet := by
  unfold rule
  cases haction : q.action with
  | accept => exact absurd haction h
  | needMoreReplicas => exact ⟨rfl, rfl, rfl, rfl⟩
  | inconclusive => exact ⟨rfl, rfl, rfl, rfl⟩

theorem tasksCompleted_observeCompletion (nowMs : UInt64) (done : Option Task)
    (r : WorkerRecord F) : (observeCompletion nowMs done r).tasksCompleted = r.tasksCompleted := by
  unfold observeCompletion
  split
  · cases done <;> rfl
  · rfl

theorem completed_notifyLosers (fleet : Fleet F) (revoked : List Revocation) (id : WorkerId) :
    (notifyLosers fleet revoked).completed id = fleet.completed id := by
  unfold notifyLosers
  induction revoked generalizing fleet with
  | nil => rfl
  | cons rev rest ih =>
      rw [List.foldl_cons, ih]
      exact Fleet.completed_mutable fleet rev.holder id fun _ => rfl

theorem complete_credits (s : Session) (w : Shared F) (taskId : TaskId) :
    w.fleet.Credits s.workerId (s.complete w taskId).shared.fleet where
  others := ((notifyLosers_revokes s.workerId w.fleet _).trans (.mutable _ _)).trans (.mutable _ _)
  completed := by
    have hlosers := completed_notifyLosers w.fleet (w.jobs.cancelSiblingsOf taskId).1 s.workerId
    unfold complete
    dsimp only [quiet]
    rw [Fleet.completed_mutable _ _ _ (tasksCompleted_observeCompletion _ _), ← hlosers]
    unfold Fleet.completed
    rw [Fleet.find_recordCompletion, if_pos rfl, Option.map_map, Option.map_map]
    rfl

theorem drainRevokes_worker {s' : Session} (h : s'.workerId = s.workerId) (w : Shared F) :
    s'.drainRevokes w = s.drainRevokes w := by
  unfold drainRevokes editRecord
  rw [h]

theorem completed_drainRevokes (s : Session) (w : Shared F) (id : WorkerId) :
    (s.drainRevokes w).2.fleet.completed id = w.fleet.completed id := by
  unfold drainRevokes
  split
  · rfl
  · exact Fleet.completed_mutable w.fleet s.workerId id fun _ => rfl

theorem completed_readied (s : Session) (w : Shared F) (header : ResultHeader) (taskId : TaskId)
    (n : JobManager) (id : WorkerId) :
    (readied s w header taskId n).fleet.completed id = w.fleet.completed id := by
  have hstats : (s.recordStats { w with jobs := n } header.stats).fleet.completed id =
      w.fleet.completed id := by
    unfold recordStats
    split
    · rfl
    · exact Fleet.completed_mutable w.fleet s.workerId id fun _ => rfl
  have hasset : ∀ w : Shared F, (s.creditAsset w taskId).fleet.completed id =
      w.fleet.completed id := by
    intro w
    unfold creditAsset
    split
    · rfl
    · split
      · rfl
      · exact Fleet.completed_mutable w.fleet s.workerId id fun _ => rfl
  have hprobe : ∀ w : Shared F, (s.checkProbe w taskId header.checksum).fleet = w.fleet := by
    intro w
    unfold checkProbe
    split
    · rfl
    · split <;> rfl
  unfold readied prepare
  rw [hprobe, hasset, hstats]

variable (s payload) in
-- What an accepted answer is used for.
theorem rule_settled (h : q.action = .accept) (hf : (recorded w taskId answer).find taskId = some t) :
    (s.rule w taskId answer payload q).shared.spotChecks =
        w.spotChecks.map (rememberAnswer q t answer.checksum) ∧
      (s.rule w taskId answer payload q).shared.compositor =
        w.compositor.map (compositeTile ((recorded w taskId answer).findJob t.job) t payload) ∧
      (s.rule w taskId answer payload q).shared.reputation =
        w.reputation.map (settleReputation q s.nowMs) ∧
      w.fleet.Credits s.workerId (s.rule w taskId answer payload q).shared.fleet := by
  have hcredits := complete_credits s (settled s w taskId answer q payload) taskId
  have hfleet : (settled s w taskId answer q payload).fleet = w.fleet := (publish_rest _ _ _ _ _).1
  rw [hfleet] at hcredits
  unfold rule
  rw [h]
  refine ⟨?_, ?_, ?_, hcredits⟩
  · simp [complete, quiet, settled, publish, hf]
  · simp [complete, quiet, settled, publish, hf]
  · simp [complete, quiet, settled, publish, hf]

end Session

namespace Hearing

open Session

-- The answer, as it is kept, and all that are judged with it.
def answer (c : Hearing) : Submission := c.session.answerOf c.spec c.header c.payload

def submissions (c : Hearing) : List Submission := c.task.submissions ++ [c.answer]

-- What all share when the judgement begins. A probe has been checked by then.
def opened (c : Hearing) (v : Server F) : Shared F :=
  readied c.session (c.session.heardFrom v.shared c.session.nowMs) c.header c.taskId c.submitted

def verdict (cfg : Config F) (v : Server F) (c : Hearing) : QuorumResult F :=
  Session.verdict cfg c.session c.spec (c.opened v) c.task.submissions c.answer

end Hearing

namespace Server

open JobManager Session

variable {cfg : Config F} {v v' : Server F} {e : Event F} {c : Hearing}

-- The event brings the answer, and it is judged.
structure Hears (cfg : Config F) (v : Server F) (e : Event F) (c : Hearing) : Prop where
  event : ∃ token, e = .message c.connId (.resultHeader c.header) c.payload c.session.nowMs token
  conn : ∃ conn, v.conns.lookup c.connId = some conn ∧ conn.session.handshaked = true ∧
    c.session = { conn.session with nowMs := c.session.nowMs }
  landed : Landed cfg c.session (c.session.heardFrom v.shared c.session.nowMs) c.header c.payload
    c.taskId c.submitted
  task : v.jobs.find c.taskId = some c.task
  kernel : kernelFor cfg (c.opened v).jobs c.taskId = some c.spec

-- The turn of the one who answered.
def ruling (cfg : Config F) (v : Server F) (c : Hearing) : Turn F :=
  c.session.rule (c.opened v) c.taskId c.answer c.payload (c.verdict cfg v)

theorem Hears.next (h : v.Hears cfg e c) :
    (v.next cfg e).shared = (c.session.drainRevokes (v.ruling cfg c).shared).2 := by
  obtain ⟨token, rfl⟩ := h.event
  obtain ⟨conn, hconn, hknown, hsession⟩ := h.conn
  have hframe := onFrame_framed cfg (.resultHeader c.header) c.payload c.session.nowMs token hconn
  have hrules := h.landed.rules h.task h.kernel
  have hreceive := receive_known cfg v.shared (.resultHeader c.header) c.payload c.session.nowMs
    token hknown
  have hheard : conn.session.heardFrom v.shared c.session.nowMs =
      c.session.heardFrom v.shared c.session.nowMs := by
    rw [hsession]
    rfl
  rw [← hsession, hheard] at hreceive
  have hturn : conn.session.receive cfg v.shared (.resultHeader c.header) c.payload
      c.session.nowMs token = v.ruling cfg c := hreceive.trans hrules
  obtain ⟨hparty, -⟩ := rule_rest c.session (c.opened v) c.taskId c.answer c.payload
    (c.verdict cfg v)
  have hstays : (v.ruling cfg c).session.handshaked = true := by
    refine hparty.handshaked.trans ?_
    rw [hsession]
    exact hknown
  have hworker : (v.ruling cfg c).session.workerId = c.session.workerId := hparty.workerId
  refine hframe.shared.trans ?_
  unfold onMessage
  dsimp only
  rw [hturn, if_pos hstays, drainRevokes_worker hworker]

theorem Hears.next_rest (h : v.Hears cfg e c) :
    (v.next cfg e).shared.spotChecks = (v.ruling cfg c).shared.spotChecks ∧
      (v.next cfg e).shared.compositor = (v.ruling cfg c).shared.compositor ∧
      (v.next cfg e).shared.reputation = (v.ruling cfg c).shared.reputation := by
  obtain ⟨fleet, -, hdrain⟩ := drainRevokes_fleet c.session (v.ruling cfg c).shared
  rw [h.next, hdrain]
  exact ⟨rfl, rfl, rfl⟩

theorem Hears.recorded (h : v.Hears cfg e c) :
    (recorded (c.opened v) c.taskId c.answer).find c.taskId = some (c.task.submitted c.answer) ∧
      ∀ j, (recorded (c.opened v) c.taskId c.answer).findJob j = v.jobs.findJob j := by
  have hreceives := h.landed.receives c.spec
  obtain ⟨t, ht, -, hsubmitted⟩ := hreceives.task
  have hsame : t = c.task := Option.some.inj (ht.symm.trans h.task)
  rw [hsame] at hsubmitted
  exact ⟨hsubmitted, hreceives.jobs⟩

theorem opened_compositor (c : Hearing) (v : Server F) :
    (c.opened v).compositor = v.shared.compositor :=
  (prepare_readies c.session
    { c.session.heardFrom v.shared c.session.nowMs with jobs := c.submitted } c.taskId
    c.header).compositor

theorem opened_fleet (c : Hearing) (v : Server F) :
    v.shared.fleet.OnlyRevokes c.session.workerId (c.opened v).fleet ∧
      (c.opened v).fleet.completed c.session.workerId =
        v.shared.fleet.completed c.session.workerId := by
  have hheard : v.shared.fleet.OnlyRevokes c.session.workerId
      (c.session.heardFrom v.shared c.session.nowMs).fleet := .mutable _ _
  have hready := (prepare_readies c.session
    { c.session.heardFrom v.shared c.session.nowMs with jobs := c.submitted } c.taskId
    c.header).fleet
  refine ⟨hheard.trans hready, ?_⟩
  unfold Hearing.opened
  rw [completed_readied]
  exact Fleet.completed_mutable v.shared.fleet c.session.workerId c.session.workerId fun _ => rfl

-- What the coordinator hands on when it accepts an answer: to the pool, to the image,
-- to the reputations, and to the record of the worker.
structure Publishes (cfg : Config F) (v v' : Server F) (c : Hearing) : Prop where
  remembered : v'.shared.spotChecks =
    (c.opened v).spotChecks.map (rememberAnswer (c.verdict cfg v) c.task c.header.checksum)
  composited : v'.shared.compositor =
    v.shared.compositor.map (compositeTile (v.jobs.findJob c.task.job) c.task c.payload)
  settled : v'.shared.reputation =
    (c.opened v).reputation.map (settleReputation (c.verdict cfg v) c.session.nowMs)
  credited : v.shared.fleet.Credits c.session.workerId v'.shared.fleet

theorem Hears.publishes (h : v.Hears cfg e c) (haccept : (c.verdict cfg v).action = .accept) :
    v.Publishes cfg (v.next cfg e) c := by
  obtain ⟨hf, hjobs⟩ := h.recorded
  obtain ⟨hpool, himage, hreputation⟩ := h.next_rest
  obtain ⟨hremember, hcomposite, hsettle, hcredits⟩ := rule_settled c.session c.payload haccept hf
  rw [hjobs] at hcomposite
  refine ⟨hpool.trans hremember, ?_, hreputation.trans hsettle, ?_⟩
  · rw [himage]
    refine hcomposite.trans ?_
    rw [opened_compositor]
    rfl
  · obtain ⟨fleet, hfleet, hdrain⟩ := drainRevokes_fleet c.session (v.ruling cfg c).shared
    have hcount := completed_drainRevokes c.session (v.ruling cfg c).shared c.session.workerId
    obtain ⟨hothers, hopened⟩ := opened_fleet c v
    rw [hdrain] at hcount
    rw [h.next, hdrain]
    refine ⟨(hothers.trans hcredits.others).trans hfleet, hcount.trans ?_⟩
    exact hcredits.completed.trans (by rw [hopened])

theorem Publishes.step (h : v.Publishes cfg (v.next cfg e) c) (hstep : Step cfg v e v') :
    v.Publishes cfg v' c := by
  have hfind : ∀ id, v'.shared.fleet.find id = (v.next cfg e).shared.fleet.find id := fun id =>
    (Table.lookup_of_perm hstep.workers id).symm
  have hrest := hstep.rest
  refine ⟨?_, ?_, ?_, ?_, ?_⟩
  · rw [hrest]
    exact h.remembered
  · rw [hrest]
    exact h.composited
  · rw [hrest]
    exact h.settled
  · intro id hid
    rw [hfind]
    exact h.credited.others id hid
  · unfold Fleet.completed
    rw [hfind]
    exact h.credited.completed

-- While it does not, only the spot check leaves a trace.
theorem Hears.waits (h : v.Hears cfg e c) (haction : (c.verdict cfg v).action ≠ .accept) :
    (v.next cfg e).shared.spotChecks = (c.opened v).spotChecks ∧
      (v.next cfg e).shared.compositor = v.shared.compositor ∧
      (v.next cfg e).shared.reputation = (c.opened v).reputation := by
  obtain ⟨hpool, himage, hreputation⟩ := h.next_rest
  obtain ⟨hforget, hsame, hjudge, -⟩ :=
    rule_unsettled c.session (c.opened v) c.taskId c.answer c.payload haction
  refine ⟨hpool.trans hforget, himage.trans ?_, hreputation.trans hjudge⟩
  exact hsame.trans (opened_compositor c v)

-- A task that lands has a kernel, so that it is judged.
theorem hears_of_landed {good : JobId → Prop} (hs : v.jobs.Sound cfg.kernels good) {connId : Nat}
    {conn : Conn} {header : ResultHeader} {payload : Payload} {nowMs : UInt64} {token : Token}
    {taskId : TaskId} {n : JobManager} (hconn : v.conns.lookup connId = some conn)
    (hknown : conn.session.handshaked = true)
    (hlanded : Landed cfg { conn.session with nowMs } (conn.session.heardFrom v.shared nowMs)
      header payload taskId n) :
    ∃ c, v.Hears cfg (.message connId (.resultHeader header) payload nowMs token) c := by
  obtain ⟨t, hf, hheld, -⟩ := hlanded.readied_find
  have hrests := hs.settled taskId t hf
  rcases hlanded.kernel hf with ⟨spec, hspec⟩ | ⟨-, hlost⟩
  · exact ⟨⟨connId, { conn.session with nowMs }, header, payload, taskId, n, t, spec⟩,
      ⟨token, rfl⟩, ⟨conn, hconn, hknown, rfl⟩, hlanded, hf, hspec⟩
  · exact absurd (hrests.known (isLeasedTo_iff.mp hheld).1) hlost

-- The same as a function: the case that an event opens, if it does.
def hear (cfg : Config F) (v : Server F) : Event F → Option Hearing
  | .message connId (.resultHeader header) payload nowMs _ =>
      match v.conns.lookup connId, header.taskId with
      | some conn, some taskId =>
          let s := { conn.session with nowMs }
          let w := s.heardFrom v.shared nowMs
          let submitted := w.jobs.submit s.workerId taskId
          if conn.session.handshaked && !s.completed.contains taskId &&
              (checkSingleInFlightResult (s.inFlightResults.contains taskId)).isOk &&
              (checkPayloadLength header.payloadBytes payload.length).isOk &&
              (w.jobs.checkLease s.workerId taskId).isOk &&
              (checkPayloadChecksum header.checksum (cfg.blake3 payload)).isOk &&
              isComplete w.jobs taskId header.unitsDone && submitted.1.isOk then
            match v.jobs.find taskId,
                kernelFor cfg (readied s w header taskId submitted.2).jobs taskId with
            | some task, some spec =>
                some ⟨connId, s, header, payload, taskId, submitted.2, task, spec⟩
            | _, _ => none
          else none
      | _, _ => none
  | _ => none

theorem isOk_iff {r : Status} : r.isOk = true ↔ r = .ok () := by
  cases r with
  | ok => exact iff_of_true rfl rfl
  | error e => exact iff_of_false nofun nofun

theorem hears_of_hear (h : v.hear cfg e = some c) : v.Hears cfg e c := by
  unfold hear at h
  split at h
  · rename_i connId header payload nowMs token
    split at h
    · rename_i conn taskId hconn hnamed
      dsimp only at h
      split at h
      · rename_i hchecks
        simp only [Bool.and_eq_true, Bool.not_eq_true', isOk_iff] at hchecks
        obtain ⟨⟨⟨⟨⟨⟨⟨hknown, hfresh⟩, halone⟩, hlength⟩, hlease⟩, hchecksum⟩, hcomplete⟩, hsubmit⟩ :=
          hchecks
        split at h
        · rename_i task spec htask hspec
          cases h
          refine ⟨⟨token, rfl⟩, ⟨conn, hconn, hknown, rfl⟩, ?_, htask, hspec⟩
          have hnot : taskId ∉ conn.session.completed := by
            intro hmem
            rw [List.contains_iff_mem.mpr hmem] at hfresh
            cases hfresh
          exact ⟨hnamed, hnot, halone, hlength, hlease, hchecksum, hcomplete, Prod.ext hsubmit rfl⟩
        · cases h
      · cases h
    · cases h
  · cases h

theorem hear_of_hears (h : v.Hears cfg e c) : v.hear cfg e = some c := by
  obtain ⟨token, rfl⟩ := h.event
  obtain ⟨conn, hconn, hknown, hsession⟩ := h.conn
  obtain ⟨hnamed, hfresh, halone, hlength, hlease, hchecksum, hcomplete, hsubmit⟩ := h.landed
  have hkernel := h.kernel
  unfold Hearing.opened at hkernel
  have hnot : c.session.completed.contains c.taskId = false := by
    rw [List.contains_eq_mem]
    exact decide_eq_false hfresh
  have hworker : conn.session.workerId = c.session.workerId := by rw [hsession]
  have hcompleted : conn.session.completed = c.session.completed := by rw [hsession]
  have hflight : conn.session.inFlightResults = c.session.inFlightResults := by rw [hsession]
  unfold hear
  simp only [hconn, hnamed, ← hsession]
  simp only [hknown, hworker, hcompleted, hflight, hnot, halone, hlength, hlease, hchecksum,
    hcomplete, hsubmit, h.task, hkernel]
  rfl

end Server

end

end P2pGpu.Coordinator
