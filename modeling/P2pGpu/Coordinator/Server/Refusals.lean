import P2pGpu.Coordinator.Server.Presence
import P2pGpu.Coordinator.Server.Sessions
import P2pGpu.Coordinator.Server.Terminal

namespace P2pGpu.Coordinator

open P2pGpu.Protocol

section

variable {F : Type} [Double F]

-- What a connection keeps of the answers that it brought.
structure Session.SameAnswers (s s' : Session) : Prop where
  completed : s'.completed = s.completed
  inFlightResults : s'.inFlightResults = s.inFlightResults

-- What it keeps is what was accepted, and nothing is ever under way.
structure Session.Recollects (s : Session) (m : JobManager) : Prop where
  accepted : ∀ id ∈ s.completed, ∃ t, m.find id = some t ∧ t.state = .accepted
  idle : s.inFlightResults = []

namespace JobManager

variable {m : JobManager} {worker : WorkerId} {id : TaskId} {t : Task}

-- The manager once a task went back as it came: into the queue, and held by nobody.
def givenBack (m : JobManager) (id : TaskId) (t : Task) : JobManager :=
  { m with
    tasks := m.tasks.modify id fun _ => t.requeued
    queue := m.queue ++ [id]
    dirtyTasks := m.dirtyTasks.insert id }

theorem requeue_leased (hf : m.find id = some t) (hs : t.state = .leased) :
    m.requeue id .release = (.ok (), m.givenBack id t) := by
  unfold requeue
  rw [hf]
  dsimp only
  have happly : m.apply id t .release =
      .ok ({ t with state := .queued },
        (m.put id { t with state := .queued }).markTaskDirty id) := by
    unfold apply
    rw [hs]
    rfl
  rw [happly]
  simp only [givenBack, release, put, markTaskDirty, Table.modify_modify_const]
  rfl

theorem heldTask_unheld (h : ∀ t, m.find id = some t → t.isLeasedTo worker = false) :
    ∃ e, m.heldTask worker id = .error e := by
  cases hheld : m.heldTask worker id with
  | error e => exact ⟨e, rfl⟩
  | ok t =>
      obtain ⟨hf, hleased⟩ := heldTask_ok hheld
      have hnot := h t hf
      rw [isLeasedTo_iff.mpr hleased] at hnot
      cases hnot

theorem checkLease_unheld (h : ∀ t, m.find id = some t → t.isLeasedTo worker = false) :
    m.checkLease worker id ≠ .ok () := by
  intro hok
  obtain ⟨t, hf, hleased⟩ := checkLease_ok hok
  have hnot := h t hf
  rw [isLeasedTo_iff.mpr hleased] at hnot
  cases hnot

theorem unheld_of_final (hf : m.find id = some t) (hs : isTerminal t.state = true) :
    ∀ t', m.find id = some t' → t'.isLeasedTo worker = false := by
  intro t' hf'
  obtain rfl : t = t' := Option.some.inj (hf.symm.trans hf')
  refine Bool.eq_false_iff.mpr fun hheld => ?_
  rw [(isLeasedTo_iff.mp hheld).1] at hs
  cases hs

end JobManager

namespace Session

open JobManager

variable {cfg : Config F} {s : Session} {w : Shared F} {nowMs : UInt64} {token : Token}
  {body : Body F} {payload : Payload} {header : ResultHeader} {m m' : JobManager}

theorem SameAnswers.refl (s : Session) : s.SameAnswers s := ⟨rfl, rfl⟩

theorem Recollects.same {s' : Session} (h : s.Recollects m) (hs : s.SameAnswers s')
    (hm : ∀ id t, m.find id = some t → t.state = .accepted →
      ∃ t', m'.find id = some t' ∧ t'.state = .accepted) : s'.Recollects m' where
  accepted id hid := by
    rw [hs.completed] at hid
    obtain ⟨t, hf, haccepted⟩ := h.accepted id hid
    exact hm id t hf haccepted
  idle := hs.inFlightResults.trans h.idle

theorem dispatch_answers (cfg : Config F) (s : Session) (w : Shared F) (payload : Payload)
    (token : Token) (hbody : ∀ header, body ≠ .resultHeader header) :
    s.SameAnswers (s.dispatch cfg w body payload token).session := by
  obtain ⟨known, worker, signals, hsession, -⟩ := dispatch_keeps cfg s w payload token hbody
  rw [hsession]
  exact ⟨rfl, rfl⟩

-- A result that does not land leaves its connection as it was, and every record.
theorem onResultHeader_unlanded (h : ∀ taskId n, ¬ Landed cfg s w header payload taskId n) :
    (s.onResultHeader cfg w header payload).session = s ∧
      (s.onResultHeader cfg w header payload).shared.fleet = w.fleet := by
  unfold onResultHeader
  split
  · exact ⟨rfl, rfl⟩
  · rename_i taskId hnamed
    split
    · exact ⟨rfl, rfl⟩
    · rename_i hfresh
      split
      · exact ⟨rfl, rfl⟩
      · rename_i halone
        split
        · exact ⟨rfl, rfl⟩
        · rename_i hlength
          split
          · exact ⟨rfl, rfl⟩
          · rename_i hlease
            split
            · exact ⟨rfl, rfl⟩
            · rename_i hchecksum
              unfold onReadable
              split
              · exact ⟨rfl, rfl⟩
              · rename_i hcomplete
                split
                · exact ⟨rfl, rfl⟩
                · rename_i n hsubmit
                  refine absurd ?_ (h taskId n)
                  exact ⟨hnamed, hfresh, halone, hlength, hlease, hchecksum,
                    by simpa using hcomplete, hsubmit⟩

variable (cfg w nowMs token payload) in
theorem receive_silent (hs : s.handshaked = false) (hbody : isHello body = false) :
    s.receive cfg w body payload nowMs token =
      ({ s with nowMs } : Session).fatal w .internal "first message must be Hello" := by
  unfold receive
  simp [hs, hbody]

theorem receive_answers (cfg : Config F) (w : Shared F) (payload : Payload) (nowMs : UInt64)
    (token : Token) (hbody : ∀ header, body ≠ .resultHeader header) :
    s.SameAnswers (s.receive cfg w body payload nowMs token).session := by
  unfold receive
  dsimp only
  split
  · exact ⟨rfl, rfl⟩
  · obtain ⟨hcompleted, hidle⟩ := dispatch_answers cfg { s with nowMs }
      (if s.handshaked = true then { w with fleet := w.fleet.touch s.workerId nowMs } else w)
      payload token hbody
    exact ⟨hcompleted, hidle⟩

-- The bytes, the lease or the sequence are not as they should be.
def Rejects (cfg : Config F) (s : Session) (m : JobManager) (header : ResultHeader)
    (payload : Payload) (taskId : TaskId) : Prop :=
  checkPayloadLength header.payloadBytes payload.length ≠ .ok () ∨
    m.checkLease s.workerId taskId ≠ .ok () ∨
    (checkPayloadChecksum header.checksum (cfg.blake3 payload) = .ok () ∧
      isComplete m taskId header.unitsDone = false ∧ m.stale taskId header.sequence = true)

theorem recordPartial_stale {worker : WorkerId} {taskId : TaskId} {sequence : UInt32}
    {unitsDone : UInt64} {leaseMs : UInt32} (h : m.stale taskId sequence = true) :
    (m.recordPartial worker taskId sequence unitsDone payload nowMs leaseMs).2 = m := by
  unfold recordPartial
  split
  · rfl
  · rw [if_pos h]

theorem onResultHeader_refused {taskId : TaskId} (hnamed : header.taskId = some taskId)
    (h : Rejects cfg s w.jobs header payload taskId) :
    (s.onResultHeader cfg w header payload).shared = w := by
  unfold onResultHeader
  rw [hnamed]
  dsimp only
  split
  · rfl
  · split
    · rfl
    · split
      · rfl
      · rename_i hlength
        split
        · rfl
        · rename_i hlease
          rcases h with hlong | hlost | ⟨hreadable, hunfinished, hstale⟩
          · exact absurd hlength hlong
          · exact absurd hlease hlost
          · rw [hreadable]
            dsimp only
            unfold onReadable
            rw [if_pos (by rw [hunfinished]; rfl)]
            show ({ w with jobs := _ } : Shared F) = w
            rw [recordPartial_stale hstale]

theorem onResultHeader_corrupt {taskId : TaskId} {t : Task} (hnamed : header.taskId = some taskId)
    (hr : s.Recollects w.jobs) (hf : w.jobs.find taskId = some t)
    (hlength : checkPayloadLength header.payloadBytes payload.length = .ok ())
    (hlease : w.jobs.checkLease s.workerId taskId = .ok ())
    (hchecksum : checkPayloadChecksum header.checksum (cfg.blake3 payload) ≠ .ok ()) :
    (s.onResultHeader cfg w header payload).shared =
      { w with jobs := w.jobs.givenBack taskId t } := by
  obtain ⟨t', hf', hleased, -⟩ := checkLease_ok hlease
  obtain rfl : t' = t := Option.some.inj (hf'.symm.trans hf)
  -- What the connection has completed is final, and this is not.
  have hfresh : taskId ∉ s.completed := by
    intro hid
    obtain ⟨u, hu, haccepted⟩ := hr.accepted taskId hid
    obtain rfl : u = t' := Option.some.inj (hu.symm.trans hf)
    rw [hleased] at haccepted
    cases haccepted
  have halone : checkSingleInFlightResult (s.inFlightResults.contains taskId) = .ok () := by
    rw [hr.idle]
    rfl
  unfold onResultHeader
  rw [hnamed]
  dsimp only
  rw [if_neg hfresh, halone, hlength, hlease]
  dsimp only
  split
  · rw [requeue_leased hf hleased]
    rfl
  · rename_i hreadable
    exact absurd hreadable hchecksum

-- What another worker's task is asked for with.
inductive Names (taskId : TaskId) : Body F → Prop where
  | renews : Names taskId (.progress ⟨some taskId, true⟩)
  | releases : Names taskId (.release (some taskId))
  | answers (header : ResultHeader) (h : header.taskId = some taskId) :
      Names taskId (.resultHeader header)

-- What is said to a worker that does not hold the task it names.
def denial (s : Session) (body : Body F) (payload : Payload) (taskId : TaskId) : Reaction :=
  let lost : Reaction := { replies := [.error ⟨.leaseNotHeld, "no lease on that task", false⟩] }
  match body with
  | .resultHeader header =>
      if taskId ∈ s.completed then {}
      else if s.inFlightResults.contains taskId then
        { replies := [.error ⟨.orphanPayload, "result already in flight", false⟩] }
      else if header.payloadBytes.toNat ≠ payload.length then
        { replies :=
            [.error ⟨.malformedMessage, "payload_bytes disagrees with the payload", false⟩] }
      else lost
  | _ => lost

-- It learns nothing of the task, and changes nothing.
theorem dispatch_denied {taskId : TaskId} (hnames : Names taskId body)
    (h : ∀ t, w.jobs.find taskId = some t → t.isLeasedTo s.workerId = false) :
    s.dispatch cfg w body payload token = ⟨s.denial body payload taskId, s, w⟩ := by
  obtain ⟨e, hheld⟩ := heldTask_unheld h
  cases hnames with
  | renews =>
      unfold dispatch onProgress
      have hrenew : w.jobs.renewLease s.workerId taskId s.nowMs cfg.leaseMs =
          (.error e, w.jobs) := by
        unfold renewLease
        rw [hheld]
      dsimp only
      rw [if_neg (by simp), hrenew]
      rfl
  | releases =>
      unfold dispatch onRelease checkLease
      dsimp only
      rw [hheld]
      rfl
  | answers header hnamed =>
      unfold dispatch onResultHeader checkLease checkSingleInFlightResult checkPayloadLength
      dsimp only [denial]
      rw [hnamed]
      dsimp only
      rw [hheld]
      dsimp only
      split
      · rfl
      · by_cases hbusy : s.inFlightResults.contains taskId = true
        · rw [if_pos hbusy, if_pos hbusy]
          rfl
        · rw [if_neg hbusy, if_neg hbusy]
          dsimp only
          by_cases hlong : header.payloadBytes.toNat ≠ payload.length
          · rw [if_pos hlong, if_pos hlong]
            rfl
          · rw [if_neg hlong, if_neg hlong]
            rfl

-- The revokes that wait for a worker.
def owed (f : Fleet F) (worker : WorkerId) : List Reply :=
  match f.find worker with
  | none => []
  | some rec => rec.pendingRevokes.map Reply.revoke

theorem drainRevokes_heard (s : Session) (w : Shared F) (nowMs : UInt64) :
    (({ s with nowMs } : Session).drainRevokes (s.heardFrom w nowMs)).1 =
      owed w.fleet s.workerId := by
  unfold drainRevokes owed heardFrom
  dsimp only
  rw [Fleet.find_touch, if_pos rfl]
  cases w.fleet.find s.workerId with
  | none => rfl
  | some rec => rfl

variable (cfg payload nowMs token) in
theorem onMessage_denied {taskId : TaskId} (hs : s.handshaked = true) (hnames : Names taskId body)
    (h : ∀ t, w.jobs.find taskId = some t → t.isLeasedTo s.workerId = false) :
    (s.onMessage cfg w body payload nowMs token).reaction =
        { s.denial body payload taskId with
          replies := (s.denial body payload taskId).replies ++ owed w.fleet s.workerId } ∧
      ∃ fleet, w.fleet.OnlyRevokes s.workerId fleet ∧
        (s.onMessage cfg w body payload nowMs token).shared = { w with fleet } := by
  have hdenied : s.receive cfg w body payload nowMs token =
      ⟨s.denial body payload taskId, { s with nowMs }, s.heardFrom w nowMs⟩ := by
    rw [receive_known cfg w body payload nowMs token hs]
    have hstill : ({ s with nowMs } : Session).denial body payload taskId =
        s.denial body payload taskId := by
      cases body <;> rfl
    rw [← hstill]
    exact dispatch_denied hnames h
  obtain ⟨-, -, fleet, hfleet, hshared⟩ := onMessage_receive cfg s w body payload nowMs token
  rw [hdenied] at hfleet hshared
  constructor
  · unfold onMessage
    dsimp only
    rw [hdenied, if_pos hs]
    dsimp only
    rw [drainRevokes_heard]
  · exact ⟨fleet, (Fleet.OnlyRevokes.mutable w.fleet _).trans hfleet, hshared⟩

theorem onResultHeader_workerId (cfg : Config F) (s : Session) (w : Shared F)
    (header : ResultHeader) (payload : Payload) :
    (s.onResultHeader cfg w header payload).session.workerId = s.workerId := by
  rcases onResultHeader_cases cfg False s w header payload with hroutine | ⟨taskId, n, hlanded⟩
  · exact hroutine.session.workerId
  · exact hlanded.rest.1.workerId

variable (cfg header payload nowMs token) in
-- A result leaves what its handler leaves, but for the revokes that were told.
theorem onMessage_result (hs : s.handshaked = true) :
    ∃ fleet, (({ s with nowMs } : Session).onResultHeader cfg (s.heardFrom w nowMs) header
          payload).shared.fleet.OnlyRevokes s.workerId fleet ∧
      (s.onMessage cfg w (.resultHeader header) payload nowMs token).shared =
        { (({ s with nowMs } : Session).onResultHeader cfg (s.heardFrom w nowMs) header
          payload).shared with fleet } := by
  obtain ⟨-, -, fleet, hfleet, hshared⟩ :=
    onMessage_receive cfg s w (.resultHeader header) payload nowMs token
  rw [receive_known cfg w _ payload nowMs token hs] at hfleet hshared
  dsimp only [dispatch] at hfleet
  rw [onResultHeader_workerId] at hfleet
  exact ⟨fleet, hfleet, hshared⟩

end Session

namespace Server

open JobManager Session

variable {cfg : Config F} {v₀ v v' : Server F} {e : Event F} {k : Nat} {conn conn' : Conn}
  {good : JobId → Prop} {id taskId : TaskId} {t : Task} {header : ResultHeader}
  {payload : Payload} {nowMs : UInt64} {token : Token} {c : Hearing}

-- What is final stays as it is.
theorem final_stays (hn : v.Named) (hs : v.jobs.Sound cfg.kernels good) (h : Step cfg v e v')
    (hf : v.jobs.find id = some t) (hfinal : isTerminal t.state = true) :
    ∃ t', v'.jobs.find id = some t' ∧ t'.state = t.state := by
  have hinv := (step_legal hn hs h).invariant
    (fun n => n.Minted ∧ ∃ t', n.find id = some t' ∧ t'.state = t.state)
    ⟨hs.minted, t, hf, rfl⟩ ?_
  · exact hinv.2
  · rintro n l n' ⟨hm, t', hf', hstate⟩ - hmove
    obtain ⟨u, hu, hsame, -⟩ := hmove.terminal_stays hm hf' (by rw [hstate]; exact hfinal)
    exact ⟨hmove.minted hm, u, hu, hsame.trans hstate⟩

-- The answer that is accepted is the only one that is kept.
theorem ruling_session (cfg : Config F) (v : Server F) (c : Hearing) :
    (v.ruling cfg c).session =
      if (c.verdict cfg v).action = .accept then
        { c.session with completed := c.session.completed ++ [c.taskId] }
      else c.session.landed c.taskId := by
  unfold ruling rule
  cases (c.verdict cfg v).action with
  | needMoreReplicas => rfl
  | inconclusive => rfl
  | accept => rfl

theorem Hears.receive {body : Body F} (h : v.Hears cfg (.message k body payload nowMs token) c)
    (hconn : v.conns.lookup k = some conn) :
    conn.session.receive cfg v.shared body payload nowMs token = v.ruling cfg c := by
  obtain ⟨token', he⟩ := h.event
  obtain ⟨conn₀, hconn₀, hknown, hsession⟩ := h.conn
  cases he
  obtain rfl : conn₀ = conn := Option.some.inj (hconn₀.symm.trans hconn)
  have hheard : conn₀.session.heardFrom v.shared c.session.nowMs =
      c.session.heardFrom v.shared c.session.nowMs := by
    rw [hsession]
    rfl
  have hreceive := receive_known cfg v.shared (.resultHeader c.header) c.payload c.session.nowMs
    token hknown
  rw [← hsession, hheard] at hreceive
  exact hreceive.trans (h.landed.rules h.task h.kernel)

theorem Hears.answers (h : v.Hears cfg e c) (hconn : v.conns.lookup c.connId = some conn) :
    conn.session.SameAnswers c.session := by
  obtain ⟨conn₀, hconn₀, -, hsession⟩ := h.conn
  obtain rfl : conn₀ = conn := Option.some.inj (hconn₀.symm.trans hconn)
  rw [hsession]
  exact ⟨rfl, rfl⟩

theorem Hears.recollects (h : v.Hears cfg e c) (hs : v.jobs.Sound cfg.kernels good)
    (hold : c.session.Recollects v.jobs)
    (hkept : ∀ id t, v.jobs.find id = some t → t.state = .accepted →
      ∃ t', (v.next cfg e).jobs.find id = some t' ∧ t'.state = .accepted) :
    (v.ruling cfg c).session.Recollects (v.next cfg e).jobs := by
  rw [ruling_session]
  by_cases haccept : (c.verdict cfg v).action = .accept
  · rw [if_pos haccept]
    obtain ⟨-, -, hwon⟩ := h.wins hs haccept
    refine ⟨fun id hid => ?_, hold.idle⟩
    rcases List.mem_append.mp hid with hearlier | hnew
    · obtain ⟨t, hf, haccepted⟩ := hold.accepted id hearlier
      exact hkept id t hf haccepted
    · rw [List.mem_singleton.mp hnew]
      exact hwon
  · rw [if_neg haccept]
    refine hold.same ⟨rfl, ?_⟩ hkept
    show c.session.inFlightResults.filter _ = c.session.inFlightResults
    rw [hold.idle]
    rfl

theorem recollects_next (hn : v.Named) (hs : v.jobs.Sound cfg.kernels good)
    (hr : ∀ k conn, v.conns.lookup k = some conn → conn.session.Recollects v.jobs)
    (h : (v.next cfg e).conns.lookup k = some conn') :
    conn'.session.Recollects (v.next cfg e).jobs := by
  have hkept : ∀ id t, v.jobs.find id = some t → t.state = .accepted →
      ∃ t', (v.next cfg e).jobs.find id = some t' ∧ t'.state = .accepted := by
    intro id t hf haccepted
    obtain ⟨t', hf', hstate⟩ := final_stays hn hs (step_next cfg v e) hf (by rw [haccepted]; rfl)
    exact ⟨t', hf', hstate.trans haccepted⟩
  cases next_becomes cfg v e h with
  | fresh he hk hsession =>
      rw [hsession]
      exact ⟨fun id hid => absurd hid List.not_mem_nil, rfl⟩
  | idles conn hconn hreset hsilent hsession =>
      obtain ⟨abusive, hsession⟩ := hsession
      rw [hsession]
      exact (hr k conn hconn).same ⟨rfl, rfl⟩ hkept
  | resets conn hconn hreset hsession =>
      rw [hsession]
      exact (hr k conn hconn).same ⟨rfl, rfl⟩ hkept
  | speaks conn body payload nowMs token he hconn hsession =>
      have hold := hr k conn hconn
      rw [(onMessage_receive cfg conn.session v.shared body payload nowMs token).1] at hsession
      by_cases hresult : ∃ header, body = .resultHeader header
      · obtain ⟨header, rfl⟩ := hresult
        cases hknown : conn.session.handshaked with
        | false =>
            rw [receive_silent _ _ _ _ _ hknown rfl] at hsession
            rw [hsession]
            exact hold.same ⟨rfl, rfl⟩ hkept
        | true =>
            by_cases hlands : ∃ taskId n, Landed cfg { conn.session with nowMs }
                (conn.session.heardFrom v.shared nowMs) header payload taskId n
            · obtain ⟨taskId, n, hlanded⟩ := hlands
              have hears : ∃ c, v.Hears cfg e c := by
                rw [he]
                exact hears_of_landed hs hconn hknown hlanded
              obtain ⟨c, hc⟩ := hears
              subst he
              rw [hsession, hc.receive hconn]
              obtain ⟨token', he⟩ := hc.event
              injection he with hk
              rw [hk] at hconn
              exact hc.recollects hs (hold.same (hc.answers hconn) fun id t hf hs => ⟨t, hf, hs⟩)
                hkept
            · rw [receive_known cfg v.shared _ payload nowMs token hknown] at hsession
              have hsame := (onResultHeader_unlanded fun taskId n hlanded =>
                hlands ⟨taskId, n, hlanded⟩).1
              rw [hsession]
              refine hold.same ?_ hkept
              show conn.session.SameAnswers (Session.onResultHeader cfg _ _ header payload).session
              rw [hsame]
              exact ⟨rfl, rfl⟩
      · rw [hsession]
        exact hold.same (receive_answers cfg v.shared payload nowMs token
          fun header hbody => hresult ⟨header, hbody⟩) hkept

theorem recollects_of_run {guard : Server F → Event F → Prop} (h₀ : v₀.Started)
    (h : Reach (Step cfg) guard v₀ v) :
    ∀ k conn, v.conns.lookup k = some conn → conn.session.Recollects v.jobs := by
  induction h with
  | refl =>
      intro k conn hconn
      rw [h₀.conns] at hconn
      cases hconn
  | @tail v v' hrun hlast ih =>
      obtain ⟨e, -, hstep⟩ := hlast
      obtain ⟨hn, hs⟩ := sound_of_run (fun _ => False) h₀ hrun
      intro k conn' hconn
      have hconns : v'.conns = (v.next cfg e).conns := by rw [hstep.rest]
      rw [hconns] at hconn
      refine (recollects_next hn hs ih hconn).same (.refl _) fun id t hf haccepted => ?_
      exact ⟨t, (hstep.rows.find_eq id).trans hf, haccepted⟩

-- The coordinator's words to a connection after a frame.
def reaction (cfg : Config F) (v : Server F) (k : Nat) (body : Body F) (payload : Payload)
    (nowMs : UInt64) (token : Token) : Option Reaction :=
  (v.turn cfg k body payload nowMs token).map Turn.reaction

variable (cfg payload nowMs token) in
theorem reaction_open {body : Body F} (hconn : v.conns.lookup k = some conn) :
    v.reaction cfg k body payload nowMs token =
      some (conn.session.onMessage cfg v.shared body payload nowMs token).reaction := by
  unfold reaction turn
  rw [hconn]
  rfl

variable (cfg payload nowMs token) in
theorem next_open {body : Body F} (hconn : v.conns.lookup k = some conn) :
    (v.next cfg (.message k body payload nowMs token)).shared =
      (conn.session.onMessage cfg v.shared body payload nowMs token).shared :=
  (onFrame_framed cfg body payload nowMs token hconn).shared

-- A late answer leaves no trace: in no task, in nobody's standing, and not as an error.
structure Silent (cfg : Config F) (v : Server F) (k : Nat) (body : Body F) (payload : Payload)
    (nowMs : UInt64) (token : Token) : Prop where
  jobs : (v.next cfg (.message k body payload nowMs token)).jobs = v.jobs
  reputation : (v.next cfg (.message k body payload nowMs token)).shared.reputation =
    v.shared.reputation
  unanswered : ∀ reaction, v.reaction cfg k body payload nowMs token = some reaction →
    ∀ e, .error e ∉ reaction.replies

theorem owed_no_error (f : Fleet F) (worker : WorkerId) (e : Error) :
    .error e ∉ owed f worker := by
  unfold owed
  split
  · exact List.not_mem_nil
  · intro hmem
    obtain ⟨id, -, he⟩ := List.mem_map.mp hmem
    cases he

-- A race is lost in silence only on the connection that won it. Any other late answer to
-- the task is an error, as is every one to a task that was cancelled.
theorem late_silent_iff (h₀ : v₀.Started) (h : Reach (Step cfg) (fun _ _ => True) v₀ v)
    (hconn : v.conns.lookup k = some conn) (hknown : conn.session.handshaked = true)
    (hf : v.jobs.find taskId = some t) (hdone : t.state = .accepted ∨ t.state = .cancelled)
    (hnamed : header.taskId = some taskId) :
    (Silent cfg v k (.resultHeader header) payload nowMs token ↔ taskId ∈ conn.session.completed) ∧
      (v.next cfg (.message k (.resultHeader header) payload nowMs token)).jobs = v.jobs ∧
      (v.next cfg (.message k (.resultHeader header) payload nowMs token)).shared.reputation =
        v.shared.reputation ∧
      (t.state = .cancelled → ¬ Silent cfg v k (.resultHeader header) payload nowMs token) := by
  have hfinal : isTerminal t.state = true := by
    rcases hdone with hstate | hstate
    · rw [hstate]
      rfl
    · rw [hstate]
      rfl
  obtain ⟨hreaction, fleet, -, hshared⟩ := onMessage_denied cfg nowMs token payload hknown
    (.answers header hnamed) (unheld_of_final hf hfinal)
  rw [← next_open cfg payload nowMs token hconn] at hshared
  have hjobs : (v.next cfg (.message k (.resultHeader header) payload nowMs token)).jobs =
      v.jobs := by
    unfold jobs
    rw [hshared]
  have hreputation : (v.next cfg (.message k (.resultHeader header) payload nowMs
      token)).shared.reputation = v.shared.reputation := by
    rw [hshared]
  have hopen := @reaction_open F _ cfg v k conn payload nowMs token (.resultHeader header) hconn
  rw [hreaction] at hopen
  have hrecollects := recollects_of_run h₀ h k conn hconn
  have hiff : Silent cfg v k (.resultHeader header) payload nowMs token ↔
      taskId ∈ conn.session.completed := by
    constructor
    · intro hsilent
      by_contra hfresh
      have hnone := hsilent.unanswered _ hopen
      dsimp only [denial] at hnone
      rw [if_neg hfresh] at hnone
      split at hnone
      · exact hnone _ List.mem_cons_self
      · split at hnone
        · exact hnone _ List.mem_cons_self
        · exact hnone _ List.mem_cons_self
    · intro hwon
      refine ⟨hjobs, hreputation, fun reaction hsome e hmem => ?_⟩
      cases hopen.symm.trans hsome
      dsimp only [denial] at hmem
      rw [if_pos hwon] at hmem
      exact owed_no_error v.shared.fleet conn.session.workerId e hmem
  refine ⟨hiff, hjobs, hreputation, fun hcancelled hsilent => ?_⟩
  obtain ⟨u, hu, haccepted⟩ := hrecollects.accepted taskId (hiff.mp hsilent)
  obtain rfl : u = t := Option.some.inj (hu.symm.trans hf)
  rw [hcancelled] at haccepted
  cases haccepted

end Server

end

namespace Server

open JobManager Session

-- An answer of one byte, with the digest of the payload.
def claimed (taskId : TaskId) (payload : Payload) : ResultHeader where
  taskId := some taskId
  payloadBytes := 1
  checksum := digest payload
  stats := none
  sequence := 0
  unitsDone := 0

-- The replica won, and the holder of the original answers all the same.
def lostRace : Server Rat :=
  searchStart.runAll (searches {}) (racedRun ++ [tells 3 ⟨0, 4⟩ [1] 110])

theorem lostRace_open : ∃ conn, lostRace.conns.lookup 3 = some conn ∧
    conn.session.handshaked = true := by
  have hconn : (lostRace.conns.lookup 3).map (fun conn => conn.session.handshaked) =
      some true := by decide +kernel
  exact Option.map_eq_some_iff.mp hconn

theorem late_silent_iff_raced : ∃ conn t, lostRace.conns.lookup 3 = some conn ∧
    lostRace.jobs.find ⟨0, 4⟩ = some t ∧
    (Silent (searches {}) lostRace 3 (.resultHeader (claimed ⟨0, 4⟩ [1])) [1] 120 [] ↔
      ⟨0, 4⟩ ∈ conn.session.completed) := by
  obtain ⟨conn, hconn, hknown⟩ := lostRace_open
  have hstate : (lostRace.jobs.find ⟨0, 4⟩).map Task.state = some .accepted := by decide +kernel
  obtain ⟨t, hf, haccepted⟩ := Option.map_eq_some_iff.mp hstate
  exact ⟨conn, t, hconn, hf, (late_silent_iff searchStart_started (reach_runAll _ _ _) hconn hknown
    hf (.inl haccepted) rfl).1⟩

-- Whoever was still at work is told that it holds no lease.
theorem late_answer_refused : ¬ ∀ v v' k conn taskId t t' header payload nowMs token,
    Reach (Step (searches {})) (fun _ _ => True) searchStart v →
    Reach (Step (searches {})) (fun _ _ => True) v v' →
    v'.conns.lookup k = some conn → conn.session.handshaked = true →
    v.jobs.find taskId = some t → t.isLeasedTo conn.session.workerId = true →
    v'.jobs.find taskId = some t' → (t'.state = .accepted ∨ t'.state = .cancelled) →
    header.taskId = some taskId →
    Silent (searches {}) v' k (.resultHeader header) payload nowMs token := by
  intro h
  have hrun := reach_runAll (searches {}) racedRun searchStart
  have hlast := reach_runAll (searches {}) [tells 3 ⟨0, 4⟩ [1] 110]
    (searchStart.runAll (searches {}) racedRun)
  have hjoin : (searchStart.runAll (searches {}) racedRun).runAll (searches {})
      [tells 3 ⟨0, 4⟩ [1] 110] = lostRace := List.foldl_append.symm
  rw [hjoin] at hlast
  have hconn : (lostRace.conns.lookup 2).map (fun conn => (conn.session.handshaked,
      conn.session.workerId)) = some (true, ⟨2, 0⟩) := by decide +kernel
  obtain ⟨conn, hopen, hparty⟩ := Option.map_eq_some_iff.mp hconn
  obtain ⟨hknown, hworker⟩ := Prod.mk.injEq _ _ _ _ ▸ hparty
  have hheld : ((searchStart.runAll (searches {}) racedRun).jobs.find ⟨0, 3⟩).map
      (fun t => t.isLeasedTo ⟨2, 0⟩) = some true := by decide +kernel
  obtain ⟨t, hf, hleased⟩ := Option.map_eq_some_iff.mp hheld
  have hover : (lostRace.jobs.find ⟨0, 3⟩).map Task.state = some .cancelled := by decide +kernel
  obtain ⟨t', hf', hcancelled⟩ := Option.map_eq_some_iff.mp hover
  have hsilent := h _ lostRace 2 conn ⟨0, 3⟩ t t' (claimed ⟨0, 3⟩ [1]) [1] 120 [] hrun hlast hopen
    hknown hf (by rw [hworker]; exact hleased) hf' (.inr hcancelled) rfl
  have hreply :
      (lostRace.reaction (searches {}) 2 (.resultHeader (claimed ⟨0, 3⟩ [1])) [1] 120 []).map
          (fun r => r.replies.contains (.error ⟨.leaseNotHeld, "no lease on that task", false⟩)) =
        some true := by decide +kernel
  obtain ⟨reaction, hreaction, hcontains⟩ := Option.map_eq_some_iff.mp hreply
  exact hsilent.unanswered reaction hreaction _ (List.contains_iff_mem.mp hcontains)

end Server

section

variable {F : Type} [Double F] {cfg : Config F} {v₀ v v' : Server F} {k : Nat} {conn : Conn}
  {taskId : TaskId} {header : ResultHeader} {payload : Payload} {nowMs : UInt64} {token : Token}

namespace Server

open JobManager Session

-- A result that is refused changes nothing beside the record of its sender, and one that
-- came corrupt gives its task back as it was, without its lease.
theorem rejected_result (header : ResultHeader) (payload : Payload) (nowMs : UInt64)
    (token : Token) (h₀ : v₀.Started) (h : Reach (Step cfg) (fun _ _ => True) v₀ v)
    (hconn : v.conns.lookup k = some conn) (hknown : conn.session.handshaked = true)
    (hnamed : header.taskId = some taskId) :
    (Rejects cfg conn.session v.jobs header payload taskId →
      ∃ fleet, v.shared.fleet.OnlyRevokes conn.session.workerId fleet ∧
        (v.next cfg (.message k (.resultHeader header) payload nowMs token)).shared =
          { v.shared with fleet }) ∧
    (checkPayloadLength header.payloadBytes payload.length = .ok () →
      v.jobs.checkLease conn.session.workerId taskId = .ok () →
      checkPayloadChecksum header.checksum (cfg.blake3 payload) ≠ .ok () →
      ∃ t fleet, v.jobs.find taskId = some t ∧ t.state = .leased ∧
        t.holder = conn.session.workerId ∧
        v.shared.fleet.OnlyRevokes conn.session.workerId fleet ∧
        (v.next cfg (.message k (.resultHeader header) payload nowMs token)).shared =
          { v.shared with fleet, jobs := v.jobs.givenBack taskId t }) := by
  obtain ⟨fleet, hfleet, hshared⟩ := onMessage_result cfg nowMs token payload header hknown
  rw [← next_open cfg payload nowMs token hconn] at hshared
  have hheard : v.shared.fleet.OnlyRevokes conn.session.workerId
      (conn.session.heardFrom v.shared nowMs).fleet := Fleet.OnlyRevokes.mutable v.shared.fleet _
  constructor
  · intro hrejects
    have hsame := onResultHeader_refused (s := { conn.session with nowMs })
      (w := conn.session.heardFrom v.shared nowMs) hnamed hrejects
    rw [hsame] at hfleet hshared
    exact ⟨fleet, hheard.trans hfleet, hshared⟩
  · intro hlength hlease hcorrupt
    obtain ⟨t, hf, hleased, hholder⟩ := checkLease_ok hlease
    have hsame := onResultHeader_corrupt (s := { conn.session with nowMs })
      (w := conn.session.heardFrom v.shared nowMs) hnamed
      ((recollects_of_run h₀ h k conn hconn).same ⟨rfl, rfl⟩ fun id t hf hs => ⟨t, hf, hs⟩) hf
      hlength hlease hcorrupt
    rw [hsame] at hfleet hshared
    exact ⟨t, fleet, hf, hleased, hholder, hheard.trans hfleet, hshared⟩

end Server

end

namespace Server

open JobManager Session

def searching : Server Rat := searchStart.runAll (searches {}) searchRun

theorem searching_open : ∃ conn, searching.conns.lookup 1 = some conn ∧
    conn.session.handshaked = true ∧
    searching.jobs.checkLease conn.session.workerId ⟨0, 2⟩ = .ok () := by
  have hconn : (searching.conns.lookup 1).map (fun conn => (conn.session.handshaked,
      (searching.jobs.checkLease conn.session.workerId ⟨0, 2⟩).isOk)) = some (true, true) := by
    decide +kernel
  obtain ⟨conn, hopen, hparty⟩ := Option.map_eq_some_iff.mp hconn
  obtain ⟨hknown, hlease⟩ := Prod.mk.injEq _ _ _ _ ▸ hparty
  exact ⟨conn, hopen, hknown, isOk_iff.mp hlease⟩

theorem rejected_result_corrupt : ∃ t fleet, searching.jobs.find ⟨0, 2⟩ = some t ∧
    (searching.next (searches {})
        (.message 1 (.resultHeader (claimed ⟨0, 2⟩ [2])) [1] 30 [])).shared =
      { searching.shared with fleet, jobs := searching.jobs.givenBack ⟨0, 2⟩ t } := by
  obtain ⟨conn, hconn, hknown, hlease⟩ := searching_open
  obtain ⟨-, hcorrupt⟩ := rejected_result (claimed ⟨0, 2⟩ [2]) [1] 30 [] searchStart_started
    (reach_runAll (searches {}) searchRun searchStart) hconn hknown rfl
  obtain ⟨t, fleet, hf, -, -, -, hshared⟩ := hcorrupt rfl hlease (by decide)
  exact ⟨t, fleet, hf, hshared⟩

-- The deadline of the lease goes with it, so that more changes than the state and the holder.
theorem corrupt_clears_deadline : ¬ ∀ v k conn taskId t header payload nowMs token,
    Reach (Step (searches {})) (fun _ _ => True) searchStart v →
    v.conns.lookup k = some conn → conn.session.handshaked = true →
    header.taskId = some taskId → v.jobs.find taskId = some t →
    checkPayloadLength header.payloadBytes payload.length = .ok () →
    v.jobs.checkLease conn.session.workerId taskId = .ok () →
    checkPayloadChecksum header.checksum ((searches {}).blake3 payload) ≠ .ok () →
    (v.next (searches {})
        (.message k (.resultHeader header) payload nowMs token)).jobs.find taskId =
      some { t with state := .queued, holder := Id.nil } := by
  intro h
  obtain ⟨conn, hconn, hknown, hlease⟩ := searching_open
  have hdeadline : (searching.jobs.find ⟨0, 2⟩).map Task.leaseExpiresAtMs = some 30020 := by
    decide +kernel
  obtain ⟨t, hf, hlater⟩ := Option.map_eq_some_iff.mp hdeadline
  have hgiven := h searching 1 conn ⟨0, 2⟩ t (claimed ⟨0, 2⟩ [2]) [1] 30 [] (reach_runAll _ _ _)
    hconn hknown rfl hf rfl hlease (by decide)
  have hcleared : ((searching.next (searches {})
      (.message 1 (.resultHeader (claimed ⟨0, 2⟩ [2])) [1] 30 [])).jobs.find ⟨0, 2⟩).map
        Task.leaseExpiresAtMs = some 0 := by decide +kernel
  rw [hgiven, Option.map_some] at hcleared
  have hzero : t.leaseExpiresAtMs = 0 := Option.some.inj hcleared
  rw [hlater] at hzero
  cases hzero

end Server

section

variable {F : Type} [Double F] {cfg : Config F} {v₀ v v' : Server F} {k : Nat} {conn : Conn}
  {taskId : TaskId} {header : ResultHeader} {payload : Payload} {nowMs : UInt64} {token : Token}

namespace Server

open JobManager Session

-- Two coordinators that are the same in what belongs to the worker on one connection.
structure Alike (k : Nat) (conn : Conn) (v v' : Server F) : Prop where
  left : v.conns.lookup k = some conn
  right : v'.conns.lookup k = some conn
  record : v.shared.fleet.find conn.session.workerId = v'.shared.fleet.find conn.session.workerId

-- Whether there is such a task, and who has it, is not told to a worker that does not
-- hold it.
theorem probe_uninformative {body : Body F} (h : Alike k conn v v') (hnames : Names taskId body)
    (hv : ∀ t, v.jobs.find taskId = some t → t.isLeasedTo conn.session.workerId = false)
    (hv' : ∀ t, v'.jobs.find taskId = some t → t.isLeasedTo conn.session.workerId = false) :
    v.reaction cfg k body payload nowMs token = v'.reaction cfg k body payload nowMs token ∧
      (v.next cfg (.message k body payload nowMs token)).jobs = v.jobs ∧
      (v'.next cfg (.message k body payload nowMs token)).jobs = v'.jobs := by
  have hsame : owed v.shared.fleet conn.session.workerId =
      owed v'.shared.fleet conn.session.workerId := by
    unfold owed
    rw [h.record]
  unfold jobs
  rw [next_open cfg payload nowMs token h.left, next_open cfg payload nowMs token h.right,
    reaction_open cfg payload nowMs token h.left, reaction_open cfg payload nowMs token h.right]
  cases hknown : conn.session.handshaked with
  | true =>
      obtain ⟨hreaction, fleet, -, hshared⟩ := onMessage_denied cfg nowMs token payload hknown
        hnames hv
      obtain ⟨hreaction', fleet', -, hshared'⟩ := onMessage_denied cfg nowMs token payload hknown
        hnames hv'
      rw [hreaction, hreaction', hsame, hshared, hshared']
      exact ⟨rfl, rfl, rfl⟩
  | false =>
      have hbody : isHello body = false := by
        cases hnames <;> rfl
      have hsilent : ∀ w : Shared F, conn.session.onMessage cfg w body payload nowMs token =
          ({ conn.session with nowMs } : Session).fatal w .internal
            "first message must be Hello" := by
        intro w
        have hreceive := receive_silent cfg w nowMs token payload hknown hbody
        rw [onMessage_silent (by rw [hreceive]; exact hknown), hreceive]
      rw [hsilent, hsilent]
      exact ⟨rfl, rfl, rfl⟩

end Server

end

namespace Server

-- With the race under way, and with no task at all, the first worker hears the same.
theorem probe_uninformative_raced : ∃ conn, lostRace.conns.lookup 3 = some conn ∧
    lostRace.reaction (searches {}) 3 (.release (some ⟨0, 3⟩)) [] 120 [] =
      (lostRace.withJobs {}).reaction (searches {}) 3 (.release (some ⟨0, 3⟩)) [] 120 [] := by
  obtain ⟨conn, hconn, -⟩ := lostRace_open
  have hunheld : ∀ t, lostRace.jobs.find ⟨0, 3⟩ = some t →
      t.isLeasedTo conn.session.workerId = false := by
    have hover : (lostRace.jobs.find ⟨0, 3⟩).map Task.state = some .cancelled := by decide +kernel
    obtain ⟨t, hf, hcancelled⟩ := Option.map_eq_some_iff.mp hover
    exact JobManager.unheld_of_final hf (by rw [hcancelled]; rfl)
  have hnone : ∀ t, (lostRace.withJobs {}).jobs.find ⟨0, 3⟩ = some t →
      t.isLeasedTo conn.session.workerId = false := by
    intro t hf
    cases hf
  have halike : Alike 3 conn lostRace (lostRace.withJobs {}) := ⟨hconn, hconn, rfl⟩
  exact ⟨conn, hconn, (probe_uninformative halike .releases hunheld hnone).1⟩

end Server

end P2pGpu.Coordinator
