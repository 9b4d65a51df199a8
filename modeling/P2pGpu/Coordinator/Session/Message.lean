import P2pGpu.Coordinator.Session.Verdict

namespace P2pGpu.Coordinator

open P2pGpu.Protocol

section

variable {F : Type} [Double F]

-- A worker that spoke is not lost for a while.
def Session.heardFrom (s : Session) (w : Shared F) (nowMs : UInt64) : Shared F :=
  { w with fleet := w.fleet.touch s.workerId nowMs }

-- A new connection that has said who it is.
structure Session.Greets (s : Session) (w : Shared F) (hello : Hello) (token : Token)
    (turn : Turn F) : Prop where
  silent : s.handshaked = false
  connId : turn.session.connId = s.connId
  handshaked : turn.session.handshaked = true
  workerId : turn.session.workerId = s.identify w hello
  stays : turn.reaction.close = false
  jobs : turn.shared.jobs = w.jobs
  fleet : w.fleet.OnlyRevokes turn.session.workerId turn.shared.fleet
  reputation : turn.shared.reputation =
    w.reputation.map fun rep => rep.mintToken turn.session.workerId token
  compositor : turn.shared.compositor = w.compositor
  spotChecks : turn.shared.spotChecks = w.spotChecks

-- What a message can be. One that is judged is the only one that changes more
-- than the business of its sender.
inductive Session.Heard (cfg : Config F) (s : Session) (w : Shared F) (nowMs : UInt64)
    (token : Token) (body : Body F) (payload : Payload) (turn : Turn F) : Prop where
  | silent (hs : s.handshaked = false) (hsession : s.SameParty turn.session)
      (hshared : turn.shared = w)
  | greets (hello : Hello) (h : s.Greets w hello token turn)
  | routine (hs : s.handshaked = true) (hstays : turn.reaction.close = false)
      (h : turn.Routine cfg (∃ req, body = .leaseRequest req) s w nowMs)
  | judged (header : ResultHeader) (taskId : TaskId) (n : JobManager)
      (hs : s.handshaked = true) (hstays : turn.reaction.close = false)
      (hbody : body = .resultHeader header) (hsession : s.SameParty turn.session)
      (hlanded : Session.Landed cfg { s with nowMs } (s.heardFrom w nowMs) header payload taskId n)
      (hshared : ∃ fleet, ((Session.onResultHeader cfg { s with nowMs } (s.heardFrom w nowMs)
          header payload).shared.fleet).OnlyRevokes s.workerId fleet ∧
        turn.shared = { (Session.onResultHeader cfg { s with nowMs } (s.heardFrom w nowMs) header
          payload).shared with fleet })

namespace Session

open JobManager

variable {cfg : Config F} {s : Session} {w : Shared F} {nowMs : UInt64} {token : Token}
  {body : Body F} {payload : Payload}

theorem onHello_cases (cfg : Config F) (s : Session) (w : Shared F) (hello : Hello)
    (token : Token) (hs : s.handshaked = false) :
    (s.SameParty (s.onHello cfg w hello token).session ∧
        (s.onHello cfg w hello token).shared = w) ∨
      s.Greets w hello token (s.onHello cfg w hello token) := by
  unfold onHello
  rw [if_neg (by rw [hs]; exact Bool.false_ne_true)]
  split
  · exact .inl ⟨.refl s, rfl⟩
  · refine .inr ⟨hs, rfl, rfl, rfl, rfl, ?_, ?_, ?_, ?_, ?_⟩
    · dsimp only
      split <;> rfl
    · refine .of_eq fun id hid => ?_
      have hjoin := Fleet.find_join_ne w.fleet (s.identify w hello) id s.connId s.nowMs hid
      dsimp only at hid ⊢
      split
      · simpa [editRecord, hid] using hjoin
      · simpa [editRecord, hid] using hjoin
    · dsimp only
      split <;> rfl
    · dsimp only
      split <;> rfl
    · dsimp only
      split <;> rfl

-- A verified message that is no result, of a worker that has said who it is.
theorem dispatch_routine (hs : s.handshaked = true)
    (hbody : ∀ header, body ≠ .resultHeader header) :
    (s.dispatch cfg w body payload token).reaction.close = false ∧
      (s.dispatch cfg w body payload token).Routine cfg (∃ req, body = .leaseRequest req) s w
        s.nowMs := by
  cases body with
  | hello m =>
      have hagain : s.onHello cfg w m token =
          s.nonFatal w .malformedMessage "duplicate Hello" := if_pos hs
      rw [dispatch, hagain]
      exact ⟨rfl, nonFatal_routine (.refl w) _ _⟩
  | leaseRequest m =>
      refine ⟨?_, (onLeaseRequest_routine cfg s w m s.nowMs).mono fun _ => ⟨m, rfl⟩⟩
      unfold dispatch onLeaseRequest
      dsimp only
      repeat' split
      all_goals rfl
  | resultHeader m => exact absurd rfl (hbody m)
  | release taskId =>
      refine ⟨?_, onRelease_routine cfg s w s.nowMs taskId⟩
      unfold dispatch onRelease
      dsimp only
      repeat' split
      all_goals rfl
  | progress m =>
      refine ⟨?_, onProgress_routine cfg s w m s.nowMs⟩
      unfold dispatch onProgress
      dsimp only
      repeat' split
      all_goals rfl
  | goodbye => exact ⟨rfl, onGoodbye_routine cfg s w s.nowMs⟩
  | assetRequest m =>
      refine ⟨?_, onAssetRequest_routine cfg s w s.nowMs m⟩
      unfold dispatch onAssetRequest
      dsimp only
      repeat' split
      all_goals rfl
  | assetData => exact ⟨rfl, nonFatal_routine (.refl w) _ _⟩
  | benchmarkResult score =>
      refine ⟨?_, onBenchmarkResult_routine cfg s w s.nowMs score⟩
      unfold dispatch onBenchmarkResult
      dsimp only
      repeat' split
      all_goals rfl
  | throttle level => exact ⟨rfl, onThrottle_routine cfg s w s.nowMs level⟩
  | signal m =>
      refine ⟨?_, onSignal_routine cfg s w s.nowMs m⟩
      unfold dispatch onSignal
      dsimp only
      repeat' split
      all_goals rfl
  | coordinatorOnly => exact ⟨rfl, nonFatal_routine (.refl w) _ _⟩

theorem onResultHeader_stays (cfg : Config F) (s : Session) (w : Shared F)
    (header : ResultHeader) (payload : Payload) :
    (s.onResultHeader cfg w header payload).reaction.close = false := by
  have hjudge : ∀ (w : Shared F) (taskId : TaskId) (spec : KernelSpec),
      (s.judge cfg w taskId spec header.checksum payload).reaction.close = false := by
    intro w taskId spec
    unfold judge
    dsimp only
    split
    · split <;> rfl
    · split <;> rfl
    · unfold acceptResult
      dsimp only
      split <;> rfl
  have hweigh : ∀ (w : Shared F) (taskId : TaskId),
      (s.weigh cfg w taskId header payload).reaction.close = false := by
    intro w taskId
    unfold weigh
    split
    · rfl
    · exact hjudge _ _ _
  have hreadable : ∀ (w : Shared F) (taskId : TaskId),
      (s.onReadable cfg w taskId header payload).reaction.close = false := by
    intro w taskId
    unfold onReadable
    split
    · rfl
    · split
      · rfl
      · exact hweigh _ _
  unfold onResultHeader
  repeat' split
  all_goals first | rfl | exact hreadable _ _

variable (cfg) in
theorem heardFrom_routine (asked : Prop) (s : Session) (w : Shared F) (at_ nowMs : UInt64) :
    w.Routine cfg asked s.workerId nowMs (s.heardFrom w at_) :=
  Shared.Routine.of_fleet (Fleet.OnlyRevokes.mutable w.fleet _)

theorem drainRevokes_fleet (s : Session) (w : Shared F) :
    ∃ fleet, w.fleet.OnlyRevokes s.workerId fleet ∧ (s.drainRevokes w).2 = { w with fleet } := by
  unfold drainRevokes
  split
  · exact ⟨w.fleet, .refl _ _, rfl⟩
  · exact ⟨_, .mutable w.fleet _, rfl⟩

-- What a judgement leaves of the connection and of the other workers.
theorem notifyLosers_revokes (worker : WorkerId) (fleet : Fleet F) (revoked : List Revocation) :
    fleet.OnlyRevokes worker (notifyLosers fleet revoked) := by
  unfold notifyLosers
  induction revoked generalizing fleet with
  | nil => exact .refl worker fleet
  | cons rev rest ih =>
      have hfirst : fleet.OnlyRevokes worker (fleet.mutable rev.holder fun r =>
          { r with pendingRevokes := r.pendingRevokes ++ [rev.task] }) := by
        intro id _
        by_cases hid : id = rev.holder
        · refine ⟨[rev.task], ?_⟩
          rw [Fleet.find_mutable, if_pos hid]
        · refine ⟨[], ?_⟩
          rw [Fleet.find_mutable, if_neg hid]
          simp only [List.append_nil]
          exact Option.map_id'.symm
      exact hfirst.trans (ih _)

theorem settleReputation_byToken (q : QuorumResult F) (rep : ReputationTable F) :
    (settleReputation q nowMs rep).byToken = rep.byToken := by
  have hcredit : ∀ (ids : List WorkerId) (rep : ReputationTable F),
      (ids.foldl (fun rep id => rep.recordAccepted id) rep).byToken = rep.byToken := by
    intro ids
    induction ids with
    | nil => exact fun _ => rfl
    | cons id ids ih => exact fun rep => (ih _).trans (recordAccepted_byToken rep id)
  have hcharge : ∀ (ids : List WorkerId) (rep : ReputationTable F),
      (ids.foldl (fun rep id => ((rep.recordRejected id
        (severityFromDeviation q.dissentMaxUlp q.dissentMaxRel) false).maybeBlacklist id
          nowMs).2) rep).byToken = rep.byToken := by
    intro ids
    induction ids with
    | nil => exact fun _ => rfl
    | cons id ids ih =>
        intro rep
        refine (ih _).trans ?_
        rw [maybeBlacklist_byToken, recordRejected_byToken]
  unfold settleReputation
  dsimp only
  rw [hcharge, hcredit]

theorem publish_rest (w : Shared F) (taskId : TaskId) (q : QuorumResult F) (checksum : UInt64)
    (payload : Payload) : (publish w taskId q checksum payload).fleet = w.fleet ∧
      (publish w taskId q checksum payload).reputation = w.reputation := by
  unfold publish
  split <;> exact ⟨rfl, rfl⟩

-- Whatever is judged, others only get to know that they may stop.
theorem rule_rest (s : Session) (w : Shared F) (taskId : TaskId) (answer : Submission)
    (payload : Payload) (q : QuorumResult F) :
    s.SameParty (s.rule w taskId answer payload q).session ∧
      (s.rule w taskId answer payload q).reaction.close = false ∧
      w.fleet.OnlyRevokes s.workerId (s.rule w taskId answer payload q).shared.fleet ∧
      (s.rule w taskId answer payload q).shared.reputation.map ReputationTable.byToken =
        w.reputation.map ReputationTable.byToken := by
  unfold rule
  split
  · exact ⟨⟨rfl, rfl, rfl⟩, rfl, .refl _ _, rfl⟩
  · exact ⟨⟨rfl, rfl, rfl⟩, rfl, .refl _ _, rfl⟩
  · refine ⟨⟨rfl, rfl, rfl⟩, rfl, ?_, ?_⟩
    · unfold complete settled
      dsimp only [quiet]
      rw [(publish_rest _ _ _ _ _).1]
      have hlosers := notifyLosers_revokes s.workerId w.fleet
        (((recorded w taskId answer).finish taskId true).2.cancelSiblingsOf taskId).1
      exact (hlosers.trans (.mutable _ _)).trans (.mutable _ _)
    · unfold complete settled
      dsimp only [quiet]
      rw [(publish_rest _ _ _ _ _).2, Option.map_map]
      congr 1
      funext rep
      exact settleReputation_byToken q rep

-- What is done with an answer, whoever else has an interest in it.
theorem Landed.rest {header : ResultHeader} {taskId : TaskId} {n : JobManager}
    (h : Landed cfg s w header payload taskId n) :
    s.SameParty (s.onResultHeader cfg w header payload).session ∧
      (s.onResultHeader cfg w header payload).reaction.close = false ∧
      w.fleet.OnlyRevokes s.workerId (s.onResultHeader cfg w header payload).shared.fleet ∧
      (s.onResultHeader cfg w header payload).shared.reputation.map ReputationTable.byToken =
        w.reputation.map ReputationTable.byToken := by
  have hready := prepare_readies s { w with jobs := n } taskId header
  obtain ⟨t, hf, -, -⟩ := h.readied_find
  rcases h.kernel hf with ⟨spec, hspec⟩ | ⟨hnone, -⟩
  · rw [h.rules hf hspec]
    obtain ⟨hparty, hstays, hfleet, htokens⟩ := rule_rest s (readied s w header taskId n) taskId
      (answerOf s spec header payload) payload (verdict cfg s spec (readied s w header taskId n)
        t.submissions (answerOf s spec header payload))
    exact ⟨hparty, hstays, hready.fleet.trans hfleet, htokens.trans hready.tokens⟩
  · rw [onResultHeader_landed h, weigh, hnone]
    exact ⟨.refl s, rfl, hready.fleet, hready.tokens⟩

theorem Landed.effect {header : ResultHeader} {taskId : TaskId} {n : JobManager}
    (h : Landed cfg s w header payload taskId n) (asked : Prop) (deadline : UInt64) :
    w.jobs.Effect cfg.kernels cfg.quorum asked s.workerId deadline
      (s.onResultHeader cfg w header payload).shared.jobs := by
  obtain ⟨t, hf, hheld, hready⟩ := h.readied_find
  rcases h.kernel hf with ⟨spec, hspec⟩ | ⟨hnone, hlost⟩
  · obtain ⟨m, hanswers, hjobs⟩ := h.answers hf hspec rfl
    rw [hjobs]
    by_cases haccept : (verdict cfg s spec (readied s w header taskId n) t.submissions
        (answerOf s spec header payload)).action = .accept
    · rw [if_pos haccept]
      rw [haccept] at hanswers
      exact .accepts hanswers rfl
    · rw [if_neg haccept]
      exact .answers hanswers rfl haccept
  · have hsubmit := submit_performs w.jobs s.workerId taskId
    rw [h.submitted] at hsubmit
    have hrows := (prepare_readies s { w with jobs := n } taskId header).jobs
    have hworks : Works taskId w.jobs (.act taskId (.submit s.workerId)) :=
      .inr ⟨_, rfl, .inl ⟨_, rfl⟩⟩
    have hmoves := (hsubmit.works hworks).tail (.inl rfl) (Move.aux _ _ hrows)
    have hjobs : (s.onResultHeader cfg w header payload).shared.jobs =
        (readied s w header taskId n).jobs := by
      rw [onResultHeader_landed h, weigh, hnone]
      rfl
    rw [hjobs]
    exact .strands hmoves hf hheld hlost

-- What is owed to a worker is told with the reply.
theorem onMessage_receive (cfg : Config F) (s : Session) (w : Shared F) (body : Body F)
    (payload : Payload) (nowMs : UInt64) (token : Token) :
    (s.onMessage cfg w body payload nowMs token).session =
        (s.receive cfg w body payload nowMs token).session ∧
      (s.onMessage cfg w body payload nowMs token).reaction.close =
        (s.receive cfg w body payload nowMs token).reaction.close ∧
      ∃ fleet, (s.receive cfg w body payload nowMs token).shared.fleet.OnlyRevokes
          (s.receive cfg w body payload nowMs token).session.workerId fleet ∧
        (s.onMessage cfg w body payload nowMs token).shared =
          { (s.receive cfg w body payload nowMs token).shared with fleet } := by
  obtain ⟨fleet, hfleet, heq⟩ := drainRevokes_fleet
    (s.receive cfg w body payload nowMs token).session
    (s.receive cfg w body payload nowMs token).shared
  unfold onMessage
  dsimp only
  split
  · exact ⟨rfl, rfl, fleet, hfleet, heq⟩
  · exact ⟨rfl, rfl, _, .refl _ _, rfl⟩

theorem onMessage_silent
    (h : (s.receive cfg w body payload nowMs token).session.handshaked = false) :
    s.onMessage cfg w body payload nowMs token = s.receive cfg w body payload nowMs token := by
  unfold onMessage
  dsimp only
  rw [if_neg (by rw [h]; exact Bool.false_ne_true)]

theorem receive_known (cfg : Config F) (w : Shared F) (body : Body F) (payload : Payload)
    (nowMs : UInt64) (token : Token) (hs : s.handshaked = true) :
    s.receive cfg w body payload nowMs token =
      ({ s with nowMs } : Session).dispatch cfg (s.heardFrom w nowMs) body payload token := by
  unfold receive
  simp [hs, heardFrom]

variable (cfg s w body payload token) in
-- All that a worker may say without an answer of its own being judged.
theorem dispatch_unjudged (hs : s.handshaked = true)
    (hbody : ∀ header, body = .resultHeader header →
      ∀ taskId n, ¬ Landed cfg s w header payload taskId n) :
    (s.dispatch cfg w body payload token).reaction.close = false ∧
      (s.dispatch cfg w body payload token).Routine cfg (∃ req, body = .leaseRequest req) s w
        s.nowMs := by
  by_cases hresult : ∃ header, body = .resultHeader header
  · obtain ⟨header, rfl⟩ := hresult
    rcases onResultHeader_cases cfg _ s w header payload with hroutine | ⟨taskId, n, hlanded⟩
    · exact ⟨onResultHeader_stays cfg s w header payload, hroutine⟩
    · exact absurd hlanded (hbody header rfl taskId n)
  · exact dispatch_routine hs fun header he => hresult ⟨header, he⟩

theorem onMessage_known (cfg : Config F) (w : Shared F) (body : Body F) (payload : Payload)
    (nowMs : UInt64) (token : Token) (hs : s.handshaked = true) :
    s.Heard cfg w nowMs token body payload (s.onMessage cfg w body payload nowMs token) := by
  obtain ⟨hsession, hclose, fleet, hfleet, hshared⟩ :=
    onMessage_receive cfg s w body payload nowMs token
  rw [receive_known cfg w body payload nowMs token hs] at hsession hclose hfleet hshared
  by_cases hbody : ∃ header, body = .resultHeader header ∧ ∃ taskId n,
      Landed cfg { s with nowMs } (s.heardFrom w nowMs) header payload taskId n
  · obtain ⟨header, rfl, taskId, n, hlanded⟩ := hbody
    obtain ⟨hparty, hstays, -, -⟩ := hlanded.rest
    refine .judged header taskId n hs (hclose.trans hstays) rfl ?_ hlanded ?_
    · rw [hsession]
      exact ⟨hparty.connId, hparty.handshaked, hparty.workerId⟩
    · dsimp only [dispatch] at hfleet
      rw [hparty.workerId] at hfleet
      exact ⟨fleet, hfleet, hshared⟩
  · obtain ⟨hstays, hparty, hroutine⟩ := dispatch_unjudged cfg { s with nowMs } (s.heardFrom w nowMs)
      token body payload hs
      fun header he taskId n hlanded => hbody ⟨header, he, taskId, n, hlanded⟩
    refine .routine hs (hclose.trans hstays) ⟨?_, ?_⟩
    · rw [hsession]
      exact ⟨hparty.connId, hparty.handshaked, hparty.workerId⟩
    · have hheard := heardFrom_routine cfg (∃ req, body = .leaseRequest req) s w nowMs
        nowMs
      rw [hparty.workerId] at hfleet
      rw [hshared]
      exact (hheard.trans hroutine).trans (.of_fleet hfleet)

theorem onMessage_unknown (cfg : Config F) (w : Shared F) (body : Body F) (payload : Payload)
    (nowMs : UInt64) (token : Token) (hs : s.handshaked = false) :
    s.Heard cfg w nowMs token body payload (s.onMessage cfg w body payload nowMs token) := by
  by_cases hhello : ∃ hello, body = .hello hello
  · obtain ⟨hello, rfl⟩ := hhello
    have hreceive : s.receive cfg w (.hello hello) payload nowMs token =
        ({ s with nowMs } : Session).onHello cfg w hello token := by
      unfold receive
      simp [hs, isHello, dispatch]
    rcases onHello_cases cfg { s with nowMs } w hello token hs with ⟨hparty, hshared⟩ | hgreets
    · rw [onMessage_silent (by rw [hreceive, hparty.handshaked]; exact hs), hreceive]
      exact .silent hs ⟨hparty.connId, hparty.handshaked, hparty.workerId⟩ hshared
    · obtain ⟨hsession, hclose, fleet, hfleet, hshared⟩ :=
        onMessage_receive cfg s w (.hello hello) payload nowMs token
      rw [hreceive] at hsession hclose hfleet hshared
      refine .greets hello ⟨hs, ?_, ?_, ?_, hclose.trans hgreets.stays, ?_, ?_, ?_, ?_, ?_⟩
      · exact hsession ▸ hgreets.connId
      · exact hsession ▸ hgreets.handshaked
      · exact hsession ▸ hgreets.workerId
      · exact hshared ▸ hgreets.jobs
      · rw [hsession, hshared]
        exact hgreets.fleet.trans hfleet
      · rw [hsession, hshared]
        exact hgreets.reputation
      · exact hshared ▸ hgreets.compositor
      · exact hshared ▸ hgreets.spotChecks
  · have hreceive : s.receive cfg w body payload nowMs token =
        ({ s with nowMs } : Session).fatal w .internal "first message must be Hello" := by
      have hnot : isHello body = false := by
        cases body <;> first | rfl | exact absurd ⟨_, rfl⟩ hhello
      unfold receive
      simp [hs, hnot]
    rw [onMessage_silent (by rw [hreceive]; exact hs), hreceive]
    exact .silent hs ⟨rfl, rfl, rfl⟩ rfl

theorem onMessage_heard (cfg : Config F) (s : Session) (w : Shared F) (body : Body F)
    (payload : Payload) (nowMs : UInt64) (token : Token) :
    s.Heard cfg w nowMs token body payload (s.onMessage cfg w body payload nowMs token) := by
  cases hs : s.handshaked with
  | false => exact onMessage_unknown cfg w body payload nowMs token hs
  | true => exact onMessage_known cfg w body payload nowMs token hs

end Session

end

end P2pGpu.Coordinator
