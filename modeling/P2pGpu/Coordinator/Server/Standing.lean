import P2pGpu.Coordinator.Server.Leases

namespace P2pGpu.Coordinator

open P2pGpu.Protocol

section

variable {F : Type} [Double F]

namespace ReputationTable

variable {rep rep' : ReputationTable F}

-- Nobody's counts moved. A worker that was not known is at the prior, if it is
-- known now.
structure SameCounts (rep rep' : ReputationTable F) : Prop where
  kept : ∀ id r, rep.find id = some r → ∃ r', rep'.find id = some r' ∧ r'.counts = r.counts
  created : ∀ id r', rep.find id = none → rep'.find id = some r' → r'.counts = rep.prior.counts

theorem SameCounts.of_find (h : ∀ id, rep'.find id = rep.find id) : rep.SameCounts rep' where
  kept id r hr := ⟨r, (h id).trans hr, rfl⟩
  created id r' hnone hr' := by
    rw [h, hnone] at hr'
    cases hr'

theorem SameCounts.of_keeps (h : rep.Keeps rep') : rep.SameCounts rep' where
  kept id r hr := by
    obtain ⟨r', hr'⟩ := Option.isSome_iff_exists.mp (h.found id (by rw [hr]; rfl))
    have hcounts := h.counts id
    simp only [ReputationTable.mutable, hr, hr', Option.getD_some] at hcounts
    exact ⟨r', hr', hcounts⟩
  created id r' hnone hr' := by
    have hcounts := h.counts id
    simp only [ReputationTable.mutable, hnone, hr', Option.getD_some, Option.getD_none] at hcounts
    exact hcounts

end ReputationTable

namespace Server

variable {cfg : Config F} {v v' : Server F} {e : Event F}

-- A complete answer of the holder of the lease, with the bytes that it says it has.
def Judges (cfg : Config F) (v : Server F) (e : Event F) : Prop :=
  ∃ connId header payload nowMs token conn taskId,
    e = .message connId (.resultHeader header) payload nowMs token ∧
      v.conns.lookup connId = some conn ∧ header.taskId = some taskId ∧
      v.jobs.checkLease conn.session.workerId taskId = .ok () ∧
      checkPayloadLength header.payloadBytes payload.length = .ok () ∧
      checkPayloadChecksum header.checksum (cfg.blake3 payload) = .ok () ∧
      Session.isComplete v.jobs taskId header.unitsDone = true

def SameStanding (v v' : Server F) : Prop :=
  ∀ rep, v.shared.reputation = some rep →
    ∃ rep', v'.shared.reputation = some rep' ∧ rep.SameCounts rep'

theorem SameStanding.of_eq (h : v'.shared.reputation = v.shared.reputation) : v.SameStanding v' :=
  fun rep hrep => ⟨rep, h.trans hrep, .of_find fun _ => rfl⟩

theorem closeConn_reputation (v : Server F) (connId : Nat) :
    (v.closeConn connId).shared.reputation = v.shared.reputation := by
  cases hconn : v.conns.lookup connId with
  | none => rw [closeConn_closed hconn]
  | some conn =>
      rw [closeConn_open hconn]
      exact onDisconnect_reputation conn.session v.shared

theorem rejectFrame_reputation (v : Server F) (connId : Nat) :
    (v.rejectFrame connId).shared.reputation = v.shared.reputation := by
  obtain ⟨edit, -, hreject⟩ := rejectFrame_cases v connId
  have hedit : (v.editConn connId edit).shared.reputation = v.shared.reputation := rfl
  rcases hreject with heq | heq
  · rw [← heq, closeConn_reputation, hedit]
  · rw [← heq, hedit]

-- What a message leaves of the table, where no answer is judged.
theorem heard_standing {s : Session} {w : Shared F} {nowMs : UInt64} {token : Token}
    {body : Body F} {payload : Payload} {turn : Turn F}
    (h : s.Heard cfg w nowMs token body payload turn)
    (hquiet : ∀ header taskId n, body = .resultHeader header → s.handshaked = true →
      ¬ Session.Landed cfg { s with nowMs } (s.heardFrom w nowMs) header payload taskId n) :
    ∀ rep, w.reputation = some rep →
      ∃ rep', turn.shared.reputation = some rep' ∧ rep.SameCounts rep' := by
  intro rep hrep
  cases h with
  | silent hs hsession hshared =>
      rw [hshared]
      exact ⟨rep, hrep, .of_find fun _ => rfl⟩
  | greets hello h =>
      rw [h.reputation, hrep]
      exact ⟨_, rfl, .of_find fun _ => rfl⟩
  | routine hs hstays h =>
      obtain ⟨f, hf, heq⟩ := h.shared.standing
      rw [heq, hrep]
      exact ⟨f rep, rfl, .of_keeps (hf rep)⟩
  | judged header taskId n hs hstays hbody hsession hlanded =>
      exact absurd hlanded (hquiet header taskId n hbody hs)

-- No answer lands with the event.
def Unlanded (cfg : Config F) (v : Server F) (e : Event F) : Prop :=
  ∀ connId header payload nowMs token conn taskId n,
    e = .message connId (.resultHeader header) payload nowMs token →
      v.conns.lookup connId = some conn → conn.session.handshaked = true →
        ¬ Session.Landed cfg { conn.session with nowMs } (conn.session.heardFrom v.shared nowMs)
          header payload taskId n

theorem Unlanded.standing (hquiet : v.Unlanded cfg e) : v.SameStanding (v.next cfg e) := by
  cases e with
  | createJob => exact .of_eq rfl
  | seedRender => exact .of_eq rfl
  | «open» => exact .of_eq rfl
  | text => exact .of_eq rfl
  | malformed connId => exact .of_eq (rejectFrame_reputation v connId)
  | close connId => exact .of_eq (closeConn_reputation v connId)
  | sweep nowMs flushed => exact .of_eq (sweep_shared cfg v nowMs flushed).reputation
  | message connId body payload nowMs token =>
      cases hconn : v.conns.lookup connId with
      | none =>
          have hsame : v.next cfg (.message connId body payload nowMs token) = v :=
            onFrame_closed hconn
          rw [hsame]
          exact .of_eq rfl
      | some conn =>
          have hheard := Session.onMessage_heard cfg conn.session v.shared body payload nowMs token
          have hframe := onFrame_framed cfg body payload nowMs token hconn
          have hsame := heard_standing hheard fun header taskId n hbody =>
            hquiet connId header payload nowMs token conn taskId n (by rw [hbody]) hconn
          intro rep hrep
          obtain ⟨rep', hrep', hcounts⟩ := hsame rep hrep
          exact ⟨rep', (congrArg Shared.reputation hframe.shared).trans hrep', hcounts⟩

theorem next_standing (hquiet : ¬ v.Judges cfg e) : v.SameStanding (v.next cfg e) := by
  apply Unlanded.standing
  intro connId header payload nowMs token conn taskId n he hconn _ hlanded
  exact hquiet ⟨connId, header, payload, nowMs, token, conn, taskId, he, hconn, hlanded.named,
    hlanded.lease, hlanded.length, hlanded.checksum, hlanded.complete⟩

-- Only an answer that is judged moves a reputation, whoever it is about.
theorem standing_frame (hquiet : ¬ v.Judges cfg e) (h : Step cfg v e v') :
    v.SameStanding v' := by
  have hnext := next_standing hquiet
  intro rep hrep
  obtain ⟨rep', hrep', hcounts⟩ := hnext rep hrep
  refine ⟨rep', ?_, hcounts⟩
  rw [h.rest]
  exact hrep'

end Server

end

namespace Server

theorem standing_frame_search :
    (searchStart.runAll (searches {}) searchRun).SameStanding
      ((searchStart.runAll (searches {}) searchRun).next (searches {}) (.sweep 30050 false)) := by
  refine standing_frame ?_ (step_next _ _ _)
  rintro ⟨_, _, _, _, _, _, _, he, -⟩
  cases he

end Server

end P2pGpu.Coordinator
