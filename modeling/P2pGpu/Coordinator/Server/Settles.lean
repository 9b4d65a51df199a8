import P2pGpu.Coordinator.Server.Revokes

namespace P2pGpu.Coordinator

open P2pGpu.Protocol

namespace JobManager

variable {m : JobManager} {worker : WorkerId} {id : TaskId} {t : Task}

theorem heldTask_leased (hm : m.Minted) (hf : m.find id = some t)
    (hleased : t.isLeasedTo worker = true) : m.heldTask worker id = .ok t := by
  obtain ⟨hstate, hholder⟩ := isLeasedTo_iff.mp hleased
  unfold heldTask
  rw [hf]
  dsimp only
  rw [if_neg (by simp [hstate, hholder]), hm.id_eq hf]
  simp [checkLeaseHeld]

theorem submit_leased (hm : m.Minted) (hf : m.find id = some t)
    (hleased : t.isLeasedTo worker = true) : (m.submit worker id).1 = .ok () := by
  unfold submit
  rw [heldTask_leased hm hf hleased]
  simp [apply, (isLeasedTo_iff.mp hleased).1, advance]

end JobManager

section

variable {F : Type} [Double F]

-- A whole answer to the task, with its bytes as the header says.
structure ResultHeader.Delivers (cfg : Config F) (header : ResultHeader) (payload : Payload)
    (id : TaskId) : Prop where
  named : header.taskId = some id
  length : header.payloadBytes.toNat = payload.length
  checksum : header.checksum = cfg.blake3 payload
  whole : header.unitsDone = 0

namespace Server

open JobManager Session

variable {cfg : Config F} {v v' : Server F} {e : Event F} {k : Nat} {conn : Conn}
  {body : Body F} {payload : Payload} {nowMs : UInt64} {token : Token} {good : JobId → Prop}
  {id : TaskId} {x : WorkerId}

-- Whatever becomes leased by an event is in what the event has the coordinator say to its
-- holder.
theorem lease_granted (hm : v.jobs.Minted) (hp : v.jobs.Partition good)
    (hid : id ∈ (v.next cfg e).jobs.heldBy x) :
    id ∈ v.jobs.heldBy x ∨ ∃ k conn body payload nowMs token,
      e = .message k body payload nowMs token ∧ v.conns.lookup k = some conn ∧
        conn.session.handshaked = true ∧ conn.session.workerId = x ∧
        ∃ envelope : TaskEnvelope, envelope.taskId = id ∧ .taskGrant envelope ∈
          (conn.session.onMessage cfg v.shared body payload nowMs token).reaction.replies := by
  refine (next_held hm hp hid).imp_right ?_
  rintro ⟨g, hg, rfl, rfl⟩
  cases e with
  | message k body payload nowMs token =>
      cases body with
      | leaseRequest req =>
          cases hconn : v.conns.lookup k with
          | none => simp [grants, hconn] at hg
          | some conn =>
              cases hknown : conn.session.handshaked with
              | false =>
                  rw [grants_silent hconn hknown] at hg
                  cases hg
              | true =>
                  dsimp only [grants] at hg
                  rw [hconn] at hg
                  obtain ⟨reply, hreply, hgrant⟩ := List.mem_filterMap.mp hg
                  cases reply with
                  | taskGrant envelope =>
                      cases hgrant
                      exact ⟨k, conn, _, payload, nowMs, token, rfl, hconn, hknown, rfl, envelope,
                        rfl, hreply⟩
                  | _ => cases hgrant
      | _ => cases hg
  | _ => cases hg

-- A connection of a worker goes on, or its worker holds nothing any more.
theorem speaks_or_frees (hn : v.Named) (hspeaks : v.Speaks k x) (cfg : Config F) (e : Event F) :
    (v.next cfg e).Speaks k x ∨ ∀ id, id ∉ (v.next cfg e).jobs.heldBy x := by
  obtain ⟨conn, hconn, hknown, rfl⟩ := hspeaks
  cases hafter : (v.next cfg e).conns.lookup k with
  | none =>
      right
      intro id hheld
      obtain ⟨t, hf, hleased⟩ := mem_heldBy.mp hheld
      unfold jobs at hf
      rw [(closed_leaves hconn hafter).1, onDisconnect, if_pos hknown] at hf
      dsimp only at hf
      rw [find_releaseAllHeldBy] at hf
      obtain ⟨u, -, hu⟩ := Option.map_eq_some_iff.mp hf
      rw [← hu] at hleased
      split at hleased
      · cases hleased
      · rename_i hother
        exact hother hleased
  | some conn' =>
      left
      refine ⟨conn', hafter, ?_⟩
      cases next_becomes cfg v e hafter with
      | fresh he hk hsession =>
          rw [hk] at hconn
          exact absurd (hn.connId hconn).2.2 (Nat.lt_irrefl _)
      | idles conn₀ hconn₀ hreset hsilent hsession =>
          obtain ⟨abusive, hsession⟩ := hsession
          obtain rfl : conn₀ = conn := Option.some.inj (hconn₀.symm.trans hconn)
          rw [hsession]
          exact ⟨hknown, rfl⟩
      | resets conn₀ hconn₀ hreset hsession =>
          obtain rfl : conn₀ = conn := Option.some.inj (hconn₀.symm.trans hconn)
          rw [hsession]
          exact ⟨hknown, rfl⟩
      | speaks conn₀ body payload nowMs token he hconn₀ hsession =>
          obtain rfl : conn₀ = conn := Option.some.inj (hconn₀.symm.trans hconn)
          have hparty := onMessage_party cfg v.shared body payload nowMs token hknown
          rw [hsession]
          exact ⟨hparty.handshaked.trans hknown, hparty.workerId⟩

-- What names a task that its sender does not hold changes nothing of the jobs.
theorem denied_jobs (hconn : v.conns.lookup k = some conn) (hknown : conn.session.handshaked = true)
    (hnames : Names id body) (hfree : id ∉ v.jobs.heldBy conn.session.workerId) :
    (v.next cfg (.message k body payload nowMs token)).jobs = v.jobs := by
  have hunheld : ∀ t, v.jobs.find id = some t → t.isLeasedTo conn.session.workerId = false := by
    intro t hf
    by_contra hleased
    exact hfree (mem_heldBy.mpr ⟨t, hf, Bool.eq_true_of_not_eq_false hleased⟩)
  obtain ⟨-, fleet, -, hshared⟩ := onMessage_denied cfg nowMs token payload hknown hnames hunheld
  unfold jobs
  rw [next_open cfg payload nowMs token hconn, hshared]

-- Once a release has come in, its sender holds the task no more.
theorem release_frees (hm : v.jobs.Minted) (hspeaks : v.Speaks k x) :
    id ∉ (v.next cfg (.message k (.release (some id)) payload nowMs token)).jobs.heldBy x := by
  obtain ⟨conn, hconn, hknown, rfl⟩ := hspeaks
  by_cases hheld : id ∈ v.jobs.heldBy conn.session.workerId
  · obtain ⟨t, hf, hleased⟩ := mem_heldBy.mp hheld
    have hjobs : (v.next cfg (.message k (.release (some id)) payload nowMs token)).jobs =
        v.jobs.givenBack id t := by
      obtain ⟨-, -, fleet, -, hshared⟩ :=
        onMessage_receive cfg conn.session v.shared (.release (some id)) payload nowMs token
      unfold jobs
      rw [next_open cfg payload nowMs token hconn, hshared,
        receive_known cfg v.shared _ payload nowMs token hknown]
      unfold dispatch onRelease checkLease
      have hback := requeue_leased hf (isLeasedTo_iff.mp hleased).1
      have hown := heldTask_leased hm hf hleased
      dsimp only [heardFrom]
      unfold jobs at hback hown
      rw [hown]
      dsimp only
      rw [hback]
      rfl
    rw [hjobs]
    intro hstill
    obtain ⟨u, hu, hagain⟩ := mem_heldBy.mp hstill
    unfold givenBack JobManager.find at hu
    dsimp only at hu
    rw [Table.lookup_modify, if_pos rfl] at hu
    obtain ⟨t', -, rfl⟩ := Option.map_eq_some_iff.mp hu
    cases hagain
  · rw [denied_jobs hconn hknown .releases hheld]
    exact hheld

-- It is heard where its sender holds the task.
theorem landed_of_delivers {header : ResultHeader} {t : Task} (h : header.Delivers cfg payload id)
    (hm : v.jobs.Minted) (hrecollects : conn.session.Recollects v.jobs)
    (hf : v.jobs.find id = some t) (hleased : t.isLeasedTo conn.session.workerId = true) :
    Landed cfg { conn.session with nowMs } (conn.session.heardFrom v.shared nowMs) header payload id
      (v.jobs.submit conn.session.workerId id).2 where
  named := h.named
  fresh := by
    intro hdone
    obtain ⟨u, hu, haccepted⟩ := hrecollects.accepted id hdone
    obtain rfl : u = t := Option.some.inj (hu.symm.trans hf)
    rw [(isLeasedTo_iff.mp hleased).1] at haccepted
    cases haccepted
  alone := by
    dsimp only
    rw [hrecollects.idle]
    rfl
  length := by
    unfold checkPayloadLength
    rw [if_neg (not_not.mpr h.length)]
  lease := by
    have hheld := heldTask_leased hm hf hleased
    unfold jobs at hheld
    unfold checkLease heardFrom
    dsimp only
    rw [hheld]
  checksum := by
    rw [h.checksum]
    simp [checkPayloadChecksum]
  complete := by
    unfold isComplete
    rw [h.whole]
    rfl
  submitted := Prod.ext (submit_leased hm hf hleased) rfl

-- And so does a whole answer.
theorem result_frees {header : ResultHeader} (hs : v.jobs.Sound cfg.kernels good)
    (hrecollects : ∀ conn, v.conns.lookup k = some conn → conn.session.Recollects v.jobs)
    (hspeaks : v.Speaks k x) (h : header.Delivers cfg payload id) :
    id ∉ (v.next cfg (.message k (.resultHeader header) payload nowMs token)).jobs.heldBy x := by
  obtain ⟨conn, hconn, hknown, rfl⟩ := hspeaks
  by_cases hheld : id ∈ v.jobs.heldBy conn.session.workerId
  · obtain ⟨t, hf, hleased⟩ := mem_heldBy.mp hheld
    have hears : ∃ c, v.Hears cfg (.message k (.resultHeader header) payload nowMs token) c :=
      hears_of_landed hs hconn hknown
        (landed_of_delivers h hs.minted (hrecollects conn hconn) hf hleased)
    obtain ⟨c, hc⟩ := hears
    have htask : c.taskId = id := by
      obtain ⟨token', he⟩ := hc.event
      injection he with _ hbody
      injection hbody with hheader
      have hnamed := hc.landed.named
      rw [← hheader] at hnamed
      exact Option.some.inj (hnamed.symm.trans h.named)
    intro hstill
    obtain ⟨u, hu, hagain⟩ := mem_heldBy.mp hstill
    have hstate := (isLeasedTo_iff.mp hagain).1
    obtain ⟨m, hanswers, hjobs⟩ := hc.judges
    rw [htask] at hanswers hjobs
    rw [hjobs] at hu
    by_cases haccept : (c.verdict cfg v).action = .accept
    · rw [haccept] at hanswers
      rw [if_pos haccept] at hu
      obtain ⟨t', -, -, hwon, -⟩ := hanswers.cancel_find hs.minted hs.partition
      obtain rfl := Option.some.inj (hwon.symm.trans hu)
      cases hstate
    · rw [if_neg haccept] at hu
      obtain ⟨t', -, -, hjudged, -⟩ := hanswers.judged
      obtain rfl := Option.some.inj (hjudged.symm.trans hu)
      cases haction : (c.verdict cfg v).action with
      | accept => exact haccept haction
      | needMoreReplicas =>
          rw [haction] at hstate
          cases hstate
      | inconclusive =>
          rw [haction] at hstate
          cases hstate
  · rw [denied_jobs hconn hknown (.answers header h.named) hheld]
    exact hheld

end Server

end

end P2pGpu.Coordinator
