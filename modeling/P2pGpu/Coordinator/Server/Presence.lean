import P2pGpu.Coordinator.Server.Abuse
import P2pGpu.Coordinator.Server.Connections
import P2pGpu.Coordinator.Session.Edits
import P2pGpu.Data.Since

namespace P2pGpu.Coordinator

open P2pGpu.Protocol

namespace Session

section

variable {F : Type} [Double F] {cfg : Config F} {s : Session} {w : Shared F} {body : Body F}
  {payload : Payload} {nowMs : UInt64} {token : Token} {id : WorkerId}

theorem onMessage_party (cfg : Config F) (w : Shared F) (body : Body F) (payload : Payload)
    (nowMs : UInt64) (token : Token) (hs : s.handshaked = true) :
    s.SameParty (s.onMessage cfg w body payload nowMs token).session := by
  have hheard := onMessage_known cfg w body payload nowMs token hs
  cases hheard with
  | silent hsilent =>
      rw [hs] at hsilent
      cases hsilent
  | greets hello h =>
      have hsilent := h.silent
      rw [hs] at hsilent
      cases hsilent
  | routine _ _ h => exact h.session
  | judged _ _ _ _ _ _ hsession => exact hsession

theorem onMessage_replies (cfg : Config F) (s : Session) (w : Shared F) (body : Body F)
    (payload : Payload) (nowMs : UInt64) (token : Token) :
    (s.onMessage cfg w body payload nowMs token).reaction.replies =
      (s.receive cfg w body payload nowMs token).reaction.replies ++
        if (s.receive cfg w body payload nowMs token).session.handshaked then
          ((s.receive cfg w body payload nowMs token).session.drainRevokes
            (s.receive cfg w body payload nowMs token).shared).1
        else [] := by
  unfold onMessage
  dsimp only
  by_cases hs : (s.receive cfg w body payload nowMs token).session.handshaked = true
  · rw [if_pos hs, if_pos hs]
  · rw [if_neg hs, if_neg hs, List.append_nil]

-- A worker that is not known is given no work.
theorem not_granted_absent (hs : s.handshaked = true) (habsent : w.fleet.find s.workerId = none)
    (req : LeaseRequest) :
    ¬ Granted (s.onMessage cfg w (.leaseRequest req) payload nowMs token) := by
  have hnone : ∀ {w' : Shared F}, w.Edits Operation.quiet w' → w'.fleet.find s.workerId = none := by
    intro w' hedits
    have hsame := hedits.workers s.workerId
    rw [habsent] at hsame
    exact Option.isNone_iff_eq_none.mp (Option.isSome_eq_false_iff.mp hsame)
  have hcached : (s.editRecord (s.heardFrom w nowMs) fun r =>
      { r with cachedAssets := adoptCachedAssets req.cachedAssets }).fleet.find s.workerId = none :=
    hnone ((heardFrom_edits s w nowMs).trans (editRecord_edits s _ _))
  have hreceive : s.receive cfg w (.leaseRequest req) payload nowMs token =
      ({ s with nowMs } : Session).quiet (s.editRecord (s.heardFrom w nowMs) fun r =>
        { r with cachedAssets := adoptCachedAssets req.cachedAssets }) := by
    rw [receive_known cfg w _ payload nowMs token hs]
    show ({ s with nowMs } : Session).onLeaseRequest cfg (s.heardFrom w nowMs) req nowMs = _
    unfold onLeaseRequest
    dsimp only [editRecord] at hcached ⊢
    rw [hcached]
  have hdrained : (({ s with nowMs } : Session).drainRevokes
      (s.editRecord (s.heardFrom w nowMs) fun r =>
        { r with cachedAssets := adoptCachedAssets req.cachedAssets })).1 = [] := by
    unfold drainRevokes
    dsimp only
    rw [hcached]
  have hreplies : (s.onMessage cfg w (.leaseRequest req) payload nowMs token).reaction.replies =
      [] := by
    rw [onMessage_replies, hreceive]
    show [] ++ (if s.handshaked then _ else []) = _
    rw [if_pos hs, List.nil_append]
    exact hdrained
  unfold Granted
  rw [hreplies]
  exact Bool.false_ne_true

end

end Session

namespace Server

section

variable {F : Type} [Double F] {cfg : Config F} {v v₀ v' : Server F} {e : Event F} {k : Nat}
  {conn conn' : Conn} {past : List (Server F × Event F)} {id : WorkerId}

def Member (v : Server F) (id : WorkerId) : Prop := (v.shared.fleet.find id).isSome

-- A greeting that is accepted, of somebody who is known under that identifier.
def Joins (id : WorkerId) (v : Server F) : Event F → Prop
  | .message k body _ _ _ => ∃ conn hello, v.conns.lookup k = some conn ∧ body = .hello hello ∧
      conn.session.handshaked = false ∧ hello.protocolVersion = kProtocolVersion ∧
      conn.session.identify v.shared hello = id
  | _ => False

-- The worker says goodbye, one of its connections ends, or it was silent for too long.
def GivesUp (cfg : Config F) (id : WorkerId) (v : Server F) : Event F → Prop
  | .message k body _ _ _ => body = .goodbye ∧ v.Speaks k id
  | .close k => v.Speaks k id
  | .malformed k => v.Speaks k id ∧ ∀ conn, v.conns.lookup k = some conn →
      kRejectedFramesDisconnect ≤ conn.rejectedFrames + 1
  | .sweep nowMs _ => id ∈ v.lostAt cfg nowMs
  | _ => False

-- The worker has greeted, and was not given up since.
def Stays (cfg : Config F) (id : WorkerId) (past : List (Server F × Event F)) : Prop :=
  Since (fun _ x => Joins id x.1 x.2) (fun _ x => GivesUp cfg id x.1 x.2) past

theorem find_dropLost (lost : List WorkerId) (v : Server F) (id : WorkerId) :
    (lost.foldl dropWorker v).shared.fleet.find id =
        (if id ∈ lost then none else v.shared.fleet.find id) ∧
      (lost.foldl dropWorker v).live.lookup id =
        if id ∈ lost then none else v.live.lookup id := by
  induction lost generalizing v with
  | nil => exact ⟨rfl, rfl⟩
  | cons w lost ih =>
      obtain ⟨hfleet, hlive⟩ := ih (v.dropWorker w)
      rw [List.foldl_cons, hfleet, hlive]
      have hone : (v.dropWorker w).shared.fleet.find id =
            (if id = w then none else v.shared.fleet.find id) ∧
          (v.dropWorker w).live.lookup id = if id = w then none else v.live.lookup id := by
        by_cases hid : id = w
        · rw [if_pos hid, if_pos hid, hid]
          exact ⟨AList.lookup_erase _ _, AList.lookup_erase _ _⟩
        · rw [if_neg hid, if_neg hid]
          exact ⟨Fleet.find_leave_ne _ w id hid, AList.lookup_erase_ne hid⟩
      rw [hone.1, hone.2]
      by_cases hid : id = w
      · simp [hid]
      · simp [hid]

end

end Server

end P2pGpu.Coordinator
