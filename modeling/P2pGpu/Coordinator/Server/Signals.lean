import P2pGpu.Coordinator.Server.Connections
import P2pGpu.Coordinator.Server.Refusals

namespace P2pGpu.Coordinator

open P2pGpu.Protocol

-- A relayed frame names the one who sent it, where the sender named its target.
def Relay.frame (r : Relay) : Signal := { peer := some r.source, payload := some r.payload }

section

variable {F : Type} [Double F]

namespace Session

variable {cfg : Config F} {s : Session} {w : Shared F} {nowMs : UInt64} {token : Token}
  {body : Body F} {payload : Payload} {m : Signal} {r : Relay}

-- What is passed on is within the window, for another worker, and as it was sent.
theorem onSignal_relay (h : (s.onSignal w m).reaction.relay = some r) :
    s.signalsThisWindow + 1 ≤ kMaxSignalsPerWindow ∧ m.peer = some r.target ∧
      m.payload = some r.payload ∧ r.source = s.workerId := by
  unfold onSignal at h
  dsimp only at h
  split at h
  · cases h
  · rename_i hwindow
    split at h
    · rename_i target bytes hpeer hbytes
      split at h
      · cases h
      · split at h
        · cases h
        · cases h
          exact ⟨UInt32.not_lt.mp hwindow, hpeer, hbytes, rfl⟩
    · cases h

theorem onSignal_session (s : Session) (w : Shared F) (m : Signal) :
    (s.onSignal w m).session = { s with signalsThisWindow := s.signalsThisWindow + 1 } := by
  unfold onSignal
  dsimp only
  repeat' split
  all_goals rfl

-- An answer has no part in it.
theorem onResultHeader_window (cfg : Config F) (s : Session) (w : Shared F)
    (header : ResultHeader) (payload : Payload) :
    (s.onResultHeader cfg w header payload).session.signalsThisWindow = s.signalsThisWindow ∧
      (s.onResultHeader cfg w header payload).reaction.relay = none := by
  have hjudge : ∀ (w : Shared F) (taskId : TaskId) (spec : KernelSpec),
      (s.judge cfg w taskId spec header.checksum payload).session.signalsThisWindow =
          s.signalsThisWindow ∧
        (s.judge cfg w taskId spec header.checksum payload).reaction.relay = none := by
    intro w taskId spec
    unfold judge
    dsimp only
    split
    · split <;> exact ⟨rfl, rfl⟩
    · split <;> exact ⟨rfl, rfl⟩
    · unfold acceptResult
      dsimp only
      split <;> exact ⟨rfl, rfl⟩
  have hweigh : ∀ (w : Shared F) (taskId : TaskId),
      (s.weigh cfg w taskId header payload).session.signalsThisWindow = s.signalsThisWindow ∧
        (s.weigh cfg w taskId header payload).reaction.relay = none := by
    intro w taskId
    unfold weigh
    split
    · exact ⟨rfl, rfl⟩
    · exact hjudge _ _ _
  have hreadable : ∀ (w : Shared F) (taskId : TaskId),
      (s.onReadable cfg w taskId header payload).session.signalsThisWindow =
          s.signalsThisWindow ∧
        (s.onReadable cfg w taskId header payload).reaction.relay = none := by
    intro w taskId
    unfold onReadable
    split
    · exact ⟨rfl, rfl⟩
    · split
      · exact ⟨rfl, rfl⟩
      · exact hweigh _ _
  unfold onResultHeader
  repeat' split
  all_goals first | exact ⟨rfl, rfl⟩ | exact hreadable _ _

theorem onMessage_relay (cfg : Config F) (s : Session) (w : Shared F) (body : Body F)
    (payload : Payload) (nowMs : UInt64) (token : Token) :
    (s.onMessage cfg w body payload nowMs token).reaction.relay =
      (s.receive cfg w body payload nowMs token).reaction.relay := by
  unfold onMessage
  dsimp only
  split <;> rfl

theorem onMessage_signal (hs : s.handshaked = true) :
    (s.onMessage cfg w (.signal m) payload nowMs token).session =
        { s with nowMs, signalsThisWindow := s.signalsThisWindow + 1 } ∧
      (s.onMessage cfg w (.signal m) payload nowMs token).reaction.relay =
        (({ s with nowMs } : Session).onSignal (s.heardFrom w nowMs) m).reaction.relay := by
  have hreceive := receive_known cfg w (.signal m) payload nowMs token hs
  constructor
  · rw [(onMessage_receive cfg s w _ payload nowMs token).1, hreceive]
    exact onSignal_session _ _ m
  · rw [onMessage_relay, hreceive]
    rfl

-- Whatever else is said, and whatever is said before the greeting.
theorem onMessage_unsignalled (h : s.handshaked = false ∨ ∀ m, body ≠ .signal m) :
    (s.onMessage cfg w body payload nowMs token).session.signalsThisWindow = s.signalsThisWindow ∧
      (s.onMessage cfg w body payload nowMs token).reaction.relay = none := by
  rw [(onMessage_receive cfg s w _ payload nowMs token).1, onMessage_relay]
  by_cases hsilent : (!s.handshaked && !isHello body) = true
  · unfold receive
    dsimp only
    rw [if_pos hsilent]
    exact ⟨rfl, rfl⟩
  · have hunsignalled : ∀ m, body ≠ .signal m := by
      rintro m rfl
      rcases h with hs | hm
      · rw [hs] at hsilent
        exact hsilent rfl
      · exact hm m rfl
    unfold receive
    dsimp only
    rw [if_neg hsilent]
    by_cases hresult : ∃ header, body = .resultHeader header
    · obtain ⟨header, rfl⟩ := hresult
      exact onResultHeader_window cfg { s with nowMs } _ header payload
    · obtain ⟨known, worker, signals, hsession, hkept⟩ := dispatch_keeps cfg { s with nowMs }
        (if s.handshaked = true then { w with fleet := w.fleet.touch s.workerId nowMs } else w)
        payload token fun header he => hresult ⟨header, he⟩
      obtain ⟨hsignals, hrelay⟩ := hkept hunsignalled
      rw [hsession]
      exact ⟨hsignals, hrelay⟩

-- What is said to a signal depends on nothing beyond the connection that it came on.
theorem onSignal_reaction (s : Session) (w w' : Shared F) (m : Signal) :
    (s.onSignal w m).reaction = (s.onSignal w' m).reaction := by
  unfold onSignal
  dsimp only
  repeat' split
  all_goals rfl

theorem onMessage_signal_reaction (hs : s.handshaked = true) :
    (s.onMessage cfg w (.signal m) payload nowMs token).reaction =
      { (s.onSignal w m).reaction with
        replies := (s.onSignal w m).reaction.replies ++ owed w.fleet s.workerId } := by
  have hreceive : s.receive cfg w (.signal m) payload nowMs token =
      ({ s with nowMs } : Session).onSignal (s.heardFrom w nowMs) m :=
    receive_known cfg w (.signal m) payload nowMs token hs
  have hsession := onSignal_session { s with nowMs } (s.heardFrom w nowMs) m
  have hshared : (({ s with nowMs } : Session).onSignal (s.heardFrom w nowMs) m).shared =
      s.heardFrom w nowMs := by
    unfold onSignal
    dsimp only
    repeat' split
    all_goals rfl
  have hreaction : (({ s with nowMs } : Session).onSignal (s.heardFrom w nowMs) m).reaction =
      (s.onSignal w m).reaction := by
    rw [onSignal_reaction _ _ w]
    unfold onSignal
    dsimp only
    repeat' split
    all_goals rfl
  unfold onMessage
  dsimp only
  rw [hreceive, if_pos (by rw [hsession]; exact hs)]
  dsimp only
  rw [hreaction, hshared, drainRevokes_worker (s := { s with nowMs }) (by rw [hsession]),
    drainRevokes_heard]

end Session

namespace Server

open JobManager Session

variable {cfg : Config F} {v₀ v v' : Server F} {e : Event F} {k : Nat} {conn conn' : Conn}
  {payload : Payload} {nowMs : UInt64} {token : Token} {past : List (Server F × Event F)}

theorem reaction_signal (h : Alike k conn v v') (m : Signal) :
    v.reaction cfg k (.signal m) payload nowMs token =
      v'.reaction cfg k (.signal m) payload nowMs token := by
  rw [reaction_open cfg payload nowMs token h.left, reaction_open cfg payload nowMs token h.right]
  cases hs : conn.session.handshaked with
  | true =>
      have howed : owed v.shared.fleet conn.session.workerId =
          owed v'.shared.fleet conn.session.workerId := by
        unfold owed
        rw [h.record]
      rw [onMessage_signal_reaction hs, onMessage_signal_reaction hs, howed,
        onSignal_reaction conn.session v.shared v'.shared]
  | false =>
      rw [onMessage_silent (by rw [receive_silent _ _ _ _ _ hs rfl]; exact hs),
        onMessage_silent (by rw [receive_silent _ _ _ _ _ hs rfl]; exact hs),
        receive_silent _ _ _ _ _ hs rfl, receive_silent _ _ _ _ _ hs rfl]
      rfl

-- A frame goes out where its target was last heard, or nowhere.
def deliver (v : Server F) (relay : Relay) : Option (Nat × Signal) :=
  (v.live.lookup relay.target).map fun k => (k, relay.frame)

-- The connection that an event has a frame relayed from, and what is sent where.
def relays (cfg : Config F) (v : Server F) : Event F → Option (Nat × Nat × Signal)
  | .message k body payload nowMs token =>
      ((v.reaction cfg k body payload nowMs token).bind Reaction.relay).bind fun relay =>
        (v.deliver relay).map fun sent => (k, sent)
  | _ => none

-- The frames that a connection had relayed since its window was last reset.
def relaysSince (cfg : Config F) (k : Nat) (past : List (Server F × Event F)) : Nat :=
  past.foldl (fun n x =>
    if x.1.resets cfg x.2 k then 0
    else if (x.1.relays cfg x.2).map Prod.fst = some k then n + 1
    else n) 0

theorem relaysSince_concat (cfg : Config F) (k : Nat) (past : List (Server F × Event F))
    (v : Server F) (e : Event F) :
    relaysSince cfg k (past ++ [(v, e)]) =
      if v.resets cfg e k then 0
      else if (v.relays cfg e).map Prod.fst = some k then relaysSince cfg k past + 1
      else relaysSince cfg k past := by
  simp [relaysSince]

-- Only a signal is relayed, and only within the window of its sender.
theorem relays_some {dest : Nat} {frame : Signal} (h : v.relays cfg e = some (k, dest, frame)) :
    ∃ (conn : Conn) (m : Signal) (payload : Payload) (nowMs : UInt64) (token : Token)
      (relay : Relay), e = .message k (.signal m) payload nowMs token ∧
      v.conns.lookup k = some conn ∧ conn.session.handshaked = true ∧
      conn.session.signalsThisWindow + 1 ≤ kMaxSignalsPerWindow ∧ m.peer = some relay.target ∧
      m.payload = some relay.payload ∧ relay.source = conn.session.workerId ∧
      v.live.lookup relay.target = some dest ∧ frame = relay.frame := by
  unfold relays at h
  cases e with
  | message k' body payload nowMs token =>
      dsimp only at h
      obtain ⟨relay, hrelay, hsent⟩ := Option.bind_eq_some_iff.mp h
      obtain ⟨reaction, hreaction, hsome⟩ := Option.bind_eq_some_iff.mp hrelay
      obtain ⟨sent, hdeliver, hsent⟩ := Option.map_eq_some_iff.mp hsent
      cases hsent
      cases hconn : v.conns.lookup k with
      | none =>
          unfold Server.reaction turn at hreaction
          rw [hconn] at hreaction
          cases hreaction
      | some conn =>
          rw [reaction_open cfg payload nowMs token hconn] at hreaction
          cases hreaction
          have hunsignalled : ¬ (conn.session.handshaked = false ∨ ∀ m, body ≠ .signal m) := by
            intro hnone
            rw [(onMessage_unsignalled hnone).2] at hsome
            cases hsome
          obtain ⟨hknown, m, rfl⟩ : conn.session.handshaked = true ∧ ∃ m, body = .signal m := by
            constructor
            · cases hs : conn.session.handshaked with
              | true => rfl
              | false => exact absurd (.inl hs) hunsignalled
            · by_contra hnone
              exact hunsignalled (.inr fun m hm => hnone ⟨m, hm⟩)
          rw [(onMessage_signal hknown).2] at hsome
          obtain ⟨hwindow, hpeer, hpayload, hsource⟩ := onSignal_relay hsome
          unfold deliver at hdeliver
          obtain ⟨_, hlive, hframe⟩ := Option.map_eq_some_iff.mp hdeliver
          cases hframe
          exact ⟨conn, m, payload, nowMs, token, relay, rfl, rfl, hknown, hwindow, hpeer, hpayload,
            hsource, hlive, rfl⟩
  | _ => cases h

-- No counter of signals is about to start over.
def counts (v : Server F) : Event F → Bool
  | .message k (.signal _) _ _ _ => (v.conns.lookup k).all fun conn =>
      !conn.session.handshaked || decide (conn.session.signalsThisWindow.toNat + 1 < 2 ^ 32)
  | _ => true

-- What was relayed was counted.
structure Windowed (cfg : Config F) (v : Server F) (past : List (Server F × Event F)) : Prop where
  counted : ∀ k conn, v.conns.lookup k = some conn →
    relaysSince cfg k past ≤ conn.session.signalsThisWindow.toNat
  bounded : ∀ k, relaysSince cfg k past ≤ kMaxSignalsPerWindow.toNat
  unused : ∀ k, v.nextConnId ≤ k → relaysSince cfg k past = 0

-- What is relayed is a signal that the window lets through.
theorem relays_windowed (h : (v.relays cfg e).map Prod.fst = some k) :
    ∃ conn m payload nowMs token, e = .message k (.signal m) payload nowMs token ∧
      v.conns.lookup k = some conn ∧ conn.session.handshaked = true ∧
      conn.session.signalsThisWindow + 1 ≤ kMaxSignalsPerWindow := by
  obtain ⟨⟨_, dest, frame⟩, hsome, rfl⟩ := Option.map_eq_some_iff.mp h
  obtain ⟨conn, m, payload, nowMs, token, relay, he, hconn, hknown, hwindow, -⟩ :=
    relays_some hsome
  exact ⟨conn, m, payload, nowMs, token, he, hconn, hknown, hwindow⟩

theorem counts_succ {m : Signal}
    (h : v.counts (.message k (.signal m) payload nowMs token) = true)
    (hconn : v.conns.lookup k = some conn) (hknown : conn.session.handshaked = true) :
    (conn.session.signalsThisWindow + 1).toNat = conn.session.signalsThisWindow.toNat + 1 := by
  have hlt : conn.session.signalsThisWindow.toNat + 1 < 2 ^ 32 := by
    simpa [counts, hconn, hknown] using h
  rw [UInt32.toNat_add, UInt32.toNat_one]
  omega

theorem Windowed.counted_next (h : Windowed cfg v past) (hcounts : v.counts e = true)
    (hconn' : (v.next cfg e).conns.lookup k = some conn') :
    relaysSince cfg k (past ++ [(v, e)]) ≤ conn'.session.signalsThisWindow.toNat := by
  rw [relaysSince_concat]
  by_cases hreset : v.resets cfg e k = true
  · rw [if_pos hreset]
    exact Nat.zero_le _
  rw [if_neg hreset]
  by_cases hk : (v.relays cfg e).map Prod.fst = some k
  · rw [if_pos hk]
    obtain ⟨conn, m, payload, nowMs, token, rfl, hconn, hknown, -⟩ := relays_windowed hk
    have hold := h.counted k conn hconn
    have hnext := counts_succ hcounts hconn hknown
    cases next_becomes cfg v _ hconn' with
    | fresh he => cases he
    | idles _ _ _ hsilent => exact absurd rfl (hsilent _ _ _ _)
    | resets _ _ hreset' => exact absurd hreset' hreset
    | speaks conn₀ _ _ _ _ he hconn₀ hsession =>
        cases he
        obtain rfl : conn₀ = conn := Option.some.inj (hconn₀.symm.trans hconn)
        rw [hsession, (onMessage_signal hknown).1]
        dsimp only
        omega
  · rw [if_neg hk]
    cases next_becomes cfg v e hconn' with
    | fresh he hid hsession => rw [h.unused k (le_of_eq hid.symm)]; exact Nat.zero_le _
    | idles conn hconn _ _ hsession =>
        obtain ⟨abusive, hsession⟩ := hsession
        rw [hsession]
        exact h.counted k conn hconn
    | resets conn hconn hreset' => exact absurd hreset' hreset
    | speaks conn body payload nowMs token he hconn hsession =>
        have hold := h.counted k conn hconn
        rw [hsession]
        by_cases hsignal : conn.session.handshaked = true ∧ ∃ m, body = .signal m
        · obtain ⟨hknown, m, rfl⟩ := hsignal
          have hnext := counts_succ (he ▸ hcounts) hconn hknown
          rw [(onMessage_signal hknown).1]
          dsimp only
          omega
        · have hother : conn.session.handshaked = false ∨ ∀ m, body ≠ .signal m := by
            cases hknown : conn.session.handshaked with
            | false => exact .inl rfl
            | true => exact .inr fun m hm => hsignal ⟨hknown, m, hm⟩
          rw [(onMessage_unsignalled hother).1]
          exact hold

theorem Windowed.bounded_next (h : Windowed cfg v past) (hcounts : v.counts e = true) (k : Nat) :
    relaysSince cfg k (past ++ [(v, e)]) ≤ kMaxSignalsPerWindow.toNat := by
  rw [relaysSince_concat]
  split
  · exact Nat.zero_le _
  · split
    · rename_i hk
      obtain ⟨conn, m, payload, nowMs, token, rfl, hconn, hknown, hwindow⟩ := relays_windowed hk
      have hold := h.counted k conn hconn
      have hnext := counts_succ hcounts hconn hknown
      have hle := UInt32.le_iff_toNat_le.mp hwindow
      omega
    · exact h.bounded k

theorem Windowed.unused_next (h : Windowed cfg v past) (hn : v.Named)
    (hk : (v.next cfg e).nextConnId ≤ k) : relaysSince cfg k (past ++ [(v, e)]) = 0 := by
  have hnew : v.nextConnId ≤ k := (nextConnId_le cfg v e).trans hk
  rw [relaysSince_concat]
  split
  · rfl
  · split
    · rename_i hrelays
      obtain ⟨conn, m, payload, nowMs, token, he, hconn, -⟩ := relays_windowed hrelays
      have hlt := (hn.connId hconn).2.2
      omega
    · exact h.unused k hnew

theorem Windowed.next (h : Windowed cfg v past) (hn : v.Named) (hcounts : v.counts e = true) :
    Windowed cfg (v.next cfg e) (past ++ [(v, e)]) where
  counted _ _ hconn' := h.counted_next hcounts hconn'
  bounded k := h.bounded_next hcounts k
  unused _ hk := h.unused_next hn hk

theorem Windowed.step (h : Windowed cfg v past) (hn : v.Named) (hcounts : v.counts e = true)
    (hstep : Step cfg v e v') : Windowed cfg v' (past ++ [(v, e)]) := by
  have hnext := h.next hn hcounts
  have hconns : v'.conns = (v.next cfg e).conns := by rw [hstep.rest]
  have hid : v'.nextConnId = (v.next cfg e).nextConnId := by rw [hstep.rest]
  refine ⟨fun k conn hconn => ?_, hnext.bounded, fun k hk => ?_⟩
  · rw [hconns] at hconn
    exact hnext.counted k conn hconn
  · rw [hid] at hk
    exact hnext.unused k hk

theorem windowed_of_run (h₀ : v₀.Up)
    (h : Reach (Recalling (Step cfg)) (fun r e => r.1.counts e = true) (v₀, []) (v, past)) :
    Windowed cfg v past := by
  have hinv := Recalling.invariant h (fun v past => v.Named ∧ Windowed cfg v past)
    ⟨Named.up h₀, fun k conn hconn => Nat.zero_le _, fun _ => Nat.zero_le _, fun _ _ => rfl⟩
    fun r past e r' _ hcounts hi hstep =>
      ⟨hi.1.step hstep, hi.2.step hi.1 hcounts hstep⟩
  exact hinv.2

-- Whoever can be reached is reached on a connection of its own.
def Listed (v : Server F) : Prop :=
  ∀ id k, v.live.lookup id = some k →
    ∃ conn, v.conns.lookup k = some conn ∧ conn.session.handshaked = true ∧
      conn.session.workerId = id

theorem Listed.same (h : v.Listed) (hlive : ∀ id k, v'.live.lookup id = some k →
      v.live.lookup id = some k)
    (hconns : ∀ k conn, v.conns.lookup k = some conn →
      ∃ conn', v'.conns.lookup k = some conn' ∧ conn.session.SameParty conn'.session) :
    v'.Listed := by
  intro id k hid
  obtain ⟨conn, hconn, hknown, hworker⟩ := h id k (hlive id k hid)
  obtain ⟨conn', hconn', hparty⟩ := hconns k conn hconn
  exact ⟨conn', hconn', hparty.handshaked.trans hknown, hparty.workerId.trans hworker⟩

theorem lookup_erase_some {live : Table WorkerId Nat} {lost id : WorkerId}
    (h : (live.erase lost).lookup id = some k) : id ≠ lost ∧ live.lookup id = some k := by
  by_cases hid : id = lost
  · rw [hid, AList.lookup_erase] at h
    cases h
  · rw [AList.lookup_erase_ne hid] at h
    exact ⟨hid, h⟩

theorem Listed.close (h : v.Listed) (connId : Nat) : (v.closeConn connId).Listed := by
  cases hconn : v.conns.lookup connId with
  | none =>
      rw [closeConn_closed hconn]
      exact h
  | some closing =>
      rw [closeConn_open hconn]
      intro id k hid
      obtain ⟨hne, hlive⟩ := lookup_erase_some hid
      obtain ⟨conn, hopen, hknown, hworker⟩ := h id k hlive
      have hk : k ≠ connId := by
        rintro rfl
        obtain rfl : conn = closing := Option.some.inj (hopen.symm.trans hconn)
        exact hne hworker.symm
      exact ⟨conn, (AList.lookup_erase_ne hk).trans hopen, hknown, hworker⟩

theorem Listed.editConn (h : v.Listed) (connId : Nat) (edit : Conn → Conn)
    (hedit : ∀ conn : Conn, conn.session.SameParty (edit conn).session) :
    (v.editConn connId edit).Listed := by
  refine h.same (fun _ _ hid => hid) fun k conn hconn => ?_
  rw [lookup_editConn]
  by_cases hk : k = connId
  · rw [if_pos hk, hconn]
    exact ⟨edit conn, rfl, hedit conn⟩
  · rw [if_neg hk]
    exact ⟨conn, hconn, .refl _⟩

theorem Listed.frame (h : v.Listed) (hn : v.Named) (connId : Nat) (body : Body F)
    (payload : Payload) (nowMs : UInt64) (token : Token) :
    (v.onFrame cfg connId body payload nowMs token).Listed := by
  cases hconn : v.conns.lookup connId with
  | none =>
      rw [onFrame_closed hconn]
      exact h
  | some conn =>
      have hframe := onFrame_framed cfg body payload nowMs token hconn
      have hheard := onMessage_heard cfg conn.session v.shared body payload nowMs token
      generalize conn.session.onMessage cfg v.shared body payload nowMs token = turn
        at hframe hheard
      -- Somebody who was listed has greeted, and does not do so again.
      have hparty : conn.session.handshaked = true → conn.session.SameParty turn.session := by
        intro hknown
        rcases heard_party hheard with hparty | ⟨hello, hgreets⟩
        · exact hparty
        · have hsilent := hgreets.silent
          rw [hknown] at hsilent
          cases hsilent
      have hold : ∀ id k, v.live.lookup id = some k → k ≠ connId →
          ∃ conn, (v.onFrame cfg connId body payload nowMs token).conns.lookup k = some conn ∧
            conn.session.handshaked = true ∧ conn.session.workerId = id := by
        intro id k hid hk
        rw [hframe.others k hk]
        exact h id k hid
      intro id k hid
      rcases hframe.own with ⟨-, hown, hlive⟩ | ⟨-, hsilent, -, hlive⟩
      · rw [hlive] at hid
        have hkept : v.live.lookup id = some k → ∃ conn,
            (v.onFrame cfg connId body payload nowMs token).conns.lookup k = some conn ∧
              conn.session.handshaked = true ∧ conn.session.workerId = id := by
          intro hid
          by_cases hk : k = connId
          · obtain ⟨conn', hconn', hknown, hworker⟩ := h id k hid
            rw [hk, hconn] at hconn'
            cases hconn'
            have hsame := hparty hknown
            rw [hk]
            exact ⟨_, hown, hsame.handshaked.trans hknown, hsame.workerId.trans hworker⟩
          · exact hold id k hid hk
        by_cases hworker : turn.session.workerId ≠ Id.nil
        · rw [if_pos hworker, Table.lookup_insert_eq] at hid
          by_cases he : id = turn.session.workerId
          · rw [if_pos he] at hid
            cases hid
            refine ⟨_, hown, ?_, he.symm⟩
            rcases heard_party hheard with hsame | ⟨hello, hgreets⟩
            · cases hknown : conn.session.handshaked with
              | true => exact hsame.handshaked.trans hknown
              | false =>
                  have hnobody := hn.nobody hconn hknown
                  exact absurd (hsame.workerId.trans hnobody) hworker
            · exact hgreets.handshaked
          · rw [if_neg he] at hid
            exact hkept hid
        · rw [if_neg hworker] at hid
          exact hkept hid
      · rw [hlive] at hid
        obtain ⟨-, hid⟩ := lookup_erase_some hid
        refine hold id k hid fun hk => ?_
        obtain ⟨conn', hconn', hknown, -⟩ := h id k hid
        rw [hk, hconn] at hconn'
        cases hconn'
        rw [(hparty hknown).handshaked, hknown] at hsilent
        cases hsilent

theorem Listed.next (h : v.Listed) (hn : v.Named) (cfg : Config F) (e : Event F) :
    (v.next cfg e).Listed := by
  cases e with
  | createJob kernelId totalUnits seed unitsPerGroup => exact h
  | seedRender render inputRef => exact h
  | «open» =>
      refine h.same (fun _ _ hid => hid) fun k conn hconn => ?_
      have hk : k ≠ v.nextConnId := by
        have hlt := (hn.connId hconn).2.2
        omega
      exact ⟨conn, (AList.lookup_insert_ne hk).trans hconn, .refl _⟩
  | text connId => exact h.editConn connId _ fun _ => ⟨rfl, rfl, rfl⟩
  | malformed connId =>
      obtain ⟨edit, hedit, hreject⟩ := rejectFrame_cases v connId
      change (v.rejectFrame connId).Listed
      rcases hreject with heq | heq
      · rw [← heq]
        exact (h.editConn connId edit hedit).close connId
      · rw [← heq]
        exact h.editConn connId edit hedit
  | close connId => exact h.close connId
  | sweep nowMs flushed =>
      refine h.same (fun id k hid => ?_) fun k conn hconn => ?_
      · obtain ⟨-, hlive⟩ := find_dropLost (v.lostAt cfg nowMs) (v.expireLeases cfg nowMs) id
        change (v.sweep cfg nowMs flushed).live.lookup id = some k at hid
        rw [(sweep_holdings cfg v nowMs flushed).live id] at hid
        have hkept := hlive.symm.trans hid
        by_cases hlost : id ∈ v.lostAt cfg nowMs
        · rw [if_pos hlost] at hkept
          cases hkept
        · rw [if_neg hlost] at hkept
          exact hkept
      · show ∃ conn', (v.sweep cfg nowMs flushed).conns.lookup k = some conn' ∧ _
        rw [lookup_sweep, hconn]
        split
        · exact ⟨_, rfl, ⟨rfl, rfl, rfl⟩⟩
        · exact ⟨conn, rfl, .refl _⟩
  | message connId body payload nowMs token => exact h.frame hn connId body payload nowMs token

theorem listed_of_run {guard : Server F → Event F → Prop} (h₀ : v₀.Up)
    (h : Reach (Step cfg) guard v₀ v) : v.Listed := by
  have hinv := h.invariant (fun v => v.Named ∧ v.Listed) ⟨Named.up h₀, ?_⟩ ?_
  · exact hinv.2
  · intro id k hid
    rw [h₀.live] at hid
    cases hid
  · rintro v e v' ⟨hn, hl⟩ - hstep
    refine ⟨hn.step hstep, (hl.next hn cfg e).same (fun id k hid => ?_) fun k conn hconn => ?_⟩
    · rw [← Table.lookup_of_perm hstep.live id] at hid
      exact hid
    · have hconns : v'.conns = (v.next cfg e).conns := by rw [hstep.rest]
      rw [hconns]
      exact ⟨conn, hconn, .refl _⟩

-- A sender is the same whether another worker is there or has left.
theorem alike_closeConn {dest : Nat} {other : Conn} (hconn : v.conns.lookup k = some conn)
    (hdest : v.conns.lookup dest = some other)
    (hother : other.session.workerId ≠ conn.session.workerId) :
    Alike k conn v (v.closeConn dest) := by
  have hk : k ≠ dest := by
    rintro rfl
    obtain rfl : conn = other := Option.some.inj (hconn.symm.trans hdest)
    exact hother rfl
  rw [closeConn_open hdest]
  refine ⟨hconn, (AList.lookup_erase_ne hk).trans hconn, ?_⟩
  unfold onDisconnect
  split
  · exact (Fleet.find_leave_ne v.shared.fleet _ _ (Ne.symm hother)).symm
  · rfl

-- What was relayed: a frame that a connection sent, on to the worker it named.
structure Relayed (cfg : Config F) (v : Server F) (e : Event F) (k dest : Nat) (frame : Signal) :
    Prop where
  sender : ∃ conn m payload nowMs token, e = .message k (.signal m) payload nowMs token ∧
    v.conns.lookup k = some conn ∧ frame.peer = some conn.session.workerId ∧
    frame.payload = m.payload ∧ frame.payload.isSome = true ∧
    ∃ target conn', m.peer = some target ∧ v.conns.lookup dest = some conn' ∧
      conn'.session.handshaked = true ∧ conn'.session.workerId = target

-- Where no counter of signals starts over, no window has more than its share relayed. What
-- is relayed goes to the worker that was named, as it was sent and under the name of its
-- sender, and whether there was such a worker is not told.
theorem signals_contained (h₀ : v₀.Up)
    (h : Reach (Recalling (Step cfg)) (fun r e => r.1.counts e = true) (v₀, []) (v, past)) :
    (∀ v v' k conn m payload nowMs token, Alike k conn v v' →
      v.reaction cfg k (.signal m) payload nowMs token =
        v'.reaction cfg k (.signal m) payload nowMs token) ∧
    (∀ k, relaysSince cfg k past ≤ 64) ∧
    ∀ x ∈ past, ∀ k dest frame, x.1.relays cfg x.2 = some (k, dest, frame) →
      Relayed cfg x.1 x.2 k dest frame := by
  refine ⟨fun v v' k conn m payload nowMs token halike => reaction_signal halike m,
    (windowed_of_run h₀ h).bounded, ?_⟩
  · intro x hx k dest frame hrelays
    obtain ⟨conn, m, payload, nowMs, token, relay, he, hconn, -, -, hpeer, hpayload, hsource,
      hlive, rfl⟩ := relays_some hrelays
    have hreached := Recalling.past h x hx
    obtain ⟨conn', hconn', hknown, hworker⟩ := listed_of_run h₀ hreached _ _ hlive
    refine ⟨⟨conn, m, payload, nowMs, token, he, hconn, ?_, hpayload.symm, rfl, relay.target, conn',
      hpeer, hconn', hknown, hworker⟩⟩
    rw [← hsource]
    rfl

end Server

end

namespace Server

open Session

-- An offer of one byte to the second worker.
def offers (nowMs : UInt64) : Event Rat :=
  .message 1 (.signal { peer := some ⟨2, 0⟩, payload := some [7] }) [] nowMs []

def connects : List (Event Rat) := joins 1 10 80 ++ joins 2 10 80

theorem signals_contained_offer :
    relaysSince (searches {}) 1 (searchStart.history (searches {}) (connects ++ [offers 20])) = 1 ∧
      relaysSince (searches {}) 1 (searchStart.history (searches {}) (connects ++ [offers 20])) ≤
        64 := by
  have hchecks : Recalling.passes (next (searches {})) (fun _ v e => v.counts e) [] searchStart
      (connects ++ [offers 20]) = true := by decide +kernel
  have hrun : Reach (Recalling (Step (searches {}))) (fun r e => r.1.counts e = true)
      (searchStart, []) (searchStart.runAll (searches {}) (connects ++ [offers 20]),
        [] ++ searchStart.history (searches {}) (connects ++ [offers 20])) :=
    Recalling.foldl_passes (step_next (searches {})) (fun _ _ _ h => h) _ [] searchStart hchecks
  exact ⟨by decide +kernel, (signals_contained searchStart_started.toUp hrun).2.1 1⟩

-- The first worker after so many offers to the second, which is there all along.
structure Offering (n : Nat) (v : Server Rat) : Prop where
  own : ∃ conn, v.conns.lookup 1 = some conn ∧ conn.session.handshaked = true ∧
    conn.session.workerId = ⟨1, 0⟩ ∧ conn.session.signalsThisWindow = UInt32.ofNat n
  other : v.live.lookup ⟨2, 0⟩ = some 2

theorem onSignal_offer (s : Session) (w : Shared Rat) (hs : s.workerId = ⟨1, 0⟩) :
    (s.onSignal w { peer := some ⟨2, 0⟩, payload := some [7] }).reaction.relay =
      if kMaxSignalsPerWindow < s.signalsThisWindow + 1 then none
      else some ⟨⟨2, 0⟩, s.workerId, [7]⟩ := by
  unfold onSignal
  dsimp only
  split
  · rfl
  · rw [if_neg (by decide), if_neg (by rw [hs]; decide)]

theorem Offering.next {n : Nat} {v : Server Rat} (h : Offering n v) :
    Offering (n + 1) (v.next (searches {}) (offers 20)) ∧
      (v.relays (searches {}) (offers 20)).map Prod.fst =
        if kMaxSignalsPerWindow < UInt32.ofNat (n + 1) then none else some 1 := by
  obtain ⟨conn, hconn, hknown, hworker, hsignals⟩ := h.own
  have hcount : conn.session.signalsThisWindow + 1 = UInt32.ofNat (n + 1) := by
    rw [hsignals]
    apply UInt32.toNat_inj.mp
    simp
  have hturn := @onMessage_signal Rat _ (searches {}) conn.session v.shared 20 [] []
    { peer := some ⟨2, 0⟩, payload := some [7] } hknown
  have hframe := onFrame_framed (searches {}) (.signal { peer := some ⟨2, 0⟩, payload := some [7] })
    [] 20 [] hconn
  refine ⟨?_, ?_⟩
  · rcases hframe.own with ⟨-, hown, hlive⟩ | ⟨-, hsilent, -, -⟩
    · rw [hturn.1] at hown hlive
      refine ⟨⟨_, hown, hknown, hworker, hcount⟩, ?_⟩
      show (v.onFrame (searches {}) 1 _ _ _ _).live.lookup ⟨2, 0⟩ = some 2
      rw [hlive]
      dsimp only
      rw [hworker, if_pos (by decide), AList.lookup_insert_ne (by decide)]
      exact h.other
    · rw [hturn.1] at hsilent
      dsimp only at hsilent
      rw [hknown] at hsilent
      cases hsilent
  · unfold relays offers
    dsimp only
    rw [reaction_open (searches {}) [] 20 [] hconn, Option.bind_some, hturn.2,
      onSignal_offer { conn.session with nowMs := 20 } _ hworker]
    dsimp only
    rw [hcount]
    split
    · rfl
    · unfold deliver
      rw [Option.bind_some]
      dsimp only
      rw [h.other]
      rfl

-- The window is full after the first of them, and the others are dropped.
theorem offering (n : Nat) (hn : n < 2 ^ 32) : ∃ v past,
    Reach (Recalling (Step (searches {}))) (fun _ _ => True) (searchStart, []) (v, past) ∧
      Offering n v ∧ relaysSince (searches {}) 1 past = min n 64 := by
  induction n with
  | zero =>
      have hparty : ((searchStart.runAll (searches {}) connects).conns.lookup 1).map (fun conn =>
          (conn.session.handshaked, conn.session.workerId, conn.session.signalsThisWindow)) =
            some (true, ⟨1, 0⟩, 0) := by decide +kernel
      obtain ⟨conn, hconn, hown⟩ := Option.map_eq_some_iff.mp hparty
      rw [Prod.mk.injEq, Prod.mk.injEq] at hown
      exact ⟨_, _, recalls_history (searches {}) connects searchStart [],
        ⟨⟨conn, hconn, hown.1, hown.2.1, hown.2.2⟩, by decide +kernel⟩, by decide +kernel⟩
  | succ n ih =>
      obtain ⟨v, past, hrun, hoffering, hcount⟩ := ih (by omega)
      obtain ⟨hnext, hrelays⟩ := hoffering.next
      have hwindow : kMaxSignalsPerWindow < UInt32.ofNat (n + 1) ↔ 64 < n + 1 := by
        have hlimit : kMaxSignalsPerWindow.toNat = 64 := rfl
        have hsmall : (UInt32.ofNat (n + 1)).toNat = n + 1 := UInt32.toNat_ofNat_of_lt hn
        rw [UInt32.lt_iff_toNat_lt, hlimit, hsmall]
      refine ⟨_, _, Reach.tail hrun trivial (recalls_next (searches {}) v past (offers 20)), hnext,
        ?_⟩
      rw [relaysSince_concat, hrelays, hcount]
      have hidle : v.resets (searches {}) (offers 20) 1 = false := rfl
      rw [hidle, if_neg Bool.false_ne_true]
      by_cases hmany : 64 < n + 1
      · rw [if_pos (hwindow.mpr hmany), if_neg nofun]
        omega
      · rw [if_neg (mt hwindow.mp hmany), if_pos rfl]
        omega

-- Until the counter starts over.
theorem window_wraps : ¬ ∀ v past,
    Reach (Recalling (Step (searches {}))) (fun _ _ => True) (searchStart, []) (v, past) →
      ∀ k, relaysSince (searches {}) k past ≤ 64 := by
  intro h
  obtain ⟨v, past, hrun, hoffering, hcount⟩ := offering (2 ^ 32 - 1) (by omega)
  have hlast := h _ _ (Reach.tail hrun trivial (recalls_next (searches {}) v past (offers 20))) 1
  have hrelays := hoffering.next.2
  have hzero : UInt32.ofNat (2 ^ 32 - 1 + 1) = 0 := rfl
  rw [hzero, if_neg (by decide)] at hrelays
  have hidle : v.resets (searches {}) (offers 20) 1 = false := rfl
  rw [relaysSince_concat, hrelays, hcount, hidle, if_neg Bool.false_ne_true, if_pos rfl] at hlast
  omega

end Server

end P2pGpu.Coordinator
