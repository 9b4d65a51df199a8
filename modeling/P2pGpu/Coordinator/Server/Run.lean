import P2pGpu.Coordinator.Job.Run
import P2pGpu.Coordinator.Server
import P2pGpu.Coordinator.Session.Message

namespace P2pGpu.Coordinator

open P2pGpu.Protocol

namespace Server

section

variable {F : Type} [Double F] {cfg : Config F} {v v' : Server F} {connId : Nat} {conn : Conn}
  {body : Body F} {payload : Payload} {nowMs : UInt64} {token : Token}

-- A coordinator that has just come up, whatever jobs it has read back.
structure Up (v : Server F) : Prop where
  fleet : v.shared.fleet = {}
  tokens : ∀ rep, v.shared.reputation = some rep → rep.byToken = ∅ ∧ rep.tokens = ∅
  spotChecks : ∀ pool, v.shared.spotChecks = some pool → pool.known = [] ∧ pool.issued = ∅
  compositor : ∀ c, v.shared.compositor = some c → c.tiles = ∅
  conns : v.conns = ∅
  live : v.live = ∅
  nextConnId : 0 < v.nextConnId

-- And one with nothing to read back.
structure Started (v : Server F) : Prop extends Up v where
  jobs : v.shared.jobs = {}

-- Every worker that is spoken of is somebody.
structure Named (v : Server F) : Prop where
  nextConnId : 0 < v.nextConnId
  connId : ∀ {k conn}, v.conns.lookup k = some conn →
    conn.session.connId = k ∧ 0 < k ∧ k < v.nextConnId
  worker : ∀ {k conn}, v.conns.lookup k = some conn → conn.session.handshaked = true →
    conn.session.workerId ≠ Id.nil
  nobody : ∀ {k conn}, v.conns.lookup k = some conn → conn.session.handshaked = false →
    conn.session.workerId = Id.nil
  tokens : ∀ {rep token id}, v.shared.reputation = some rep → rep.byToken.lookup token = some id →
    id ≠ Id.nil

theorem Named.up (h : v.Up) : v.Named where
  nextConnId := h.nextConnId
  connId hk := by
    rw [h.conns] at hk
    cases hk
  worker hk := by
    rw [h.conns] at hk
    cases hk
  nobody hk := by
    rw [h.conns] at hk
    cases hk
  tokens hrep hid := by
    rw [(h.tokens _ hrep).1] at hid
    cases hid

theorem lookup_editConn (v : Server F) (connId k : Nat) (edit : Conn → Conn) :
    (v.editConn connId edit).conns.lookup k =
      if k = connId then (v.conns.lookup k).map edit else v.conns.lookup k :=
  Table.lookup_modify v.conns connId k edit

theorem editConn_id (v : Server F) (connId : Nat) : v.editConn connId id = v := by
  cases v
  simp only [editConn, Table.modify]
  congr 1
  apply AList.ext
  simp

-- Only a connection that nobody spoke on yet is closed by what it says.
theorem heard_close {s : Session} {w : Shared F} {turn : Turn F}
    (h : s.Heard cfg w nowMs token body payload turn) (hclose : turn.reaction.close = true) :
    turn.session.handshaked = false ∧ turn.session.workerId = s.workerId := by
  cases h with
  | silent hs hsession hshared => exact ⟨hsession.handshaked.trans hs, hsession.workerId⟩
  | greets hello h =>
      rw [h.stays] at hclose
      cases hclose
  | routine hs hstays h =>
      rw [hstays] at hclose
      cases hclose
  | judged header taskId n hs hstays =>
      rw [hstays] at hclose
      cases hclose

-- A frame on an open connection. What all share is as the message left it, whether
-- or not the connection goes on.
structure Framed (cfg : Config F) (v : Server F) (connId : Nat) (conn : Conn) (turn : Turn F)
    (v' : Server F) : Prop where
  shared : v'.shared = turn.shared
  nextConnId : v'.nextConnId = v.nextConnId
  others : ∀ k, k ≠ connId → v'.conns.lookup k = v.conns.lookup k
  own : (turn.reaction.close = false ∧
      v'.conns.lookup connId = some { conn with session := turn.session } ∧
      v'.live = if turn.session.workerId ≠ Id.nil then v.live.insert turn.session.workerId connId
        else v.live) ∨
    (turn.reaction.close = true ∧ turn.session.handshaked = false ∧
      v'.conns.lookup connId = none ∧ v'.live = v.live.erase turn.session.workerId)

variable (cfg body payload nowMs token) in
theorem onFrame_framed (hconn : v.conns.lookup connId = some conn) :
    v.Framed cfg connId conn
      (conn.session.onMessage cfg v.shared body payload nowMs token)
      (v.onFrame cfg connId body payload nowMs token) := by
  have hheard := Session.onMessage_heard cfg conn.session v.shared body payload nowMs token
  have hturn : v.turn cfg connId body payload nowMs token =
      some (conn.session.onMessage cfg v.shared body payload nowMs token) := by
    rw [turn, hconn]
    rfl
  unfold onFrame
  rw [hturn]
  dsimp only
  generalize conn.session.onMessage cfg v.shared body payload nowMs token = turn at hheard
  have hedit : ∀ k, (({ v with shared := turn.shared } : Server F).editConn connId
      fun conn => { conn with session := turn.session }).conns.lookup k =
      if k = connId then some { conn with session := turn.session } else v.conns.lookup k := by
    intro k
    rw [lookup_editConn]
    by_cases hk : k = connId
    · rw [if_pos hk, if_pos hk, hk, hconn]
      rfl
    · rw [if_neg hk, if_neg hk]
  by_cases hclose : turn.reaction.close = true
  · obtain ⟨hsilent, hworker⟩ := heard_close hheard hclose
    rw [if_pos hclose]
    have hown := hedit connId
    rw [if_pos rfl] at hown
    unfold closeConn
    rw [hown]
    refine ⟨?_, rfl, fun k hk => ?_, .inr ⟨hclose, hsilent, ?_, rfl⟩⟩
    · dsimp only [Session.onDisconnect]
      rw [if_neg (by rw [hsilent]; exact Bool.false_ne_true)]
      rfl
    · refine (AList.lookup_erase_ne hk).trans ?_
      rw [hedit k, if_neg hk]
    · exact AList.lookup_erase _ _
  · have hstays : turn.reaction.close = false := Bool.eq_false_iff.mpr hclose
    rw [if_neg hclose]
    by_cases hworker : turn.session.workerId ≠ Id.nil
    · rw [if_pos hworker]
      refine ⟨rfl, rfl, fun k hk => ?_, .inl ⟨hstays, ?_, ?_⟩⟩
      · exact (hedit k).trans (if_neg hk)
      · exact (hedit connId).trans (if_pos rfl)
      · rw [if_pos hworker]
        rfl
    · rw [if_neg hworker]
      refine ⟨rfl, rfl, fun k hk => ?_, .inl ⟨hstays, ?_, ?_⟩⟩
      · exact (hedit k).trans (if_neg hk)
      · exact (hedit connId).trans (if_pos rfl)
      · rw [if_neg hworker]
        rfl

theorem onFrame_closed (hconn : v.conns.lookup connId = none) :
    v.onFrame cfg connId body payload nowMs token = v := by
  unfold onFrame turn
  rw [hconn]
  rfl

theorem closeConn_closed (hconn : v.conns.lookup connId = none) : v.closeConn connId = v := by
  unfold closeConn
  rw [hconn]

theorem closeConn_open (hconn : v.conns.lookup connId = some conn) :
    v.closeConn connId =
      { v with
        shared := conn.session.onDisconnect v.shared
        conns := v.conns.erase connId
        live := v.live.erase conn.session.workerId } := by
  unfold closeConn
  rw [hconn]

-- A frame that cannot be read is counted, and one too many ends the connection.
theorem rejectFrame_cases (v : Server F) (connId : Nat) :
    ∃ edit : Conn → Conn, (∀ conn : Conn, conn.session.SameParty (edit conn).session) ∧
      ((v.editConn connId edit).closeConn connId = v.rejectFrame connId ∨
        v.editConn connId edit = v.rejectFrame connId) := by
  unfold rejectFrame
  cases hconn : v.conns.lookup connId with
  | none =>
      refine ⟨id, fun conn => .refl _, .inl ?_⟩
      have hclosed : (v.editConn connId id).conns.lookup connId = none := by
        rw [lookup_editConn, if_pos rfl, hconn]
        rfl
      rw [closeConn_closed hclosed, editConn_id]
  | some conn =>
      refine ⟨fun c =>
        if kRejectedFramesNoWork ≤ conn.rejectedFrames + 1 then
          { countRejected c with session := { (countRejected c).session with abusive := true } }
        else countRejected c, fun c => ?_, ?_⟩
      · dsimp only
        split
        · exact ⟨rfl, rfl, rfl⟩
        · exact ⟨rfl, rfl, rfl⟩
      · dsimp only
        by_cases hmany : kRejectedFramesDisconnect ≤ conn.rejectedFrames + 1
        · rw [if_pos hmany]
          exact .inl rfl
        · rw [if_neg hmany]
          exact .inr rfl

-- How the names fare where only what all share is touched.
theorem Named.shared (hn : v.Named) (hconns : v'.conns = v.conns)
    (hnext : v'.nextConnId = v.nextConnId)
    (htokens : v'.shared.reputation.map ReputationTable.byToken =
      v.shared.reputation.map ReputationTable.byToken) : v'.Named where
  nextConnId := hnext ▸ hn.nextConnId
  connId hk := by
    rw [hconns] at hk
    rw [hnext]
    exact hn.connId hk
  worker hk := by
    rw [hconns] at hk
    exact hn.worker hk
  nobody hk := by
    rw [hconns] at hk
    exact hn.nobody hk
  tokens {rep token id} hrep hid := by
    rw [hrep] at htokens
    cases hold : v.shared.reputation with
    | none =>
        rw [hold] at htokens
        cases htokens
    | some old =>
        rw [hold] at htokens
        have heq : rep.byToken = old.byToken := Option.some.inj htokens
        exact hn.tokens hold (heq ▸ hid)

theorem Named.withJobs (hn : v.Named) (jobs : JobManager) : (v.withJobs jobs).Named :=
  hn.shared rfl rfl rfl

theorem sameStanding_tokens {w w' : Shared F} (h : w.SameStanding w') :
    w'.reputation.map ReputationTable.byToken = w.reputation.map ReputationTable.byToken := by
  obtain ⟨f, hf, heq⟩ := h
  rw [heq, Option.map_map]
  congr 1
  funext rep
  exact (hf rep).byToken

theorem Named.open (hn : v.Named) : v.openConn.Named where
  nextConnId := Nat.succ_pos _
  connId {k conn} hk := by
    change (AList.insert v.nextConnId _ v.conns).lookup k = some conn at hk
    rw [Table.lookup_insert_eq] at hk
    split at hk
    · rename_i he
      cases hk
      exact ⟨he.symm, he ▸ hn.nextConnId, he ▸ Nat.lt_succ_self _⟩
    · obtain ⟨hid, hpos, hlt⟩ := hn.connId hk
      exact ⟨hid, hpos, Nat.lt_succ_of_lt hlt⟩
  worker {k conn} hk hs := by
    change (AList.insert v.nextConnId _ v.conns).lookup k = some conn at hk
    rw [Table.lookup_insert_eq] at hk
    split at hk
    · cases hk
      cases hs
    · exact hn.worker hk hs
  nobody {k conn} hk hs := by
    change (AList.insert v.nextConnId _ v.conns).lookup k = some conn at hk
    rw [Table.lookup_insert_eq] at hk
    split at hk
    · cases hk
      rfl
    · exact hn.nobody hk hs
  tokens := hn.tokens

theorem onDisconnect_reputation (s : Session) (w : Shared F) :
    (s.onDisconnect w).reputation = w.reputation := by
  unfold Session.onDisconnect
  split <;> rfl

theorem Named.close (hn : v.Named) (connId : Nat) : (v.closeConn connId).Named := by
  cases hconn : v.conns.lookup connId with
  | none =>
      rw [closeConn_closed hconn]
      exact hn
  | some conn =>
      rw [closeConn_open hconn]
      have hback : ∀ {k conn'}, (v.conns.erase connId).lookup k = some conn' →
          v.conns.lookup k = some conn' := by
        intro k conn' hk
        by_cases he : k = connId
        · rw [he, AList.lookup_erase] at hk
          cases hk
        · rwa [AList.lookup_erase_ne he] at hk
      refine ⟨hn.nextConnId, fun hk => hn.connId (hback hk), fun hk => hn.worker (hback hk),
        fun hk => hn.nobody (hback hk), fun hrep => hn.tokens ?_⟩
      exact (onDisconnect_reputation conn.session v.shared).symm.trans hrep

-- An edit that leaves the connection who it is.
theorem Named.editConn (hn : v.Named) (connId : Nat) (edit : Conn → Conn)
    (hedit : ∀ conn : Conn, conn.session.SameParty (edit conn).session) :
    (v.editConn connId edit).Named := by
  have hback : ∀ {k conn'}, (v.editConn connId edit).conns.lookup k = some conn' →
      ∃ conn, v.conns.lookup k = some conn ∧ conn.session.SameParty conn'.session := by
    intro k conn' hk
    rw [lookup_editConn] at hk
    split at hk
    · obtain ⟨conn, hconn, rfl⟩ := Option.map_eq_some_iff.mp hk
      exact ⟨conn, hconn, hedit conn⟩
    · exact ⟨conn', hk, .refl _⟩
  refine ⟨hn.nextConnId, fun hk => ?_, fun hk hs => ?_, fun hk hs => ?_, hn.tokens⟩
  · obtain ⟨conn, hconn, hparty⟩ := hback hk
    rw [hparty.connId]
    exact hn.connId hconn
  · obtain ⟨conn, hconn, hparty⟩ := hback hk
    rw [hparty.workerId]
    exact hn.worker hconn (hparty.handshaked ▸ hs)
  · obtain ⟨conn, hconn, hparty⟩ := hback hk
    rw [hparty.workerId]
    exact hn.nobody hconn (hparty.handshaked ▸ hs)

-- Somebody is who a connection says it is: a new name, or one that a token stands for.
theorem Named.identify (hn : v.Named) (hconn : v.conns.lookup connId = some conn) (hello : Hello) :
    conn.session.identify v.shared hello ≠ Id.nil := by
  obtain ⟨hid, hpos, -⟩ := hn.connId hconn
  have hown : (⟨conn.session.connId, 0⟩ : WorkerId) ≠ Id.nil := by
    intro he
    injection he with hhi
    omega
  unfold Session.identify
  dsimp only
  split
  · rename_i rep tok hrep htoken
    cases hresolve : rep.resolveToken tok with
    | none => exact hown
    | some id =>
        unfold ReputationTable.resolveToken at hresolve
        split at hresolve
        · cases hresolve
        · exact hn.tokens hrep hresolve
  · exact hown

-- The tokens after a message are those before it, but for the one that a greeting mints.
theorem heard_tokens {s : Session} {w : Shared F} {turn : Turn F}
    (h : s.Heard cfg w nowMs token body payload turn) :
    turn.shared.reputation.map ReputationTable.byToken =
        w.reputation.map ReputationTable.byToken ∨
      ∃ hello, s.Greets w hello token turn := by
  cases h with
  | silent hs hsession hshared => exact .inl (by rw [hshared])
  | greets hello h => exact .inr ⟨hello, h⟩
  | routine hs hstays h => exact .inl (sameStanding_tokens h.shared.standing)
  | judged header taskId n hs hstays hbody hsession hlanded hshared =>
      obtain ⟨fleet, -, heq⟩ := hshared
      refine .inl ?_
      rw [heq]
      exact hlanded.rest.2.2.2

theorem heard_party {s : Session} {w : Shared F} {turn : Turn F}
    (h : s.Heard cfg w nowMs token body payload turn) :
    s.SameParty turn.session ∨ ∃ hello, s.Greets w hello token turn := by
  cases h with
  | silent hs hsession hshared => exact .inl hsession
  | greets hello h => exact .inr ⟨hello, h⟩
  | routine hs hstays h => exact .inl h.session
  | judged header taskId n hs hstays hbody hsession => exact .inl hsession

theorem mintToken_lookup {rep : ReputationTable F} {worker id : WorkerId} {drawn tok : Token}
    (h : (rep.mintToken worker drawn).byToken.lookup tok = some id) :
    id = worker ∨ rep.byToken.lookup tok = some id := by
  unfold ReputationTable.mintToken at h
  dsimp only at h
  rw [Table.lookup_insert_eq] at h
  split at h
  · exact .inl (Option.some.inj h).symm
  · split at h
    · exact .inr h
    · rename_i previous hprevious
      by_cases he : tok = previous
      · rw [he, AList.lookup_erase] at h
        cases h
      · rw [AList.lookup_erase_ne he] at h
        exact .inr h

theorem Named.frame (hn : v.Named) (connId : Nat) (body : Body F) (payload : Payload)
    (nowMs : UInt64) (token : Token) :
    (v.onFrame cfg connId body payload nowMs token).Named := by
  cases hconn : v.conns.lookup connId with
  | none =>
      rw [onFrame_closed hconn]
      exact hn
  | some conn =>
      have hframe := onFrame_framed cfg body payload nowMs token hconn
      have hheard := Session.onMessage_heard cfg conn.session v.shared body payload nowMs token
      generalize conn.session.onMessage cfg v.shared body payload nowMs token = turn at hframe hheard
      generalize v.onFrame cfg connId body payload nowMs token = v' at hframe
      obtain ⟨hid, hpos, hlt⟩ := hn.connId hconn
      have hback : ∀ {k conn'}, v'.conns.lookup k = some conn' →
          (k ≠ connId ∧ v.conns.lookup k = some conn') ∨
            (k = connId ∧ conn'.session = turn.session) := by
        intro k conn' hk
        by_cases he : k = connId
        · rcases hframe.own with ⟨-, hown, -⟩ | ⟨-, -, hown, -⟩
          · rw [he, hown] at hk
            cases hk
            exact .inr ⟨he, rfl⟩
          · rw [he, hown] at hk
            cases hk
        · exact .inl ⟨he, (hframe.others k he) ▸ hk⟩
      refine ⟨hframe.nextConnId ▸ hn.nextConnId, fun hk => ?_, fun hk hs => ?_, fun hk hs => ?_,
        fun {rep tok id} hrep hid => ?_⟩
      · rw [hframe.nextConnId]
        rcases hback hk with ⟨-, hold⟩ | ⟨rfl, hsession⟩
        · exact hn.connId hold
        · rw [hsession]
          rcases heard_party hheard with hparty | ⟨hello, hgreets⟩
          · exact ⟨hparty.connId.trans hid, hpos, hlt⟩
          · exact ⟨hgreets.connId.trans hid, hpos, hlt⟩
      · rcases hback hk with ⟨-, hold⟩ | ⟨rfl, hsession⟩
        · exact hn.worker hold hs
        · rw [hsession] at hs ⊢
          rcases heard_party hheard with hparty | ⟨hello, hgreets⟩
          · rw [hparty.workerId]
            exact hn.worker hconn (hparty.handshaked ▸ hs)
          · rw [hgreets.workerId]
            exact hn.identify hconn hello
      · rcases hback hk with ⟨-, hold⟩ | ⟨rfl, hsession⟩
        · exact hn.nobody hold hs
        · rw [hsession] at hs ⊢
          rcases heard_party hheard with hparty | ⟨hello, hgreets⟩
          · rw [hparty.workerId]
            exact hn.nobody hconn (hparty.handshaked ▸ hs)
          · rw [hgreets.handshaked] at hs
            cases hs
      · rw [hframe.shared] at hrep
        have hold : ∀ old : ReputationTable F, v.shared.reputation = some old →
            old.byToken.lookup tok = some id → id ≠ Id.nil := fun old hold => hn.tokens hold
        rcases heard_tokens hheard with hsame | ⟨hello, hgreets⟩
        · rw [hrep] at hsame
          cases hprev : v.shared.reputation with
          | none =>
              rw [hprev] at hsame
              cases hsame
          | some old =>
              rw [hprev] at hsame
              have heq : rep.byToken = old.byToken := Option.some.inj hsame
              exact hold old hprev (heq ▸ hid)
        · have hrep' := hgreets.reputation
          rw [hrep] at hrep'
          obtain ⟨old, hprev, hmint⟩ := Option.map_eq_some_iff.mp hrep'.symm
          rw [← hmint] at hid
          rcases mintToken_lookup hid with rfl | hprevious
          · rw [hgreets.workerId]
            exact hn.identify hconn hello
          · exact hold old hprev hprevious

-- What a sweep leaves of the workers that it lost.
theorem dropLost_rest (lost : List WorkerId) (v : Server F) :
    (lost.foldl dropWorker v).conns = v.conns ∧
      (lost.foldl dropWorker v).nextConnId = v.nextConnId ∧
      (lost.foldl dropWorker v).shared.reputation = v.shared.reputation ∧
      (lost.foldl dropWorker v).shared.spotChecks = v.shared.spotChecks ∧
      (lost.foldl dropWorker v).shared.compositor = v.shared.compositor ∧
      JobManager.Moves (JobManager.Requeues fun t => ∃ id ∈ lost, t.isLeasedTo id) v.jobs
        (lost.foldl dropWorker v).jobs := by
  induction lost generalizing v with
  | nil => exact ⟨rfl, rfl, rfl, rfl, rfl, Reach.refl _⟩
  | cons id lost ih =>
      obtain ⟨hconns, hnext, hreputation, hspots, hcompositor, hjobs⟩ := ih (v.dropWorker id)
      refine ⟨hconns, hnext, hreputation, hspots, hcompositor, ?_⟩
      have hfirst := JobManager.releaseAllHeldBy_moves v.jobs id
      refine Reach.trans (Reach.mono ?_ hfirst) (Reach.mono ?_ hjobs)
      · rintro n l ⟨i, t, rfl, hf, hheld⟩
        exact ⟨i, t, rfl, hf, id, List.mem_cons_self, hheld⟩
      · rintro n l ⟨i, t, rfl, hf, w, hw, hheld⟩
        exact ⟨i, t, rfl, hf, w, List.mem_cons_of_mem _ hw, hheld⟩

theorem resetSignalWindows_conns (entries : List (Sigma fun _ : WorkerId => Nat)) (v : Server F) :
    ∀ w, w = entries.foldl (fun v e => v.editConn e.2 fun conn =>
        { conn with session := { conn.session with signalsThisWindow := 0 } }) v →
      w.shared = v.shared ∧ w.live = v.live ∧
        (∀ k, (w.conns.lookup k).isSome = (v.conns.lookup k).isSome) ∧ (v.Named → w.Named) := by
  rintro w rfl
  induction entries generalizing v with
  | nil => exact ⟨rfl, rfl, fun _ => rfl, fun h => h⟩
  | cons e entries ih =>
      obtain ⟨hshared, hlive, hopen, hnamed⟩ := ih (v.editConn e.2 fun conn =>
        { conn with session := { conn.session with signalsThisWindow := 0 } })
      refine ⟨hshared, hlive, fun k => (hopen k).trans ?_, fun hn => hnamed ?_⟩
      · rw [lookup_editConn]
        split
        · rw [Option.isSome_map]
        · rfl
      · exact hn.editConn _ _ fun _ => ⟨rfl, rfl, rfl⟩

-- The workers that a sweep gives up.
def lostAt (cfg : Config F) (v : Server F) (nowMs : UInt64) : List WorkerId :=
  (v.expireLeases cfg nowMs).shared.fleet.findLost nowMs cfg.workerTimeoutMs

-- A sweep takes leases back, and does no more to the jobs.
structure Swept (cfg : Config F) (v : Server F) (nowMs : UInt64) (flushed : Bool)
    (w : Shared F) : Prop where
  jobs : ∃ m, JobManager.Moves (JobManager.Requeues fun t => ∃ id ∈ v.lostAt cfg nowMs,
      t.isLeasedTo id) (v.jobs.sweepExpiredLeases nowMs).2 m ∧
    w.jobs = if flushed then m.clearDirty else m
  reputation : w.reputation = v.shared.reputation
  spotChecks : w.spotChecks = v.shared.spotChecks
  compositor : w.compositor = v.shared.compositor

theorem sweep_eq (cfg : Config F) (v : Server F) (nowMs : UInt64) (flushed : Bool) :
    (v.sweep cfg nowMs flushed).shared =
      { ((v.expireLeases cfg nowMs).dropLost cfg nowMs).pushRevokes.shared with
        jobs := if flushed then
            ((v.expireLeases cfg nowMs).dropLost cfg nowMs).jobs.clearDirty
          else ((v.expireLeases cfg nowMs).dropLost cfg nowMs).jobs } := by
  unfold sweep
  generalize (v.expireLeases cfg nowMs).dropLost cfg nowMs = dropped
  have hwindows : dropped.pushRevokes.resetSignalWindows.shared = dropped.pushRevokes.shared :=
    (resetSignalWindows_conns _ _ _ rfl).1
  cases flushed with
  | true =>
      have hjobs : dropped.pushRevokes.resetSignalWindows.jobs = dropped.pushRevokes.jobs :=
        congrArg Shared.jobs hwindows
      dsimp only [withJobs]
      rw [if_pos rfl, if_pos rfl, hjobs, hwindows]
      rfl
  | false =>
      rw [if_neg Bool.false_ne_true, if_neg Bool.false_ne_true]
      exact hwindows

theorem sweep_shared (cfg : Config F) (v : Server F) (nowMs : UInt64) (flushed : Bool) :
    v.Swept cfg nowMs flushed (v.sweep cfg nowMs flushed).shared := by
  obtain ⟨-, -, hreputation, hspots, hcompositor, hjobs⟩ :=
    dropLost_rest (v.lostAt cfg nowMs) (v.expireLeases cfg nowMs)
  have hdropped : (v.expireLeases cfg nowMs).dropLost cfg nowMs =
      (v.lostAt cfg nowMs).foldl dropWorker (v.expireLeases cfg nowMs) := rfl
  rw [sweep_eq, hdropped]
  generalize (v.lostAt cfg nowMs).foldl dropWorker (v.expireLeases cfg nowMs) = dropped at *
  exact ⟨⟨dropped.jobs, hjobs, rfl⟩, hreputation, hspots, hcompositor⟩

theorem nextConnId_le (cfg : Config F) (v : Server F) (e : Event F) :
    v.nextConnId ≤ (v.next cfg e).nextConnId := by
  have hclose : ∀ (v : Server F) i, (v.closeConn i).nextConnId = v.nextConnId := by
    intro v i
    unfold closeConn
    split <;> rfl
  cases e with
  | createJob | seedRender | text => exact Nat.le_refl v.nextConnId
  | «open» => exact Nat.le_succ v.nextConnId
  | malformed i =>
      obtain ⟨edit, -, hreject⟩ := rejectFrame_cases v i
      show v.nextConnId ≤ (v.rejectFrame i).nextConnId
      rcases hreject with heq | heq
      · rw [← heq, hclose]
        exact Nat.le_refl v.nextConnId
      · rw [← heq]
        exact Nat.le_refl v.nextConnId
  | close i => exact (hclose v i).ge
  | message i body payload nowMs token =>
      show v.nextConnId ≤ (v.onFrame cfg i body payload nowMs token).nextConnId
      cases hconn : v.conns.lookup i with
      | none => rw [onFrame_closed hconn]
      | some conn => exact (onFrame_framed cfg body payload nowMs token hconn).nextConnId.ge
  | sweep nowMs flushed =>
      have hwindows : ∀ (entries : List (Sigma fun _ : WorkerId => Nat)) (v : Server F),
          (entries.foldl (fun v e => v.editConn e.2 fun conn =>
            { conn with session := { conn.session with signalsThisWindow := 0 } }) v).nextConnId =
              v.nextConnId := by
        intro entries
        induction entries with
        | nil => exact fun _ => rfl
        | cons e entries ih => exact fun v => ih _
      have hdropped : ((v.expireLeases cfg nowMs).dropLost cfg nowMs).nextConnId = v.nextConnId :=
        (dropLost_rest (v.lostAt cfg nowMs) (v.expireLeases cfg nowMs)).2.1
      have hswept : (v.sweep cfg nowMs flushed).nextConnId = v.nextConnId := by
        rw [← hdropped]
        unfold sweep
        generalize (v.expireLeases cfg nowMs).dropLost cfg nowMs = dropped
        have hreset : dropped.pushRevokes.resetSignalWindows.nextConnId = dropped.nextConnId :=
          hwindows _ _
        cases flushed with
        | true => exact hreset
        | false => exact hreset
      exact hswept.ge

theorem Named.sweep (hn : v.Named) (nowMs : UInt64) (flushed : Bool) :
    (v.sweep cfg nowMs flushed).Named := by
  obtain ⟨hconns, hnext, hreputation, -⟩ :=
    dropLost_rest (v.lostAt cfg nowMs) (v.expireLeases cfg nowMs)
  have hdropped : ((v.expireLeases cfg nowMs).dropLost cfg nowMs).pushRevokes.Named := by
    refine hn.shared hconns hnext ?_
    exact congrArg (Option.map ReputationTable.byToken) hreputation
  have hwindows : ((v.expireLeases cfg nowMs).dropLost cfg
      nowMs).pushRevokes.resetSignalWindows.Named :=
    (resetSignalWindows_conns _ _ _ rfl).2.2.2 hdropped
  unfold Server.sweep
  dsimp only
  split
  · exact hwindows.withJobs _
  · exact hwindows

theorem Named.next (hn : v.Named) (cfg : Config F) (e : Event F) : (v.next cfg e).Named := by
  cases e with
  | createJob kernelId totalUnits seed unitsPerGroup => exact hn.shared rfl rfl rfl
  | seedRender render inputRef => exact hn.shared rfl rfl rfl
  | «open» => exact hn.open
  | text connId => exact hn.editConn connId _ fun _ => ⟨rfl, rfl, rfl⟩
  | malformed connId =>
      obtain ⟨edit, hedit, hreject⟩ := rejectFrame_cases v connId
      have hedited := hn.editConn connId edit hedit
      change (v.rejectFrame connId).Named
      rcases hreject with heq | heq
      · rw [← heq]
        exact hedited.close connId
      · rw [← heq]
        exact hedited
  | message connId body payload nowMs token => exact hn.frame connId body payload nowMs token
  | close connId => exact hn.close connId
  | sweep nowMs flushed => exact hn.sweep nowMs flushed

theorem Named.step {e : Event F} (hn : v.Named) (h : Step cfg v e v') : v'.Named := by
  have hnext := hn.next cfg e
  have hrest := h.rest
  refine hnext.shared ?_ ?_ ?_
  · rw [hrest]
  · rw [hrest]
  · rw [hrest]

theorem named_of_run {guard : Server F → Event F → Prop} {v₀ : Server F} (h₀ : v₀.Up)
    (h : Reach (Step cfg) guard v₀ v) : v.Named :=
  h.invariant Named (Named.up h₀) fun _ _ _ hn _ hstep => hn.step hstep

end

end Server

end P2pGpu.Coordinator
