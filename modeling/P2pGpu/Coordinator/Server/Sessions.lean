import P2pGpu.Coordinator.Server.Unheard

namespace P2pGpu.Coordinator

open P2pGpu.Protocol

namespace Event

variable {F : Type}

def isSweep : Event F → Bool
  | .sweep _ _ => true
  | _ => false

def isMessage : Event F → Bool
  | .message _ _ _ _ _ => true
  | _ => false

theorem silent_of {e : Event F} (h : isMessage e = false) (k : Nat) (body : Body F)
    (payload : Payload) (nowMs : UInt64) (token : Token) :
    e ≠ .message k body payload nowMs token := by
  intro he
  rw [he] at h
  cases h

end Event

section

variable {F : Type} [Double F]

-- The window of signals begins anew.
def Session.resetWindow (s : Session) : Session := { s with signalsThisWindow := 0 }

namespace Session

-- Who a connection is and how much it signals is all that changes without an answer, and
-- nothing is passed on but a signal.
theorem dispatch_keeps {body : Body F} (cfg : Config F) (s : Session) (w : Shared F)
    (payload : Payload) (token : Token) (hbody : ∀ header, body ≠ .resultHeader header) :
    ∃ known worker signals,
      (s.dispatch cfg w body payload token).session =
        { s with handshaked := known, workerId := worker, signalsThisWindow := signals } ∧
      ((∀ m, body ≠ .signal m) → signals = s.signalsThisWindow ∧
        (s.dispatch cfg w body payload token).reaction.relay = none) := by
  have hsame : (s.dispatch cfg w body payload token).session = s →
      (s.dispatch cfg w body payload token).reaction.relay = none → ∃ known worker signals,
      (s.dispatch cfg w body payload token).session =
        { s with handshaked := known, workerId := worker, signalsThisWindow := signals } ∧
      ((∀ m, body ≠ .signal m) → signals = s.signalsThisWindow ∧
        (s.dispatch cfg w body payload token).reaction.relay = none) :=
    fun hs hrelay => ⟨_, _, _, hs, fun _ => ⟨rfl, hrelay⟩⟩
  cases body with
  | hello m =>
      unfold dispatch onHello
      dsimp only
      split
      · exact ⟨_, _, _, rfl, fun _ => ⟨rfl, rfl⟩⟩
      · split
        · exact ⟨_, _, _, rfl, fun _ => ⟨rfl, rfl⟩⟩
        · exact ⟨_, _, _, rfl, fun _ => ⟨rfl, rfl⟩⟩
  | leaseRequest m =>
      refine hsame ?_ ?_
      all_goals
        unfold dispatch onLeaseRequest
        dsimp only
        repeat' split
      all_goals rfl
  | resultHeader m => exact absurd rfl (hbody m)
  | release taskId =>
      refine hsame ?_ ?_
      all_goals
        unfold dispatch onRelease
        dsimp only
        repeat' split
      all_goals rfl
  | progress m =>
      refine hsame ?_ ?_
      all_goals
        unfold dispatch onProgress
        dsimp only
        repeat' split
      all_goals rfl
  | goodbye => exact hsame rfl rfl
  | assetRequest m =>
      refine hsame ?_ ?_
      all_goals
        unfold dispatch onAssetRequest
        dsimp only
        repeat' split
      all_goals rfl
  | assetData => exact hsame rfl rfl
  | benchmarkResult score =>
      refine hsame ?_ ?_
      all_goals
        unfold dispatch onBenchmarkResult
        dsimp only
        repeat' split
      all_goals rfl
  | throttle level => exact hsame rfl rfl
  | signal m =>
      refine ⟨s.handshaked, s.workerId, s.signalsThisWindow + 1, ?_, fun h => absurd rfl (h m)⟩
      unfold dispatch onSignal
      dsimp only
      repeat' split
      all_goals rfl
  | coordinatorOnly => exact hsame rfl rfl

end Session

namespace Server

open JobManager Session

variable {cfg : Config F} {v₀ v v' : Server F} {e : Event F} {k : Nat} {conn conn' : Conn}

-- A sweep begins a new window where the worker is reached on that connection.
def resets (cfg : Config F) (v : Server F) (e : Event F) (k : Nat) : Bool :=
  match e with
  | .sweep nowMs _ =>
      ((v.expireLeases cfg nowMs).dropLost cfg nowMs).live.entries.any fun entry => entry.2 = k
  | _ => false

-- How an open connection came to be as it is after an event.
inductive Becomes (cfg : Config F) (v : Server F) (e : Event F) (k : Nat) (conn' : Conn) :
    Prop where
  | fresh (he : e = .open) (hk : k = v.nextConnId)
      (hsession : conn'.session = { connId := v.nextConnId })
  | idles (conn : Conn) (hconn : v.conns.lookup k = some conn) (hreset : v.resets cfg e k = false)
      (hsilent : ∀ body payload nowMs token, e ≠ .message k body payload nowMs token)
      (hsession : ∃ abusive, conn'.session = { conn.session with abusive })
  | resets (conn : Conn) (hconn : v.conns.lookup k = some conn) (hreset : v.resets cfg e k = true)
      (hsession : conn'.session = conn.session.resetWindow)
  | speaks (conn : Conn) (body : Body F) (payload : Payload) (nowMs : UInt64) (token : Token)
      (he : e = .message k body payload nowMs token) (hconn : v.conns.lookup k = some conn)
      (hsession : conn'.session =
        (conn.session.onMessage cfg v.shared body payload nowMs token).session)

theorem lookup_resetWindows (entries : List (Sigma fun _ : WorkerId => Nat)) (v : Server F)
    (k : Nat) :
    ((entries.foldl (fun v e => v.editConn e.2 fun conn =>
        { conn with session := { conn.session with signalsThisWindow := 0 } }) v).conns.lookup k) =
      if entries.any fun e => e.2 = k then
        (v.conns.lookup k).map fun conn => { conn with session := conn.session.resetWindow }
      else v.conns.lookup k := by
  induction entries generalizing v with
  | nil => simp
  | cons e entries ih =>
      have hfirst : ((v.editConn e.2 fun conn =>
          { conn with session := { conn.session with signalsThisWindow := 0 } }).conns.lookup k) =
            if k = e.2 then
              (v.conns.lookup k).map fun conn => { conn with session := conn.session.resetWindow }
            else v.conns.lookup k := lookup_editConn v e.2 k _
      rw [List.foldl_cons, ih, hfirst, List.any_cons]
      by_cases hk : k = e.2
      · subst hk
        rw [if_pos rfl, decide_eq_true rfl, Bool.true_or, if_pos rfl]
        split
        · rw [Option.map_map]
          congr 1
        · rfl
      · rw [if_neg hk, decide_eq_false (Ne.symm hk), Bool.false_or]

theorem lookup_sweep (cfg : Config F) (v : Server F) (nowMs : UInt64) (flushed : Bool) (k : Nat) :
    (v.sweep cfg nowMs flushed).conns.lookup k =
      if v.resets cfg (.sweep nowMs flushed) k then
        (v.conns.lookup k).map fun conn => { conn with session := conn.session.resetWindow }
      else v.conns.lookup k := by
  have hconns : ((v.expireLeases cfg nowMs).dropLost cfg nowMs).pushRevokes.conns = v.conns :=
    (dropLost_rest (v.lostAt cfg nowMs) (v.expireLeases cfg nowMs)).1
  have hwindows := lookup_resetWindows
    ((v.expireLeases cfg nowMs).dropLost cfg nowMs).live.entries
    ((v.expireLeases cfg nowMs).dropLost cfg nowMs).pushRevokes k
  rw [hconns] at hwindows
  have hswept : (v.sweep cfg nowMs flushed).conns =
      (((v.expireLeases cfg nowMs).dropLost cfg nowMs).pushRevokes.resetSignalWindows).conns := by
    unfold sweep
    generalize ((v.expireLeases cfg nowMs).dropLost cfg nowMs).pushRevokes.resetSignalWindows = w
    cases flushed <;> rfl
  rw [hswept]
  exact hwindows

theorem lookup_closeConn {connId : Nat}
    (h : (v.closeConn connId).conns.lookup k = some conn') :
    v.conns.lookup k = some conn' := by
  cases hconn : v.conns.lookup connId with
  | none => rwa [closeConn_closed hconn] at h
  | some conn =>
      rw [closeConn_open hconn] at h
      by_cases hk : k = connId
      · rw [hk, AList.lookup_erase] at h
        cases h
      · rwa [AList.lookup_erase_ne hk] at h

theorem lookup_rejectFrame {connId : Nat} (h : (v.rejectFrame connId).conns.lookup k = some conn') :
    ∃ conn, v.conns.lookup k = some conn ∧
      ∃ abusive, conn'.session = { conn.session with abusive } := by
  have hedit : ∀ {edit : Conn → Conn},
      (∀ conn : Conn, ∃ abusive, (edit conn).session = { conn.session with abusive }) →
      (v.editConn connId edit).conns.lookup k = some conn' →
      ∃ conn, v.conns.lookup k = some conn ∧
        ∃ abusive, conn'.session = { conn.session with abusive } := by
    intro edit hkeeps hlookup
    rw [lookup_editConn] at hlookup
    by_cases hk : k = connId
    · rw [if_pos hk] at hlookup
      obtain ⟨conn, hconn, rfl⟩ := Option.map_eq_some_iff.mp hlookup
      exact ⟨conn, hconn, hkeeps conn⟩
    · rw [if_neg hk] at hlookup
      exact ⟨conn', hlookup, conn'.session.abusive, rfl⟩
  unfold rejectFrame at h
  cases hconn : v.conns.lookup connId with
  | none =>
      rw [hconn] at h
      exact ⟨conn', h, conn'.session.abusive, rfl⟩
  | some conn =>
      rw [hconn] at h
      dsimp only at h
      have hopen : (v.editConn connId fun c =>
          if kRejectedFramesNoWork ≤ conn.rejectedFrames + 1 then
            { countRejected c with session := { (countRejected c).session with abusive := true } }
          else countRejected c).conns.lookup k = some conn' := by
        split at h
        · exact lookup_closeConn h
        · exact h
      refine hedit (fun c => ?_) hopen
      split
      · exact ⟨true, rfl⟩
      · exact ⟨c.session.abusive, rfl⟩

-- Nothing else becomes of a connection.
theorem next_becomes (cfg : Config F) (v : Server F) (e : Event F)
    (h : (v.next cfg e).conns.lookup k = some conn') : Becomes cfg v e k conn' := by
  have hidle : e.isSweep = false →
      (∀ body payload nowMs token, e ≠ .message k body payload nowMs token) →
      (∃ conn, v.conns.lookup k = some conn ∧
        ∃ abusive, conn'.session = { conn.session with abusive }) → Becomes cfg v e k conn' := by
    rintro hsweep hsilent ⟨conn, hconn, hsession⟩
    refine .idles conn hconn ?_ hsilent hsession
    unfold resets
    split
    · cases hsweep
    · rfl
  cases e with
  | createJob kernelId totalUnits seed unitsPerGroup =>
      exact hidle rfl (Event.silent_of rfl k) ⟨conn', h, conn'.session.abusive, rfl⟩
  | seedRender render inputRef =>
      exact hidle rfl (Event.silent_of rfl k) ⟨conn', h, conn'.session.abusive, rfl⟩
  | «open» =>
      change (AList.insert v.nextConnId _ v.conns).lookup k = some conn' at h
      rw [Table.lookup_insert_eq] at h
      by_cases hk : k = v.nextConnId
      · rw [if_pos hk] at h
        cases h
        exact .fresh rfl hk rfl
      · rw [if_neg hk] at h
        exact hidle rfl (Event.silent_of rfl k) ⟨conn', h, conn'.session.abusive, rfl⟩
  | text connId =>
      refine hidle rfl (Event.silent_of rfl k) ?_
      change (v.editConn connId countRejected).conns.lookup k = some conn' at h
      rw [lookup_editConn] at h
      by_cases hk : k = connId
      · rw [if_pos hk] at h
        obtain ⟨conn, hconn, rfl⟩ := Option.map_eq_some_iff.mp h
        exact ⟨conn, hconn, conn.session.abusive, rfl⟩
      · rw [if_neg hk] at h
        exact ⟨conn', h, conn'.session.abusive, rfl⟩
  | malformed connId => exact hidle rfl (Event.silent_of rfl k) (lookup_rejectFrame h)
  | close connId =>
      exact hidle rfl (Event.silent_of rfl k)
        ⟨conn', lookup_closeConn h, conn'.session.abusive, rfl⟩
  | sweep nowMs flushed =>
      change (v.sweep cfg nowMs flushed).conns.lookup k = some conn' at h
      rw [lookup_sweep] at h
      by_cases hreset : v.resets cfg (.sweep nowMs flushed) k = true
      · rw [if_pos hreset] at h
        obtain ⟨conn, hconn, rfl⟩ := Option.map_eq_some_iff.mp h
        exact .resets conn hconn hreset rfl
      · rw [if_neg hreset] at h
        exact .idles conn' h (Bool.eq_false_iff.mpr hreset) (Event.silent_of rfl k)
          ⟨conn'.session.abusive, rfl⟩
  | message connId body payload nowMs token =>
      cases hconn : v.conns.lookup connId with
      | none =>
          have hsame : v.next cfg (.message connId body payload nowMs token) = v :=
            onFrame_closed hconn
          rw [hsame] at h
          refine hidle rfl ?_ ⟨conn', h, conn'.session.abusive, rfl⟩
          rintro _ _ _ _ he
          cases he
          rw [hconn] at h
          cases h
      | some conn =>
          have hframe := onFrame_framed cfg body payload nowMs token hconn
          change (v.onFrame cfg connId body payload nowMs token).conns.lookup k = some conn' at h
          by_cases hk : k = connId
          · subst hk
            rcases hframe.own with ⟨-, hown, -⟩ | ⟨-, -, hown, -⟩
            · rw [hown] at h
              cases h
              exact .speaks conn body payload nowMs token rfl hconn rfl
            · rw [hown] at h
              cases h
          · rw [hframe.others k hk] at h
            refine hidle rfl ?_ ⟨conn', h, conn'.session.abusive, rfl⟩
            rintro _ _ _ _ he
            cases he
            exact hk rfl

end Server

end

end P2pGpu.Coordinator
