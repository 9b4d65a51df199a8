import P2pGpu.Coordinator.Server.Leases

namespace P2pGpu.Coordinator

open P2pGpu.Protocol

def Reply.isTaskGrant : Reply → Bool
  | .taskGrant _ => true
  | _ => false

namespace Session

section

variable {F : Type} [Double F] {cfg : Config F} {s : Session} {w : Shared F} {body : Body F}
  {payload : Payload} {nowMs : UInt64} {token : Token}

-- What ends a connection: a first message that is no greeting, or one that is of
-- another version.
def Refuses (s : Session) (body : Body F) : Prop :=
  s.handshaked = false ∧ ∀ hello, body = .hello hello → hello.protocolVersion ≠ kProtocolVersion

theorem rule_abusive (s : Session) (w : Shared F) (taskId : TaskId) (header : ResultHeader)
    (spec : KernelSpec) (payload : Payload) :
    (s.judge cfg w taskId spec header.checksum payload).session.abusive = s.abusive := by
  unfold judge
  dsimp only
  split
  · split <;> rfl
  · split <;> rfl
  · unfold acceptResult
    dsimp only
    split <;> rfl

theorem onResultHeader_abusive (s : Session) (w : Shared F) (header : ResultHeader)
    (payload : Payload) :
    (s.onResultHeader cfg w header payload).session.abusive = s.abusive := by
  have hreadable : ∀ (w : Shared F) (taskId : TaskId),
      (s.onReadable cfg w taskId header payload).session.abusive = s.abusive := by
    intro w taskId
    unfold onReadable
    split
    · rfl
    · split
      · rfl
      · unfold weigh
        split
        · rfl
        · exact rule_abusive s _ taskId header _ payload
  unfold onResultHeader
  repeat' split
  all_goals first | rfl | exact hreadable _ _

-- No message of the peer makes amends.
theorem dispatch_abusive (s : Session) (w : Shared F) (body : Body F) (payload : Payload)
    (token : Token) : (s.dispatch cfg w body payload token).session.abusive = s.abusive := by
  cases body with
  | resultHeader m => exact onResultHeader_abusive s w m payload
  | hello m =>
      show (s.onHello cfg w m token).session.abusive = s.abusive
      unfold onHello
      repeat' split
      all_goals rfl
  | leaseRequest m =>
      show (s.onLeaseRequest cfg w m s.nowMs).session.abusive = s.abusive
      unfold onLeaseRequest
      dsimp only
      repeat' split
      all_goals rfl
  | release taskId =>
      show (s.onRelease w taskId).session.abusive = s.abusive
      unfold onRelease
      repeat' split
      all_goals rfl
  | progress m =>
      show (s.onProgress cfg w m s.nowMs).session.abusive = s.abusive
      unfold onProgress
      repeat' split
      all_goals rfl
  | assetRequest m =>
      show (s.onAssetRequest cfg w m).session.abusive = s.abusive
      unfold onAssetRequest
      dsimp only
      repeat' split
      all_goals rfl
  | benchmarkResult score =>
      show (s.onBenchmarkResult w score).session.abusive = s.abusive
      unfold onBenchmarkResult
      repeat' split
      all_goals rfl
  | signal m =>
      show (s.onSignal w m).session.abusive = s.abusive
      unfold onSignal
      dsimp only
      repeat' split
      all_goals rfl
  | goodbye => rfl
  | assetData => rfl
  | throttle level => rfl
  | coordinatorOnly => rfl

theorem onMessage_abusive (cfg : Config F) (s : Session) (w : Shared F) (body : Body F)
    (payload : Payload) (nowMs : UInt64) (token : Token) :
    (s.onMessage cfg w body payload nowMs token).session.abusive = s.abusive := by
  rw [(onMessage_receive cfg s w body payload nowMs token).1]
  unfold receive
  dsimp only
  split
  · rfl
  · exact dispatch_abusive _ _ body payload token

theorem onMessage_close_iff (cfg : Config F) (s : Session) (w : Shared F) (body : Body F)
    (payload : Payload) (nowMs : UInt64) (token : Token) :
    (s.onMessage cfg w body payload nowMs token).reaction.close = true ↔ s.Refuses body := by
  cases hs : s.handshaked with
  | true =>
      have hstays : (s.onMessage cfg w body payload nowMs token).reaction.close = false := by
        have hheard := onMessage_known cfg w body payload nowMs token hs
        cases hheard with
        | silent hsilent =>
            rw [hs] at hsilent
            cases hsilent
        | greets hello h => exact h.stays
        | routine _ hstays => exact hstays
        | judged _ _ _ _ hstays => exact hstays
      rw [hstays]
      refine ⟨fun h => absurd h Bool.false_ne_true, fun h => ?_⟩
      rw [h.1] at hs
      cases hs
  | false =>
      rw [(onMessage_receive cfg s w body payload nowMs token).2.1]
      unfold receive Refuses
      cases body with
      | hello m =>
          simp only [isHello, Bool.not_true, Bool.and_false, dispatch]
          unfold onHello
          simp only [hs]
          by_cases hversion : m.protocolVersion ≠ kProtocolVersion
          · simp [hversion, fatal]
          · simp [hversion]
      | _ => simp [hs, isHello, fatal]

def Granted (turn : Turn F) : Prop := turn.reaction.replies.any Reply.isTaskGrant = true

instance (turn : Turn F) : Decidable (Granted turn) := inferInstanceAs (Decidable (_ = _))

end

end Session

-- How many frames of a connection were rejected, and whether it is given no work.
def Conn.standing (conn : Conn) : UInt32 × Bool := (conn.rejectedFrames, conn.session.abusive)

namespace Server

section

variable {F : Type} [Double F] {cfg : Config F} {v v₀ v' : Server F} {e : Event F} {k n : Nat}
  {conn conn' : Conn} {past : List (Server F × Event F)}

-- A frame on the open connection that does not verify, and one that does.
def rejects (v : Server F) (k : Nat) : Event F → Bool
  | .text i | .malformed i => i = k && (v.conns.lookup k).isSome
  | _ => false

def verifies (v : Server F) (k : Nat) : Event F → Bool
  | .message i _ _ _ _ => i = k && (v.conns.lookup k).isSome
  | _ => false

-- The frames of a connection that were rejected since the last one that verified.
def streak (k : Nat) (past : List (Server F × Event F)) : Nat :=
  past.foldl (fun n e =>
    if e.1.verifies k e.2 then 0 else if e.1.rejects k e.2 then n + 1 else n) 0

def Counted (k : Nat) (v : Server F) (past : List (Server F × Event F)) : Prop :=
  ∀ conn, v.conns.lookup k = some conn → conn.rejectedFrames.toNat = streak k past

-- Fewer frames in a row than are held against a peer cost it nothing.
def Reversible (cfg : Config F) (k : Nat) (v : Server F) (past : List (Server F × Event F)) :
    Prop :=
  ∀ conn, v.conns.lookup k = some conn → streak k past < kRejectedFramesNoWork.toNat →
    ∀ req payload nowMs token,
      Session.Granted (({ conn.session with abusive := false } : Session).onMessage cfg v.shared
        (.leaseRequest req) payload nowMs token) →
      Session.Granted (conn.session.onMessage cfg v.shared (.leaseRequest req) payload nowMs token)

def PerStreak (cfg : Config F) (k : Nat) (v : Server F) (past : List (Server F × Event F)) : Prop :=
  Counted k v past ∧ Reversible cfg k v past

-- No frame that verifies comes after one that was rejected, unless it ends the
-- connection, and the counter does not run over.
def InStreak (k : Nat) (v : Server F) : Event F → Prop
  | .message i body _ _ _ => i = k → ∀ conn, v.conns.lookup k = some conn →
      conn.rejectedFrames = 0 ∨ conn.session.Refuses body
  | .text i | .malformed i => i = k → ∀ conn, v.conns.lookup k = some conn →
      conn.rejectedFrames.toNat + 1 < 2 ^ 32
  | _ => True

-- Work is only held back from a peer with many rejected frames.
def Earned (k : Nat) (v : Server F) : Prop :=
  ∀ conn, v.conns.lookup k = some conn → conn.session.abusive = true →
    kRejectedFramesNoWork ≤ conn.rejectedFrames

theorem streak_concat (k : Nat) (past : List (Server F × Event F)) (v : Server F) (e : Event F) :
    streak k (past ++ [(v, e)]) =
      if v.verifies k e then 0 else if v.rejects k e then streak k past + 1 else streak k past := by
  unfold streak
  rw [List.foldl_append]
  rfl

-- What an event makes of it, for a connection that stays open.
def standingAfter (k : Nat) (c : UInt32 × Bool) : Event F → UInt32 × Bool
  | .text i => if i = k then (c.1 + 1, c.2) else c
  | .malformed i => if i = k then (c.1 + 1, c.2 || kRejectedFramesNoWork ≤ c.1 + 1) else c
  | _ => c

theorem sweep_standing (cfg : Config F) (v : Server F) (nowMs : UInt64) (flushed : Bool) (k : Nat) :
    ((v.sweep cfg nowMs flushed).conns.lookup k).map Conn.standing =
      (v.conns.lookup k).map Conn.standing := by
  have hwindows : ∀ (entries : List (Sigma fun _ : WorkerId => Nat)) (v : Server F),
      ((entries.foldl (fun v e => v.editConn e.2 fun conn =>
        { conn with session := { conn.session with signalsThisWindow := 0 } }) v).conns.lookup
          k).map Conn.standing = (v.conns.lookup k).map Conn.standing := by
    intro entries
    induction entries with
    | nil => exact fun _ => rfl
    | cons e entries ih =>
        intro v
        refine (ih _).trans ?_
        rw [lookup_editConn]
        split
        · rw [Option.map_map]
          rfl
        · rfl
  have hdropped : ((v.expireLeases cfg nowMs).dropLost cfg nowMs).conns = v.conns :=
    (dropLost_rest (v.lostAt cfg nowMs) (v.expireLeases cfg nowMs)).1
  have hswept : (v.sweep cfg nowMs flushed).conns =
      ((v.expireLeases cfg nowMs).dropLost cfg nowMs).pushRevokes.resetSignalWindows.conns := by
    unfold sweep
    dsimp only
    split <;> rfl
  have hpushed : ((v.expireLeases cfg nowMs).dropLost cfg nowMs).pushRevokes.conns = v.conns :=
    hdropped
  rw [hswept, resetSignalWindows, hwindows, hpushed]

theorem rejectFrame_open (hconn : v.conns.lookup k = some conn) :
    (v.rejectFrame k).conns.lookup k =
      if kRejectedFramesDisconnect ≤ conn.rejectedFrames + 1 then none
      else some (if kRejectedFramesNoWork ≤ conn.rejectedFrames + 1 then
        { countRejected conn with
          session := { (countRejected conn).session with abusive := true } }
        else countRejected conn) := by
  unfold rejectFrame
  rw [hconn]
  dsimp only
  split
  · unfold closeConn
    rw [lookup_editConn, if_pos rfl, hconn]
    exact AList.lookup_erase _ _
  · rw [lookup_editConn, if_pos rfl, hconn]
    rfl

theorem closeConn_lookup_ne {i : Nat} (hi : k ≠ i) :
    (v.closeConn i).conns.lookup k = v.conns.lookup k := by
  unfold closeConn
  split
  · rfl
  · exact AList.lookup_erase_ne hi

theorem standing_next (cfg : Config F) (hn : v.Named) (e : Event F)
    (hconn : v.conns.lookup k = some conn) (hafter : (v.next cfg e).conns.lookup k = some conn') :
    conn'.standing = standingAfter k conn.standing e := by
  cases e with
  | createJob | seedRender =>
      change v.conns.lookup k = some conn' at hafter
      rw [hconn] at hafter
      cases hafter
      rfl
  | «open» =>
      change (AList.insert v.nextConnId _ v.conns).lookup k = some conn' at hafter
      have hne : k ≠ v.nextConnId := Nat.ne_of_lt (hn.connId hconn).2.2
      rw [AList.lookup_insert_ne hne, hconn] at hafter
      cases hafter
      rfl
  | text i =>
      change (v.editConn i countRejected).conns.lookup k = some conn' at hafter
      rw [lookup_editConn, hconn] at hafter
      simp only [standingAfter]
      by_cases hi : k = i
      · rw [if_pos hi] at hafter
        rw [if_pos hi.symm]
        cases hafter
        rfl
      · rw [if_neg hi] at hafter
        rw [if_neg (Ne.symm hi)]
        cases hafter
        rfl
  | malformed i =>
      change (v.rejectFrame i).conns.lookup k = some conn' at hafter
      simp only [standingAfter]
      by_cases hi : k = i
      · subst hi
        rw [rejectFrame_open hconn] at hafter
        rw [if_pos rfl]
        split at hafter
        · cases hafter
        · by_cases hmany : kRejectedFramesNoWork ≤ conn.rejectedFrames + 1
          · rw [if_pos hmany] at hafter
            cases hafter
            simp [Conn.standing, countRejected, hmany]
          · rw [if_neg hmany] at hafter
            cases hafter
            simp [Conn.standing, countRejected, hmany]
      · rw [if_neg (Ne.symm hi)]
        obtain ⟨edit, -, hreject⟩ := rejectFrame_cases v i
        have hsame : (v.rejectFrame i).conns.lookup k = some conn := by
          rcases hreject with heq | heq
          · rw [← heq, closeConn_lookup_ne hi, lookup_editConn, if_neg hi, hconn]
          · rw [← heq, lookup_editConn, if_neg hi, hconn]
        rw [hsame] at hafter
        cases hafter
        rfl
  | close i =>
      change (v.closeConn i).conns.lookup k = some conn' at hafter
      by_cases hi : k = i
      · subst hi
        rw [closeConn_open hconn] at hafter
        rw [AList.lookup_erase] at hafter
        cases hafter
      · rw [closeConn_lookup_ne hi, hconn] at hafter
        cases hafter
        rfl
  | sweep nowMs flushed =>
      have hsame := sweep_standing cfg v nowMs flushed k
      change (v.sweep cfg nowMs flushed).conns.lookup k = some conn' at hafter
      rw [hafter, hconn] at hsame
      exact Option.some.inj hsame
  | message i body payload nowMs token =>
      change (v.onFrame cfg i body payload nowMs token).conns.lookup k = some conn' at hafter
      cases hopen : v.conns.lookup i with
      | none =>
          rw [onFrame_closed hopen, hconn] at hafter
          cases hafter
          rfl
      | some other =>
          have hframe := onFrame_framed cfg body payload nowMs token hopen
          by_cases hi : k = i
          · subst hi
            rw [hconn] at hopen
            cases hopen
            rcases hframe.own with ⟨-, hown, -⟩ | ⟨-, -, hgone, -⟩
            · rw [hown] at hafter
              cases hafter
              show (_, _) = (_, _)
              rw [Session.onMessage_abusive]
            · rw [hgone] at hafter
              cases hafter
          · rw [hframe.others k hi, hconn] at hafter
            cases hafter
            rfl

-- A connection starts with a clean slate.
theorem standing_opened (cfg : Config F) (e : Event F) (hconn : v.conns.lookup k = none)
    (hafter : (v.next cfg e).conns.lookup k = some conn') :
    v.nextConnId = k ∧ conn'.standing = (0, false) := by
  have hedited : ∀ {i : Nat} {edit : Conn → Conn}, (v.editConn i edit).conns.lookup k = none := by
    intro i edit
    rw [lookup_editConn, hconn]
    split <;> rfl
  have hclosed : ∀ {v : Server F} {i : Nat}, v.conns.lookup k = none →
      (v.closeConn i).conns.lookup k = none := by
    intro v i hnone
    by_cases hi : k = i
    · rw [← hi, closeConn_closed hnone]
      exact hnone
    · rw [closeConn_lookup_ne hi]
      exact hnone
  have hopen : e = .open := by
    by_contra hother
    have hnone : (v.next cfg e).conns.lookup k = none := by
      cases e with
      | createJob | seedRender => exact hconn
      | «open» => exact absurd rfl hother
      | text i => exact hedited
      | malformed i =>
          obtain ⟨edit, -, hreject⟩ := rejectFrame_cases v i
          show (v.rejectFrame i).conns.lookup k = none
          rcases hreject with heq | heq
          · rw [← heq]
            exact hclosed hedited
          · rw [← heq]
            exact hedited
      | close i => exact hclosed hconn
      | sweep nowMs flushed =>
          have hsame := sweep_standing cfg v nowMs flushed k
          rw [hconn, Option.map_none, Option.map_eq_none_iff] at hsame
          exact hsame
      | message i body payload nowMs token =>
          show (v.onFrame cfg i body payload nowMs token).conns.lookup k = none
          cases hspoke : v.conns.lookup i with
          | none =>
              rw [onFrame_closed hspoke]
              exact hconn
          | some other =>
              have hi : k ≠ i := by
                rintro rfl
                rw [hconn] at hspoke
                cases hspoke
              rw [(onFrame_framed cfg body payload nowMs token hspoke).others k hi]
              exact hconn
    rw [hnone] at hafter
    cases hafter
  subst hopen
  change (AList.insert v.nextConnId _ v.conns).lookup k = some conn' at hafter
  rw [Table.lookup_insert_eq] at hafter
  split at hafter
  · rename_i hk
    cases hafter
    exact ⟨hk.symm, rfl⟩
  · rw [hconn] at hafter
    cases hafter

theorem Counted.start (h : v₀.Up) (k : Nat) : Counted k v₀ [] := by
  intro conn hconn
  rw [h.conns] at hconn
  cases hconn

-- Of a connection that is still to come nothing was rejected.
theorem streak_unopened (h₀ : v₀.Up)
    (h : Reach (Recalling (Step cfg)) (fun _ _ => True) (v₀, []) (v, past))
    (hk : v.nextConnId ≤ k) : streak k past = 0 := by
  have hinv := Recalling.invariant h
    (fun v past => v.Named ∧ ∀ k, v.nextConnId ≤ k → streak k past = 0)
    ⟨Named.up h₀, fun _ _ => rfl⟩ fun r past e r' _ _ hi hstep => by
      refine ⟨hi.1.step hstep, fun k hk => ?_⟩
      have hle : r.nextConnId ≤ k := by
        have hnext : r'.nextConnId = (r.next cfg e).nextConnId := by rw [hstep.rest]
        have hgrown := nextConnId_le cfg r e
        omega
      have hclosed : r.conns.lookup k = none := by
        cases hconn : r.conns.lookup k with
        | none => rfl
        | some conn =>
            have := (hi.1.connId hconn).2.2
            omega
      have hold := hi.2 k hle
      rw [streak_concat, hold]
      cases e <;> simp [verifies, rejects, hclosed]
  exact hinv.2 k hk

-- The counter keeps up with the streak unless it runs over.
theorem counter_succ_iff (hnow : conn.rejectedFrames.toNat = n) :
    (conn.rejectedFrames + 1).toNat = n + 1 ↔ conn.rejectedFrames.toNat + 1 < 2 ^ 32 := by
  have hlt := conn.rejectedFrames.toNat_lt
  have hone : (1 : UInt32).toNat = 1 := rfl
  rw [UInt32.toNat_add, hone, hnow]
  omega

theorem text_counted_iff (cfg : Config F) (hconn : v.conns.lookup k = some conn)
    (hnow : conn.rejectedFrames.toNat = n) :
    (∀ conn', (v.next cfg (.text k)).conns.lookup k = some conn' →
      conn'.rejectedFrames.toNat = n + 1) ↔ conn.rejectedFrames.toNat + 1 < 2 ^ 32 := by
  have hafter : (v.next cfg (.text k)).conns.lookup k = some (countRejected conn) := by
    show (v.editConn k countRejected).conns.lookup k = _
    rw [lookup_editConn, if_pos rfl, hconn]
    rfl
  simp only [hafter, Option.some.injEq, forall_eq']
  exact counter_succ_iff hnow

theorem malformed_counted_iff (cfg : Config F) (hconn : v.conns.lookup k = some conn)
    (hnow : conn.rejectedFrames.toNat = n) :
    (∀ conn', (v.next cfg (.malformed k)).conns.lookup k = some conn' →
      conn'.rejectedFrames.toNat = n + 1) ↔ conn.rejectedFrames.toNat + 1 < 2 ^ 32 := by
  have hafter : (v.next cfg (.malformed k)).conns.lookup k = _ := rejectFrame_open hconn
  rw [hafter]
  by_cases hmany : kRejectedFramesDisconnect ≤ conn.rejectedFrames + 1
  · -- The counter has not run over, or the connection would be kept.
    rw [if_pos hmany]
    refine iff_of_true (fun _ h => by cases h) ?_
    have hlarge := UInt32.le_iff_toNat_le.mp hmany
    have hlimit : kRejectedFramesDisconnect.toNat = 64 := rfl
    have hone : (1 : UInt32).toNat = 1 := rfl
    rw [UInt32.toNat_add, hlimit, hone] at hlarge
    have hlt := conn.rejectedFrames.toNat_lt
    omega
  · rw [if_neg hmany]
    have hcount : ∀ c : Conn, some (if kRejectedFramesNoWork ≤ conn.rejectedFrames + 1 then
        { countRejected conn with
          session := { (countRejected conn).session with abusive := true } }
        else countRejected conn) = some c → c.rejectedFrames = conn.rejectedFrames + 1 := by
      intro c hc
      cases hc
      split <;> rfl
    rw [← counter_succ_iff hnow]
    constructor
    · intro h
      have hown := h _ rfl
      rw [hcount _ rfl] at hown
      exact hown
    · intro hown c hc
      rw [hcount c hc]
      exact hown

-- A frame that verifies leaves the counter as it is.
theorem message_counted_iff (cfg : Config F) (body : Body F) (payload : Payload) (nowMs : UInt64)
    (token : Token) (hconn : v.conns.lookup k = some conn) :
    (∀ conn', (v.next cfg (.message k body payload nowMs token)).conns.lookup k = some conn' →
      conn'.rejectedFrames.toNat = 0) ↔ conn.rejectedFrames = 0 ∨ conn.session.Refuses body := by
  have hframe := onFrame_framed cfg body payload nowMs token hconn
  have hcloses := Session.onMessage_close_iff cfg conn.session v.shared body payload nowMs token
  rcases hframe.own with ⟨hstays, hown, -⟩ | ⟨hclose, -, hgone, -⟩
  · have hafter : (v.next cfg (.message k body payload nowMs token)).conns.lookup k = _ := hown
    have hopen : ¬ conn.session.Refuses body := by
      rw [← hcloses, hstays]
      exact Bool.false_ne_true
    simp only [hafter, Option.some.injEq, forall_eq', hopen, or_false]
    exact ⟨fun h => UInt32.toNat_inj.mp h, fun h => by rw [h]; rfl⟩
  · have hafter : (v.next cfg (.message k body payload nowMs token)).conns.lookup k = none := hgone
    rw [hafter]
    exact iff_of_true (fun _ h => by cases h) (.inr (hcloses.mp hclose))

-- What is not a frame of the connection leaves its counter too.
theorem counted_aside (cfg : Config F) (hn : v.Named) (hconn : v.conns.lookup k = some conn)
    (hsame : standingAfter k conn.standing e = conn.standing)
    (hafter : (v.next cfg e).conns.lookup k = some conn') :
    conn'.rejectedFrames = conn.rejectedFrames := by
  have hstanding := standing_next cfg hn e hconn hafter
  rw [hsame, Conn.standing, Conn.standing, Prod.mk.injEq] at hstanding
  exact hstanding.1

theorem counted_step (hn : v.Named) (hunopened : v.nextConnId ≤ k → streak k past = 0)
    (hcounted : Counted k v past) (h : Step cfg v e v') :
    Counted k v' (past ++ [(v, e)]) ↔ InStreak k v e := by
  have hconns : v'.conns = (v.next cfg e).conns := by rw [h.rest]
  unfold Counted
  rw [hconns, streak_concat]
  cases hconn : v.conns.lookup k with
  | none =>
      have hquiet : v.verifies k e = false ∧ v.rejects k e = false := by
        cases e <;> simp [verifies, rejects, hconn]
      rw [if_neg (by simp [hquiet.1]), if_neg (by simp [hquiet.2])]
      constructor
      · intro _
        cases e <;> simp [InStreak, hconn]
      · intro _ conn' hafter
        obtain ⟨hk, hfresh⟩ := standing_opened cfg e hconn hafter
        rw [Conn.standing, Prod.mk.injEq] at hfresh
        rw [hfresh.1, hunopened hk.le]
        rfl
  | some conn =>
      have hnow : conn.rejectedFrames.toNat = streak k past := hcounted conn hconn
      have hkept : standingAfter k conn.standing e = conn.standing →
          ∀ conn', (v.next cfg e).conns.lookup k = some conn' →
            conn'.rejectedFrames.toNat = streak k past := by
        intro hsame conn' hafter
        rw [counted_aside cfg hn hconn hsame hafter, hnow]
      cases e with
      | createJob | seedRender | «open» | close | sweep => exact iff_of_true (hkept rfl) trivial
      | text i =>
          simp only [verifies, rejects, InStreak, hconn, Option.isSome_some, Bool.and_true,
            decide_eq_true_eq, Bool.false_eq_true, if_false, Option.some.injEq, forall_eq']
          by_cases hi : i = k
          · subst hi
            simp only [if_true, forall_const]
            exact text_counted_iff cfg hconn hnow
          · simp only [if_neg hi]
            exact iff_of_true (hkept (if_neg hi)) fun h => absurd h hi
      | malformed i =>
          simp only [verifies, rejects, InStreak, hconn, Option.isSome_some, Bool.and_true,
            decide_eq_true_eq, Bool.false_eq_true, if_false, Option.some.injEq, forall_eq']
          by_cases hi : i = k
          · subst hi
            simp only [if_true, forall_const]
            exact malformed_counted_iff cfg hconn hnow
          · simp only [if_neg hi]
            exact iff_of_true (hkept (if_neg hi)) fun h => absurd h hi
      | message i body payload nowMs token =>
          simp only [verifies, rejects, InStreak, hconn, Option.isSome_some, Bool.and_true,
            decide_eq_true_eq, Bool.false_eq_true, if_false, Option.some.injEq, forall_eq']
          by_cases hi : i = k
          · subst hi
            simp only [if_true, forall_const]
            exact message_counted_iff cfg body payload nowMs token hconn
          · simp only [if_neg hi]
            exact iff_of_true (hkept rfl) fun h => absurd h hi

theorem earned_step (hn : v.Named) (hearned : Earned k v) (hin : InStreak k v e)
    (h : Step cfg v e v') : Earned k v' := by
  have hconns : v'.conns = (v.next cfg e).conns := by rw [h.rest]
  intro conn' hafter habusive
  rw [hconns] at hafter
  cases hconn : v.conns.lookup k with
  | none =>
      have hfresh := (standing_opened cfg e hconn hafter).2
      rw [Conn.standing, Prod.mk.injEq] at hfresh
      rw [hfresh.2] at habusive
      cases habusive
  | some conn =>
      have hstanding := standing_next cfg hn e hconn hafter
      have hold := hearned conn hconn
      have hgrows : conn.rejectedFrames.toNat + 1 < 2 ^ 32 →
          conn.rejectedFrames ≤ conn.rejectedFrames + 1 := by
        intro hlt
        rw [UInt32.le_iff_toNat_le, UInt32.toNat_add]
        have hone : (1 : UInt32).toNat = 1 := rfl
        rw [hone]
        omega
      have hkept : standingAfter k conn.standing e = conn.standing →
          kRejectedFramesNoWork ≤ conn'.rejectedFrames := by
        intro hsame
        rw [hsame, Conn.standing, Conn.standing, Prod.mk.injEq] at hstanding
        rw [hstanding.1]
        exact hold (hstanding.2 ▸ habusive)
      cases e with
      | createJob | seedRender | «open» | close | sweep | message => exact hkept rfl
      | text i =>
          by_cases hi : i = k
          · simp only [standingAfter, if_pos hi, Conn.standing, Prod.mk.injEq] at hstanding
            rw [hstanding.1]
            exact UInt32.le_trans (hold (hstanding.2 ▸ habusive)) (hgrows (hin hi conn hconn))
          · exact hkept (if_neg hi)
      | malformed i =>
          by_cases hi : i = k
          · simp only [standingAfter, if_pos hi, Conn.standing, Prod.mk.injEq] at hstanding
            rw [hstanding.2, Bool.or_eq_true] at habusive
            rw [hstanding.1]
            rcases habusive with hwas | hmany
            · exact UInt32.le_trans (hold hwas) (hgrows (hin hi conn hconn))
            · exact of_decide_eq_true hmany
          · exact hkept (if_neg hi)

theorem reversible_of (hcounted : Counted k v past) (hearned : Earned k v) :
    Reversible cfg k v past := by
  intro conn hconn hfew req payload nowMs token hgrants
  have hcalm : conn.session.abusive = false := by
    by_contra habusive
    have hmany := UInt32.le_iff_toNat_le.mp (hearned conn hconn (by simpa using habusive))
    rw [hcounted conn hconn] at hmany
    omega
  have hsame : ({ conn.session with abusive := false } : Session) = conn.session := by
    rw [← hcalm]
  rw [hsame] at hgrants
  exact hgrants

-- Throttling goes by the streak, and is taken back with it, exactly in the runs in which
-- no verified frame follows a rejected one.
theorem per_streak_iff (h₀ : v₀.Started)
    (h : Reach (Recalling (Step cfg)) (fun _ _ => True) (v₀, []) (v, past)) (k : Nat) :
    Recalling.Along (PerStreak cfg k) (v, past) ↔
      ∀ before e after, past = before ++ e :: after → InStreak k e.1 e.2 := by
  have hnamed : ∀ r before, Reach (Recalling (Step cfg)) (fun _ _ => True) (v₀, []) (r, before) →
      r.Named := fun r before hr => named_of_run h₀.toUp (Recalling.forget hr)
  have hcounted := Recalling.along_iff h (Counted k) (fun _ r e => InStreak k r e)
    (Counted.start h₀.toUp k) fun r before e r' hr hi _ hstep =>
      counted_step (hnamed r before hr) (streak_unopened h₀.toUp hr) hi hstep
  have hboth := Recalling.along_iff h (fun r before => Counted k r before ∧ Earned k r)
    (fun _ r e => InStreak k r e)
    ⟨Counted.start h₀.toUp k, fun conn hconn => by
      rw [h₀.conns] at hconn
      cases hconn⟩ fun r before e r' hr hi _ hstep => by
      have hstep' := counted_step (hnamed r before hr) (streak_unopened h₀.toUp hr) hi.1 hstep
      exact ⟨fun h => hstep'.mp h.1, fun hin =>
        ⟨hstep'.mpr hin, earned_step (hnamed r before hr) hi.2 hin hstep⟩⟩
  constructor
  · intro hall
    exact hcounted.mp (Recalling.along_mono (fun _ _ hfair => hfair.1) hall)
  · intro hin
    exact Recalling.along_mono (fun _ _ hi => ⟨hi.1, reversible_of hi.1 hi.2⟩) (hboth.mpr hin)

end

-- A peer that frames badly at first and then correctly.
def brokenRun : List (Event Rat) :=
  .createJob "brute_search_v1" 1000 7 0 :: joins 1 10 80 ++
    (List.replicate 16 (.malformed 1) ++ [.message 1 (.benchmarkResult 80) [] 20 []])

theorem per_streak_iff_search :
    (((searchStart.runAll (searches {}) searchRun).conns.lookup 1).map Conn.standing =
        some (0, false)) ∧
      (Recalling.Along (PerStreak (searches {}) 1)
          (searchStart.runAll (searches {}) searchRun,
            [] ++ searchStart.history (searches {}) searchRun) ↔
        ∀ before e after, [] ++ searchStart.history (searches {}) searchRun = before ++ e :: after →
          InStreak 1 e.1 e.2) :=
  ⟨by decide +kernel,
    per_streak_iff searchStart_started (recalls_history (searches {}) searchRun searchStart []) 1⟩

-- Its last frame verified, and still sixteen are held against it and it is refused.
theorem throttled_for_good :
    (¬ ∀ past v, Reach (Recalling (Step (searches {}))) (fun _ _ => True) (searchStart, []) (v, past) →
      Recalling.Along (Counted 1) (v, past)) ∧
    ¬ ∀ past v, Reach (Recalling (Step (searches {}))) (fun _ _ => True) (searchStart, []) (v, past) →
      Recalling.Along (Reversible (searches {}) 1) (v, past) := by
  have hrun := recalls_history (searches {}) brokenRun searchStart []
  have hstreak : streak 1 ([] ++ searchStart.history (searches {}) brokenRun) = 0 := by
    decide +kernel
  have hrefused : ((searchStart.runAll (searches {}) brokenRun).conns.lookup 1).map (fun conn =>
      (conn.rejectedFrames,
        (({ conn.session with abusive := false } : Session).onMessage (searches {})
          (searchStart.runAll (searches {}) brokenRun).shared asking [] 30 []).reaction.replies.any
            Reply.isTaskGrant,
        (conn.session.onMessage (searches {}) (searchStart.runAll (searches {}) brokenRun).shared
          asking [] 30 []).reaction.replies.any Reply.isTaskGrant)) = some (16, true, false) := by
    decide +kernel
  obtain ⟨conn, hconn, hstood⟩ := Option.map_eq_some_iff.mp hrefused
  simp only [Prod.mk.injEq] at hstood
  obtain ⟨hcount, hcalm, hnone⟩ := hstood
  constructor
  · intro h
    have hsixteen := (h _ _ hrun).2 conn hconn
    rw [hstreak, hcount] at hsixteen
    exact absurd hsixteen (by decide)
  · intro h
    have hgrants := (h _ _ hrun).2 conn hconn (by rw [hstreak]; decide) _ _ _ _ hcalm
    exact Bool.false_ne_true (hnone.symm.trans hgrants)

end Server

end P2pGpu.Coordinator
