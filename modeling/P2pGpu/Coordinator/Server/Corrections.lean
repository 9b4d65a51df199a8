import P2pGpu.Coordinator.Server.Estimates
import P2pGpu.Coordinator.Server.Leases

namespace P2pGpu.Coordinator

open P2pGpu.Protocol

section

variable {F : Type} [Double F]

namespace Server

open JobManager Session

variable {cfg : Config F} {v v' : Server F} {e : Event F} {nowMs : UInt64}
  {good : JobId → Prop}

-- The tasks that an event hands out.
def grants (cfg : Config F) (v : Server F) : Event F → List (Grant F)
  | .message connId (.leaseRequest req) payload nowMs token =>
      match v.conns.lookup connId with
      | none => []
      | some conn =>
          grantsIn cfg conn.session.workerId (v.shared.fleet.scoreOf conn.session.workerId) nowMs
            (conn.session.onMessage cfg v.shared (.leaseRequest req) payload nowMs
              token).reaction.replies
  | _ => []

-- What an expiry is taken for.
def expiry (leaseMs : UInt32) (f : Fleet F) (e : Expiry) : List (Note F) :=
  match f.find e.holder with
  | none => []
  | some r =>
      if 0.0 < r.predictedMs then
        [.observed ⟨e.holder, e.task, r.predictedMs, Double.ofUInt64 leaseMs.toUInt64, none⟩]
      else []

def expiries (leaseMs : UInt32) : List Expiry → Fleet F → List (Note F)
  | [], _ => []
  | e :: rest, f =>
      expiry leaseMs f e ++ expiries leaseMs rest (f.mutable e.holder (observeExpiry leaseMs))

-- Every correction that an event makes.
def observations (cfg : Config F) (v : Server F) (e : Event F) : List (Note F) :=
  match e with
  | .sweep nowMs _ =>
      expiries cfg.leaseMs (v.jobs.sweepExpiredLeases nowMs).1 v.shared.fleet
  | _ =>
      match v.hear cfg e with
      | none => []
      | some c =>
          if (c.verdict cfg v).action = .accept then
            completionOf v.shared.fleet c.session.workerId c.taskId c.session.nowMs
          else []

def notesOf (cfg : Config F) (v : Server F) (e : Event F) : List (Note F) :=
  (v.grants cfg e).map .granted ++ v.observations cfg e

-- All that is noted of a run.
def notes (cfg : Config F) (past : List (Server F × Event F)) : List (Note F) :=
  past.flatMap fun step => step.1.notesOf cfg step.2

theorem notes_concat (past : List (Server F × Event F)) (v : Server F) (e : Event F) :
    notes cfg (past ++ [(v, e)]) = notes cfg past ++ v.notesOf cfg e := by
  simp [notes]

theorem expiry_revised (leaseMs : UInt32) (f : Fleet F) (e : Expiry) :
    f.Revised (expiry leaseMs f e) (f.mutable e.holder (observeExpiry leaseMs)) := by
  cases hr : f.find e.holder with
  | none =>
      have hnone : expiry leaseMs f e = [] := by
        unfold expiry
        rw [hr]
      rw [hnone]
      refine .mutable f e.holder fun r hfound => ?_
      rw [hr] at hfound
      cases hfound
  | some r =>
      unfold expiry
      rw [hr]
      dsimp only
      by_cases hpositive : 0.0 < r.predictedMs
      · rw [if_pos hpositive]
        refine .note f (.observed _) fun r₀ hfound => ?_
        change f.find e.holder = some r₀ at hfound
        obtain rfl := Option.some.inj (hr.symm.trans hfound)
        unfold observeExpiry
        rw [if_pos hpositive]
        rfl
      · rw [if_neg hpositive]
        refine .mutable f e.holder fun r₀ hfound => ?_
        obtain rfl := Option.some.inj (hr.symm.trans hfound)
        unfold observeExpiry
        rw [if_neg hpositive]

theorem expiries_revised (leaseMs : UInt32) (expired : List Expiry) (f : Fleet F) :
    f.Revised (expiries leaseMs expired f)
      (expired.foldl (fun fleet e => fleet.mutable e.holder (observeExpiry leaseMs)) f) := by
  induction expired generalizing f with
  | nil => exact .refl f
  | cons e expired ih => exact (expiry_revised leaseMs f e).trans (ih _)

theorem sweep_revised (cfg : Config F) (v : Server F) (nowMs : UInt64) (flushed : Bool) :
    v.shared.fleet.Revised (v.observations cfg (.sweep nowMs flushed))
      (v.sweep cfg nowMs flushed).shared.fleet := by
  have hexpired : v.shared.fleet.Revised (v.observations cfg (.sweep nowMs flushed))
      (v.expireLeases cfg nowMs).shared.fleet := expiries_revised cfg.leaseMs _ v.shared.fleet
  have hdropped : ∀ (lost : List WorkerId) (v : Server F),
      v.shared.fleet.Revised [] (lost.foldl dropWorker v).shared.fleet := by
    intro lost
    induction lost with
    | nil => exact fun v => .refl v.shared.fleet
    | cons id lost ih => exact fun v => (Fleet.Revised.leave _ id).keep (ih (v.dropWorker id))
  have hpushed : ∀ v : Server F, v.shared.fleet.Revised [] v.pushRevokes.shared.fleet := by
    intro v
    refine .foldl (fun f id => ?_) _ _
    exact .mutable f id fun _ _ => rfl
  rw [sweep_eq]
  exact (hexpired.kept (hdropped _ _)).kept (hpushed _)

theorem closeConn_revised (v : Server F) (connId : Nat) :
    v.shared.fleet.Revised [] (v.closeConn connId).shared.fleet := by
  unfold closeConn
  split
  · exact .refl v.shared.fleet
  · unfold onDisconnect
    dsimp only
    split
    · exact .leave v.shared.fleet _
    · exact .refl v.shared.fleet

-- An answer that is heard is noted if it is accepted.
theorem Hears.revised {c : Hearing} (h : v.Hears cfg e c) :
    v.shared.fleet.Revised (v.notesOf cfg e) (v.next cfg e).shared.fleet := by
  have hopened : v.shared.fleet.Revised [] (c.opened v).fleet := by
    have hheard : v.shared.fleet.Revised []
        (c.session.heardFrom v.shared c.session.nowMs).fleet :=
      .mutable v.shared.fleet c.session.workerId fun _ _ => rfl
    exact hheard.keep (readied_revised _ _ _ _ _)
  have hnotes : v.notesOf cfg e =
      if (c.verdict cfg v).action = .accept then
        completionOf v.shared.fleet c.session.workerId c.taskId c.session.nowMs
      else [] := by
    have hhear := hear_of_hears h
    obtain ⟨token, rfl⟩ := h.event
    unfold notesOf observations
    dsimp only [grants]
    rw [hhear]
    rfl
  rw [h.next, hnotes]
  refine .kept ?_ (drainRevokes_revised _ _)
  unfold ruling rule
  cases haction : (c.verdict cfg v).action with
  | needMoreReplicas =>
      rw [if_neg (by decide)]
      exact hopened
  | inconclusive =>
      rw [if_neg (by decide)]
      exact hopened
  | accept =>
      rw [if_pos rfl]
      refine complete_revised ?_
      unfold settled
      rw [(publish_rest _ _ _ _ _).1]
      exact hopened

theorem observations_unheard (hunheard : ∀ c, ¬ v.Hears cfg e c)
    (hsweep : ∀ nowMs flushed, e ≠ .sweep nowMs flushed) : v.observations cfg e = [] := by
  unfold observations
  split
  · exact absurd rfl (hsweep _ _)
  · cases hhear : v.hear cfg e with
    | none => rfl
    | some c => exact absurd (hears_of_hear hhear) (hunheard c)

-- What is owed to a worker is no work.
theorem grantsIn_onMessage (cfg : Config F) (s : Session) (w : Shared F) (body : Body F)
    (payload : Payload) (nowMs : UInt64) (token : Token) (worker : WorkerId) (score : F) :
    grantsIn cfg worker score nowMs (s.onMessage cfg w body payload nowMs token).reaction.replies =
      grantsIn cfg worker score nowMs
        (s.receive cfg w body payload nowMs token).reaction.replies := by
  have hrevokes : ∀ ids : List TaskId,
      grantsIn cfg worker score nowMs (ids.map Reply.revoke) = [] := by
    intro ids
    induction ids with
    | nil => rfl
    | cons id ids ih => exact ih
  unfold onMessage
  dsimp only
  split
  · rw [grantsIn_append]
    unfold drainRevokes
    split
    · exact List.append_nil _
    · rw [hrevokes, List.append_nil]
  · rfl

theorem grants_asked {connId : Nat} {conn : Conn} {req : LeaseRequest} {payload : Payload}
    {token : Token} (hconn : v.conns.lookup connId = some conn) :
    v.grants cfg (.message connId (.leaseRequest req) payload nowMs token) =
      grantsIn cfg conn.session.workerId (v.shared.fleet.scoreOf conn.session.workerId) nowMs
        (conn.session.receive cfg v.shared (.leaseRequest req) payload nowMs
          token).reaction.replies := by
  dsimp only [grants]
  rw [hconn]
  exact grantsIn_onMessage _ _ _ _ _ _ _ _ _

-- Work is asked for by whoever has said who it is.
theorem asks_hands {connId : Nat} {conn : Conn} {req : LeaseRequest} {payload : Payload}
    {token : Token} (hconn : v.conns.lookup connId = some conn)
    (hknown : conn.session.handshaked = true) :
    Hands conn.session.workerId nowMs v.shared
      (conn.session.receive cfg v.shared (.leaseRequest req) payload nowMs token).shared
      (v.grants cfg (.message connId (.leaseRequest req) payload nowMs token)) := by
  rw [grants_asked hconn, receive_known cfg v.shared _ payload nowMs token hknown]
  have hscore : (conn.session.heardFrom v.shared nowMs).fleet.scoreOf conn.session.workerId =
      v.shared.fleet.scoreOf conn.session.workerId := by
    unfold Fleet.scoreOf heardFrom
    rw [Fleet.find_touch, if_pos rfl]
    cases v.shared.fleet.find conn.session.workerId <;> rfl
  have hasked := onLeaseRequest_hands cfg { conn.session with nowMs }
    (conn.session.heardFrom v.shared nowMs) req nowMs
  rw [hscore] at hasked
  have hheard : Hands conn.session.workerId nowMs v.shared
      (conn.session.heardFrom v.shared nowMs) [] :=
    ⟨fun _ _ _ hi => .inl hi, .mutable v.shared.fleet conn.session.workerId fun _ _ => rfl,
      fun g hg => absurd hg List.not_mem_nil⟩
  exact hheard.trans hasked fun hm => hm

theorem grants_silent {connId : Nat} {conn : Conn} {req : LeaseRequest} {payload : Payload}
    {token : Token} (hconn : v.conns.lookup connId = some conn)
    (hknown : conn.session.handshaked = false) :
    v.grants cfg (.message connId (.leaseRequest req) payload nowMs token) = [] := by
  rw [grants_asked hconn, receive_silent cfg v.shared nowMs token payload hknown rfl]
  rfl

-- A frame of a connection that has not said who it is can only be its hello.
theorem silent_follows {connId : Nat} {conn : Conn} {body : Body F} {payload : Payload}
    {token : Token} (hconn : v.conns.lookup connId = some conn)
    (hknown : conn.session.handshaked = false) :
    v.shared.fleet.Follows []
      (v.next cfg (.message connId body payload nowMs token)).shared.fleet := by
  have hframe := onFrame_framed cfg body payload nowMs token hconn
  show v.shared.fleet.Follows [] (v.onFrame cfg connId body payload nowMs token).shared.fleet
  rw [hframe.shared]
  intro id r' hr'
  obtain ⟨r, hr, heq⟩ :=
    onMessage_drained cfg conn.session v.shared body payload nowMs token id r' hr'
  rw [Estimate.after_nil] at heq
  rw [heq]
  cases hbody : isHello body with
  | false =>
      rw [receive_silent cfg v.shared nowMs token payload hknown hbody] at hr
      exact .inr ⟨r, hr, rfl⟩
  | true =>
      cases body with
      | hello hello =>
          have hreceive : conn.session.receive cfg v.shared (.hello hello) payload nowMs token =
              ({ conn.session with nowMs } : Session).onHello cfg v.shared hello token := by
            unfold receive
            simp [hknown, isHello, dispatch]
          rw [hreceive] at hr
          exact onHello_follows cfg _ v.shared hello token id r hr
      | _ => cases hbody

theorem grants_unasked {connId : Nat} {body : Body F} {payload : Payload} {token : Token}
    (hasks : ∀ req, body ≠ .leaseRequest req) :
    v.grants cfg (.message connId body payload nowMs token) = [] := by
  cases body with
  | leaseRequest req => exact absurd rfl (hasks req)
  | _ => rfl

theorem message_revised (hs : v.jobs.Sound cfg.kernels good) {connId : Nat} {conn : Conn}
    {body : Body F} {payload : Payload} {token : Token}
    (hconn : v.conns.lookup connId = some conn) (hknown : conn.session.handshaked = true)
    (hunheard : ∀ c, ¬ v.Hears cfg (.message connId body payload nowMs token) c) :
    v.shared.fleet.Revised
      ((v.grants cfg (.message connId body payload nowMs token)).map .granted)
      (v.next cfg (.message connId body payload nowMs token)).shared.fleet := by
  have hframe := onFrame_framed cfg body payload nowMs token hconn
  show v.shared.fleet.Revised _ (v.onFrame cfg connId body payload nowMs token).shared.fleet
  rw [hframe.shared]
  refine Fleet.Revised.kept ?_ (onMessage_drained _ _ _ _ _ _ _)
  by_cases hasked : ∃ req, body = .leaseRequest req
  · obtain ⟨req, rfl⟩ := hasked
    exact (asks_hands hconn hknown).fleet
  · have hasks : ∀ req, body ≠ .leaseRequest req := fun req he => hasked ⟨req, he⟩
    rw [grants_unasked hasks, receive_known cfg v.shared body payload nowMs token hknown]
    have hheard : v.shared.fleet.Revised [] (conn.session.heardFrom v.shared nowMs).fleet :=
      .mutable v.shared.fleet conn.session.workerId fun _ _ => rfl
    refine hheard.keep (dispatch_revised hknown hasks fun header he taskId n hlanded => ?_)
    subst he
    obtain ⟨c, hc⟩ := hears_of_landed hs hconn hknown hlanded
    exact hunheard c hc

theorem message_follows (hs : v.jobs.Sound cfg.kernels good) {connId : Nat} {body : Body F}
    {payload : Payload} {token : Token}
    (hunheard : ∀ c, ¬ v.Hears cfg (.message connId body payload nowMs token) c) :
    v.shared.fleet.Follows
      ((v.grants cfg (.message connId body payload nowMs token)).map .granted)
      (v.next cfg (.message connId body payload nowMs token)).shared.fleet := by
  cases hconn : v.conns.lookup connId with
  | none =>
      have hsame : v.next cfg (.message connId body payload nowMs token) = v :=
        onFrame_closed hconn
      have hnone : v.grants cfg (.message connId body payload nowMs token) = [] := by
        cases body with
        | leaseRequest req =>
            dsimp only [grants]
            rw [hconn]
        | _ => rfl
      rw [hsame, hnone]
      exact (Fleet.Revised.refl v.shared.fleet).follows
  | some conn =>
      cases hknown : conn.session.handshaked with
      | true => exact (message_revised hs hconn hknown hunheard).follows
      | false =>
          have hnone : v.grants cfg (.message connId body payload nowMs token) = [] := by
            cases body with
            | leaseRequest req => exact grants_silent hconn hknown
            | _ => rfl
          rw [hnone]
          exact silent_follows hconn hknown

-- The notes are all that a record is revised by, from when its worker was entered on.
theorem next_follows (hs : v.jobs.Sound cfg.kernels good) :
    v.shared.fleet.Follows (v.notesOf cfg e) (v.next cfg e).shared.fleet := by
  by_cases hheard : ∃ c, v.Hears cfg e c
  · obtain ⟨c, hc⟩ := hheard
    exact hc.revised.follows
  · have hunheard : ∀ c, ¬ v.Hears cfg e c := fun c hc => hheard ⟨c, hc⟩
    have hself := (Fleet.Revised.refl v.shared.fleet).follows
    cases e with
    | createJob kernelId totalUnits seed unitsPerGroup => exact hself
    | seedRender render inputRef => exact hself
    | «open» => exact hself
    | text connId => exact hself
    | close connId => exact (closeConn_revised v connId).follows
    | sweep nowMs flushed => exact (sweep_revised cfg v nowMs flushed).follows
    | malformed connId =>
        show v.shared.fleet.Follows [] (v.rejectFrame connId).shared.fleet
        obtain ⟨edit, -, heq | heq⟩ := rejectFrame_cases v connId
        · rw [← heq]
          exact (closeConn_revised (v.editConn connId edit) connId).follows
        · rw [← heq]
          exact hself
    | message connId body payload nowMs token =>
        unfold notesOf
        rw [observations_unheard hunheard nofun, List.append_nil]
        exact message_follows hs hunheard

-- What is held after an event was held before it, or is handed out by it.
theorem Deed.withholds {m : JobManager} (h : Deed cfg v e m) (hm : v.jobs.Minted)
    (hp : v.jobs.Partition good)
    (hasks : ∀ connId req payload nowMs token,
      e ≠ .message connId (.leaseRequest req) payload nowMs token) :
    Moves Withholds v.jobs m := by
  cases h with
  | idle => exact Reach.refl _
  | plants h => exact Reach.mono (fun _ _ hl => withholds_of_plants hl) (h hp.fresh)
  | @speaks m connId conn body payload nowMs token he hconn hknown h =>
      have hnot : ¬ ∃ req, body = .leaseRequest req := by
        rintro ⟨req, rfl⟩
        exact hasks _ _ _ _ _ he
      cases h with
      | lends h => exact Reach.mono (fun _ _ hl => hl.withholds hnot) (h.moves hm)
      | answers h => exact Reach.mono (fun _ _ hl => hl.withholds) h.moves
      | accepts h =>
          have hfirst : Moves Withholds v.jobs _ := Reach.mono (fun _ _ hl => hl.withholds) h.moves
          exact hfirst.trans (cancelSiblingsOf_withholds _ _)
      | strands h => exact Reach.mono (fun _ _ hl => hl.withholds) h
  | leaves he hconn hknown =>
      exact Reach.mono (fun _ _ hl => hl.withholds) (releaseAllHeldBy_moves _ _)
  | @sweeps m nowMs flushed he h =>
      have hexpired : Moves Withholds v.jobs (v.jobs.sweepExpiredLeases nowMs).2 :=
        Reach.mono (fun _ _ hl => hl.withholds) (sweepExpiredLeases_moves _ _)
      have hlost := hexpired.trans (Reach.mono (fun _ _ hl => hl.withholds) h)
      have hflush : m.Withholds .flush := trivial
      split
      · exact hlost.tail hflush (Move.flush m)
      · exact hlost

theorem next_held (hm : v.jobs.Minted) (hp : v.jobs.Partition good) {x : WorkerId} {i : TaskId}
    (hi : i ∈ (v.next cfg e).jobs.heldBy x) :
    i ∈ v.jobs.heldBy x ∨ ∃ g ∈ v.grants cfg e, g.worker = x ∧ g.task = i := by
  by_cases hasked : ∃ connId req payload nowMs token,
      e = .message connId (.leaseRequest req) payload nowMs token
  · obtain ⟨connId, req, payload, nowMs, token, rfl⟩ := hasked
    cases hconn : v.conns.lookup connId with
    | none =>
        have hsame : v.next cfg (.message connId (.leaseRequest req) payload nowMs token) = v :=
          onFrame_closed hconn
        rw [hsame] at hi
        exact .inl hi
    | some conn =>
        have hframe := onFrame_framed cfg (.leaseRequest req) payload nowMs token hconn
        obtain ⟨-, -, fleet, -, hshared⟩ := onMessage_receive cfg conn.session v.shared
          (.leaseRequest req) payload nowMs token
        have hjobs : (v.next cfg (.message connId (.leaseRequest req) payload nowMs token)).jobs =
            (conn.session.receive cfg v.shared (.leaseRequest req) payload nowMs
              token).shared.jobs := by
          show (v.onFrame cfg connId (.leaseRequest req) payload nowMs token).shared.jobs = _
          rw [hframe.shared, hshared]
        rw [hjobs] at hi
        cases hknown : conn.session.handshaked with
        | true => exact (asks_hands hconn hknown).held hm x i hi
        | false =>
            rw [receive_silent cfg v.shared nowMs token payload hknown rfl] at hi
            exact .inl hi
  · refine .inl (Withholds.held ((next_deed cfg v e).withholds hm hp ?_) hm hi)
    exact fun connId req payload nowMs token he => hasked ⟨connId, req, payload, nowMs, token, he⟩

variable {v₀ : Server F}
  {notes : List (Note F)} {past : List (Server F × Event F)} {f : Fleet F} {m : JobManager}

-- One observation, of a task that is held and a record that predicts.
theorem sampled (hb : Backed notes f m) (hp : Paired notes) {s : Sample F} {r : WorkerRecord F}
    (hheld : s.task ∈ m.heldBy s.worker) (hr : f.find s.worker = some r)
    (hpositive : 0.0 < r.predictedMs) (hpredicted : s.predictedMs = r.predictedMs)
    (hactual : ∀ nowMs, s.doneMs = some nowMs →
      s.actualMs = Double.ofUInt64 (nowMs - r.grantedAtMs)) :
    Paired (notes ++ [.observed s]) :=
  Throughout.concat hp (hb.sample hheld hr hpositive hpredicted hactual)

theorem expiry_cases (leaseMs : UInt32) (f : Fleet F) (e : Expiry) :
    expiry leaseMs f e = [] ∨ ∃ r, f.find e.holder = some r ∧ 0.0 < r.predictedMs ∧
      expiry leaseMs f e = [.observed ⟨e.holder, e.task, r.predictedMs,
        Double.ofUInt64 leaseMs.toUInt64, none⟩] := by
  unfold expiry
  split
  · exact .inl rfl
  · rename_i r hr
    by_cases hpositive : 0.0 < r.predictedMs
    · rw [if_pos hpositive]
      exact .inr ⟨r, hr, hpositive, rfl⟩
    · rw [if_neg hpositive]
      exact .inl rfl

theorem expiries_observed (leaseMs : UInt32) (expired : List Expiry) (f : Fleet F) :
    ∀ n ∈ expiries leaseMs expired f, ∃ s, n = .observed s := by
  induction expired generalizing f with
  | nil => exact fun n hn => absurd hn List.not_mem_nil
  | cons e expired ih =>
      intro n hn
      rcases List.mem_append.mp hn with hfirst | hrest
      · rcases expiry_cases leaseMs f e with hnone | ⟨r, -, -, hone⟩
        · rw [hnone] at hfirst
          cases hfirst
        · rw [hone] at hfirst
          exact ⟨_, List.mem_singleton.mp hfirst⟩
      · exact ih _ n hrest

theorem expiries_paired (hzero : ¬ (0.0 : F) < 0.0) (leaseMs : UInt32) (expired : List Expiry)
    (hb : Backed notes f m) (hp : Paired notes)
    (hheld : ∀ e ∈ expired, e.task ∈ m.heldBy e.holder) :
    Paired (notes ++ expiries leaseMs expired f) := by
  induction expired generalizing notes f with
  | nil => simpa [expiries] using hp
  | cons e expired ih =>
      have hafter : Paired (notes ++ expiry leaseMs f e) := by
        rcases expiry_cases leaseMs f e with hnone | ⟨r, hr, hpositive, hone⟩
        · rw [hnone, List.append_nil]
          exact hp
        · rw [hone]
          exact sampled hb hp (hheld e List.mem_cons_self) hr hpositive rfl nofun
      have hbacked : Backed (notes ++ expiry leaseMs f e)
          (f.mutable e.holder (observeExpiry leaseMs)) m := by
        refine hb.observed hzero (fun n hn => ?_) (expiry_revised leaseMs f e).follows
          fun x i hi => hi
        exact expiries_observed leaseMs (e :: expired) f n (List.mem_append_left _ hn)
      have hall := ih hbacked hafter fun e' he' => hheld e' (List.mem_cons_of_mem e he')
      rw [List.append_assoc] at hall
      exact hall

theorem completion_paired {worker : WorkerId} {taskId : TaskId} {nowMs : UInt64}
    (hb : Backed notes f m) (hp : Paired notes) (hheld : taskId ∈ m.heldBy worker) :
    Paired (notes ++ completionOf f worker taskId nowMs) := by
  unfold completionOf
  split
  · rw [List.append_nil]
    exact hp
  · rename_i r hr
    unfold completion
    split
    · rename_i hpositive
      refine sampled hb hp hheld hr hpositive.1 rfl fun now hnow => ?_
      rw [← Option.some.inj hnow]
      rfl
    · rw [List.append_nil]
      exact hp

-- What is observed, if anything, and then nothing is granted.
theorem observations_cases (cfg : Config F) (v : Server F) (e : Event F) :
    v.observations cfg e = [] ∨
      (v.grants cfg e = [] ∧ ((∃ nowMs flushed, e = .sweep nowMs flushed) ∨
        ∃ c, v.Hears cfg e c ∧ v.observations cfg e =
          completionOf v.shared.fleet c.session.workerId c.taskId c.session.nowMs)) := by
  by_cases hsweep : ∃ nowMs flushed, e = .sweep nowMs flushed
  · obtain ⟨nowMs, flushed, rfl⟩ := hsweep
    exact .inr ⟨rfl, .inl ⟨nowMs, flushed, rfl⟩⟩
  · by_cases hheard : ∃ c, v.Hears cfg e c
    · obtain ⟨c, hc⟩ := hheard
      have hhear := hear_of_hears hc
      obtain ⟨token, rfl⟩ := hc.event
      unfold observations
      dsimp only
      rw [hhear]
      dsimp only
      split
      · exact .inr ⟨rfl, .inr ⟨c, hc, rfl⟩⟩
      · exact .inl rfl
    · refine .inl (observations_unheard (fun c hc => hheard ⟨c, hc⟩) fun nowMs flushed he => ?_)
      exact hsweep ⟨nowMs, flushed, he⟩

theorem observations_observed (cfg : Config F) (v : Server F) (e : Event F) :
    ∀ n ∈ v.observations cfg e, ∃ s, n = .observed s := by
  rcases observations_cases cfg v e with hnone | ⟨-, ⟨nowMs, flushed, rfl⟩ | ⟨c, -, hobserved⟩⟩
  · rw [hnone]
    exact fun n hn => absurd hn List.not_mem_nil
  · exact expiries_observed _ _ _
  · rw [hobserved]
    unfold completionOf completion
    intro n hn
    split at hn
    · cases hn
    · split at hn
      · exact ⟨_, List.mem_singleton.mp hn⟩
      · cases hn

theorem Hears.held {c : Hearing} (h : v.Hears cfg e c) :
    c.taskId ∈ v.jobs.heldBy c.session.workerId := by
  obtain ⟨t, hf, hheld, -⟩ := h.landed.readied_find
  exact mem_heldBy.mpr ⟨t, hf, hheld⟩

-- One event, whose grants agree.
theorem next_paired (hzero : ¬ (0.0 : F) < 0.0) (hs : v.jobs.Sound cfg.kernels good)
    (hagree : Agree (v.grants cfg e) v.shared.fleet v.jobs)
    (hb : Backed notes v.shared.fleet v.jobs) (hp : Paired notes) :
    Paired (notes ++ v.notesOf cfg e) ∧
      Backed (notes ++ v.notesOf cfg e) (v.next cfg e).shared.fleet (v.next cfg e).jobs := by
  have hfollows := next_follows (e := e) hs
  rcases observations_cases cfg v e with hnone | ⟨hungranted, hcases⟩
  · have hnotes : v.notesOf cfg e = (v.grants cfg e).map .granted := by
      unfold notesOf
      rw [hnone, List.append_nil]
    rw [hnotes] at hfollows ⊢
    refine ⟨hp.append fun n hn before => ?_, ?_⟩
    · obtain ⟨g, -, rfl⟩ := List.mem_map.mp hn
      trivial
    · exact hb.granted hzero hagree hfollows fun x i hi => next_held hs.minted hs.partition hi
  · have hnotes : v.notesOf cfg e = v.observations cfg e := by
      unfold notesOf
      rw [hungranted]
      rfl
    rw [hnotes] at hfollows ⊢
    refine ⟨?_, hb.observed hzero (observations_observed cfg v e) hfollows fun x i hi => ?_⟩
    · rcases hcases with ⟨nowMs, flushed, rfl⟩ | ⟨c, hc, hobserved⟩
      · exact expiries_paired hzero _ _ hb hp (sweepExpiredLeases_held v.jobs nowMs)
      · rw [hobserved]
        exact completion_paired hb hp hc.held
    · rcases next_held hs.minted hs.partition hi with hold | ⟨g, hg, -⟩
      · exact hold
      · rw [hungranted] at hg
        cases hg

theorem Backed.step (h : Backed notes (v.next cfg e).shared.fleet (v.next cfg e).jobs)
    (hstep : Step cfg v e v') : Backed notes v'.shared.fleet v'.jobs := by
  intro worker task r hi hr hpositive
  obtain ⟨t, hf, hleased⟩ := mem_heldBy.mp hi
  rw [hstep.rows.find_eq] at hf
  have hfind : v'.shared.fleet.find worker = (v.next cfg e).shared.fleet.find worker :=
    (Table.lookup_of_perm hstep.workers worker).symm
  exact h worker task r (mem_heldBy.mpr ⟨t, hf, hleased⟩) (hfind.symm.trans hr) hpositive

-- Every correction is made with what was predicted when the task that it is made for was
-- handed to its worker, and once, while no task is handed to a worker that holds another
-- unless they are predicted the same at the same time.
theorem corrections_paired (hzero : ¬ (0.0 : F) < 0.0) (h₀ : v₀.Started)
    (h : Reach (Recalling (Step cfg))
      (fun x e => Agree (x.1.grants cfg e) x.1.shared.fleet x.1.jobs) (v₀, []) (v, past)) :
    Paired (Server.notes cfg past) ∧
      ∀ step ∈ past, step.1.shared.fleet.Follows (step.1.notesOf cfg step.2)
        (step.1.next cfg step.2).shared.fleet := by
  have hsound : ∀ {u}, Reach (Step cfg) (fun _ _ => True) v₀ u →
      u.jobs.Sound cfg.kernels fun _ => False := fun hrun => (sound_of_run _ h₀ hrun).2
  refine ⟨?_, fun step hstep => next_follows (hsound (Recalling.past h step hstep))⟩
  have hinv := Recalling.invariant h
    (fun v past => Paired (Server.notes cfg past) ∧
      Backed (Server.notes cfg past) v.shared.fleet v.jobs) ⟨Throughout.nil, ?_⟩ ?_
  · exact hinv.1
  · intro worker task r hi
    obtain ⟨t, hf, -⟩ := mem_heldBy.mp hi
    have hempty : v₀.jobs = {} := h₀.jobs
    rw [hempty] at hf
    cases hf
  · rintro r past e r' hrun hagree ⟨hp, hb⟩ hstep
    obtain ⟨hpaired, hbacked⟩ :=
      next_paired hzero (hsound (Recalling.forget hrun)) hagree hb hp
    rw [notes_concat]
    exact ⟨hpaired, Backed.step hbacked hstep⟩

end Server

end

namespace Server

open JobManager Session

-- A worker that is handed two tasks at once, and answers the first.
def asksTwice : Event Rat :=
  .message 1 (.leaseRequest { maxTasks := 2, cachedAssets := none }) [] 20 []

def twoTasks (totalUnits : UInt64) : List (Event Rat) :=
  .createJob "brute_search_v1" totalUnits 7 0 :: joins 1 10 1e9 ++
    [asksTwice, tells 1 ⟨0, 2⟩ [1] 1020]

-- Two tasks of one size.
theorem corrections_paired_alike :
    notes (searches {}) (searchStart.history (searches {}) (twoTasks 100000000)) =
        [.granted ⟨⟨1, 0⟩, ⟨0, 2⟩, 250, 20⟩, .granted ⟨⟨1, 0⟩, ⟨0, 3⟩, 250, 20⟩,
          .observed ⟨⟨1, 0⟩, ⟨0, 2⟩, 250, 1000, some 1020⟩] ∧
      Paired (notes (searches {}) (searchStart.history (searches {}) (twoTasks 100000000))) := by
  have hchecks : Recalling.passes (next (searches {}))
      (fun _ v e => decide (Agree (v.grants (searches {}) e) v.shared.fleet v.jobs)) [] searchStart
      (twoTasks 100000000) = true := by decide +kernel
  have hrun : Reach (Recalling (Step (searches {})))
      (fun x e => Agree (x.1.grants (searches {}) e) x.1.shared.fleet x.1.jobs)
      (searchStart, []) (searchStart.runAll (searches {}) (twoTasks 100000000),
        [] ++ searchStart.history (searches {}) (twoTasks 100000000)) :=
    Recalling.foldl_passes (step_next (searches {})) (fun _ _ _ h => of_decide_eq_true h) _ []
      searchStart hchecks
  exact ⟨by decide +kernel, (corrections_paired (by decide +kernel) searchStart_started hrun).1⟩

-- What is left of the job is smaller, and the first task is corrected by its prediction.
theorem first_corrected_by_second :
    searchStart.Started ∧ ∃ past v,
      Reach (Recalling (Step (searches {}))) (fun _ _ => True) (searchStart, []) (v, past) ∧
        ¬ Paired (notes (searches {}) past) := by
  refine ⟨searchStart_started, _, _,
    recalls_history (searches {}) (twoTasks 4000000) searchStart [], fun h => ?_⟩
  have hnotes : notes (searches {}) (searchStart.history (searches {}) (twoTasks 4000000)) =
      [.granted ⟨⟨1, 0⟩, ⟨0, 2⟩, 250, 20⟩, .granted ⟨⟨1, 0⟩, ⟨0, 3⟩, 70, 20⟩] ++
        .observed ⟨⟨1, 0⟩, ⟨0, 2⟩, 70, 1000, some 1020⟩ :: [] := by decide +kernel
  obtain ⟨g, hlast, hpredicted, -⟩ := h _ _ _ hnotes
  have hfirst : lastNote (⟨1, 0⟩ : WorkerId) (⟨0, 2⟩ : TaskId)
      [.granted ⟨⟨1, 0⟩, ⟨0, 2⟩, 250, 20⟩, .granted ⟨⟨1, 0⟩, ⟨0, 3⟩, 70, 20⟩] =
        some (Note.granted (⟨⟨1, 0⟩, ⟨0, 2⟩, 250, 20⟩ : Grant Rat)) := by decide +kernel
  rw [hfirst] at hlast
  cases hlast
  exact absurd hpredicted (by decide +kernel)

end Server

end P2pGpu.Coordinator
