import P2pGpu.Coordinator.Server.Hearing
import P2pGpu.Coordinator.Session.Probes

namespace P2pGpu.Coordinator

open P2pGpu.Protocol

section

variable {F : Type} [Double F]

-- Somebody asks for work.
def Event.Asks (e : Event F) : Prop :=
  ∃ connId req payload nowMs token, e = .message connId (.leaseRequest req) payload nowMs token

namespace Server

open JobManager Session

variable {cfg : Config F} {v₀ v v' : Server F} {e : Event F} {c : Hearing} {good : JobId → Prop}

theorem closeConn_pool (v : Server F) (connId : Nat) :
    (v.closeConn connId).shared.spotChecks = v.shared.spotChecks ∧
      (v.closeConn connId).shared.reputation = v.shared.reputation := by
  refine ⟨?_, closeConn_reputation v connId⟩
  cases hconn : v.conns.lookup connId with
  | none => rw [closeConn_closed hconn]
  | some conn =>
      rw [closeConn_open hconn]
      dsimp only [onDisconnect]
      split <;> rfl

-- A message that neither asks for work nor brings an answer leaves the pool alone.
theorem message_pool_kept {connId : Nat} {conn : Conn} {body : Body F} {payload : Payload}
    {nowMs : UInt64} {token : Token} (hs : v.jobs.Sound cfg.kernels good)
    (hconn : v.conns.lookup connId = some conn)
    (hquiet : ∀ c, ¬ v.Hears cfg (.message connId body payload nowMs token) c)
    (hasks : ¬ ∃ req, body = .leaseRequest req) :
    (conn.session.onMessage cfg v.shared body payload nowMs token).shared.spotChecks =
        v.shared.spotChecks ∧
      (conn.session.onMessage cfg v.shared body payload nowMs token).shared.reputation.isSome =
        v.shared.reputation.isSome := by
  have hheard := onMessage_heard cfg conn.session v.shared body payload nowMs token
  cases hheard with
  | silent hsilent hsession hshared =>
      rw [hshared]
      exact ⟨rfl, rfl⟩
  | greets hello h =>
      refine ⟨h.spotChecks, ?_⟩
      rw [h.reputation, Option.isSome_map]
  | routine hknown hstays h =>
      obtain ⟨f, -, hrep⟩ := h.shared.standing
      refine ⟨h.shared.pool hasks, ?_⟩
      rw [hrep, Option.isSome_map]
  | judged header taskId n hknown hstays hbody hsession hlanded =>
      subst hbody
      have hhears : ∃ c, v.Hears cfg (.message connId (.resultHeader header) payload nowMs token)
          c := hears_of_landed hs hconn hknown hlanded
      obtain ⟨c, hc⟩ := hhears
      exact absurd hc (hquiet c)

theorem request_pool {conn : Conn} {req : LeaseRequest} {payload : Payload} {nowMs : UInt64}
    {token : Token} (hs : v.jobs.Sound cfg.kernels good) :
    v.shared.Issues
      (conn.session.onMessage cfg v.shared (.leaseRequest req) payload nowMs token).shared := by
  have hheard := onMessage_heard cfg conn.session v.shared (.leaseRequest req) payload nowMs token
  cases hheard with
  | silent hsilent hsession hshared =>
      rw [hshared]
      exact .of_eq rfl rfl
  | greets hello h =>
      refine .of_eq h.spotChecks ?_
      rw [h.reputation, Option.isSome_map]
  | routine hknown hstays h =>
      obtain ⟨-, -, fleet, -, hshared⟩ :=
        onMessage_receive cfg conn.session v.shared (.leaseRequest req) payload nowMs token
      rw [receive_known cfg v.shared _ payload nowMs token hknown] at hshared
      have hissues := onLeaseRequest_issues cfg { conn.session with nowMs }
        (conn.session.heardFrom v.shared nowMs) req nowMs hs.minted
      rw [hshared]
      exact ⟨hissues.known, hissues.reputation, hissues.probes⟩
  | judged header taskId n hknown hstays hbody => cases hbody

-- Only who asks for work is handed a probe.
theorem next_pool_kept (hs : v.jobs.Sound cfg.kernels good) (hquiet : ∀ c, ¬ v.Hears cfg e c)
    (hasks : ¬ e.Asks) :
    (v.next cfg e).shared.spotChecks = v.shared.spotChecks ∧
      (v.next cfg e).shared.reputation.isSome = v.shared.reputation.isSome := by
  cases e with
  | createJob => exact ⟨rfl, rfl⟩
  | seedRender => exact ⟨rfl, rfl⟩
  | «open» => exact ⟨rfl, rfl⟩
  | text => exact ⟨rfl, rfl⟩
  | malformed connId =>
      obtain ⟨edit, -, hreject⟩ := rejectFrame_cases v connId
      obtain ⟨hpool, hrep⟩ := closeConn_pool (v.editConn connId edit) connId
      change (v.rejectFrame connId).shared.spotChecks = v.shared.spotChecks ∧
        (v.rejectFrame connId).shared.reputation.isSome = v.shared.reputation.isSome
      rcases hreject with heq | heq
      · rw [← heq]
        exact ⟨hpool, congrArg _ hrep⟩
      · rw [← heq]
        exact ⟨rfl, rfl⟩
  | close connId =>
      obtain ⟨hpool, hrep⟩ := closeConn_pool v connId
      exact ⟨hpool, congrArg _ hrep⟩
  | sweep nowMs flushed =>
      have hswept := sweep_shared cfg v nowMs flushed
      exact ⟨hswept.spotChecks, congrArg _ hswept.reputation⟩
  | message connId body payload nowMs token =>
      cases hconn : v.conns.lookup connId with
      | none =>
          have hsame : v.next cfg (.message connId body payload nowMs token) = v :=
            onFrame_closed hconn
          rw [hsame]
          exact ⟨rfl, rfl⟩
      | some conn =>
          have hkept := message_pool_kept hs hconn hquiet fun ⟨req, hreq⟩ =>
            hasks ⟨connId, req, payload, nowMs, token, by rw [hreq]⟩
          have hframe := onFrame_framed cfg body payload nowMs token hconn
          have hshared : (v.next cfg (.message connId body payload nowMs token)).shared =
              (conn.session.onMessage cfg v.shared body payload nowMs token).shared :=
            hframe.shared
          rw [hshared]
          exact hkept

-- An event hands out probes, or an answer is judged, or the pool stays as it is.
theorem next_pool (hs : v.jobs.Sound cfg.kernels good) (hquiet : ∀ c, ¬ v.Hears cfg e c) :
    v.shared.Issues (v.next cfg e).shared := by
  by_cases hasks : e.Asks
  · obtain ⟨connId, req, payload, nowMs, token, rfl⟩ := hasks
    cases hconn : v.conns.lookup connId with
    | none =>
        have hsame : v.next cfg (.message connId (.leaseRequest req) payload nowMs token) = v :=
          onFrame_closed hconn
        rw [hsame]
        exact .of_eq rfl rfl
    | some conn =>
        have hframe := onFrame_framed cfg (.leaseRequest req) payload nowMs token hconn
        have hshared : (v.next cfg (.message connId (.leaseRequest req) payload nowMs token)).shared =
            (conn.session.onMessage cfg v.shared (.leaseRequest req) payload nowMs token).shared :=
          hframe.shared
        rw [hshared]
        exact request_pool hs
  · obtain ⟨hpool, hrep⟩ := next_pool_kept hs hquiet hasks
    exact .of_eq hpool hrep

theorem unlanded_of_unheard (hs : v.jobs.Sound cfg.kernels good)
    (hquiet : ∀ c, ¬ v.Hears cfg e c) : v.Unlanded cfg e := by
  intro connId header payload nowMs token conn taskId n he hconn hknown hlanded
  subst he
  have hhears : ∃ c, v.Hears cfg (.message connId (.resultHeader header) payload nowMs token)
      c := hears_of_landed hs hconn hknown hlanded
  obtain ⟨c, hc⟩ := hhears
  exact hquiet c hc

theorem next_compositor (hs : v.jobs.Sound cfg.kernels good) (hquiet : ∀ c, ¬ v.Hears cfg e c) :
    (v.next cfg e).shared.compositor = v.shared.compositor := by
  have hclose : ∀ (v : Server F) (connId : Nat),
      (v.closeConn connId).shared.compositor = v.shared.compositor := by
    intro v connId
    cases hconn : v.conns.lookup connId with
    | none => rw [closeConn_closed hconn]
    | some conn =>
        rw [closeConn_open hconn]
        dsimp only [onDisconnect]
        split <;> rfl
  cases e with
  | createJob => rfl
  | seedRender => rfl
  | «open» => rfl
  | text => rfl
  | malformed connId =>
      obtain ⟨edit, -, hreject⟩ := rejectFrame_cases v connId
      change (v.rejectFrame connId).shared.compositor = v.shared.compositor
      rcases hreject with heq | heq
      · rw [← heq]
        exact hclose _ connId
      · rw [← heq]
        rfl
  | close connId => exact hclose v connId
  | sweep nowMs flushed => exact (sweep_shared cfg v nowMs flushed).compositor
  | message connId body payload nowMs token =>
      cases hconn : v.conns.lookup connId with
      | none =>
          have hsame : v.next cfg (.message connId body payload nowMs token) = v :=
            onFrame_closed hconn
          rw [hsame]
      | some conn =>
          have hframe := onFrame_framed cfg body payload nowMs token hconn
          refine (congrArg Shared.compositor hframe.shared).trans ?_
          have hheard := onMessage_heard cfg conn.session v.shared body payload nowMs token
          generalize conn.session.onMessage cfg v.shared body payload nowMs token = turn at hheard
          cases hheard with
          | silent hsilent hsession hshared => rw [hshared]
          | greets hello h => exact h.compositor
          | routine hknown hstays h => exact h.shared.compositor
          | judged header taskId n hknown hstays hbody hsession hlanded =>
              exact absurd hlanded (unlanded_of_unheard hs hquiet connId header payload nowMs token
                conn taskId n (by rw [hbody]) hconn hknown)

-- The probe that is answered is forgotten, whatever the answer.
theorem opened_pool (c : Hearing) (v : Server F) :
    (c.opened v).spotChecks = v.shared.spotChecks.map fun pool => pool.forget c.taskId := by
  have hstats : ∀ w : Shared F, (c.session.recordStats w c.header.stats).spotChecks =
      w.spotChecks := by
    intro w
    unfold recordStats
    split <;> rfl
  have hasset : ∀ w : Shared F, (c.session.creditAsset w c.taskId).spotChecks = w.spotChecks := by
    intro w
    unfold creditAsset
    split
    · rfl
    · split <;> rfl
  have hprobe : ∀ w : Shared F, (c.session.checkProbe w c.taskId c.header.checksum).spotChecks =
      w.spotChecks.map fun pool => pool.forget c.taskId := by
    intro w
    unfold checkProbe
    split
    · rename_i hpool
      rw [hpool]
      rfl
    · rename_i pool hpool
      split
      · rename_i hnone
        rw [hpool, Option.map_some, SpotCheckPool.forget_of_none _ _ hnone]
      · rw [hpool]
        rfl
  unfold Hearing.opened readied prepare
  rw [hprobe, hasset, hstats]
  rfl

theorem opened_reputation (c : Hearing) (v : Server F) :
    (c.opened v).reputation.isSome = v.shared.reputation.isSome := by
  have htokens := (prepare_readies c.session
    { c.session.heardFrom v.shared c.session.nowMs with jobs := c.submitted } c.taskId
    c.header).tokens
  have hsome := congrArg Option.isSome htokens
  rw [Option.isSome_map, Option.isSome_map] at hsome
  exact hsome

-- Where an answer is judged no probe is added, and only the range of an accepted
-- answer is remembered.
theorem Hears.pool (h : v.Hears cfg e c) {pool' : SpotCheckPool F}
    (hpool' : (v.next cfg e).shared.spotChecks = some pool') :
    ∃ pool, v.shared.spotChecks = some pool ∧
      (∀ id, pool'.expectedFor id = if id = c.taskId then none else pool.expectedFor id) ∧
      ∀ k ∈ pool'.known, k ∈ pool.known ∨ (k = ⟨c.task.startUnit, c.task.unitCount,
        c.header.checksum⟩ ∧ (c.verdict cfg v).action = .accept ∧
          2 ≤ (c.verdict cfg v).agreeing.length) := by
  by_cases haccept : (c.verdict cfg v).action = .accept
  · have hremembered := (h.publishes haccept).remembered
    rw [opened_pool, hpool', Option.map_map] at hremembered
    obtain ⟨pool, hpool, rfl⟩ := Option.map_eq_some_iff.mp hremembered.symm
    refine ⟨pool, hpool, fun id => ?_, fun k hk => ?_⟩
    · dsimp only [Function.comp_apply]
      unfold rememberAnswer
      split
      · rw [SpotCheckPool.expectedFor_remember, SpotCheckPool.expectedFor_forget]
      · rw [SpotCheckPool.expectedFor_forget]
    · dsimp only [Function.comp_apply] at hk
      unfold rememberAnswer at hk
      split at hk
      · rename_i hmany
        rcases SpotCheckPool.mem_remember hk with hold | hnew
        · exact .inl hold
        · exact .inr ⟨hnew, haccept, hmany⟩
      · exact .inl hk
  · have hsame := (h.waits haccept).1
    rw [opened_pool, hpool'] at hsame
    obtain ⟨pool, hpool, rfl⟩ := Option.map_eq_some_iff.mp hsame.symm
    exact ⟨pool, hpool, fun id => SpotCheckPool.expectedFor_forget pool c.taskId id,
      fun k hk => .inl hk⟩

theorem Hears.reputation (h : v.Hears cfg e c) :
    (v.next cfg e).shared.reputation.isSome = v.shared.reputation.isSome := by
  by_cases haccept : (c.verdict cfg v).action = .accept
  · rw [(h.publishes haccept).settled, Option.isSome_map]
    exact opened_reputation c v
  · rw [(h.waits haccept).2.2]
    exact opened_reputation c v

-- One answer is enough for a run without replication, so that nothing is remembered
-- there, and a probe is only for somebody whose reputation is kept.
structure Vetted (cfg : Config F) (v : Server F) : Prop where
  replicated : ∀ {pool k}, v.shared.spotChecks = some pool → k ∈ pool.known →
    cfg.quorum.policy ≠ .none
  probed : ∀ {pool id x}, v.shared.spotChecks = some pool → pool.expectedFor id = some x →
    cfg.quorum.policy ≠ .none ∧ v.shared.reputation.isSome

theorem Started.expectedFor (h : v.Started) {pool : SpotCheckPool F}
    (hpool : v.shared.spotChecks = some pool) (id : TaskId) : pool.expectedFor id = none := by
  unfold SpotCheckPool.expectedFor
  rw [(h.spotChecks _ hpool).2]
  rfl

theorem Vetted.started (h : v.Started) : v.Vetted cfg where
  replicated hpool hk := by
    rw [(h.spotChecks _ hpool).1] at hk
    cases hk
  probed {pool id x} hpool hx := by
    rw [h.expectedFor hpool] at hx
    cases hx

-- The first answer decides, and it is the only one that agrees.
theorem decide_unreplicated {spec : KernelSpec} {quorum : QuorumConfig}
    {submissions : List Submission} (hpolicy : quorum.policy = .none) :
    (Quorum.decide spec quorum submissions : QuorumResult F).agreeing.length ≤ 1 ∧
      (Quorum.decide spec quorum submissions : QuorumResult F).dissenting = [] := by
  unfold Quorum.decide
  split
  · exact ⟨Nat.zero_le 1, rfl⟩
  · rw [if_pos hpolicy]
    exact ⟨Nat.le_refl 1, rfl⟩

theorem verdict_unreplicated (c : Hearing) (hpolicy : cfg.quorum.policy = .none) :
    (c.verdict cfg v).agreeing.length ≤ 1 ∧ (c.verdict cfg v).dissenting = [] :=
  decide_unreplicated ((quorumFor_policy cfg c.session (c.opened v).reputation).1.trans hpolicy)

theorem Vetted.next (hs : v.jobs.Sound cfg.kernels good) (hv : v.Vetted cfg) (e : Event F) :
    (v.next cfg e).Vetted cfg := by
  by_cases hhears : ∃ c, v.Hears cfg e c
  · obtain ⟨c, hc⟩ := hhears
    refine ⟨fun {pool' k} hpool' hk => ?_, fun {pool' id x} hpool' hx => ?_⟩
    · obtain ⟨pool, hpool, -, hknown⟩ := hc.pool hpool'
      rcases hknown k hk with hold | ⟨-, -, hmany⟩
      · exact hv.replicated hpool hold
      · intro hpolicy
        have hone := (verdict_unreplicated (v := v) c hpolicy).1
        omega
    · obtain ⟨pool, hpool, hexpected, -⟩ := hc.pool hpool'
      rw [hexpected] at hx
      split at hx
      · cases hx
      · rw [hc.reputation]
        exact hv.probed hpool hx
  · have hissues := next_pool hs (not_exists.mp hhears)
    have hback : ∀ {pool'}, (v.next cfg e).shared.spotChecks = some pool' →
        ∃ pool, v.shared.spotChecks = some pool ∧ pool.known = pool'.known := by
      intro pool' hpool'
      have hknown := hissues.known
      rw [hpool'] at hknown
      exact Option.map_eq_some_iff.mp hknown.symm
    refine ⟨fun {pool' k} hpool' hk => ?_, fun {pool' id x} hpool' hx => ?_⟩
    · obtain ⟨pool, hpool, hsame⟩ := hback hpool'
      exact hv.replicated hpool (hsame ▸ hk)
    · obtain ⟨pool, hpool, -⟩ := hback hpool'
      rw [hissues.reputation]
      rcases hissues.probes hpool hpool' hx with hold | ⟨hrep, k, hk, -⟩
      · exact hv.probed hpool hold
      · exact ⟨hv.replicated hpool hk, hrep⟩

theorem Vetted.step (hs : v.jobs.Sound cfg.kernels good) (hv : v.Vetted cfg)
    (h : Step cfg v e v') : v'.Vetted cfg := by
  have hnext := hv.next hs e
  have hrest := h.rest
  refine ⟨fun hpool hk => ?_, fun hpool hx => ?_⟩
  · rw [hrest] at hpool
    exact hnext.replicated hpool hk
  · rw [hrest] at hpool ⊢
    exact hnext.probed hpool hx

end Server

end

end P2pGpu.Coordinator
