import P2pGpu.Coordinator.Server.Run

namespace P2pGpu.Coordinator

open P2pGpu.Protocol

-- When the leases end that an event gives out.
def Event.deadline {F : Type} [Double F] (cfg : Config F) : Event F → Option UInt64
  | .message _ _ _ nowMs _ => some (nowMs + cfg.leaseMs.toUInt64)
  | .createJob _ _ _ _ | .seedRender _ _ | .open | .text _ | .malformed _ | .close _
  | .sweep _ _ => none

namespace JobManager

-- What holds of the jobs between two events.
structure Sound (kernels : KernelRegistry) (good : JobId → Prop) (m : JobManager) : Prop where
  minted : m.Minted
  partition : m.Partition good
  queue : m.QueueInv
  idle : m.Idle
  settled : m.Settled kernels

variable {kernels : KernelRegistry} {good : JobId → Prop} {m m' : JobManager}
  {deadline : Option UInt64}

theorem Sound.empty : Sound kernels good {} :=
  ⟨Minted.empty, Partition.empty, QueueInv.empty, Idle.empty, Settled.empty⟩

-- All but what a task may wait for is kept move by move.
theorem Sound.moves (hs : m.Sound kernels good) (h : Moves (Legal deadline) m m')
    (hsettled : m'.Settled kernels) : m'.Sound kernels good := by
  have hparts := Partition.moves (fun _ _ hl => hl.seeds) h hs.minted hs.partition
  have hqueue := QueueInv.moves (fun _ _ hl => hl.someone) h hs.minted hs.queue
  exact ⟨hparts.1, hparts.2, hqueue, hs.idle.moves hs.minted h, hsettled⟩

theorem legal_aux : Legal deadline m .aux := ⟨trivial, trivial, trivial, nofun, nofun⟩

theorem legal_flush : Legal deadline m .flush := ⟨trivial, trivial, trivial, nofun, nofun⟩

theorem legal_of_plants {l : Label} (h : m.SeedsOnly l ∧ l.Plants) : Legal deadline m l := by
  obtain ⟨hseeds, hplants⟩ := h
  cases l with
  | create job => exact ⟨hseeds, trivial, trivial, nofun, nofun⟩
  | edit id edit => exact ⟨hseeds, trivial, trivial, nofun, nofun⟩
  | _ => exact hplants.elim

theorem legal_of_requeues {p : Task → Prop} {l : Label} (h : Requeues p m l) :
    Legal deadline m l := by
  obtain ⟨id, t, rfl, -⟩ := h
  exact ⟨trivial, trivial, trivial, nofun, nofun⟩

-- A job that is brought in has no task, and one that is set up has none yet.
theorem Settled.plants (hs : m.Settled kernels) (hm : m.Minted) (hp : m.Partition good)
    (h : Moves (fun n l => n.SeedsOnly l ∧ l.Plants) m m') : m'.Settled kernels := by
  have hinv := h.invariant
    (fun n => (n.Minted ∧ n.Partition good) ∧ n.Settled kernels) ⟨⟨hm, hp⟩, hs⟩ ?_
  · exact hinv.2
  · rintro n l n' ⟨⟨hn, hpart⟩, hsettled⟩ ⟨hseeds, hplants⟩ hmove
    refine ⟨⟨hmove.minted hn, hpart.move hn hmove hseeds⟩, ?_⟩
    intro i t hf
    have hsame : n.find i = some t := by
      cases hmove with
      | create => exact hf
      | edit => exact hf
      | _ => exact hplants.elim
    have hold := hsettled i t hsame
    refine ⟨hold.validating, hold.needsReplica, fun hl => ?_⟩
    exact (hold.known hl).of_job rfl fun job hjob => hmove.kernel hpart hseeds hjob

theorem Settled.flush (hs : m.Settled kernels) : m.clearDirty.Settled kernels := by
  intro i t hf
  have hold := hs i t hf
  refine ⟨hold.validating, hold.needsReplica, fun hl => ?_⟩
  exact (hold.known hl).of_job rfl fun job hjob => ⟨job, hjob, rfl⟩

end JobManager

namespace Server

open JobManager

section

variable {F : Type} [Double F] {cfg : Config F} {v v' : Server F} {e : Event F} {m : JobManager}
  {good : JobId → Prop}

-- What one event does to the jobs.
inductive Deed (cfg : Config F) (v : Server F) (e : Event F) : JobManager → Prop where
  | idle : Deed cfg v e v.jobs
  | plants {m : JobManager} (h : v.jobs.findJob ⟨0, v.jobs.nextId⟩ = none →
      Moves (fun n l => n.SeedsOnly l ∧ l.Plants) v.jobs m) : Deed cfg v e m
  | speaks {m : JobManager} {connId : Nat} {conn : Conn} {body : Body F} {payload : Payload}
      {nowMs : UInt64} {token : Token} (he : e = .message connId body payload nowMs token)
      (hconn : v.conns.lookup connId = some conn) (hs : conn.session.handshaked = true)
      (h : v.jobs.Effect cfg.kernels cfg.quorum (∃ req, body = .leaseRequest req)
        conn.session.workerId (nowMs + cfg.leaseMs.toUInt64) m) : Deed cfg v e m
  | leaves {connId : Nat} {conn : Conn} (he : e = .close connId ∨ e = .malformed connId)
      (hconn : v.conns.lookup connId = some conn) (hs : conn.session.handshaked = true) :
      Deed cfg v e (v.jobs.releaseAllHeldBy conn.session.workerId).2
  | sweeps {m : JobManager} {nowMs : UInt64} {flushed : Bool} (he : e = .sweep nowMs flushed)
      (h : Moves (Requeues fun t => ∃ id ∈ v.lostAt cfg nowMs, t.isLeasedTo id)
        (v.jobs.sweepExpiredLeases nowMs).2 m) :
      Deed cfg v e (if flushed then m.clearDirty else m)

variable (cfg v) in
theorem closeConn_deed {connId : Nat} (he : e = .close connId ∨ e = .malformed connId)
    {edit : Conn → Conn} (hedit : ∀ conn : Conn, conn.session.SameParty (edit conn).session) :
    Deed cfg v e ((v.editConn connId edit).closeConn connId).jobs := by
  cases hconn : v.conns.lookup connId with
  | none =>
      rw [closeConn_closed (by rw [lookup_editConn, if_pos rfl, hconn]; rfl)]
      exact .idle
  | some conn =>
      have hopen : (v.editConn connId edit).conns.lookup connId = some (edit conn) := by
        rw [lookup_editConn, if_pos rfl, hconn]
        rfl
      rw [closeConn_open hopen]
      have hparty := hedit conn
      dsimp only [jobs, Session.onDisconnect]
      by_cases hs : conn.session.handshaked = true
      · rw [if_pos (hparty.handshaked.trans hs)]
        have hdeed : Deed cfg v e _ := .leaves he hconn hs
        rw [← hparty.workerId] at hdeed
        exact hdeed
      · rw [if_neg (by rw [hparty.handshaked]; exact hs)]
        exact .idle

theorem next_deed (cfg : Config F) (v : Server F) (e : Event F) :
    Deed cfg v e (v.next cfg e).jobs := by
  cases e with
  | createJob kernelId totalUnits seed unitsPerGroup =>
      refine .plants fun _ => ?_
      have hmove := createJob_move v.jobs kernelId totalUnits seed unitsPerGroup
      refine Reach.single ?_ hmove
      exact ⟨trivial, trivial⟩
  | seedRender render inputRef => exact .plants fun hfresh => seedRender_seeds hfresh
  | «open» => exact .idle
  | text connId => exact .idle
  | malformed connId =>
      obtain ⟨edit, hedit, hreject⟩ := rejectFrame_cases v connId
      rcases hreject with heq | heq
      · have hdeed : Deed cfg v (.malformed connId) ((v.editConn connId edit).closeConn connId).jobs :=
          closeConn_deed cfg v (.inr rfl) hedit
        rw [heq] at hdeed
        exact hdeed
      · have hjobs : (v.rejectFrame connId).jobs = v.jobs := by
          rw [← heq]
          rfl
        change Deed cfg v (.malformed connId) (v.rejectFrame connId).jobs
        rw [hjobs]
        exact .idle
  | message connId body payload nowMs token =>
      cases hconn : v.conns.lookup connId with
      | none =>
          have hsame : v.next cfg (.message connId body payload nowMs token) = v :=
            onFrame_closed hconn
          rw [hsame]
          exact .idle
      | some conn =>
          have hheard := Session.onMessage_heard cfg conn.session v.shared body payload nowMs token
          have hframe := onFrame_framed cfg body payload nowMs token hconn
          have hjobs : (v.next cfg (.message connId body payload nowMs token)).jobs =
              (conn.session.onMessage cfg v.shared body payload nowMs token).shared.jobs :=
            congrArg Shared.jobs hframe.shared
          rw [hjobs]
          cases hheard with
          | silent hs hsession hshared =>
              rw [hshared]
              exact .idle
          | greets hello h =>
              rw [h.jobs]
              exact .idle
          | routine hs hstays h => exact .speaks rfl hconn hs (.lends h.shared.jobs)
          | judged header taskId n hs hstays hbody hsession hlanded hshared =>
              obtain ⟨fleet, -, heq⟩ := hshared
              rw [heq]
              exact .speaks rfl hconn hs (hlanded.effect _ _)
  | close connId =>
      have hclose : Deed cfg v (.close connId) ((v.editConn connId id).closeConn connId).jobs :=
        closeConn_deed cfg v (.inl rfl) fun conn => .refl _
      rw [editConn_id] at hclose
      exact hclose
  | sweep nowMs flushed =>
      obtain ⟨⟨m, hm, hjobs⟩, -⟩ := sweep_shared cfg v nowMs flushed
      have heq : (v.next cfg (.sweep nowMs flushed)).jobs = if flushed then m.clearDirty else m :=
        hjobs
      rw [heq]
      exact .sweeps rfl hm

namespace Deed

theorem legal (h : Deed cfg v e m) (hn : v.Named) (hm : v.jobs.Minted)
    (hp : v.jobs.Partition good) : Moves (Legal (e.deadline cfg)) v.jobs m := by
  cases h with
  | idle => exact Reach.refl _
  | plants h => exact Reach.mono (fun _ _ hl => legal_of_plants hl) (h hp.fresh)
  | speaks he hconn hs h =>
      subst he
      exact h.legal (hn.worker hconn hs) hm hp
  | leaves he hconn hs =>
      exact Reach.mono (fun _ _ hl => legal_of_requeues hl) (releaseAllHeldBy_moves _ _)
  | @sweeps m nowMs flushed he h =>
      have hexpired : Moves (Legal (e.deadline cfg)) v.jobs (v.jobs.sweepExpiredLeases nowMs).2 :=
        Reach.mono (fun _ _ hl => legal_of_requeues hl) (sweepExpiredLeases_moves _ _)
      have hlost := hexpired.trans (Reach.mono (fun _ _ hl => legal_of_requeues hl) h)
      split
      · exact hlost.tail legal_flush (Move.flush m)
      · exact hlost

theorem settled (h : Deed cfg v e m) (hm : v.jobs.Minted)
    (hp : v.jobs.Partition good) (hs : v.jobs.Settled cfg.kernels) : m.Settled cfg.kernels := by
  cases h with
  | idle => exact hs
  | plants h => exact hs.plants hm hp (h hp.fresh)
  | speaks he hconn hheld h => exact h.settled hm hp hs
  | leaves he hconn hheld => exact hs.requeues hm (releaseAllHeldBy_moves _ _)
  | @sweeps m nowMs flushed he h =>
      have hexpired := sweepExpiredLeases_moves v.jobs nowMs
      have hlost := (hs.requeues hm hexpired).requeues (hexpired.minted hm) h
      split
      · exact hlost.flush
      · exact hlost

theorem sound (h : Deed cfg v e m) (hn : v.Named) (hs : v.jobs.Sound cfg.kernels good) :
    m.Sound cfg.kernels good :=
  hs.moves (h.legal hn hs.minted hs.partition) (h.settled hs.minted hs.partition hs.settled)

end Deed

theorem Rehashed.rows {w : Server F} (h : w.Rehashed v') : w.jobs.SameRows v'.jobs := by
  have hrows := h.jobs.sameRows
  exact hrows

theorem sound_step (hn : v.Named) (hs : v.jobs.Sound cfg.kernels good) (h : Step cfg v e v') :
    v'.jobs.Sound cfg.kernels good := by
  have hnext := (next_deed cfg v e).sound hn hs
  have haux : Moves (Legal none) (v.next cfg e).jobs v'.jobs :=
    Reach.single legal_aux (Move.aux _ _ h.rows)
  exact hnext.moves haux (hnext.settled.sameRows h.rows)

variable (good) in
-- A server that is reached is sound between its events.
theorem sound_of_run {guard : Server F → Event F → Prop} {v₀ : Server F}
    (h₀ : v₀.Started) (h : Reach (Step cfg) guard v₀ v) :
    v.Named ∧ v.jobs.Sound cfg.kernels good := by
  have hs₀ : v₀.jobs.Sound cfg.kernels good := by
    have hempty : v₀.jobs = {} := h₀.jobs
    rw [hempty]
    exact Sound.empty
  exact h.invariant (fun v => v.Named ∧ v.jobs.Sound cfg.kernels good)
    ⟨Named.up h₀.toUp, hs₀⟩ fun _ _ _ hi _ hstep => ⟨hi.1.step hstep, sound_step hi.1 hi.2 hstep⟩

-- The run rule: what an event keeps of a sound server holds of every server that is
-- reached from one without jobs.
theorem keeps_of_run {guard : Server F → Event F → Prop} {v₀ : Server F}
    (h₀ : v₀.Started) (h : Reach (Step cfg) guard v₀ v) (inv : Server F → Prop) (hinit : inv v₀)
    (hstep : ∀ v e v', v.Named → v.jobs.Sound cfg.kernels (fun _ => False) → guard v e → inv v →
      Step cfg v e v' → inv v') : inv v := by
  induction h with
  | refl => exact hinit
  | tail hrun hlast ih =>
      obtain ⟨e, hg, hlaststep⟩ := hlast
      obtain ⟨hn, hs⟩ := sound_of_run (fun _ => False) h₀ hrun
      exact hstep _ e _ hn hs hg ih hlaststep

-- A list of events is a run, in the order of iteration that it leaves.
theorem step_next (cfg : Config F) (v : Server F) (e : Event F) : Step cfg v e (v.next cfg e) :=
  ⟨JobManager.Rehashed.refl _, .refl _, .refl _, rfl⟩

theorem reach_runAll (cfg : Config F) (events : List (Event F)) (v : Server F) :
    Reach (Step cfg) (fun _ _ => True) v (v.runAll cfg events) :=
  Reach.foldl (step_next cfg) events fun _ _ _ => trivial

-- What it remembers of them, the first one first.
def history (cfg : Config F) (v : Server F) (events : List (Event F)) :
    List (Server F × Event F) := Recalling.history (next cfg) v events

theorem recalls_history (cfg : Config F) (events : List (Event F)) (v : Server F)
    (past : List (Server F × Event F)) :
    Reach (Recalling (Step cfg)) (fun _ _ => True) (v, past)
      (v.runAll cfg events, past ++ v.history cfg events) :=
  Recalling.foldl (step_next cfg) events past v

theorem recalls_next (cfg : Config F) (v : Server F) (past : List (Server F × Event F))
    (e : Event F) :
    Recalling (Step cfg) (v, past) e (v.next cfg e, past ++ [(v, e)]) :=
  ⟨step_next cfg v e, rfl⟩

end

-- What the small coordinators of the runs below are made of.
section

-- The digests of the payloads that are sent in them.
def digest (payload : Payload) : UInt64 :=
  if payload = [1] then 16173202221271546952
  else if payload = [2] then 12559387359772021675
  else 12007152915317330863

def searches (quorum : QuorumConfig) : Config Rat where
  kernels := manifest
  quorum
  blake3 := digest

def greeting (resumeToken : Option Token) : Body Rat :=
  .hello { protocolVersion := kProtocolVersion, resumeToken, adapter := none, cachedAssets := none }

def asking : Body Rat := .leaseRequest { maxTasks := 1, cachedAssets := none }

def answering (taskId : TaskId) (payload : Payload) : Body Rat :=
  .resultHeader
    { taskId := some taskId
      payloadBytes := UInt32.ofNat payload.length
      checksum := digest payload
      stats := none
      sequence := 0
      unitsDone := 0 }

-- A worker joins and is measured, and then it asks for work and answers.
def joins (connId : Nat) (nowMs : UInt64) (score : Rat) : List (Event Rat) :=
  [.open, .message connId (greeting none) [] nowMs [UInt8.ofNat connId],
    .message connId (.benchmarkResult score) [] nowMs []]

def asks (connId : Nat) (nowMs : UInt64) : Event Rat := .message connId asking [] nowMs []

def tells (connId : Nat) (taskId : TaskId) (payload : Payload) (nowMs : UInt64) : Event Rat :=
  .message connId (answering taskId payload) payload nowMs []

end

end Server

end P2pGpu.Coordinator
