import P2pGpu.Coordinator.Server.Sound
import P2pGpu.Coordinator.Store.Restart

namespace P2pGpu.Coordinator

open P2pGpu.Protocol

namespace JobManager

variable {m m' : JobManager} {id : TaskId} {t : Task}

-- What waits in the queue is left alone by whatever takes leases back.
theorem Requeues.queued {p : Task → Prop} (h : Moves (Requeues p) m m') (hm : m.Minted)
    (hf : m.find id = some t) (hs : t.state = .queued) : m'.find id = some t := by
  have hinv := h.invariant (fun n => n.Minted ∧ n.find id = some t) ⟨hm, hf⟩ ?_
  · exact hinv.2
  · rintro n l n' ⟨hn, hold⟩ ⟨i, u, rfl, hu, -⟩ hmove
    refine ⟨hmove.minted hn, ?_⟩
    rcases hmove.find_some hn hold with hsame | ⟨a, t', he, hr, -⟩
    · exact hsame
    · cases he
      simp [Act.result, hs] at hr

end JobManager

namespace Server

open JobManager

section

variable {F : Type} [Double F] {cfg : Config F} {v₀ v v' : Server F} {e : Event F}
  {id : TaskId} {t : Task} {nowMs : UInt64}

-- The task is leased to somebody until some time.
def HasLease (v : Server F) (id : TaskId) (holder : WorkerId) (deadline : UInt64) : Prop :=
  ∃ t, v.jobs.find id = some t ∧ t.state = .leased ∧ t.holder = holder ∧
    t.leaseExpiresAtMs = deadline

-- A lease since the message that gave or renewed it. The deadline is counted from
-- the time of that message, and there was no other one since.
structure LeasedSince (cfg : Config F) (v₀ v : Server F) (id : TaskId) (holder : WorkerId)
    (deadline : UInt64) : Prop where
  since : ∃ u u' connId body payload nowMs token,
    Reach (Step cfg) (fun _ _ => True) v₀ u ∧ ¬ u.HasLease id holder deadline ∧
      Step cfg u (.message connId body payload nowMs token) u' ∧
      deadline = nowMs + cfg.leaseMs.toUInt64 ∧
      Reach (Step cfg) (fun n _ => n.HasLease id holder deadline) u' v
  now : v.HasLease id holder deadline

-- What a task may be between two events.
inductive Rest (cfg : Config F) (v₀ v : Server F) (id : TaskId) (t : Task) : Prop where
  | done (h : isTerminal t.state = true)
  | waits (h : t.state = .queued) (hqueue : id ∈ v.jobs.queue)
  | runs (h : t.state = .leased) (holder : t.holder ≠ Id.nil)
      (since : v₀.LeasedSince cfg v id t.holder t.leaseExpiresAtMs)
      (expires : ∀ nowMs flushed v', t.leaseExpiresAtMs ≤ nowMs →
        Step cfg v (.sweep nowMs flushed) v' →
        ∃ t', v'.jobs.find id = some t' ∧ t'.state = .queued ∧ id ∈ v'.jobs.queue)

theorem step_legal {good : JobId → Prop} (hn : v.Named) (hs : v.jobs.Sound cfg.kernels good)
    (h : Step cfg v e v') : Moves (Legal (e.deadline cfg)) v.jobs v'.jobs := by
  have hdeed := (next_deed cfg v e).legal hn hs.minted hs.partition
  exact hdeed.tail legal_aux (Move.aux _ _ h.rows)

-- A lease that an event leaves is the one it found, or one that it gave.
theorem LeasedSince.step {good : JobId → Prop} (hrun : Reach (Step cfg) (fun _ _ => True) v₀ v)
    (hn : v.Named) (hs : v.jobs.Sound cfg.kernels good)
    (hold : ∀ t, v.jobs.find id = some t → t.state = .leased →
      v₀.LeasedSince cfg v id t.holder t.leaseExpiresAtMs)
    (h : Step cfg v e v') (hf : v'.jobs.find id = some t) (hleased : t.state = .leased) :
    v₀.LeasedSince cfg v' id t.holder t.leaseExpiresAtMs := by
  have hnow : v'.HasLease id t.holder t.leaseExpiresAtMs := ⟨t, hf, hleased, rfl, rfl⟩
  by_cases hkept : v.HasLease id t.holder t.leaseExpiresAtMs
  · obtain ⟨u, hu, hstate, hholder, hdeadline⟩ := hkept
    have hsince := (hold u hu hstate).since
    rw [hholder, hdeadline] at hsince
    obtain ⟨w, w', connId, body, payload, nowMs, token, hw, hnot, hset, hat, hrest⟩ := hsince
    exact ⟨⟨w, w', connId, body, payload, nowMs, token, hw, hnot, hset, hat,
      hrest.tail ⟨u, hu, hstate, hholder, hdeadline⟩ h⟩, hnow⟩
  · rcases (Legal.lease (step_legal hn hs h) hs.minted hf hleased) with
      ⟨u, hu, hstate, hholder, hdeadline⟩ | hgiven
    · exact absurd ⟨u, hu, hstate, hholder, hdeadline⟩ hkept
    · cases e with
      | message connId body payload nowMs token =>
          exact ⟨⟨v, v', connId, body, payload, nowMs, token, hrun, hkept, h,
            (Option.some.inj hgiven).symm, Reach.refl v'⟩, hnow⟩
      | _ => cases hgiven

theorem leasedSince_of_run (h₀ : v₀.Started) (h : Reach (Step cfg) (fun _ _ => True) v₀ v) :
    ∀ id t, v.jobs.find id = some t → t.state = .leased →
      v₀.LeasedSince cfg v id t.holder t.leaseExpiresAtMs := by
  have hjobs : v₀.jobs = {} := h₀.jobs
  induction h with
  | refl =>
      intro id t hf
      rw [hjobs] at hf
      cases hf
  | tail hrun hlast ih =>
      obtain ⟨e, -, hstep⟩ := hlast
      obtain ⟨hn, hs⟩ := sound_of_run (fun _ => False) h₀ hrun
      intro id t hf hleased
      exact LeasedSince.step hrun hn hs (ih id) hstep hf hleased

-- From its deadline on a lease does not outlive a sweep.
theorem sweep_expires {good : JobId → Prop} {flushed : Bool} (hn : v.Named)
    (hs : v.jobs.Sound cfg.kernels good) (hf : v.jobs.find id = some t)
    (hleased : t.state = .leased) (hat : t.leaseExpiresAtMs ≤ nowMs)
    (h : Step cfg v (.sweep nowMs flushed) v') :
    ∃ t', v'.jobs.find id = some t' ∧ t'.state = .queued ∧ id ∈ v'.jobs.queue := by
  have hexpired : (v.jobs.sweepExpiredLeases nowMs).2.find id = some t.requeued := by
    rw [find_sweepExpiredLeases, hf, Option.map_some, if_pos ⟨hleased, hat⟩]
  have hminted := (sweepExpiredLeases_moves v.jobs nowMs).minted hs.minted
  have hnext : (v.next cfg (.sweep nowMs flushed)).jobs.find id = some t.requeued := by
    have hdeed := sweep_shared cfg v nowMs flushed
    obtain ⟨m, hm, hjobs⟩ := hdeed.jobs
    have hkept := Requeues.queued hm hminted hexpired rfl
    have heq : (v.next cfg (.sweep nowMs flushed)).jobs = if flushed then m.clearDirty else m :=
      hjobs
    rw [heq]
    split
    · exact hkept
    · exact hkept
  have hf' : v'.jobs.find id = some t.requeued := by
    rw [h.rows.find_eq]
    exact hnext
  have hsound := sound_step hn hs h
  exact ⟨_, hf', rfl, (hsound.queue.queued id).mpr ⟨_, hf', rfl⟩⟩

-- Nobody is in the middle of a task between two events, and no lease is for ever.
theorem no_wedge (h₀ : v₀.Started) (h : Reach (Step cfg) (fun _ _ => True) v₀ v) :
    ∀ id t, v.jobs.find id = some t →
      t.state ≠ .validating ∧ t.state ≠ .needsReplica ∧ v₀.Rest cfg v id t := by
  obtain ⟨hn, hs⟩ := sound_of_run (fun _ => False) h₀ h
  intro id t hf
  have hrests := hs.settled id t hf
  refine ⟨hrests.validating, hrests.needsReplica, ?_⟩
  cases hstate : t.state with
  | queued => exact .waits hstate ((hs.queue.queued id).mpr ⟨t, hf, hstate⟩)
  | leased =>
      refine .runs hstate ?_ (leasedSince_of_run h₀ h id t hf hstate) ?_
      · exact (hs.queue.holder hf).mpr hstate
      · exact fun nowMs flushed v' hat hstep => sweep_expires hn hs hf hstate hat hstep
  | validating => exact absurd hstate hrests.validating
  | needsReplica => exact absurd hstate hrests.needsReplica
  | accepted => exact .done (by rw [hstate]; rfl)
  | rejected => exact .done (by rw [hstate]; rfl)
  | cancelled => exact .done (by rw [hstate]; rfl)

end

-- A coordinator on which a worker has asked for work once.
def searchStart : Server Rat := { shared := { reputation := some {} } }

def searchRun : List (Event Rat) :=
  .createJob "brute_search_v1" 1000000 7 0 :: joins 1 10 1e9 ++ [asks 1 20]

theorem searchStart_started : searchStart.Started where
  fleet := rfl
  tokens rep h := by
    cases h
    exact ⟨rfl, rfl⟩
  spotChecks pool h := by cases h
  compositor c h := by cases h
  conns := rfl
  live := rfl
  nextConnId := by decide
  jobs := rfl

theorem no_wedge_search :
    ((searchStart.runAll (searches {}) searchRun).jobs.find ⟨0, 2⟩).map Task.state =
        some .leased ∧
      ∀ id t, (searchStart.runAll (searches {}) searchRun).jobs.find id = some t →
        t.state ≠ .validating ∧ t.state ≠ .needsReplica ∧
          searchStart.Rest (searches {}) (searchStart.runAll (searches {}) searchRun) id t :=
  ⟨by decide +kernel, no_wedge searchStart_started (reach_runAll _ _ _)⟩

section

variable {F : Type} [Double F] {cfg : Config F} {v₀ v v' : Server F} {e : Event F}
  {w : WorkerId} {good : JobId → Prop}

-- The worker that an event comes from: who its connection is once it was heard.
def speaker (cfg : Config F) (v : Server F) : Event F → Option WorkerId
  | .message connId body payload nowMs token =>
      (v.turn cfg connId body payload nowMs token).map fun turn => turn.session.workerId
  | .close connId | .malformed connId =>
      (v.conns.lookup connId).map fun conn => conn.session.workerId
  | .createJob _ _ _ _ | .seedRender _ _ | .open | .text _ | .sweep _ _ => none

-- A coordinator that comes up again with the rows that an earlier one had written
-- when it last wrote all of them.
structure Resumed (v : Server F) : Prop extends Up v where
  jobs : ∃ d : Durable, Reach Durable.Step
      (fun d (e : Durable.Event F) => Durable.Kept (fun _ => False) d e) {} d ∧
    d.jobs.hasDirty = false ∧ v.shared.jobs = recoverInto {} d.store.loadAll

-- What the frame rests on.
structure Steady (v : Server F) : Prop where
  named : v.Named
  minted : v.jobs.Minted
  partition : v.jobs.Partition fun _ => False
  idle : v.jobs.Idle

theorem Steady.started (h : v.Started) : v.Steady where
  named := Named.up h.toUp
  minted := by
    have hempty : v.jobs = {} := h.jobs
    rw [hempty]
    exact Minted.empty
  partition := by
    have hempty : v.jobs = {} := h.jobs
    rw [hempty]
    exact Partition.empty
  idle := by
    have hempty : v.jobs = {} := h.jobs
    rw [hempty]
    exact Idle.empty

-- What was read back is held by nobody.
theorem Idle.recovered (s : Store) : (recoverInto {} s.loadAll).Idle := by
  intro _ t hf _
  rw [Store.find_recoverInto, Option.map_eq_some_iff] at hf
  obtain ⟨row, -, rfl⟩ := hf
  exact ⟨rfl, rfl⟩

theorem Steady.resumed (h : v.Resumed) : v.Steady := by
  obtain ⟨d, hrun, hclean, hjobs⟩ := h.jobs
  have hjobs' : v.jobs = recoverInto {} d.store.loadAll := hjobs
  have hsound := Durable.run_sound hrun
  have hrestored := hsound.synced.restored hclean
  refine ⟨Named.up h.toUp, ?_, ?_, ?_⟩
  · rw [hjobs']
    exact hrestored.minted hsound.minted
  · rw [hjobs']
    exact hrestored.partition hsound.partition fun _ _ hgood => hgood.elim
  · rw [hjobs']
    exact Idle.recovered d.store

theorem Steady.step (hs : v.Steady) (h : Step cfg v e v') : v'.Steady := by
  have hdeed := (next_deed cfg v e).legal hs.named hs.minted hs.partition
  have hmoves := hdeed.tail legal_aux (Move.aux _ _ h.rows)
  have hparts := Partition.moves (fun _ _ hl => hl.seeds) hmoves hs.minted hs.partition
  exact ⟨hs.named.step h, hparts.1, hparts.2, hs.idle.moves hs.minted hmoves⟩

theorem Steady.run {guard : Server F → Event F → Prop} (hs : v₀.Steady)
    (h : Reach (Step cfg) guard v₀ v) : v.Steady :=
  h.invariant Steady hs fun _ _ _ hi _ hstep => hi.step hstep

-- What one worker may do to the tasks and to the fleet.
structure ActsFor (w : WorkerId) (v v' : Server F) : Prop where
  tasks : v.jobs.Framed w v'.jobs
  fleet : v.shared.fleet.OnlyRevokes w v'.shared.fleet

theorem ActsFor.refl (w : WorkerId) (v : Server F) : ActsFor w v v :=
  ⟨fun _ t hf => ⟨t, hf, .inl (.inl rfl)⟩, .refl _ _⟩

variable (cfg) in
theorem framed_of_effect {asked : Prop} {deadline : UInt64} {m : JobManager} (hs : v.Steady)
    (h : v.jobs.Effect cfg.kernels cfg.quorum asked w deadline m) : v.jobs.Framed w m :=
  h.framed hs.minted hs.partition hs.idle

theorem disconnect_frames (cfg : Config F) {s : Session} {shared : Shared F} (hs : v.Steady)
    (hshared : shared = s.onDisconnect v.shared) :
    v.jobs.Framed s.workerId shared.jobs ∧
      v.shared.fleet.OnlyRevokes s.workerId shared.fleet := by
  have hself := ActsFor.refl s.workerId v
  rw [hshared]
  unfold Session.onDisconnect
  split
  · have hrelease : v.shared.Routine cfg False s.workerId 0 _ :=
      Session.release_routine v.shared s.workerId
    exact ⟨framed_of_effect cfg hs (.lends hrelease.jobs), hrelease.fleet⟩
  · exact ⟨hself.tasks, hself.fleet⟩

theorem heard_actsFor {s : Session} {nowMs : UInt64} {token : Token} {body : Body F}
    {payload : Payload} {turn : Turn F} (hs : v.Steady)
    (h : s.Heard cfg v.shared nowMs token body payload turn) (hshared : v'.shared = turn.shared) :
    ActsFor turn.session.workerId v v' := by
  have hself := ActsFor.refl turn.session.workerId v
  have hjobs : v'.jobs = turn.shared.jobs := congrArg Shared.jobs hshared
  cases h with
  | silent hsilent hsession hsame =>
      rw [hsame] at hshared hjobs
      refine ⟨?_, ?_⟩
      · rw [hjobs]
        exact hself.tasks
      · rw [hshared]
        exact hself.fleet
  | greets hello hgreets =>
      rw [hgreets.jobs] at hjobs
      refine ⟨?_, ?_⟩
      · rw [hjobs]
        exact hself.tasks
      · rw [hshared]
        exact hgreets.fleet
  | routine hknown hstays hroutine =>
      rw [hroutine.session.workerId]
      refine ⟨?_, ?_⟩
      · rw [hjobs]
        exact framed_of_effect cfg hs (.lends hroutine.shared.jobs)
      · rw [hshared]
        exact hroutine.shared.fleet
  | judged header taskId n hknown hstays hbody hsession hlanded hjudged =>
      obtain ⟨fleet, hfleet, heq⟩ := hjudged
      obtain ⟨-, -, hrest, -⟩ := hlanded.rest
      have hheard := (Session.heardFrom_routine cfg False s v.shared nowMs nowMs).fleet
      rw [hsession.workerId]
      refine ⟨?_, ?_⟩
      · rw [hjobs, heq]
        exact framed_of_effect cfg hs (hlanded.effect False 0)
      · rw [hshared, heq]
        exact (hheard.trans hrest).trans hfleet

theorem close_actsFor (cfg : Config F) (hs : v.Steady) {connId : Nat} {conn : Conn}
    (edit : Conn → Conn) (hconn : v.conns.lookup connId = some conn)
    (hedit : ∀ conn : Conn, conn.session.SameParty (edit conn).session) :
    ActsFor conn.session.workerId v ((v.editConn connId edit).closeConn connId) := by
  have hopen : (v.editConn connId edit).conns.lookup connId = some (edit conn) := by
    rw [lookup_editConn, if_pos rfl, hconn]
    rfl
  have hframes := disconnect_frames cfg (s := (edit conn).session) hs rfl
  rw [(hedit conn).workerId] at hframes
  rw [closeConn_open hopen]
  exact ⟨hframes.1, hframes.2⟩

variable (cfg) in
theorem next_actsFor (hs : v.Steady) (hw : v.speaker cfg e = some w) :
    ActsFor w v (v.next cfg e) := by
  cases e with
  | message connId body payload nowMs token =>
      obtain ⟨turn, hturn, rfl⟩ := Option.map_eq_some_iff.mp hw
      obtain ⟨conn, hconn, rfl⟩ := Option.map_eq_some_iff.mp hturn
      have hframe := onFrame_framed cfg body payload nowMs token hconn
      exact heard_actsFor hs (Session.onMessage_heard cfg _ _ _ _ _ _) hframe.shared
  | close connId =>
      obtain ⟨conn, hconn, rfl⟩ := Option.map_eq_some_iff.mp hw
      have hclose := close_actsFor cfg hs id hconn fun _ => .refl _
      rw [editConn_id] at hclose
      exact hclose
  | malformed connId =>
      obtain ⟨conn, hconn, rfl⟩ := Option.map_eq_some_iff.mp hw
      obtain ⟨edit, hedit, hreject⟩ := rejectFrame_cases v connId
      have hclose := close_actsFor cfg hs edit hconn hedit
      have hself := ActsFor.refl conn.session.workerId v
      change ActsFor conn.session.workerId v (v.rejectFrame connId)
      rcases hreject with heq | heq
      · rw [← heq]
        exact hclose
      · rw [← heq]
        exact ⟨hself.tasks, hself.fleet⟩
  | createJob => cases hw
  | seedRender => cases hw
  | «open» => cases hw
  | text => cases hw
  | sweep => cases hw

-- What the step of one worker may have done to a task: nothing to anything that it
-- can be told by, or the task was its own, or becomes its own, or lost to it.
inductive MayBecome (w : WorkerId) (v v' : Server F) (t t' : Task) : Prop where
  | same (state : t'.state = t.state) (holder : t'.holder = t.holder)
      (deadline : t'.leaseExpiresAtMs = t.leaseExpiresAtMs)
      (submissions : t'.submissions = t.submissions)
      (priorWorkers : t'.priorWorkers = t.priorWorkers)
  | held (state : t.state = .leased) (holder : t.holder = w)
  | drawn (queued : t.state = .queued) (state : t'.state = .leased) (holder : t'.holder = w)
  | lost (state : t'.state = .cancelled) (superseded : v.jobs.Superseded w v'.jobs t)

structure Authorized (w : WorkerId) (v v' : Server F) : Prop where
  tasks : ∀ id t, v.jobs.find id = some t →
    ∃ t', v'.jobs.find id = some t' ∧ MayBecome w v v' t t'
  fleet : ∀ id, id ≠ w → ∃ more, v'.shared.fleet.find id =
    (v.shared.fleet.find id).map fun r => { r with pendingRevokes := r.pendingRevokes ++ more }

-- No connected peer moves another one's task, nor touches its record but to tell
-- it that it may stop.
theorem authorization_frame (h₀ : v₀.Started ∨ v₀.Resumed)
    (h : Reach (Step cfg) (fun _ _ => True) v₀ v) (hw : v.speaker cfg e = some w)
    (hstep : Step cfg v e v') : Authorized w v v' := by
  have hs₀ : v₀.Steady := h₀.elim Steady.started Steady.resumed
  have hs := hs₀.run h
  have hacts := next_actsFor cfg hs hw
  refine ⟨fun id t hf => ?_, fun id hid => ?_⟩
  · obtain ⟨t', hf', hcases⟩ := hacts.tasks id t hf
    refine ⟨t', (hstep.rows.find_eq id).trans hf', ?_⟩
    rcases hcases with (rfl | hheld | ⟨hqueued, deadline, rfl⟩) | ⟨hcancelled, hlost⟩
    · exact .same rfl rfl rfl rfl rfl
    · exact .held (isLeasedTo_iff.mp hheld).1 (isLeasedTo_iff.mp hheld).2
    · exact .drawn hqueued rfl rfl
    · obtain ⟨i, s, s', hi, hheld, hi', hrest⟩ := hlost
      exact .lost hcancelled ⟨i, s, s', hi, hheld, (hstep.rows.find_eq i).trans hi', hrest⟩
  · obtain ⟨more, hmore⟩ := hacts.fleet id hid
    refine ⟨more, ?_⟩
    rw [← hmore]
    exact (Table.lookup_of_perm hstep.workers id).symm

end

theorem authorization_frame_search :
    Authorized ⟨1, 0⟩ (searchStart.runAll (searches {}) searchRun)
      ((searchStart.runAll (searches {}) searchRun).next (searches {})
        (tells 1 ⟨0, 2⟩ [1] 30)) :=
  authorization_frame (.inl searchStart_started) (reach_runAll _ _ _)
    (by decide +kernel : speaker (searches {}) _ (tells 1 ⟨0, 2⟩ [1] 30) = some ⟨1, 0⟩)
    (step_next _ _ _)

end Server

end P2pGpu.Coordinator
