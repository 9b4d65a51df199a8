import P2pGpu.Coordinator.Job.Speculation
import P2pGpu.Coordinator.Server.Terminal

namespace P2pGpu.Coordinator

open P2pGpu.Protocol

section

variable {F : Type}

theorem Operation.driven_keepsShape {o : Operation F} (h : o.driven) :
    JobManager.KeepsShape o := by
  cases o with
  | requeue => exact .inl h
  | mutableJob => exact h.elim
  | _ => trivial

end

section

variable {F : Type} [Double F]

namespace JobManager

variable {m m' m'' : JobManager}

theorem Rehashed.trans (h : m.Rehashed m') (h' : m'.Rehashed m'') : m.Rehashed m'' where
  tasks := h.tasks.trans h'.tasks
  jobs := h.jobs.trans h'.jobs
  partials := h.partials.trans h'.partials
  dirtyTasks := h.dirtyTasks.trans h'.dirtyTasks
  dirtyJobs := h.dirtyJobs.trans h'.dirtyJobs
  rest := by rw [h'.rest, h.rest]

-- Operations one after the other, as they may be called.
abbrev Operated (F : Type) [Double F] : JobManager → JobManager → Prop :=
  Reach Step fun _ (o : Operation F) => KeepsShape o

theorem Operated.single {o : Operation F} (ho : KeepsShape o) (m : JobManager) :
    Operated F m (o.run m) := Reach.single ho (Rehashed.refl (o.run m))

-- The tables may be iterated in another order after it, if only an operation that
-- finds nothing to do comes before.
theorem Operated.rehashed (h : Operated F m m') (hm : m.Minted) (hr : m'.Rehashed m'') :
    Operated F m m'' := by
  cases h with
  | refl =>
      have hnone : m.find Id.nil = none := by
        cases hf : m.find Id.nil with
        | none => rfl
        | some t => exact absurd rfl (hm.ne_nil hf)
      have hidle : (Operation.cancelSiblingsOf Id.nil : Operation F).run m = m := by
        show (m.cancelSiblingsOf Id.nil).2 = m
        unfold cancelSiblingsOf
        rw [hnone]
      have hshape : KeepsShape (Operation.cancelSiblingsOf Id.nil : Operation F) := trivial
      refine Reach.single hshape ?_
      show ((Operation.cancelSiblingsOf Id.nil : Operation F).run m).Rehashed m''
      rw [hidle]
      exact hr
  | tail hrun hlast =>
      obtain ⟨o, ho, hstep⟩ := hlast
      exact Reach.tail hrun ho (Rehashed.trans hstep hr)

end JobManager

theorem Shared.Edits.runs {w w' : Shared F} (h : Shared.Edits Operation.driven w w') :
    JobManager.Operated F w.jobs w'.jobs := by
  refine h.operations.invariant (fun n => JobManager.Operated F w.jobs n) (Reach.refl _) ?_
  rintro n o n' hn ho rfl
  exact Reach.trans hn (JobManager.Operated.single (Operation.driven_keepsShape ho) n)

namespace Server

open JobManager Session

variable {cfg : Config F} {v₀ v v' : Server F} {e : Event F}

theorem closeConn_operated (v : Server F) (connId : Nat) :
    Operated F v.jobs (v.closeConn connId).jobs := by
  cases hconn : v.conns.lookup connId with
  | none =>
      rw [closeConn_closed hconn]
      exact Reach.refl _
  | some conn =>
      have hshape : KeepsShape (.releaseAllHeldBy conn.session.workerId : Operation F) := trivial
      rw [closeConn_open hconn]
      dsimp only [jobs, onDisconnect]
      split
      · exact .single hshape v.jobs
      · exact Reach.refl _

theorem dropLost_operated (lost : List WorkerId) (v : Server F) :
    Operated F v.jobs (lost.foldl dropWorker v).jobs := by
  induction lost generalizing v with
  | nil => exact Reach.refl _
  | cons id lost ih =>
      have hshape : KeepsShape (.releaseAllHeldBy id : Operation F) := trivial
      exact Reach.trans (Operated.single hshape v.jobs) (ih (v.dropWorker id))

theorem sweep_operated (cfg : Config F) (v : Server F) (nowMs : UInt64) (flushed : Bool) :
    Operated F v.jobs (v.sweep cfg nowMs flushed).jobs := by
  have hexpires : KeepsShape (.sweepExpiredLeases nowMs : Operation F) := trivial
  have hflushes : KeepsShape (.clearDirty : Operation F) := trivial
  have hexpired : Operated F v.jobs (v.expireLeases cfg nowMs).jobs := .single hexpires v.jobs
  have hdropped : Operated F v.jobs ((v.expireLeases cfg nowMs).dropLost cfg nowMs).jobs :=
    hexpired.trans (dropLost_operated (v.lostAt cfg nowMs) (v.expireLeases cfg nowMs))
  have hjobs := congrArg Shared.jobs (sweep_eq cfg v nowMs flushed)
  change (v.sweep cfg nowMs flushed).jobs = _ at hjobs
  rw [hjobs]
  dsimp only
  split
  · exact Reach.trans hdropped (Operated.single hflushes _)
  · exact hdropped

theorem onMessage_operated (v : Server F) (s : Session) (body : Body F) (payload : Payload)
    (nowMs : UInt64) (token : Token) :
    Operated F v.jobs (s.onMessage cfg v.shared body payload nowMs token).shared.jobs := by
  cases hknown : s.handshaked with
  | false =>
      cases onMessage_unknown cfg v.shared body payload nowMs token hknown with
      | silent hsilent hsession hshared =>
          rw [hshared]
          exact Reach.refl _
      | greets hello h =>
          rw [h.jobs]
          exact Reach.refl _
      | routine hgreeted => rw [hknown] at hgreeted; cases hgreeted
      | judged header taskId n hgreeted => rw [hknown] at hgreeted; cases hgreeted
  | true =>
      by_cases hleaves : body = .goodbye
      · subst hleaves
        have hshape : KeepsShape (.releaseAllHeldBy s.workerId : Operation F) := trivial
        rw [onMessage_jobs cfg v.shared _ payload nowMs token hknown]
        exact .single hshape v.jobs
      · exact (onMessage_edits hknown hleaves).runs

theorem next_operated (cfg : Config F) (v : Server F) (e : Event F) :
    Operated F v.jobs (v.next cfg e).jobs := by
  cases e with
  | createJob kernelId totalUnits seed unitsPerGroup =>
      have hshape : KeepsShape (.createJob kernelId totalUnits seed unitsPerGroup : Operation F) :=
        trivial
      exact .single hshape v.jobs
  | seedRender render inputRef =>
      have hshape : KeepsShape (.seedRender render inputRef : Operation F) := trivial
      exact .single hshape v.jobs
  | «open» => exact Reach.refl _
  | text => exact Reach.refl _
  | malformed connId =>
      obtain ⟨edit, -, hreject⟩ := rejectFrame_cases v connId
      change Operated F v.jobs (v.rejectFrame connId).jobs
      rcases hreject with heq | heq
      · rw [← heq]
        exact closeConn_operated (v.editConn connId edit) connId
      · rw [← heq]
        exact Reach.refl _
  | close connId => exact closeConn_operated v connId
  | sweep nowMs flushed => exact sweep_operated cfg v nowMs flushed
  | message connId body payload nowMs token =>
      cases hconn : v.conns.lookup connId with
      | none =>
          have hsame : v.next cfg (.message connId body payload nowMs token) = v :=
            onFrame_closed hconn
          rw [hsame]
          exact Reach.refl _
      | some conn =>
          have hframe := onFrame_framed cfg body payload nowMs token hconn
          have hjobs : (v.next cfg (.message connId body payload nowMs token)).jobs =
              (conn.session.onMessage cfg v.shared body payload nowMs token).shared.jobs :=
            congrArg Shared.jobs hframe.shared
          rw [hjobs]
          exact onMessage_operated v conn.session body payload nowMs token

-- Whatever the coordinator does to its tasks is a run of the operations of its manager,
-- so that what holds of those in every run holds here.
theorem jobs_operated {guard : Server F → Event F → Prop} (h₀ : v₀.Started)
    (h : Reach (Step cfg) guard v₀ v) : Operated F {} v.jobs := by
  have hempty : v₀.jobs = {} := h₀.jobs
  induction h with
  | refl =>
      rw [hempty]
      exact Reach.refl _
  | @tail v v' hrun hlast ih =>
      obtain ⟨e, -, hstep⟩ := hlast
      have hinv : v.jobs.Minted ∧ v.jobs.Partition fun _ => False := run_partition ih
      exact ih.trans ((next_operated cfg v e).rehashed hinv.1 hstep.jobs)

-- Races are well formed after any operations, and start only as they may. There is no
-- run of the coordinator that is not made of these.
theorem speculation_formed (h₀ : v₀.Started) :
    (∀ m, Operated F {} m → m.Speculated ∧
      ∀ (o : Operation F) m', KeepsShape o → JobManager.Step m o m' → m.FairRaces o m') ∧
    ∀ v, Reach (Step cfg) (fun _ _ => True) v₀ v → Operated F {} v.jobs :=
  ⟨fun _ h => races_of_run h, fun _ h => jobs_operated h₀ h⟩

end Server

end

namespace Server

open JobManager

theorem speculation_formed_raced :
    ((searchStart.runAll (searches {}) racedRun).jobs.find ⟨0, 4⟩).map Task.replicaOf =
        some ⟨0, 3⟩ ∧
      (searchStart.runAll (searches {}) racedRun).jobs.Speculated := by
  have hreached := reach_runAll (searches {}) racedRun searchStart
  obtain ⟨hraces, hoperated⟩ := speculation_formed searchStart_started
  exact ⟨by decide +kernel, (hraces _ (hoperated _ hreached)).1⟩

end Server

end P2pGpu.Coordinator
