import P2pGpu.Coordinator.Job.Partials
import P2pGpu.Coordinator.Server.Unheard
import P2pGpu.Coordinator.Session.Edits

namespace P2pGpu.Coordinator

open P2pGpu.Protocol

namespace JobManager

variable {m m' : JobManager} {id i : TaskId} {worker : WorkerId}

-- What was delivered for a task is only touched where its lease is held.
def KeepsDelivered (m m' : JobManager) : Prop :=
  ∀ i, m'.latestPartial i = m.latestPartial i ∨ ∃ t, m.find i = some t ∧ t.state = .leased

theorem KeepsDelivered.of_partials (h : m'.partials = m.partials) : m.KeepsDelivered m' := by
  intro i
  left
  unfold latestPartial
  rw [h]

theorem recordPartial_delivered (m : JobManager) (worker : WorkerId) (id : TaskId)
    (sequence : UInt32) (unitsDone : UInt64) (payload : Payload) (nowMs : UInt64)
    (leaseMs : UInt32) :
    m.KeepsDelivered (m.recordPartial worker id sequence unitsDone payload nowMs leaseMs).2 := by
  rcases recordPartial_cases m worker id sequence unitsDone payload nowMs leaseMs with
    ⟨e, hr⟩ | ⟨t, n, hf, hheld, -, -, hpartials, hr⟩
  · rw [hr]
    exact .of_partials rfl
  · rw [hr]
    intro i
    by_cases hi : i = id
    · rw [hi]
      exact .inr ⟨t, hf, (isLeasedTo_iff.mp hheld).1⟩
    · left
      unfold latestPartial
      rw [hpartials, AList.lookup_insert_ne hi]

theorem finish_partials {accepted : Bool} (h : (m.finish id accepted).1 = .ok ()) :
    (m.finish id accepted).2.partials = m.partials.erase id := by
  unfold finish at h ⊢
  split at h
  · cases h
  · split at h
    · cases h
    · rename_i happly
      have hsame := apply_partials happly
      dsimp only at hsame ⊢
      rw [hsame]

end JobManager

section

variable {F : Type}

theorem Operation.quiet_leavesPartials {o : Operation F} (h : o.quiet) : o.leavesPartials := by
  cases o <;> first | exact h.elim | trivial

end

section

variable {F : Type} [Double F] {cfg : Config F} {s : Session} {w w' : Shared F}
  {p : Operation F → Prop}

-- Operations that neither deliver nor judge leave what was delivered.
theorem Shared.Edits.partials (h : Shared.Edits p w w') (hp : ∀ o, p o → o.leavesPartials) :
    w'.jobs.partials = w.jobs.partials := by
  refine h.operations.invariant (fun n => n.partials = w.jobs.partials) rfl ?_
  rintro n o n' hn ho rfl
  exact (JobManager.run_partials n (hp o ho)).trans hn

namespace Session

open JobManager

theorem onReadable_delivered {taskId : TaskId} {header : ResultHeader} {payload : Payload}
    (h : ∀ n, isComplete w.jobs taskId header.unitsDone = true →
      w.jobs.submit s.workerId taskId ≠ (.ok (), n)) :
    w.jobs.KeepsDelivered (s.onReadable cfg w taskId header payload).shared.jobs := by
  unfold onReadable
  split
  · exact recordPartial_delivered w.jobs s.workerId taskId _ _ _ _ _
  · rename_i hcomplete
    have hsubmit : (w.jobs.submit s.workerId taskId).2.partials = w.jobs.partials :=
      run_partials (o := (.submit s.workerId taskId : Operation F)) w.jobs trivial
    split
    · rename_i heq
      rw [heq] at hsubmit
      exact .of_partials hsubmit
    · rename_i n heq
      exact absurd heq (h n (by simpa using hcomplete))

theorem onResultHeader_delivered {header : ResultHeader} {payload : Payload}
    (hunheard : ∀ taskId n, ¬ Landed cfg s w header payload taskId n) :
    w.jobs.KeepsDelivered (s.onResultHeader cfg w header payload).shared.jobs := by
  have hkept : w.jobs.KeepsDelivered w.jobs := .of_partials rfl
  unfold onResultHeader
  split
  · exact hkept
  · rename_i taskId hnamed
    split
    · exact hkept
    · rename_i hfresh
      split
      · exact hkept
      · rename_i halone
        split
        · exact hkept
        · rename_i hlength
          split
          · exact hkept
          · rename_i hlease
            split
            · exact .of_partials (requeue_partials w.jobs taskId .release)
            · rename_i hchecksum
              exact onReadable_delivered fun n hcomplete hsubmit => hunheard taskId n
                ⟨hnamed, hfresh, halone, hlength, hlease, hchecksum, hcomplete, hsubmit⟩

theorem onMessage_jobs (cfg : Config F) (w : Shared F) (body : Body F) (payload : Payload)
    (nowMs : UInt64) (token : Token) (hs : s.handshaked = true) :
    (s.onMessage cfg w body payload nowMs token).shared.jobs =
      (({ s with nowMs } : Session).dispatch cfg (s.heardFrom w nowMs) body payload
        token).shared.jobs := by
  obtain ⟨-, -, fleet, -, hshared⟩ := onMessage_receive cfg s w body payload nowMs token
  rw [hshared, receive_known cfg w body payload nowMs token hs]

end Session

namespace Server

open JobManager Session

variable {v v' : Server F} {e : Event F} {c : Hearing} {good : JobId → Prop} {id i : TaskId}
  {t : Task}

theorem closeConn_partials (v : Server F) (connId : Nat) :
    (v.closeConn connId).jobs.partials = v.jobs.partials := by
  cases hconn : v.conns.lookup connId with
  | none => rw [closeConn_closed hconn]
  | some conn =>
      rw [closeConn_open hconn]
      dsimp only [jobs, onDisconnect]
      split
      · exact releaseFrom_partials _ _
      · rfl

theorem dropLost_partials (lost : List WorkerId) (v : Server F) :
    (lost.foldl dropWorker v).jobs.partials = v.jobs.partials := by
  induction lost generalizing v with
  | nil => rfl
  | cons id lost ih => exact (ih (v.dropWorker id)).trans (releaseFrom_partials _ v.jobs)

theorem sweep_partials (v : Server F) (nowMs : UInt64) (flushed : Bool) :
    (v.sweep cfg nowMs flushed).jobs.partials = v.jobs.partials := by
  have hdropped := dropLost_partials (v.lostAt cfg nowMs) (v.expireLeases cfg nowMs)
  have hexpired : (v.expireLeases cfg nowMs).jobs.partials = v.jobs.partials :=
    sweepFrom_partials _ v.jobs
  unfold jobs at hdropped hexpired ⊢
  rw [sweep_eq]
  dsimp only
  split
  · exact hdropped.trans hexpired
  · exact hdropped.trans hexpired

-- Where no answer is judged, only the holder of a lease delivers for its task.
theorem next_delivered (hs : v.jobs.Sound cfg.kernels good) (hunheard : ∀ c, ¬ v.Hears cfg e c) :
    v.jobs.KeepsDelivered (v.next cfg e).jobs := by
  cases e with
  | createJob => exact .of_partials rfl
  | seedRender => exact .of_partials rfl
  | «open» => exact .of_partials rfl
  | text => exact .of_partials rfl
  | malformed connId =>
      obtain ⟨edit, -, hreject⟩ := rejectFrame_cases v connId
      change v.jobs.KeepsDelivered (v.rejectFrame connId).jobs
      rcases hreject with heq | heq
      · rw [← heq]
        exact .of_partials (closeConn_partials (v.editConn connId edit) connId)
      · rw [← heq]
        exact .of_partials rfl
  | close connId => exact .of_partials (closeConn_partials v connId)
  | sweep nowMs flushed => exact .of_partials (sweep_partials v nowMs flushed)
  | message connId body payload nowMs token =>
      cases hconn : v.conns.lookup connId with
      | none =>
          have hsame : v.next cfg (.message connId body payload nowMs token) = v :=
            onFrame_closed hconn
          rw [hsame]
          exact .of_partials rfl
      | some conn =>
          have hframe := onFrame_framed cfg body payload nowMs token hconn
          have hjobs : (v.next cfg (.message connId body payload nowMs token)).jobs =
              (conn.session.onMessage cfg v.shared body payload nowMs token).shared.jobs :=
            congrArg Shared.jobs hframe.shared
          rw [hjobs]
          cases hknown : conn.session.handshaked with
          | false =>
              cases onMessage_unknown cfg v.shared body payload nowMs token hknown with
              | silent hsilent hsession hshared =>
                  rw [hshared]
                  exact .of_partials rfl
              | greets hello h =>
                  rw [h.jobs]
                  exact .of_partials rfl
              | routine hgreeted => rw [hknown] at hgreeted; cases hgreeted
              | judged header taskId n hgreeted => rw [hknown] at hgreeted; cases hgreeted
          | true =>
              by_cases hresult : ∃ header, body = .resultHeader header
              · obtain ⟨header, rfl⟩ := hresult
                rw [onMessage_jobs cfg v.shared _ payload nowMs token hknown]
                refine onResultHeader_delivered fun taskId n hlanded => ?_
                have hheard : ∃ c, v.Hears cfg
                    (.message connId (.resultHeader header) payload nowMs token) c :=
                  hears_of_landed hs hconn hknown hlanded
                obtain ⟨c, hc⟩ := hheard
                exact hunheard c hc
              · by_cases hleaves : body = .goodbye
                · subst hleaves
                  rw [onMessage_jobs cfg v.shared _ payload nowMs token hknown]
                  exact .of_partials (releaseFrom_partials _ v.jobs)
                · have hquiet : Shared.Edits Operation.quiet v.shared
                      (conn.session.onMessage cfg v.shared body payload nowMs token).shared :=
                    onMessage_quiet hknown (fun header he => hresult ⟨header, he⟩) hleaves
                  exact .of_partials (hquiet.partials fun _ => Operation.quiet_leavesPartials)

theorem Hears.opened_partials (h : v.Hears cfg e c) :
    (c.opened v).jobs.partials = v.jobs.partials := by
  have hprepared : Shared.Edits Operation.quiet
      { c.session.heardFrom v.shared c.session.nowMs with jobs := c.submitted } (c.opened v) :=
    prepare_edits _ c.taskId c.header
  have hsubmit : (v.jobs.submit c.session.workerId c.taskId).2.partials = v.jobs.partials :=
    run_partials (o := (.submit c.session.workerId c.taskId : Operation F)) v.jobs trivial
  have hsubmitted : v.jobs.submit c.session.workerId c.taskId = (.ok (), c.submitted) :=
    h.landed.submitted
  rw [hsubmitted] at hsubmit
  exact (hprepared.partials fun _ => Operation.quiet_leavesPartials).trans hsubmit

-- A verdict that accepts drops what was delivered for the winner, and no more.
theorem Hears.partials (h : v.Hears cfg e c) :
    (v.next cfg e).jobs.partials =
      if (c.verdict cfg v).action = .accept then v.jobs.partials.erase c.taskId
      else v.jobs.partials := by
  obtain ⟨fleet, -, hdrain⟩ := drainRevokes_fleet c.session (v.ruling cfg c).shared
  have hruling : (v.next cfg e).jobs = (v.ruling cfg c).shared.jobs := by
    unfold jobs
    rw [h.next, hdrain]
  obtain ⟨hsubmitted, -⟩ := h.recorded
  have hrecorded : (Session.recorded (c.opened v) c.taskId c.answer).partials = v.jobs.partials :=
    (recordSubmission_partials _ _ _).trans h.opened_partials
  rw [hruling]
  unfold ruling rule
  cases (c.verdict cfg v).action with
  | needMoreReplicas =>
      rw [if_neg nofun]
      exact (requestReplica_partials _ _).trans hrecorded
  | inconclusive =>
      rw [if_neg nofun]
      exact (restartValidation_partials _ _).trans hrecorded
  | accept =>
      rw [if_pos rfl, ← hrecorded, ← finish_partials (finish_ok hsubmitted rfl)]
      exact cancelSiblingsOf_partials _ _

-- What is final keeps nothing: no votes, no delivery and no holder.
def Shed (m : JobManager) : Prop :=
  ∀ id t, m.find id = some t → isTerminal t.state = true →
    t.submissions = [] ∧ m.latestPartial id = none ∧ t.holder = Id.nil

-- A race is only won while nothing is kept for those of the family that are at work.
def WinsUnburdened (cfg : Config F) (v : Server F) (e : Event F) : Prop :=
  ∀ c, v.Hears cfg e c → (c.verdict cfg v).action = .accept →
    ∀ i s, v.jobs.find i = some s → i ≠ c.taskId → s.family = c.task.family → s.state = .leased →
      s.submissions = [] ∧ v.jobs.latestPartial i = none

theorem Hears.unique {c' : Hearing} (h : v.Hears cfg e c) (h' : v.Hears cfg e c') : c = c' :=
  Option.some.inj ((hear_of_hears h).symm.trans (hear_of_hears h'))

theorem unheard_final (hs : v.jobs.Sound cfg.kernels good) (hunheard : ∀ c, ¬ v.Hears cfg e c)
    (hf : (v.next cfg e).jobs.find i = some t) (hterminal : isTerminal t.state = true) :
    v.jobs.find i = some t := by
  by_cases hplants : e.Plants
  · rcases hplants with ⟨kernelId, totalUnits, seed, unitsPerGroup, rfl⟩ | ⟨render, inputRef, rfl⟩
    · exact hf
    · exact hf
  · exact Quiet.final_was (next_quiet hs hunheard hplants) hs.minted hf hterminal

theorem Shed.unheard (hshed : Shed v.jobs) (hs : v.jobs.Sound cfg.kernels good)
    (hunheard : ∀ c, ¬ v.Hears cfg e c) : Shed (v.next cfg e).jobs := by
  intro i t hf hterminal
  have hold := unheard_final hs hunheard hf hterminal
  obtain ⟨hvotes, hpartial, hholder⟩ := hshed i t hold hterminal
  refine ⟨hvotes, ?_, hholder⟩
  rcases next_delivered hs hunheard i with hsame | ⟨u, hu, hleased⟩
  · exact hsame.trans hpartial
  · rw [hold] at hu
    cases hu
    rw [hleased] at hterminal
    cases hterminal

-- A verdict that asks on leaves nothing final that was not so before.
theorem Shed.waits (hshed : Shed v.jobs) (h : v.Hears cfg e c)
    (haction : (c.verdict cfg v).action ≠ .accept) : Shed (v.next cfg e).jobs := by
  obtain ⟨m, hanswers, hjobs⟩ := h.judges
  have hpartials := h.partials
  rw [if_neg haction] at hjobs hpartials
  obtain ⟨u, -, -, hjudged, -⟩ := hanswers.judged
  intro i t hf hterminal
  rw [hjobs] at hf
  by_cases hi : i = c.taskId
  · rw [hi, hjudged] at hf
    cases hf
    generalize (c.verdict cfg v).action = action at haction hterminal
    cases action with
    | accept => exact absurd rfl haction
    | needMoreReplicas => cases hterminal
    | inconclusive => cases hterminal
  · rw [hanswers.others i hi] at hf
    unfold latestPartial
    rw [hpartials]
    exact hshed i t hf hterminal

theorem Shed.wins (hshed : Shed v.jobs) (hs : v.jobs.Sound cfg.kernels good) (hk : v.Kindred)
    (h : v.Hears cfg e c) (haction : (c.verdict cfg v).action = .accept) :
    Shed (v.next cfg e).jobs ↔ WinsUnburdened cfg v e := by
  obtain ⟨m, hanswers, hjobs⟩ := h.judges
  have hpartials := h.partials
  rw [haction] at hanswers
  rw [if_pos haction] at hjobs hpartials
  obtain ⟨u, hu, -, hwon, hrest⟩ := hanswers.cancel_find hs.minted hs.partition
  obtain rfl : u = c.task := Option.some.inj (hu.symm.trans h.task)
  rw [← hjobs] at hwon hrest
  have hwin := h.wins hs haction
  have hkept : ∀ i, i ≠ c.taskId → (v.next cfg e).jobs.latestPartial i = v.jobs.latestPartial i := by
    intro i hi
    unfold latestPartial
    rw [hpartials, AList.lookup_erase_ne hi]
  constructor
  · intro hshed' c' hc' haction' i s hi hne hfamily hsibling
    obtain rfl := h.unique hc'
    rcases siblings_after hs hk (step_next cfg v e) hwin hi hfamily hne with ⟨-, hcancelled⟩ | ⟨hnot, -⟩
    · obtain ⟨hvotes, hpartial, -⟩ := hshed' i s.cancelled hcancelled rfl
      exact ⟨hvotes, (hkept i hne).symm.trans hpartial⟩
    · exact absurd hsibling hnot
  · intro hclean i t hf hterminal
    by_cases hi : i = c.taskId
    · rw [hi, hwon] at hf
      cases hf
      refine ⟨rfl, ?_, rfl⟩
      unfold latestPartial
      rw [hi, hpartials, AList.lookup_erase]
    · rw [hkept i hi]
      rcases hrest i hi with hsame | ⟨s, hs', hfamily, hlive, hcancelled⟩
      · exact hshed i t (hsame ▸ hf) hterminal
      · have hrests := hs.settled i s hs'
        have hsibling : s.state = .leased := by
          rcases hlive with hl | hl | hl
          · exact hl
          · exact absurd hl hrests.validating
          · exact absurd hl hrests.needsReplica
        obtain ⟨hvotes, hpartial⟩ := hclean c h haction i s hs' hi hfamily hsibling
        rw [hcancelled] at hf
        cases hf
        exact ⟨hvotes, hpartial, rfl⟩

theorem shed_next (hshed : Shed v.jobs) (hs : v.jobs.Sound cfg.kernels good) (hk : v.Kindred) :
    Shed (v.next cfg e).jobs ↔ WinsUnburdened cfg v e := by
  by_cases hheard : ∃ c, v.Hears cfg e c
  · obtain ⟨c, hc⟩ := hheard
    by_cases haction : (c.verdict cfg v).action = .accept
    · exact hshed.wins hs hk hc haction
    · refine iff_of_true (hshed.waits hc haction) fun c' hc' haccept => ?_
      obtain rfl := hc.unique hc'
      exact absurd haccept haction
  · have hunheard : ∀ c, ¬ v.Hears cfg e c := fun c hc => hheard ⟨c, hc⟩
    exact iff_of_true (hshed.unheard hs hunheard) fun c hc => absurd hc (hunheard c)

theorem shed_rehashed {m m' : JobManager} (h : m.Rehashed m') : Shed m' ↔ Shed m := by
  have hfind := h.sameRows.find_eq
  have hpartial : ∀ i, m'.latestPartial i = m.latestPartial i := fun i =>
    (Table.lookup_of_perm h.partials i).symm
  unfold Shed
  simp only [hfind, hpartial]

variable {v₀ : Server F} {past : List (Server F × Event F)}

-- Nothing final keeps anything, on just those runs on which no race is won over a
-- sibling that had votes or a delivery.
theorem shed_iff (h₀ : v₀.Started)
    (h : Reach (Recalling (Step cfg)) (fun _ _ => True) (v₀, []) (v, past)) :
    Recalling.Along (fun w _ => Shed w.jobs) (v, past) ↔
      ∀ before e after, past = before ++ e :: after → WinsUnburdened cfg e.1 e.2 := by
  refine Recalling.along_iff h (fun w _ => Shed w.jobs) (fun _ w e => WinsUnburdened cfg w e) ?_ ?_
  · have hempty : v₀.jobs = {} := h₀.jobs
    intro i t hf
    rw [hempty] at hf
    cases hf
  · intro w before e w' hrun hshed _ hstep
    have hreached := Recalling.forget hrun
    obtain ⟨-, hs⟩ := sound_of_run (fun _ => False) h₀ hreached
    have hrehashed : (w.next cfg e).jobs.Rehashed w'.jobs := hstep.jobs
    rw [shed_rehashed hrehashed]
    exact shed_next hshed hs (kindred_of_run h₀ hreached)

end Server

end

namespace Server

-- The last task of a job is raced, and the second worker is at work on it all along.
def racedRun : List (Event Rat) :=
  .createJob "brute_search_v1" 10000000 7 0 :: joins 1 10 3072000000 ++ joins 2 10 80 ++
    joins 3 10 80 ++ [asks 1 20, tells 1 ⟨0, 2⟩ [1] 30, asks 2 40, asks 3 100]

-- A worker shows how far it has come.
def delivers (connId : Nat) (taskId : TaskId) (payload : Payload) (nowMs : UInt64) : Event Rat :=
  .message connId (.resultHeader
    { taskId := some taskId
      payloadBytes := UInt32.ofNat payload.length
      checksum := digest payload
      stats := none
      sequence := 1
      unitsDone := 1 }) payload nowMs []

theorem shed_iff_raced :
    ((searchStart.runAll (searches {}) (racedRun ++ [tells 3 ⟨0, 4⟩ [1] 110])).jobs.find
        ⟨0, 3⟩).map Task.state = some .cancelled ∧
      (Recalling.Along (fun w _ => Shed w.jobs)
          (searchStart.runAll (searches {}) (racedRun ++ [tells 3 ⟨0, 4⟩ [1] 110]),
            [] ++ searchStart.history (searches {}) (racedRun ++ [tells 3 ⟨0, 4⟩ [1] 110])) ↔
        ∀ before e after, [] ++ searchStart.history (searches {})
            (racedRun ++ [tells 3 ⟨0, 4⟩ [1] 110]) = before ++ e :: after →
          WinsUnburdened (searches {}) e.1 e.2) :=
  ⟨by decide +kernel, shed_iff searchStart_started (recalls_history (searches {})
    (racedRun ++ [tells 3 ⟨0, 4⟩ [1] 110]) searchStart [])⟩

-- The replica wins after the holder of the original had delivered in part.
theorem cancelled_keeps_delivery :
    ¬ ∀ v, Reach (Step (searches {})) (fun _ _ => True) searchStart v → Shed v.jobs := by
  intro h
  have hrun := reach_runAll (searches {})
    (racedRun ++ [delivers 2 ⟨0, 3⟩ [1] 105, tells 3 ⟨0, 4⟩ [1] 110]) searchStart
  have hstate : ((searchStart.runAll (searches {}) (racedRun ++
      [delivers 2 ⟨0, 3⟩ [1] 105, tells 3 ⟨0, 4⟩ [1] 110])).jobs.find ⟨0, 3⟩).map Task.state =
        some .cancelled := by decide +kernel
  have hkept : ((searchStart.runAll (searches {}) (racedRun ++
      [delivers 2 ⟨0, 3⟩ [1] 105, tells 3 ⟨0, 4⟩ [1] 110])).jobs.latestPartial ⟨0, 3⟩).isSome := by
    decide +kernel
  obtain ⟨t, ht, hcancelled⟩ := Option.map_eq_some_iff.mp hstate
  obtain ⟨-, hnone, -⟩ := h _ hrun ⟨0, 3⟩ t ht (by rw [hcancelled]; rfl)
  rw [hnone] at hkept
  cases hkept

end Server

end P2pGpu.Coordinator
