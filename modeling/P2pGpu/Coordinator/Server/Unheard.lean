import P2pGpu.Coordinator.Server.Hearing
import P2pGpu.Coordinator.Server.Family

namespace P2pGpu.Coordinator

open P2pGpu.Protocol

-- An event that brings in a job.
def Event.Plants {F : Type} (e : Event F) : Prop :=
  (∃ kernelId totalUnits seed unitsPerGroup,
      e = .createJob kernelId totalUnits seed unitsPerGroup) ∨
    ∃ render inputRef, e = .seedRender render inputRef

theorem Task.startUnit_of_span {t t' : Task} (h : t.span = t'.span) :
    t.startUnit = t'.startUnit := UInt64.toNat_inj.mp (congrArg Span.start h)

namespace JobManager

-- Work that is lent or given back, and nothing that is final.
def Quiet (m : JobManager) (l : Label) : Prop := m.SeedsOnly l ∧ m.Spares l ∧ ¬ l.Plants

variable {m m' : JobManager} {l : Label} {worker : WorkerId} {deadline : UInt64} {asked : Prop}
  {good : JobId → Prop}

theorem Light.quiet (h : Light asked worker deadline m l) : m.Quiet l := by
  refine ⟨h.seedsOnly, h.spares, fun hplants => ?_⟩
  rcases h with rfl | ⟨-, issue, hissue⟩ | ⟨id, t, rfl, -⟩ | ⟨id, rfl⟩
  · exact hplants
  · cases l with
    | create => exact hissue
    | edit => exact hissue
    | _ => exact hplants
  · exact hplants
  · exact hplants

theorem Requeues.quiet {p : Task → Prop} (h : Requeues p m l) : m.Quiet l := by
  have hspares := h.spares
  obtain ⟨id, t, rfl, -⟩ := h
  exact ⟨trivial, hspares, fun hplants => hplants⟩

-- The metadata of a job is what it was when the job came.
theorem Move.job_was (h : Move m l m') (hp : m.Partition good) (hl : ¬ l.Plants) {jobId : JobId}
    {job' : Job} (hf : m'.findJob jobId = some job') :
    ∃ job, m.findJob jobId = some job ∧ job'.render = job.render := by
  rcases h.findJob_some hp.fresh hf with hsame | ⟨rfl, -⟩ | ⟨_, edit, rfl, -⟩ |
    ⟨_, tile, u, units, -, -, hsame, rfl, -⟩ | ⟨_, u, original, -, -, hsame, rfl, -⟩
  · exact ⟨job', hsame, rfl⟩
  · exact absurd trivial hl
  · exact absurd trivial hl
  · exact ⟨_, hsame, rfl⟩
  · exact ⟨_, hsame, rfl⟩

theorem Quiet.job_was (h : Moves Quiet m m') (hm : m.Minted) (hp : m.Partition good)
    {jobId : JobId} {job' : Job} (hf : m'.findJob jobId = some job') :
    ∃ job, m.findJob jobId = some job ∧ job'.render = job.render := by
  have hinv := h.invariant (fun n => (n.Minted ∧ n.Partition good) ∧ ∀ job',
    n.findJob jobId = some job' → ∃ job, m.findJob jobId = some job ∧ job'.render = job.render)
    ⟨⟨hm, hp⟩, fun job' hjob' => ⟨job', hjob', rfl⟩⟩ ?_
  · exact hinv.2 job' hf
  · rintro n l n' ⟨⟨hn, hpart⟩, hback⟩ ⟨hseeds, -, hplants⟩ hmove
    refine ⟨⟨hmove.minted hn, hpart.move hn hmove hseeds⟩, fun job'' hf'' => ?_⟩
    obtain ⟨job', hf', hrender⟩ := hmove.job_was hpart hplants hf''
    obtain ⟨job, hjob, hold⟩ := hback job' hf'
    exact ⟨job, hjob, hrender.trans hold⟩

theorem Quiet.job_stays (h : Moves Quiet m m') (hm : m.Minted) (hp : m.Partition good)
    {jobId : JobId} {job : Job} (hf : m.findJob jobId = some job) :
    ∃ job', m'.findJob jobId = some job' ∧ job'.render = job.render := by
  have hinv := h.invariant (fun n => (n.Minted ∧ n.Partition good) ∧
    ∃ job', n.findJob jobId = some job') ⟨⟨hm, hp⟩, job, hf⟩ ?_
  · obtain ⟨-, job', hf'⟩ := hinv
    obtain ⟨job₀, hf₀, hrender⟩ := Quiet.job_was h hm hp hf'
    rw [hf] at hf₀
    cases hf₀
    exact ⟨job', hf', hrender⟩
  · rintro n l n' ⟨⟨hn, hpart⟩, job', hf'⟩ ⟨hseeds, -, -⟩ hmove
    exact ⟨⟨hmove.minted hn, hpart.move hn hmove hseeds⟩, hmove.findJob_mono hpart.fresh hf'⟩

-- What is final was so before.
theorem Quiet.final_was (h : Moves Quiet m m') (hm : m.Minted) {id : TaskId} {t' : Task}
    (hf : m'.find id = some t') (hs : isTerminal t'.state = true) : m.find id = some t' :=
  Spares.was (fun _ _ hl => hl.2.1) h hm hf hs

end JobManager

namespace Server

open JobManager Session

variable {F : Type} [Double F] {cfg : Config F} {v v' : Server F} {e : Event F} {c : Hearing}
  {good : JobId → Prop}

theorem closeConn_quiet (v : Server F) (connId : Nat) :
    Moves Quiet v.jobs (v.closeConn connId).jobs := by
  cases hconn : v.conns.lookup connId with
  | none =>
      rw [closeConn_closed hconn]
      exact Reach.refl _
  | some conn =>
      rw [closeConn_open hconn]
      dsimp only [jobs, onDisconnect]
      split
      · exact Reach.mono (fun _ _ hl => hl.quiet) (releaseAllHeldBy_moves _ _)
      · exact Reach.refl _

-- Where no answer is judged and no job comes, nothing becomes final.
theorem next_quiet (hs : v.jobs.Sound cfg.kernels good) (hunheard : ∀ c, ¬ v.Hears cfg e c)
    (hplants : ¬ e.Plants) : Moves Quiet v.jobs (v.next cfg e).jobs := by
  cases e with
  | createJob kernelId totalUnits seed unitsPerGroup =>
      exact absurd (.inl ⟨kernelId, totalUnits, seed, unitsPerGroup, rfl⟩) hplants
  | seedRender render inputRef => exact absurd (.inr ⟨render, inputRef, rfl⟩) hplants
  | «open» => exact Reach.refl _
  | text => exact Reach.refl _
  | malformed connId =>
      obtain ⟨edit, -, hreject⟩ := rejectFrame_cases v connId
      change Moves Quiet v.jobs (v.rejectFrame connId).jobs
      rcases hreject with heq | heq
      · rw [← heq]
        exact closeConn_quiet (v.editConn connId edit) connId
      · rw [← heq]
        exact Reach.refl _
  | close connId => exact closeConn_quiet v connId
  | sweep nowMs flushed =>
      obtain ⟨m, hmoves, hjobs⟩ := (sweep_shared cfg v nowMs flushed).jobs
      have hexpired : Moves Quiet v.jobs (v.jobs.sweepExpiredLeases nowMs).2 :=
        Reach.mono (fun _ _ hl => hl.quiet) (sweepExpiredLeases_moves _ _)
      have hlost := hexpired.trans (Reach.mono (fun _ _ hl => hl.quiet) hmoves)
      have heq : (v.next cfg (.sweep nowMs flushed)).jobs = if flushed then m.clearDirty else m :=
        hjobs
      rw [heq]
      split
      · have hflush : Quiet m .flush := ⟨trivial, nofun, fun h => h⟩
        exact hlost.tail hflush (Move.flush m)
      · exact hlost
  | message connId body payload nowMs token =>
      cases hconn : v.conns.lookup connId with
      | none =>
          have hsame : v.next cfg (.message connId body payload nowMs token) = v :=
            onFrame_closed hconn
          rw [hsame]
          exact Reach.refl _
      | some conn =>
          have hheard := onMessage_heard cfg conn.session v.shared body payload nowMs token
          have hframe := onFrame_framed cfg body payload nowMs token hconn
          have hjobs : (v.next cfg (.message connId body payload nowMs token)).jobs =
              (conn.session.onMessage cfg v.shared body payload nowMs token).shared.jobs :=
            congrArg Shared.jobs hframe.shared
          rw [hjobs]
          cases hheard with
          | silent hsilent hsession hshared =>
              rw [hshared]
              exact Reach.refl _
          | greets hello h =>
              rw [h.jobs]
              exact Reach.refl _
          | routine hknown hstays h =>
              exact Reach.mono (fun _ _ hl => hl.quiet) (h.shared.jobs.moves hs.minted)
          | judged header taskId n hknown hstays hbody hsession hlanded =>
              subst hbody
              have hhears : ∃ c, v.Hears cfg
                  (.message connId (.resultHeader header) payload nowMs token) c :=
                hears_of_landed hs hconn hknown hlanded
              obtain ⟨c, hc⟩ := hhears
              exact absurd hc (hunheard c)

-- What a judgement makes of the tasks.
theorem Hears.judges (h : v.Hears cfg e c) :
    ∃ m, Answers cfg.quorum v.jobs c.taskId c.answer (c.verdict cfg v).action m ∧
      (v.next cfg e).jobs =
        if (c.verdict cfg v).action = .accept then (m.cancelSiblingsOf c.taskId).2 else m := by
  obtain ⟨m, hanswers, hjobs⟩ := h.landed.answers h.task h.kernel rfl
  refine ⟨m, hanswers, ?_⟩
  obtain ⟨fleet, -, hdrain⟩ := drainRevokes_fleet c.session (v.ruling cfg c).shared
  have hruling : (v.next cfg e).jobs = (v.ruling cfg c).shared.jobs := by
    unfold jobs
    rw [h.next, hdrain]
  rw [h.landed.rules h.task h.kernel] at hjobs
  rw [hruling]
  exact hjobs

theorem Hears.wins (h : v.Hears cfg e c) (hs : v.jobs.Sound cfg.kernels good)
    (haction : (c.verdict cfg v).action = .accept) : Wins v (v.next cfg e) c.taskId c.task := by
  obtain ⟨m, hanswers, hjobs⟩ := h.judges
  rw [haction] at hanswers
  rw [if_pos haction] at hjobs
  obtain ⟨u, hu, hheld, hwon, -⟩ := hanswers.cancel_find hs.minted hs.partition
  obtain rfl : u = c.task := Option.some.inj (hu.symm.trans h.task)
  have hleased := (isLeasedTo_iff.mp hheld).1
  exact ⟨hu, by rw [hleased]; decide, _, hjobs ▸ hwon, rfl⟩

-- A task that becomes accepted is the one that was answered.
theorem Hears.accepted (h : v.Hears cfg e c) (hs : v.jobs.Sound cfg.kernels good) {id : TaskId}
    {t' : Task} (hf : (v.next cfg e).jobs.find id = some t') (hstate : t'.state = .accepted) :
    v.jobs.find id = some t' ∨ (id = c.taskId ∧ (c.verdict cfg v).action = .accept ∧
      t'.job = c.task.job ∧ t'.span = c.task.span) := by
  obtain ⟨m, hanswers, hjobs⟩ := h.judges
  by_cases haccept : (c.verdict cfg v).action = .accept
  · rw [haccept] at hanswers
    rw [hjobs, if_pos haccept] at hf
    obtain ⟨t, ht, -, hwon, hrest⟩ := hanswers.cancel_find hs.minted hs.partition
    have hsame : t = c.task := Option.some.inj (ht.symm.trans h.task)
    by_cases hid : id = c.taskId
    · rw [hid, hwon] at hf
      cases hf
      exact .inr ⟨hid, haccept, by rw [← hsame]; rfl, by rw [← hsame]; rfl⟩
    · rcases hrest id hid with hold | ⟨s, -, -, -, hcancelled⟩
      · exact .inl (hold ▸ hf)
      · rw [hcancelled] at hf
        cases hf
        cases hstate
  · rw [hjobs, if_neg haccept] at hf
    obtain ⟨t, -, -, hjudged, -⟩ := hanswers.judged
    by_cases hid : id = c.taskId
    · rw [hid, hjudged] at hf
      cases hf
      generalize (c.verdict cfg v).action = action at haccept hstate
      cases action with
      | accept => exact absurd rfl haccept
      | needMoreReplicas => cases hstate
      | inconclusive => cases hstate
    · rw [hanswers.others id hid] at hf
      exact .inl hf

-- The jobs themselves are not touched by it.
theorem Hears.findJob (h : v.Hears cfg e c) (j : JobId) :
    (v.next cfg e).jobs.findJob j = v.jobs.findJob j := by
  obtain ⟨m, hanswers, hjobs⟩ := h.judges
  rw [hjobs]
  split
  · exact (Answers.cancel_findJob m c.taskId j).trans (hanswers.jobs j)
  · exact hanswers.jobs j

end Server

end P2pGpu.Coordinator
