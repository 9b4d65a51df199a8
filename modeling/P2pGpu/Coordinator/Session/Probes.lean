import P2pGpu.Coordinator.Job.Rooms
import P2pGpu.Coordinator.Session.Message

namespace P2pGpu.Coordinator

open P2pGpu.Protocol

def Known.span (k : Known) : Span := ⟨k.startUnit.toNat, k.unitCount.toNat⟩

namespace JobManager

-- The task is one of this job, for exactly this range.
def Ranges (m : JobManager) (id : TaskId) (job : JobId) (span : Span) : Prop :=
  ∃ t, m.find id = some t ∧ t.job = job ∧ t.span = span

section

variable {m m' : JobManager} {l : Label} {id : TaskId} {job : JobId} {span : Span}

theorem Ranges.move (hr : m.Ranges id job span) (hm : m.Minted) (h : Move m l m') :
    m'.Ranges id job span := by
  obtain ⟨t, hf, hjob, hspan⟩ := hr
  rcases h.find_some hm hf with hsame | ⟨a, t', -, hresult, -, hf'⟩
  · exact ⟨t, hsame, hjob, hspan⟩
  · obtain ⟨-, hsamejob, hsamespan, -⟩ := Act.result_shape hresult
    exact ⟨t', hf', hsamejob.trans hjob, hsamespan.trans hspan⟩

theorem Ranges.moves {guard : JobManager → Label → Prop} (hr : m.Ranges id job span)
    (hm : m.Minted) (h : Moves guard m m') : m'.Ranges id job span := by
  have hinv := h.invariant (fun n => n.Minted ∧ n.Ranges id job span) ⟨hm, hr⟩
    fun n l n' hn _ hmove => ⟨hmove.minted hn.1, hn.2.move hn.1 hmove⟩
  exact hinv.2

end

end JobManager

section

variable {F : Type} [Double F] {cfg : Config F} {s : Session} {w w' w'' : Shared F}

-- What becomes of the pool where work is handed out. A probe is for a range of the
-- pool, its answer is the one that the pool knows, and its job is the first with room.
structure Shared.Issues (w w' : Shared F) : Prop where
  known : w'.spotChecks.map SpotCheckPool.known = w.spotChecks.map SpotCheckPool.known
  reputation : w'.reputation.isSome = w.reputation.isSome
  probes : ∀ {pool pool' id x}, w.spotChecks = some pool → w'.spotChecks = some pool' →
    pool'.expectedFor id = some x → pool.expectedFor id = some x ∨
      (w.reputation.isSome ∧ ∃ k ∈ pool.known, k.checksum = x ∧ ∃ job total,
        w.jobs.roomFor k.startUnit k.unitCount = some (job, total) ∧
          w'.jobs.Ranges id job k.span)

theorem Shared.Issues.of_eq (h : w'.spotChecks = w.spotChecks)
    (hrep : w'.reputation.isSome = w.reputation.isSome) : w.Issues w' where
  known := congrArg _ h
  reputation := hrep
  probes hpool hpool' hx := by
    rw [h, hpool] at hpool'
    cases hpool'
    exact .inl hx

-- The probes of the first half are still there after the second.
theorem Shared.Issues.trans (h : w.Issues w') (h' : w'.Issues w'')
    (hrooms : w'.jobs.rooms = w.jobs.rooms)
    (hkept : ∀ id job span, w'.jobs.Ranges id job span → w''.jobs.Ranges id job span) :
    w.Issues w'' where
  known := h'.known.trans h.known
  reputation := h'.reputation.trans h.reputation
  probes {pool pool'' id x} hpool hpool'' hx := by
    have hmiddle : ∃ pool', w'.spotChecks = some pool' ∧ pool'.known = pool.known := by
      have hknown := h.known
      rw [hpool] at hknown
      exact Option.map_eq_some_iff.mp hknown
    obtain ⟨pool', hpool', hsame⟩ := hmiddle
    rcases h'.probes hpool' hpool'' hx with hold | ⟨hrep, k, hk, rfl, job, total, hroom, hranges⟩
    · rcases h.probes hpool hpool' hold with hfirst | ⟨hrep, k, hk, rfl, job, total, hroom, hranges⟩
      · exact .inl hfirst
      · exact .inr ⟨hrep, k, hk, rfl, job, total, hroom, hkept id job k.span hranges⟩
    · rw [JobManager.roomFor_of_rooms hrooms] at hroom
      exact .inr ⟨h.reputation ▸ hrep, k, hsame ▸ hk, rfl, job, total, hroom, hranges⟩

namespace Session

open JobManager

variable {nowMs : UInt64} {rec : WorkerRecord F}

theorem drawProbe_some {task : Task} {pick : Known} (h : s.drawProbe w task = some pick) :
    ∃ pool, w.spotChecks = some pool ∧ pick ∈ pool.known ∧ w.reputation.isSome := by
  unfold drawProbe at h
  split at h
  · rename_i pool rep hpool hrep
    dsimp only at h
    exact ⟨pool, hpool, SpotCheckPool.maybe_mem h, by rw [hrep]; rfl⟩
  · cases h

theorem injectProbe_issues (cfg : Config F) (s : Session) (nowMs : UInt64) (w : Shared F)
    (task : Task) (hm : w.jobs.Minted) (hf : w.jobs.find task.id = some task)
    (hleased : task.state = .leased) :
    w.Issues (s.injectProbe cfg nowMs w task).2 := by
  have haside := injectProbe_aside cfg s nowMs w task
  refine ⟨haside.known, by rw [haside.reputation], fun {pool pool' id x} hpool hpool' hx => ?_⟩
  unfold injectProbe at hpool' ⊢
  split at hpool'
  · rw [hpool] at hpool'
    cases hpool'
    exact .inl hx
  · rename_i pick hpick
    rcases issueKnownRange_cases w.jobs s.workerId nowMs cfg.leaseMs pick.startUnit
      pick.unitCount with hnone | ⟨t, job, hjob, hborn, -, hstart, hcount, -, -, -, hsome⟩
    · rw [hnone] at hpool'
      dsimp only at hpool'
      rw [hpool] at hpool'
      cases hpool'
      exact .inl hx
    · rw [hsome] at hpool' ⊢
      dsimp only at hpool' ⊢
      obtain ⟨pool₀, hpool₀, hmem, hrep⟩ := drawProbe_some hpick
      rw [hpool] at hpool₀ hpool'
      cases hpool₀
      cases hpool'
      rw [SpotCheckPool.expectedFor_markIssued] at hx
      by_cases hid : id = t.id
      · rw [if_pos hid] at hx
        have hroom := roomFor_of_knownRangeJob hjob
        refine .inr ⟨hrep, pick, hmem, Option.some.inj hx, t.job, job.totalUnits, hroom, ?_⟩
        have hfresh : w.jobs.find t.id = none := by
          rw [hborn.id]
          exact hm.fresh
        have hne : task.id ≠ t.id := by
          intro he
          rw [he, hfresh] at hf
          cases hf
        have hentered := find_enter w.jobs t hfresh
        have hback : (w.jobs.enter t).find task.id = some task := by
          rw [hentered, if_neg hne]
          exact hf
        have hspan : t.span = pick.span := by
          rw [Task.span, hstart, hcount]
          rfl
        rw [hid, requeue_release hback hleased]
        refine ⟨t, ?_, rfl, hspan⟩
        rw [find_perform hback, if_neg hne.symm, hentered, if_pos rfl]
      · rw [if_neg hid] at hx
        exact .inl hx

-- Whatever is handed out, the jobs stay in order.
theorem grantSized_rooms (cfg : Config F) (s : Session) (nowMs : UInt64) (rec : WorkerRecord F)
    (w : Shared F) : (s.grantSized cfg nowMs rec w).2.jobs.rooms = w.jobs.rooms := by
  unfold grantSized
  split
  · rfl
  · exact rooms_grant w.jobs _ _

theorem injectProbe_rooms (cfg : Config F) (s : Session) (nowMs : UInt64) (w : Shared F)
    (task : Task) : (s.injectProbe cfg nowMs w task).2.jobs.rooms = w.jobs.rooms := by
  unfold injectProbe
  split
  · rfl
  · rename_i pick hpick
    rcases issueKnownRange_cases w.jobs s.workerId nowMs cfg.leaseMs pick.startUnit
      pick.unitCount with hnone | ⟨t, -, -, -, -, -, -, -, -, -, hsome⟩
    · rw [hnone]
    · rw [hsome]
      exact rooms_requeue (w.jobs.enter t) task.id .release

theorem drawTask_rooms (cfg : Config F) (s : Session) (nowMs : UInt64) (rec : WorkerRecord F)
    (w : Shared F) : (s.drawTask cfg nowMs rec w).2.jobs.rooms = w.jobs.rooms := by
  have hsized := grantSized_rooms cfg s nowMs rec w
  unfold drawTask
  split
  · rename_i w' hgrant
    rw [hgrant] at hsized
    rw [← hsized]
    unfold speculate
    split
    · exact rooms_issueSpeculative w'.jobs _
    · rfl
  · rename_i task w' hgrant
    rw [hgrant] at hsized
    exact (injectProbe_rooms cfg s nowMs w' task).trans hsized

theorem grantOne_rooms (cfg : Config F) (s : Session) (nowMs : UInt64) (rec : WorkerRecord F)
    (w : Shared F) : (s.grantOne cfg nowMs rec w).2.jobs.rooms = w.jobs.rooms := by
  have hdraw := drawTask_rooms cfg s nowMs rec w
  unfold grantOne
  split
  · rename_i w' hnone
    rw [hnone] at hdraw
    exact hdraw
  · rename_i task w' hsome
    rw [hsome] at hdraw
    rw [← hdraw]
    rcases sendTask_jobs cfg s nowMs rec w' task with hjobs | ⟨hjobs, -⟩
    · rw [hjobs]
      exact rooms_requeue w'.jobs task.id .release
    · rw [hjobs]

theorem drawTask_issues (cfg : Config F) (s : Session) (nowMs : UInt64) (rec : WorkerRecord F)
    (w : Shared F) (hm : w.jobs.Minted) : w.Issues (s.drawTask cfg nowMs rec w).2 := by
  have hsized := grantSized_grants cfg s nowMs rec w
  have haside := grantSized_aside cfg s nowMs rec w
  have hpool : (s.grantSized cfg nowMs rec w).2.spotChecks = w.spotChecks := by
    unfold grantSized
    split <;> rfl
  unfold drawTask
  split
  · rename_i w' hgrant
    rw [hgrant] at haside hpool
    have hsame : (s.speculate cfg nowMs w').2.spotChecks = w'.spotChecks ∧
        (s.speculate cfg nowMs w').2.reputation = w'.reputation := by
      unfold speculate
      split
      · exact ⟨rfl, rfl⟩
      · exact ⟨rfl, rfl⟩
    refine .of_eq (hsame.1.trans hpool) ?_
    rw [hsame.2, haside.reputation]
  · rename_i task w' hgrant
    rw [hgrant] at hsized haside hpool
    have hfirst : w.Issues w' := .of_eq hpool (by rw [haside.reputation])
    have hminted : w'.jobs.Minted := hsized.moves.minted hm
    have hissues := injectProbe_issues cfg s nowMs w' task hminted (hsized.entered rfl hm)
      (hsized.leased rfl).1
    refine ⟨hissues.known.trans hfirst.known, hissues.reputation.trans hfirst.reputation, ?_⟩
    intro pool pool' id x hp hp' hx
    have hrooms := grantSized_rooms cfg s nowMs rec w
    rw [hgrant] at hrooms
    rcases hissues.probes (hpool.trans hp) hp' hx with hold | ⟨hrep, k, hk, hx, job, total, hroom, ht⟩
    · exact .inl hold
    · rw [roomFor_of_rooms hrooms] at hroom
      exact .inr ⟨hfirst.reputation ▸ hrep, k, hk, hx, job, total, hroom, ht⟩

theorem grantOne_issues (cfg : Config F) (s : Session) (nowMs : UInt64) (rec : WorkerRecord F)
    (w : Shared F) (hm : w.jobs.Minted) : w.Issues (s.grantOne cfg nowMs rec w).2 := by
  have hissues := drawTask_issues cfg s nowMs rec w hm
  have hdraws := drawTask_draws cfg s nowMs rec w
  have hrooms := drawTask_rooms cfg s nowMs rec w
  unfold grantOne
  split
  · rename_i w' hdraw
    rw [hdraw] at hissues
    exact hissues
  · rename_i task w' hdraw
    rw [hdraw] at hissues hdraws hrooms
    obtain ⟨-, hreputation, -, hpool⟩ := sendTask_rest cfg s nowMs rec w' task
    have hminted := (hdraws.moves hm).minted hm
    refine hissues.trans (.of_eq hpool (by rw [hreputation])) hrooms fun id job span hranges => ?_
    rcases sendTask_jobs cfg s nowMs rec w' task with hjobs | ⟨hjobs, -⟩
    · rw [hjobs]
      have hback := (requeue_performs w'.jobs task.id (.inl rfl)).moves fun _ => trivial
      exact hranges.moves hminted hback
    · rw [hjobs]
      exact hranges

theorem grantLoop_issues (cfg : Config F) (s : Session) (nowMs : UInt64) (rec : WorkerRecord F)
    (n : Nat) (w : Shared F) (hm : w.jobs.Minted) :
    w.Issues (s.grantLoop cfg nowMs rec n w).2 := by
  induction n generalizing w with
  | zero => exact .of_eq rfl rfl
  | succ n ih =>
      have hone := grantOne_issues cfg s nowMs rec w hm
      have hroutine := grantOne_routine cfg s nowMs rec w
      have hrooms := grantOne_rooms cfg s nowMs rec w
      unfold grantLoop
      split
      · rename_i w' hgrant
        rw [hgrant] at hone
        exact hone
      · rename_i replies w' hgrant
        rw [hgrant] at hone hroutine hrooms
        have hminted := (hroutine.jobs.moves hm).minted hm
        refine hone.trans (ih w' hminted) hrooms fun id job span hranges => ?_
        have hrest := (grantLoop_routine cfg s nowMs rec n w').jobs.moves hminted
        exact hranges.moves hminted hrest

-- What is done before the first task is drawn leaves the pool alone.
theorem loop_issues (hjobs : w'.jobs = w.jobs) (hpool : w'.spotChecks = w.spotChecks)
    (hrep : w'.reputation.isSome = w.reputation.isSome) (hm : w.jobs.Minted) (n : Nat) :
    w.Issues (s.grantLoop cfg nowMs rec n w').2 := by
  have hminted : w'.jobs.Minted := hjobs ▸ hm
  have hloop := grantLoop_issues cfg s nowMs rec n w' hminted
  have hrest := (grantLoop_routine cfg s nowMs rec n w').jobs.moves hminted
  refine Shared.Issues.trans (.of_eq hpool hrep) hloop (by rw [hjobs]) ?_
  exact fun id job span hranges => hranges.moves hminted hrest

theorem onLeaseRequest_issues (cfg : Config F) (s : Session) (w : Shared F) (req : LeaseRequest)
    (nowMs : UInt64) (hm : w.jobs.Minted) :
    w.Issues (s.onLeaseRequest cfg w req nowMs).shared := by
  have hbarred : ((w.reputation.map fun rep =>
      rep.isBlacklisted s.workerId nowMs).map Prod.snd).isSome = w.reputation.isSome := by
    rw [Option.isSome_map, Option.isSome_map]
  unfold onLeaseRequest
  dsimp only
  split
  · exact .of_eq rfl rfl
  · rename_i rec hrec
    split
    · exact .of_eq rfl rfl
    · split
      · exact .of_eq rfl rfl
      · split
        · exact .of_eq rfl hbarred
        · refine loop_issues ?_ ?_ ?_ hm _
          · rfl
          · rfl
          · exact hbarred

end Session

end

end P2pGpu.Coordinator
