import P2pGpu.Coordinator.Job.Lends
import P2pGpu.Coordinator.Session.Result

namespace P2pGpu.Coordinator

open P2pGpu.Protocol

section

variable {F : Type} [Double F]

-- Nothing is told of the other workers, but that they have something to stop.
def Fleet.OnlyRevokes (worker : WorkerId) (f f' : Fleet F) : Prop :=
  ∀ id, id ≠ worker → ∃ more, f'.find id = (f.find id).map fun r =>
    { r with pendingRevokes := r.pendingRevokes ++ more }

namespace Fleet.OnlyRevokes

variable {worker : WorkerId} {f f' f'' : Fleet F}

theorem of_eq (h : ∀ id, id ≠ worker → f'.find id = f.find id) : f.OnlyRevokes worker f' := by
  intro id hid
  refine ⟨[], ?_⟩
  rw [h id hid]
  simp only [List.append_nil]
  exact Option.map_id'.symm

theorem refl (worker : WorkerId) (f : Fleet F) : f.OnlyRevokes worker f := of_eq fun _ _ => rfl

theorem trans (h : f.OnlyRevokes worker f') (h' : f'.OnlyRevokes worker f'') :
    f.OnlyRevokes worker f'' := by
  intro id hid
  obtain ⟨more, hmore⟩ := h id hid
  obtain ⟨again, hagain⟩ := h' id hid
  refine ⟨more ++ again, ?_⟩
  rw [hagain, hmore]
  cases f.find id with
  | none => rfl
  | some r => simp only [Option.map_some, List.append_assoc]

theorem «mutable» (f : Fleet F) (edit : WorkerRecord F → WorkerRecord F) :
    f.OnlyRevokes worker (f.mutable worker edit) :=
  of_eq fun id hid => by rw [find_mutable, if_neg hid]

end Fleet.OnlyRevokes

-- What a record says about how often its worker was right.
def Reputation.counts (r : Reputation F) : F × F × UInt32 × UInt32 × UInt32 :=
  (r.alpha, r.beta, r.accepted, r.rejected, r.spotCheckFailures)

-- Nobody is judged. A worker that was not known yet may be from now on.
structure ReputationTable.Keeps (rep rep' : ReputationTable F) : Prop where
  cfg : rep'.cfg = rep.cfg
  byToken : rep'.byToken = rep.byToken
  counts : ∀ id, (rep'.mutable id).counts = (rep.mutable id).counts
  found : ∀ id, (rep.find id).isSome → (rep'.find id).isSome

namespace ReputationTable.Keeps

variable {rep rep' rep'' : ReputationTable F}

theorem refl (rep : ReputationTable F) : rep.Keeps rep := ⟨rfl, rfl, fun _ => rfl, fun _ h => h⟩

theorem trans (h : rep.Keeps rep') (h' : rep'.Keeps rep'') : rep.Keeps rep'' where
  cfg := h'.cfg.trans h.cfg
  byToken := h'.byToken.trans h.byToken
  counts id := (h'.counts id).trans (h.counts id)
  found id hid := h'.found id (h.found id hid)

-- A record is written back with the same counts.
theorem put {id : WorkerId} {r : Reputation F} (h : r.counts = (rep.mutable id).counts) :
    rep.Keeps (rep.put id r) where
  cfg := rfl
  byToken := rfl
  counts i := by
    unfold ReputationTable.mutable
    rw [find_put]
    by_cases hi : i = id
    · subst hi
      rw [if_pos rfl]
      exact h
    · rw [if_neg hi]
      rfl
  found i hi := by
    rw [find_put]
    split
    · rfl
    · exact hi

theorem isBlacklisted (rep : ReputationTable F) (id : WorkerId) (nowMs : UInt64) :
    rep.Keeps (rep.isBlacklisted id nowMs).2 := by
  unfold ReputationTable.isBlacklisted
  dsimp only
  split
  · exact put rfl
  · split
    · exact put rfl
    · exact put rfl

end ReputationTable.Keeps

namespace Shared

-- The table of reputations is kept in every respect that is a judgement.
def SameStanding (w w' : Shared F) : Prop :=
  ∃ f : ReputationTable F → ReputationTable F, (∀ rep : ReputationTable F, rep.Keeps (f rep)) ∧
    w'.reputation = w.reputation.map f

theorem SameStanding.of_eq {w w' : Shared F} (h : w'.reputation = w.reputation) :
    w.SameStanding w' := ⟨id, fun rep => .refl rep, by rw [h, Option.map_id, id]⟩

theorem SameStanding.trans {w w' w'' : Shared F} (h : w.SameStanding w')
    (h' : w'.SameStanding w'') : w.SameStanding w'' := by
  obtain ⟨f, hf, hw⟩ := h
  obtain ⟨g, hg, hw'⟩ := h'
  refine ⟨g ∘ f, fun rep => (hf rep).trans (hg (f rep)), ?_⟩
  rw [hw', hw, Option.map_map]

-- A step of one worker that accepts no answer.
structure Routine (cfg : Config F) (asked : Prop) (worker : WorkerId) (nowMs : UInt64)
    (w w' : Shared F) : Prop where
  jobs : w.jobs.Lends cfg.kernels asked worker (nowMs + cfg.leaseMs.toUInt64) w'.jobs
  fleet : w.fleet.OnlyRevokes worker w'.fleet
  standing : w.SameStanding w'
  compositor : w'.compositor = w.compositor
  known : w'.spotChecks.map SpotCheckPool.known = w.spotChecks.map SpotCheckPool.known
  pool : ¬ asked → w'.spotChecks = w.spotChecks

namespace Routine

variable {cfg : Config F} {asked : Prop} {worker : WorkerId} {nowMs : UInt64} {w w' w'' : Shared F}

theorem refl (w : Shared F) : w.Routine cfg asked worker nowMs w :=
  ⟨.refl _, .refl _ _, .of_eq rfl, rfl, rfl, fun _ => rfl⟩

theorem trans (h : w.Routine cfg asked worker nowMs w') (h' : w'.Routine cfg asked worker nowMs w'') :
    w.Routine cfg asked worker nowMs w'' where
  jobs := h.jobs.trans h'.jobs
  fleet := h.fleet.trans h'.fleet
  standing := h.standing.trans h'.standing
  compositor := h'.compositor.trans h.compositor
  known := h'.known.trans h.known
  pool ha := (h'.pool ha).trans (h.pool ha)

theorem of_jobs {jobs : JobManager}
    (h : w.jobs.Lends cfg.kernels asked worker (nowMs + cfg.leaseMs.toUInt64) jobs) :
    w.Routine cfg asked worker nowMs { w with jobs } :=
  ⟨h, .refl _ _, .of_eq rfl, rfl, rfl, fun _ => rfl⟩

theorem of_fleet {fleet : Fleet F} (h : w.fleet.OnlyRevokes worker fleet) :
    w.Routine cfg asked worker nowMs { w with fleet } :=
  ⟨.refl _, h, .of_eq rfl, rfl, rfl, fun _ => rfl⟩

end Routine

end Shared

namespace Session

variable {cfg : Config F} {asked : Prop} {s : Session} {w : Shared F} {nowMs : UInt64}

theorem editRecord_routine (s : Session) (w : Shared F)
    (edit : WorkerRecord F → WorkerRecord F) :
    w.Routine cfg asked s.workerId nowMs (s.editRecord w edit) :=
  Shared.Routine.of_fleet (Fleet.OnlyRevokes.mutable w.fleet edit)

end Session

namespace JobManager

-- A task that was drawn for a worker. It is the only one whose lease is new.
structure Draws (worker : WorkerId) (deadline : UInt64) (m : JobManager)
    (r : Option Task × JobManager) : Prop where
  moves : m.Minted → Moves (Light True worker deadline) m r.2
  leased : ∀ {task}, r.1 = some task → m.Minted →
    r.2.find task.id = some task ∧ task.isLeasedTo worker
  rest : m.Minted → ∀ i t, (∀ task, r.1 = some task → task.id ≠ i) → r.2.find i = some t →
    m.find i = some t ∨ t.state = .queued

namespace Draws

variable {m : JobManager} {worker : WorkerId} {deadline : UInt64} {issue : Issue}
  {r : Option Task × JobManager}

theorem of_grants (h : m.Grants worker deadline issue r) : m.Draws worker deadline r where
  moves _ := Reach.mono (fun _ _ hl => .of_grants hl) h.moves
  leased hr hm := by
    obtain ⟨hstate, hholder, -⟩ := h.leased hr
    exact ⟨h.entered hr hm, isLeasedTo_iff.mpr ⟨hstate, hholder⟩⟩
  rest hm i t hi hf := by
    rw [h.frame i hi hm] at hf
    exact .inl hf

end Draws

end JobManager

namespace Session

open JobManager

theorem grantSized_grants (cfg : Config F) (s : Session) (nowMs : UInt64) (rec : WorkerRecord F)
    (w : Shared F) :
    w.jobs.Grants s.workerId (nowMs + cfg.leaseMs.toUInt64) .plain
      ((s.grantSized cfg nowMs rec w).1, (s.grantSized cfg nowMs rec w).2.jobs) := by
  unfold grantSized
  split
  · exact Grants.none _ _ _ _
  · exact grant_grants _ _ _ _ _ _

theorem speculate_grants (cfg : Config F) (s : Session) (nowMs : UInt64) (w : Shared F) :
    w.jobs.Grants s.workerId (nowMs + cfg.leaseMs.toUInt64) .speculative
      ((s.speculate cfg nowMs w).1, (s.speculate cfg nowMs w).2.jobs) := by
  unfold speculate
  split
  · exact issueSpeculative_grants _ _ _ _ _
  · exact Grants.none _ _ _ _

-- Either nothing happens, or the task that was drawn makes way for a probe.
theorem injectProbe_cases (cfg : Config F) (s : Session) (nowMs : UInt64) (w : Shared F)
    (task : Task) :
    ((s.injectProbe cfg nowMs w task).1 = task ∧
        (s.injectProbe cfg nowMs w task).2.jobs = w.jobs) ∨
      ∃ known n, w.jobs.Grants s.workerId (nowMs + cfg.leaseMs.toUInt64) known
          (some (s.injectProbe cfg nowMs w task).1, n) ∧
        w.jobs.Born (s.injectProbe cfg nowMs w task).1 ∧
        (s.injectProbe cfg nowMs w task).2.jobs = (n.requeue task.id .release).2 := by
  unfold injectProbe
  split
  · exact .inl ⟨rfl, rfl⟩
  · rename_i pick hpick
    have hknown := issueKnownRange_grants w.jobs s.workerId nowMs cfg.leaseMs pick.startUnit
      pick.unitCount
    split
    · rename_i jobs hissue
      rcases issueKnownRange_cases w.jobs s.workerId nowMs cfg.leaseMs pick.startUnit
        pick.unitCount with hnone | ⟨t, job, -, -, -, -, -, -, -, -, hsome⟩
      · rw [hnone] at hissue
        cases hissue
        exact .inl ⟨rfl, rfl⟩
      · rw [hsome] at hissue
        cases hissue
    · rename_i probe jobs hissue
      rcases issueKnownRange_cases w.jobs s.workerId nowMs cfg.leaseMs pick.startUnit
        pick.unitCount with hnone | ⟨t, job, -, hborn, -, -, -, -, -, -, hsome⟩
      · rw [hnone] at hissue
        cases hissue
      · rw [hissue] at hknown
        rw [hsome] at hissue
        cases hissue
        exact .inr ⟨_, _, hknown, hborn, rfl⟩

-- The task that makes way is queued again, and the probe is leased in its place.
theorem displaced_draws {m n : JobManager} {worker : WorkerId} {deadline : UInt64}
    {known : Issue} {task probe : Task} {jobs : JobManager}
    (hdrawn : m.Grants worker deadline .plain (some task, jobs))
    (hprobe : jobs.Grants worker deadline known (some probe, n)) (hborn : jobs.Born probe) :
    m.Draws worker deadline (some probe, (n.requeue task.id .release).2) := by
  have hjobs : m.Minted → jobs.Minted := fun hm => hdrawn.moves.minted hm
  have hn : m.Minted → n.Minted := fun hm => hprobe.moves.minted (hjobs hm)
  have htask : m.Minted → n.find task.id = some task ∧ probe.id ≠ task.id := by
    intro hm
    have hfind : jobs.find task.id = some task := hdrawn.entered rfl hm
    have hne : probe.id ≠ task.id := by
      intro he
      have hfresh := (hjobs hm).fresh
      rw [← hborn.id, he, hfind] at hfresh
      cases hfresh
    have hframe : n.find task.id = jobs.find task.id :=
      hprobe.frame task.id (fun t ht => Option.some.inj ht ▸ hne) (hjobs hm)
    exact ⟨hframe.trans hfind, hne⟩
  have hleased : task.state = .leased ∧ task.holder = worker := by
    obtain ⟨hstate, hholder, -⟩ := hdrawn.leased rfl
    exact ⟨hstate, hholder⟩
  have hrelease : m.Minted → (n.requeue task.id .release).2 =
      n.perform task.id .requeue task.requeued := by
    intro hm
    rw [requeue_release (htask hm).1 hleased.1]
  refine ⟨fun hm => ?_, fun {t} ht hm => ?_, fun hm i t hi hf => ?_⟩
  · have hgive : Light True worker deadline n (.act task.id .requeue) :=
      .inr (.inr (.inl ⟨task.id, task, rfl, (htask hm).1, isLeasedTo_iff.mpr hleased⟩))
    have hmove := Move.act n task.id .requeue task _ (htask hm).1 (if_pos hleased.1) trivial
    rw [hrelease hm]
    have hfirst : Moves (Light True worker deadline) m jobs :=
      Reach.mono (fun _ _ hl => .of_grants hl) hdrawn.moves
    have hsecond : Moves (Light True worker deadline) jobs n :=
      Reach.mono (fun _ _ hl => .of_grants hl) hprobe.moves
    exact (hfirst.trans hsecond).tail hgive hmove
  · cases ht
    obtain ⟨hstate, hholder, -⟩ := hprobe.leased rfl
    refine ⟨?_, isLeasedTo_iff.mpr ⟨hstate, hholder⟩⟩
    rw [hrelease hm, find_perform (htask hm).1, if_neg (htask hm).2]
    exact hprobe.entered rfl (hjobs hm)
  · have hne : probe.id ≠ i := hi probe rfl
    dsimp only at hf
    rw [hrelease hm, find_perform (htask hm).1] at hf
    by_cases hit : i = task.id
    · rw [if_pos hit] at hf
      cases hf
      exact .inr rfl
    · rw [if_neg hit, hprobe.frame i (fun u hu => Option.some.inj hu ▸ hne) (hjobs hm),
        hdrawn.frame i (fun u hu => Option.some.inj hu ▸ fun he => hit he.symm) hm] at hf
      exact .inl hf

theorem drawTask_draws (cfg : Config F) (s : Session) (nowMs : UInt64) (rec : WorkerRecord F)
    (w : Shared F) :
    w.jobs.Draws s.workerId (nowMs + cfg.leaseMs.toUInt64)
      ((s.drawTask cfg nowMs rec w).1, (s.drawTask cfg nowMs rec w).2.jobs) := by
  have hsized := grantSized_grants cfg s nowMs rec w
  unfold drawTask
  split
  · rename_i w' hgrant
    rw [hgrant] at hsized
    have hrace := speculate_grants cfg s nowMs w'
    have hminted : w.jobs.Minted → w'.jobs.Minted := fun hm => hsized.moves.minted hm
    refine ⟨fun hm => ?_, fun {t} ht hm => ?_, fun hm i t hi hf => ?_⟩
    · have hfirst : Moves (Light True s.workerId (nowMs + cfg.leaseMs.toUInt64)) w.jobs w'.jobs :=
        Reach.mono (fun _ _ hl => .of_grants hl) hsized.moves
      exact hfirst.trans (Reach.mono (fun _ _ hl => .of_grants hl) hrace.moves)
    · exact (Draws.of_grants hrace).leased ht (hminted hm)
    · have hback := hrace.frame i hi (hminted hm)
      have hsame := hsized.frame i nofun hm
      rw [← hsame, ← hback]
      exact .inl hf
  · rename_i task w' hgrant
    rw [hgrant] at hsized
    rcases injectProbe_cases cfg s nowMs w' task with ⟨htask, hjobs⟩ |
      ⟨known, n, hprobe, hborn, hjobs⟩
    · dsimp only
      rw [htask, hjobs]
      exact Draws.of_grants hsized
    · dsimp only
      rw [hjobs]
      exact displaced_draws hsized hprobe hborn

-- Between the draw and the envelope only the drawn task may be in an odd place.
theorem rests_of_draws {kernels : KernelRegistry} {good : JobId → Prop} {m : JobManager}
    {worker : WorkerId} {deadline : UInt64} {r : Option Task × JobManager}
    (h : m.Draws worker deadline r) (hm : m.Minted) (hp : m.Partition good)
    (hs : m.Settled kernels) {i : TaskId} {t : Task} (hi : ∀ task, r.1 = some task → task.id ≠ i)
    (hf : r.2.find i = some t) : r.2.Rests kernels t := by
  rcases h.rest hm i t hi hf with hold | hqueued
  · have hrests := hs i t hold
    refine ⟨hrests.validating, hrests.needsReplica, fun hl => ?_⟩
    exact (hrests.known hl).moves (fun _ _ hlight => hlight.seedsOnly) (h.moves hm) hm hp
  · exact Rests.of_queued hqueued

theorem sendTask_jobs (cfg : Config F) (s : Session) (nowMs : UInt64) (rec : WorkerRecord F)
    (w : Shared F) (task : Task) :
    (s.sendTask cfg nowMs rec w task).2.jobs = (w.jobs.requeue task.id .release).2 ∨
      ((s.sendTask cfg nowMs rec w task).2.jobs = w.jobs ∧ w.jobs.Known cfg.kernels task) := by
  unfold sendTask
  split
  · exact .inl rfl
  · rename_i job spec hkernel
    split
    · exact .inl rfl
    · refine .inr ⟨rfl, job, spec, ?_⟩
      unfold kernelOf at hkernel
      split at hkernel
      · cases hkernel
      · rename_i found hfound
        obtain ⟨spec', hspec, heq⟩ := Option.map_eq_some_iff.mp hkernel
        cases heq
        exact ⟨hfound, hspec⟩

theorem sendTask_rest (cfg : Config F) (s : Session) (nowMs : UInt64) (rec : WorkerRecord F)
    (w : Shared F) (task : Task) :
    w.fleet.OnlyRevokes s.workerId (s.sendTask cfg nowMs rec w task).2.fleet ∧
      (s.sendTask cfg nowMs rec w task).2.reputation = w.reputation ∧
      (s.sendTask cfg nowMs rec w task).2.compositor = w.compositor ∧
      (s.sendTask cfg nowMs rec w task).2.spotChecks = w.spotChecks := by
  unfold sendTask
  split
  · exact ⟨.refl _ _, rfl, rfl, rfl⟩
  · split
    · exact ⟨.refl _ _, rfl, rfl, rfl⟩
    · exact ⟨.mutable _ _, rfl, rfl, rfl⟩

-- A draw leaves all but the tasks alone, and the pool but for what is under way.
structure KeepsAside (w w' : Shared F) : Prop where
  fleet : w'.fleet = w.fleet
  reputation : w'.reputation = w.reputation
  compositor : w'.compositor = w.compositor
  known : w'.spotChecks.map SpotCheckPool.known = w.spotChecks.map SpotCheckPool.known

theorem injectProbe_aside (cfg : Config F) (s : Session) (nowMs : UInt64) (w : Shared F)
    (task : Task) : KeepsAside w (s.injectProbe cfg nowMs w task).2 := by
  unfold injectProbe
  split
  · exact ⟨rfl, rfl, rfl, rfl⟩
  · split
    · exact ⟨rfl, rfl, rfl, rfl⟩
    · refine ⟨rfl, rfl, rfl, ?_⟩
      rw [Option.map_map]
      rfl

theorem grantSized_aside (cfg : Config F) (s : Session) (nowMs : UInt64) (rec : WorkerRecord F)
    (w : Shared F) : KeepsAside w (s.grantSized cfg nowMs rec w).2 := by
  unfold grantSized
  split
  · exact ⟨rfl, rfl, rfl, rfl⟩
  · exact ⟨rfl, rfl, rfl, rfl⟩

theorem drawTask_aside (cfg : Config F) (s : Session) (nowMs : UInt64) (rec : WorkerRecord F)
    (w : Shared F) : KeepsAside w (s.drawTask cfg nowMs rec w).2 := by
  have hsized := grantSized_aside cfg s nowMs rec w
  unfold drawTask
  split
  · rename_i w' hgrant
    rw [hgrant] at hsized
    unfold speculate
    split
    · exact ⟨hsized.fleet, hsized.reputation, hsized.compositor, hsized.known⟩
    · exact hsized
  · rename_i task w' hgrant
    rw [hgrant] at hsized
    have hprobe := injectProbe_aside cfg s nowMs w' task
    exact ⟨hprobe.fleet.trans hsized.fleet, hprobe.reputation.trans hsized.reputation,
      hprobe.compositor.trans hsized.compositor, hprobe.known.trans hsized.known⟩

theorem sendTask_lends {m : JobManager} (cfg : Config F) (s : Session) (nowMs : UInt64)
    (rec : WorkerRecord F) (w : Shared F) (task : Task)
    (h : m.Draws s.workerId (nowMs + cfg.leaseMs.toUInt64) (some task, w.jobs)) :
    m.Lends cfg.kernels True s.workerId (nowMs + cfg.leaseMs.toUInt64)
      (s.sendTask cfg nowMs rec w task).2.jobs := by
  rcases sendTask_jobs cfg s nowMs rec w task with hjobs | ⟨hjobs, hknown⟩
  · rw [hjobs]
    have hperform := requeue_performs w.jobs task.id (.inl rfl)
    refine ⟨fun hm => ?_, fun hm hp hs => ?_⟩
    · obtain ⟨hfind, hleased⟩ := h.leased rfl hm
      have hback : Lends cfg.kernels True s.workerId (nowMs + cfg.leaseMs.toUInt64) w.jobs
          (w.jobs.requeue task.id .release).2 := by
        refine Lends.requeues_one hperform fun t ht => ?_
        rw [hfind] at ht
        cases ht
        exact hleased
      exact (h.moves hm).trans (hback.moves ((h.moves hm).minted hm))
    · obtain ⟨hfind, hleased⟩ := h.leased rfl hm
      have hrelease := requeue_release hfind (isLeasedTo_iff.mp hleased).1
      intro i t hf
      rw [hrelease, find_perform hfind] at hf
      by_cases hi : i = task.id
      · rw [if_pos hi] at hf
        cases hf
        exact Rests.of_queued rfl
      · rw [if_neg hi] at hf
        have hrests := rests_of_draws h hm hp hs (fun u hu => Option.some.inj hu ▸
          fun he => hi he.symm) hf
        refine ⟨hrests.validating, hrests.needsReplica, fun hl => ?_⟩
        rw [hrelease]
        exact (hrests.known hl).of_job rfl fun job hjob => ⟨job, hjob, rfl⟩
  · rw [hjobs]
    refine ⟨h.moves, fun hm hp hs i t hf => ?_⟩
    obtain ⟨hfind, hleased⟩ := h.leased rfl hm
    by_cases hi : task.id = i
    · rw [← hi, hfind] at hf
      cases hf
      have hstate := (isLeasedTo_iff.mp hleased).1
      exact ⟨by rw [hstate]; decide, by rw [hstate]; decide, fun _ => hknown⟩
    · exact rests_of_draws h hm hp hs (fun u hu => Option.some.inj hu ▸ hi) hf

theorem grantOne_routine (cfg : Config F) (s : Session) (nowMs : UInt64) (rec : WorkerRecord F)
    (w : Shared F) : w.Routine cfg True s.workerId nowMs (s.grantOne cfg nowMs rec w).2 := by
  have hdraws := drawTask_draws cfg s nowMs rec w
  have haside := drawTask_aside cfg s nowMs rec w
  unfold grantOne
  split
  · rename_i w' hdraw
    rw [hdraw] at hdraws haside
    refine ⟨⟨hdraws.moves, fun hm hp hs i t hf => ?_⟩, ?_, .of_eq haside.reputation,
      haside.compositor, haside.known, fun ha => absurd trivial ha⟩
    · exact rests_of_draws hdraws hm hp hs nofun hf
    · exact .of_eq fun id _ => by rw [haside.fleet]
  · rename_i task w' hdraw
    rw [hdraw] at hdraws haside
    obtain ⟨hfleet, hreputation, hcompositor, hpool⟩ := sendTask_rest cfg s nowMs rec w' task
    refine ⟨sendTask_lends cfg s nowMs rec w' task hdraws, ?_,
      .of_eq (hreputation.trans haside.reputation), hcompositor.trans haside.compositor, ?_,
      fun ha => absurd trivial ha⟩
    · exact haside.fleet ▸ hfleet
    · rw [hpool]
      exact haside.known

theorem grantLoop_routine (cfg : Config F) (s : Session) (nowMs : UInt64) (rec : WorkerRecord F)
    (n : Nat) (w : Shared F) :
    w.Routine cfg True s.workerId nowMs (s.grantLoop cfg nowMs rec n w).2 := by
  induction n generalizing w with
  | zero => exact .refl w
  | succ n ih =>
      have hone := grantOne_routine cfg s nowMs rec w
      unfold grantLoop
      split
      · rename_i w' hgrant
        rw [hgrant] at hone
        exact hone
      · rename_i replies w' hgrant
        rw [hgrant] at hone
        exact hone.trans (ih w')

end Session

-- What a connection is, whatever it goes through.
structure Session.SameParty (s s' : Session) : Prop where
  connId : s'.connId = s.connId
  handshaked : s'.handshaked = s.handshaked
  workerId : s'.workerId = s.workerId

-- A message after which no answer is final.
structure Turn.Routine (cfg : Config F) (asked : Prop) (s : Session) (w : Shared F)
    (nowMs : UInt64) (turn : Turn F) : Prop where
  session : s.SameParty turn.session
  shared : w.Routine cfg asked s.workerId nowMs turn.shared

theorem Turn.Routine.mono {cfg : Config F} {asked other : Prop} {s : Session} {w : Shared F}
    {nowMs : UInt64} {turn : Turn F} (ha : asked → other)
    (h : turn.Routine cfg asked s w nowMs) : turn.Routine cfg other s w nowMs where
  session := h.session
  shared := { h.shared with
    jobs := h.shared.jobs.mono ha
    pool := fun ho => h.shared.pool fun h => ho (ha h) }

namespace Session

open JobManager

variable {cfg : Config F} {asked : Prop} {s : Session} {w w' : Shared F} {nowMs : UInt64}

theorem SameParty.refl (s : Session) : s.SameParty s := ⟨rfl, rfl, rfl⟩

theorem quiet_routine (h : w.Routine cfg asked s.workerId nowMs w') :
    (s.quiet w').Routine cfg asked s w nowMs := ⟨.refl s, h⟩

theorem nonFatal_routine (h : w.Routine cfg asked s.workerId nowMs w') (code : ErrorCode)
    (message : String) : (s.nonFatal w' code message).Routine cfg asked s w nowMs := ⟨.refl s, h⟩

theorem onBenchmarkResult_routine (cfg : Config F) (s : Session) (w : Shared F) (nowMs : UInt64)
    (score : F) : (s.onBenchmarkResult w score).Routine cfg asked s w nowMs := by
  unfold onBenchmarkResult
  split
  · exact quiet_routine (.refl w)
  · split
    · exact nonFatal_routine (.refl w) _ _
    · exact quiet_routine (editRecord_routine s w _)

theorem onThrottle_routine (cfg : Config F) (s : Session) (w : Shared F) (nowMs : UInt64)
    (level : UInt32) : (s.onThrottle w level).Routine cfg asked s w nowMs :=
  quiet_routine (editRecord_routine s w _)

theorem onSignal_routine (cfg : Config F) (s : Session) (w : Shared F) (nowMs : UInt64)
    (signal : Signal) : (s.onSignal w signal).Routine cfg asked s w nowMs := by
  have hall : ∀ reaction, Turn.Routine cfg asked s w nowMs
      ⟨reaction, { s with signalsThisWindow := s.signalsThisWindow + 1 }, w⟩ := fun _ =>
    ⟨⟨rfl, rfl, rfl⟩, .refl w⟩
  unfold onSignal
  dsimp only
  split
  · exact hall _
  · split
    · split
      · exact hall _
      · split
        · exact hall _
        · exact hall _
    · exact hall _

theorem onAssetRequest_routine (cfg : Config F) (s : Session) (w : Shared F) (nowMs : UInt64)
    (req : AssetRequest) : (s.onAssetRequest cfg w req).Routine cfg asked s w nowMs := by
  unfold onAssetRequest
  split
  · exact nonFatal_routine (.refl w) _ _
  · rename_i hash hhash
    have hmiss : Turn.Routine cfg asked s w nowMs ⟨{ replies := [.assetMiss hash] }, s, w⟩ :=
      ⟨.refl s, .refl w⟩
    dsimp only
    split
    · exact hmiss
    · split
      · exact hmiss
      · split
        · exact hmiss
        · exact ⟨.refl s, .refl _, .refl _ _, .of_eq rfl, rfl, rfl, fun _ => rfl⟩

theorem onProgress_routine (cfg : Config F) (s : Session) (w : Shared F)
    (progress : ProgressReport) (nowMs : UInt64) :
    (s.onProgress cfg w progress nowMs).Routine cfg asked s w nowMs := by
  unfold onProgress
  split
  · exact nonFatal_routine (.refl w) _ _
  · rename_i taskId htask
    split
    · exact quiet_routine (.refl w)
    · have hrenew : w.jobs.Lends cfg.kernels asked s.workerId (nowMs + cfg.leaseMs.toUInt64) _ :=
        .renews (renewLease_performs w.jobs s.workerId taskId nowMs cfg.leaseMs)
      split
      · rename_i jobs hr
        rw [hr] at hrenew
        exact nonFatal_routine (.of_jobs hrenew) _ _
      · rename_i jobs hr
        rw [hr] at hrenew
        exact quiet_routine (.of_jobs hrenew)

theorem release_routine (w : Shared F) (worker : WorkerId) :
    w.Routine cfg asked worker nowMs { w with
      jobs := (w.jobs.releaseAllHeldBy worker).2, fleet := w.fleet.leave worker } := by
  refine ⟨Lends.requeues (releaseAllHeldBy_moves w.jobs worker), ?_, .of_eq rfl, rfl, rfl,
    fun _ => rfl⟩
  exact .of_eq fun id hid => Fleet.find_leave_ne _ _ _ hid

theorem onGoodbye_routine (cfg : Config F) (s : Session) (w : Shared F) (nowMs : UInt64) :
    (s.onGoodbye w).Routine cfg asked s w nowMs := quiet_routine (release_routine w s.workerId)

-- A task whose lease was checked may be given back.
theorem requeue_routine {taskId : TaskId}
    (hlease : w.jobs.checkLease s.workerId taskId = .ok ()) :
    w.Routine cfg asked s.workerId nowMs { w with jobs := (w.jobs.requeue taskId .release).2 } := by
  obtain ⟨t, hfind, hstate, hholder⟩ := checkLease_ok hlease
  refine .of_jobs (Lends.requeues_one (requeue_performs w.jobs taskId (.inl rfl)) ?_)
  intro u hu
  rw [hfind] at hu
  cases hu
  exact isLeasedTo_iff.mpr ⟨hstate, hholder⟩

theorem onRelease_routine (cfg : Config F) (s : Session) (w : Shared F) (nowMs : UInt64)
    (taskId : Option TaskId) : (s.onRelease w taskId).Routine cfg asked s w nowMs := by
  unfold onRelease
  split
  · exact nonFatal_routine (.refl w) _ _
  · split
    · exact nonFatal_routine (.refl w) _ _
    · rename_i id _ hlease
      have hback : w.Routine cfg asked s.workerId nowMs _ := requeue_routine hlease
      split
      · rename_i jobs hr
        rw [hr] at hback
        exact nonFatal_routine hback _ _
      · rename_i jobs hr
        rw [hr] at hback
        exact quiet_routine hback

theorem onLeaseRequest_routine (cfg : Config F) (s : Session) (w : Shared F) (req : LeaseRequest)
    (nowMs : UInt64) : (s.onLeaseRequest cfg w req nowMs).Routine cfg True s w nowMs := by
  have hcached : w.Routine cfg True s.workerId nowMs _ := editRecord_routine s w fun r =>
    { r with cachedAssets := adoptCachedAssets req.cachedAssets }
  unfold onLeaseRequest
  dsimp only
  split
  · exact quiet_routine hcached
  · rename_i rec hrec
    split
    · exact quiet_routine hcached
    · split
      · exact quiet_routine hcached
      · have hbarred : w.Routine cfg True s.workerId nowMs
            { s.editRecord w (fun r =>
                { r with cachedAssets := adoptCachedAssets req.cachedAssets }) with
              reputation := (w.reputation.map fun rep =>
                rep.isBlacklisted s.workerId nowMs).map Prod.snd } := by
          refine ⟨hcached.jobs, hcached.fleet, ?_, rfl, rfl, fun _ => rfl⟩
          refine ⟨fun rep => (rep.isBlacklisted s.workerId nowMs).2,
            fun rep => .isBlacklisted rep s.workerId nowMs, ?_⟩
          rw [Option.map_map]
          rfl
        split
        · exact quiet_routine hbarred
        · exact ⟨.refl s, hbarred.trans (grantLoop_routine cfg s nowMs rec _ _)⟩

end Session

end

end P2pGpu.Coordinator
