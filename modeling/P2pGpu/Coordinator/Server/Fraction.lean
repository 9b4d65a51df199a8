import P2pGpu.Coordinator.Job.Fraction
import P2pGpu.Coordinator.Server.Terminal

namespace P2pGpu.Coordinator

open P2pGpu.Protocol

namespace Server

open JobManager

section

variable {F : Type} [Double F] {cfg : Config F} {v₀ v v' : Server F} {e : Event F} {id : TaskId}
  {t' : Task} {good : JobId → Prop} {past : List (Server F × Event F)}

-- An answer to a replica of the task is accepted while the task is at work itself.
def Overtakes (cfg : Config F) (v : Server F) (e : Event F) (id : TaskId) : Prop :=
  ∃ c, v.Hears cfg e c ∧ (c.verdict cfg v).action = .accept ∧ c.task.replicaOf = id ∧
    ∃ t, v.jobs.find id = some t ∧ t.state = .leased

-- The original of a race is cancelled by the answer that overtakes it.
theorem Overtakes.cancelled (h : Overtakes cfg v e id) (hs : v.jobs.Sound cfg.kernels good)
    (hk : v.Kindred) : ∃ t', (v.next cfg e).jobs.find id = some t' ∧ t'.replicaOf = Id.nil ∧
      t'.state = .cancelled := by
  obtain ⟨c, hc, haction, hreplica, t, ht, hleased⟩ := h
  have hnil : id ≠ Id.nil := hs.minted.ne_nil ht
  have hrace : c.task.replicaOf ≠ Id.nil := hreplica ▸ hnil
  obtain ⟨o, ho, horig, -⟩ := hs.partition.family hc.task hrace
  rw [hreplica, ht] at ho
  cases ho
  have hfamily : t.family = c.task.family := by
    rw [Task.family, if_pos horig, Task.family, if_neg hrace, hreplica, hs.minted.id_eq ht]
  have hne : id ≠ c.taskId := by
    intro he
    rw [he, hc.task] at ht
    cases ht
    exact hrace horig
  rcases siblings_after hs hk (step_next cfg v e) (hc.wins hs haction) ht hfamily hne with
    ⟨-, hcancelled⟩ | ⟨hnot, -⟩
  · exact ⟨t.cancelled, hcancelled, horig, rfl⟩
  · exact absurd hleased hnot

theorem next_cancelled (hs : v.jobs.Sound cfg.kernels good)
    (hf : (v.next cfg e).jobs.find id = some t') (horig : t'.replicaOf = Id.nil)
    (hcancelled : t'.state = .cancelled) :
    v.jobs.find id = some t' ∨ Overtakes cfg v e id := by
  by_cases hheard : ∃ c, v.Hears cfg e c
  · obtain ⟨c, hc⟩ := hheard
    obtain ⟨m, hanswers, hjobs⟩ := hc.judges
    by_cases haction : (c.verdict cfg v).action = .accept
    · rw [haction] at hanswers
      rw [if_pos haction] at hjobs
      obtain ⟨u, hu, -, hwon, hrest⟩ := hanswers.cancel_find hs.minted hs.partition
      obtain rfl : u = c.task := Option.some.inj (hu.symm.trans hc.task)
      rw [hjobs] at hf
      by_cases hid : id = c.taskId
      · rw [hid, hwon] at hf
        cases hf
        cases hcancelled
      · rcases hrest id hid with hsame | ⟨s, hs', hfamily, hlive, hs''⟩
        · exact .inl (hsame ▸ hf)
        · rw [hf] at hs''
          cases hs''
          have hrests := hs.settled id s hs'
          have hroot : s.replicaOf = Id.nil := horig
          refine .inr ⟨c, hc, haction, ?_, s, hs', ?_⟩
          · rw [Task.family, if_pos hroot, hs.minted.id_eq hs', Task.family] at hfamily
            by_cases hfirst : c.task.replicaOf = Id.nil
            · rw [if_pos hfirst, hs.minted.id_eq hc.task] at hfamily
              exact absurd hfamily hid
            · rw [if_neg hfirst] at hfamily
              exact hfamily.symm
          · rcases hlive with hl | hl | hl
            · exact hl
            · exact absurd hl hrests.validating
            · exact absurd hl hrests.needsReplica
    · rw [if_neg haction] at hjobs
      obtain ⟨u, hu, -, hjudged, -⟩ := hanswers.judged
      rw [hjobs] at hf
      by_cases hid : id = c.taskId
      · rw [hid, hjudged] at hf
        cases hf
        generalize (c.verdict cfg v).action = action at haction hcancelled
        cases action with
        | accept => exact absurd rfl haction
        | needMoreReplicas => cases hcancelled
        | inconclusive => cases hcancelled
      · rw [hanswers.others id hid] at hf
        exact .inl hf
  · have hunheard : ∀ c, ¬ v.Hears cfg e c := fun c hc => hheard ⟨c, hc⟩
    exact .inl (unheard_final hs hunheard hf (by rw [hcancelled]; rfl))

-- The originals that are cancelled after a run are those that were overtaken in it.
structure Recounts (cfg : Config F) (v : Server F) (past : List (Server F × Event F)) : Prop where
  overtaken : ∀ id, ∀ x ∈ past, Overtakes cfg x.1 x.2 id →
    ∃ t, v.jobs.find id = some t ∧ t.replicaOf = Id.nil ∧ t.state = .cancelled
  cancelled : ∀ id t, v.jobs.find id = some t → t.replicaOf = Id.nil → t.state = .cancelled →
    ∃ x ∈ past, Overtakes cfg x.1 x.2 id

theorem Recounts.step (hr : Recounts cfg v past) (hn : v.Named)
    (hs : v.jobs.Sound cfg.kernels good) (hk : v.Kindred) (h : Step cfg v e v') :
    Recounts cfg v' (past ++ [(v, e)]) where
  overtaken := by
    intro id x hx hovertakes
    rcases List.mem_append.mp hx with hold | hnew
    · obtain ⟨t, ht, horig, hcancelled⟩ := hr.overtaken id x hold hovertakes
      obtain ⟨t', ht', hlater⟩ := (step_legal hn hs h).later ht
      exact ⟨t', ht', hlater.replicaOf.trans horig,
        (hlater.ended (by rw [hcancelled]; rfl)).trans hcancelled⟩
    · rw [List.mem_singleton.mp hnew] at hovertakes
      obtain ⟨t', ht', hcancelled⟩ := hovertakes.cancelled hs hk
      exact ⟨t', (h.rows.find_eq id).trans ht', hcancelled⟩
  cancelled := by
    intro id t' hf horig hcancelled
    rw [h.rows.find_eq] at hf
    rcases next_cancelled hs hf horig hcancelled with hold | hnow
    · obtain ⟨x, hx, hovertakes⟩ := hr.cancelled id t' hold horig hcancelled
      exact ⟨x, List.mem_append_left _ hx, hovertakes⟩
    · exact ⟨(v, e), List.mem_append_right _ List.mem_cons_self, hnow⟩

theorem recounts_of_run (h₀ : v₀.Started)
    (h : Reach (Recalling (Step cfg)) (fun _ _ => True) (v₀, []) (v, past)) :
    Recounts cfg v past := by
  refine Recalling.invariant h (Recounts cfg)
    ⟨fun _ _ hx => absurd hx List.not_mem_nil, ?_⟩ ?_
  · have hempty : v₀.jobs = {} := h₀.jobs
    intro id t hf
    rw [hempty] at hf
    cases hf
  · intro w before e w' hrun _ hr hstep
    have hreached := Recalling.forget hrun
    obtain ⟨hn, hs⟩ := sound_of_run (fun _ => False) h₀ hreached
    exact hr.step hn hs (kindred_of_run h₀ hreached) hstep

-- No unit of a job is counted twice. All of them are counted for a job that is done, on
-- just those runs on which none of its originals was overtaken by a replica.
theorem fraction_agrees_iff (h₀ : v₀.Started)
    (h : Reach (Recalling (Step cfg)) (fun _ _ => True) (v₀, []) (v, past)) {jobId : JobId}
    {job : Job} (hjob : v.jobs.findJob jobId = some job) (hfits : job.Fits) :
    v.jobs.CountsOnce job ∧ (v.jobs.jobComplete jobId = true →
      (v.jobs.acceptedUnits job = job.totalUnits ↔
        ∀ x ∈ past, ∀ id ∈ job.tasks, ¬ Overtakes cfg x.1 x.2 id)) := by
  have hreached := Recalling.forget h
  obtain ⟨-, hs⟩ := sound_of_run (fun _ => True) h₀ hreached
  have hk := kindred_of_run h₀ hreached
  have hr := recounts_of_run h₀ h
  refine ⟨countsOnce hs.partition trivial hjob hfits, fun hcomplete => ?_⟩
  rw [complete_counted_iff hs.partition hk.vindicated trivial hjob hfits hcomplete]
  constructor
  · intro hnone x hx id hid hovertakes
    obtain ⟨t, ht, horig, hcancelled⟩ := hr.overtaken id x hx hovertakes
    exact hnone id hid t ht horig hcancelled
  · intro hnone id hid t ht horig hcancelled
    obtain ⟨x, hx, hovertakes⟩ := hr.cancelled id t ht horig hcancelled
    exact hnone x hx id hid hovertakes

end

def countedRun : List (Event Rat) :=
  .createJob "brute_search_v1" 3 7 0 :: joins 1 10 80 ++ [asks 1 20, tells 1 ⟨0, 2⟩ [1] 30]

theorem fraction_agrees_iff_search :
    ∃ job, (searchStart.runAll (searches {}) countedRun).jobs.findJob ⟨0, 1⟩ = some job ∧
      (searchStart.runAll (searches {}) countedRun).jobs.CountsOnce job ∧
        ((searchStart.runAll (searches {}) countedRun).jobs.acceptedUnits job = job.totalUnits ↔
          ∀ x ∈ [] ++ searchStart.history (searches {}) countedRun, ∀ id ∈ job.tasks,
            ¬ Overtakes (searches {}) x.1 x.2 id) := by
  have hjob : (searchStart.runAll (searches {}) countedRun).jobs.findJob ⟨0, 1⟩ = some
      { id := ⟨0, 1⟩, kernelId := "brute_search_v1", seed := 7, totalUnits := 3, nextUnit := 3
        unitsPerGroup := 0, tasks := [⟨0, 2⟩] } := by decide +kernel
  have hagrees := fraction_agrees_iff searchStart_started
    (recalls_history (searches {}) countedRun searchStart []) hjob nofun
  exact ⟨_, hjob, hagrees.1, hagrees.2 (by decide +kernel)⟩

-- Three tiles, and so many samples in each that the third begins inside the first.
def wrappedRender : RenderConfig where
  grid := ⟨192, 64, 64, 64⟩
  samplesPerTile := 9223372036854775809
  camera := ⟨(0, 0, 0), (0, 0, 0), (0, 0, 0), (0, 0, 0)⟩
  nodeCount := 1
  primCount := 1
  materialCount := 1

def wrappedRun : List (Event Rat) :=
  .seedRender wrappedRender [] :: joins 1 10 80 ++
    [asks 1 20, tells 1 ⟨0, 2⟩ [1] 30, asks 1 40, tells 1 ⟨0, 3⟩ [1] 50, asks 1 60,
      tells 1 ⟨0, 4⟩ [1] 70]

-- A job is done, and what the replica did is not counted; and where the tiles run into
-- one another, what was done twice is counted twice.
theorem fraction_disagrees :
    (¬ ∀ v, Reach (Step (searches {})) (fun _ _ => True) searchStart v → ∀ jobId job,
        v.jobs.findJob jobId = some job → 0 < job.totalUnits →
          v.jobs.jobComplete jobId = true → v.jobs.acceptedUnits job = job.totalUnits) ∧
      ¬ ∀ v, Reach (Step (searches {})) (fun _ _ => True) searchStart v → ∀ jobId job,
        v.jobs.findJob jobId = some job → 0 < job.totalUnits → v.jobs.CountsOnce job := by
  constructor
  · intro h
    have hrun := reach_runAll (searches {}) (racedRun ++ [tells 3 ⟨0, 4⟩ [1] 110]) searchStart
    have hcounts : ((searchStart.runAll (searches {}) (racedRun ++
        [tells 3 ⟨0, 4⟩ [1] 110])).jobs.findJob ⟨0, 1⟩).map (fun job => (job.totalUnits,
          (searchStart.runAll (searches {}) (racedRun ++
            [tells 3 ⟨0, 4⟩ [1] 110])).jobs.acceptedUnits job)) =
        some (10000000, 9600000) := by decide +kernel
    obtain ⟨job, hjob, hunits⟩ := Option.map_eq_some_iff.mp hcounts
    obtain ⟨htotal, haccepted⟩ := Prod.mk.inj hunits
    have hsame := h _ hrun ⟨0, 1⟩ job hjob (by rw [htotal]; decide) (by decide +kernel)
    rw [htotal, haccepted] at hsame
    exact absurd hsame (by decide)
  · intro h
    have hrun := reach_runAll (searches {}) wrappedRun searchStart
    have hspans : ((searchStart.runAll (searches {}) wrappedRun).jobs.findJob ⟨0, 1⟩).map
        (fun job => (job.totalUnits, ((searchStart.runAll (searches {})
          wrappedRun).jobs.counted job).map Task.span)) =
        some (9223372036854775811,
          [⟨0, 7143⟩, ⟨9223372036854775809, 7143⟩, ⟨2, 7143⟩]) := by decide +kernel
    obtain ⟨job, hjob, hpair⟩ := Option.map_eq_some_iff.mp hspans
    obtain ⟨htotal, hcounted⟩ := Prod.mk.inj hpair
    have honce := (h _ hrun ⟨0, 1⟩ job hjob (by rw [htotal]; decide)).disjoint
    have hdisjoint : (((searchStart.runAll (searches {}) wrappedRun).jobs.counted job).map
        Task.span).Pairwise fun s t => Disjoint s.units t.units := List.pairwise_map.mpr honce
    rw [hcounted] at hdisjoint
    have hfirst := (List.pairwise_cons.mp hdisjoint).1 ⟨2, 7143⟩ (by simp)
    have hin : 2 ∈ (Span.mk 0 7143).units := Span.mem_units.mpr (by decide)
    have hin' : 2 ∈ (Span.mk 2 7143).units := Span.mem_units.mpr (by decide)
    exact Set.disjoint_left.mp hfirst hin hin'

end Server

end P2pGpu.Coordinator
