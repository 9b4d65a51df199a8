import P2pGpu.Coordinator.Job.Family
import P2pGpu.Coordinator.Server.Leases

namespace P2pGpu.Coordinator

open P2pGpu.Protocol

namespace Server

open JobManager

section

variable {F : Type} [Double F] {cfg : Config F} {v₀ v v' : Server F} {e : Event F}
  {m : JobManager} {id i : TaskId} {t t' : Task} {good : JobId → Prop}

-- What holds of the families between two events, on top of the rest.
structure Kindred (v : Server F) : Prop where
  enrolled : v.jobs.Enrolled
  vindicated : v.jobs.Vindicated

theorem Kindred.step (hk : v.Kindred) (hn : v.Named) (hs : v.jobs.Sound cfg.kernels good)
    (h : Step cfg v e v') : v'.Kindred := by
  have hinv := (step_legal hn hs h).invariant
    (fun n => (n.Minted ∧ n.Partition good) ∧ n.Enrolled ∧ n.Vindicated)
    ⟨⟨hs.minted, hs.partition⟩, hk.enrolled, hk.vindicated⟩
    fun n l n' hi hl hmove => ⟨⟨hmove.minted hi.1.1, hi.1.2.move hi.1.1 hmove hl.seeds⟩,
      hi.2.1.move hi.1.1 hi.1.2 hmove hl.seeds, hi.2.2.move hi.1.1 hl hmove⟩
  exact ⟨hinv.2.1, hinv.2.2⟩

theorem kindred_of_run {guard : Server F → Event F → Prop} (h₀ : v₀.Started)
    (h : Reach (Step cfg) guard v₀ v) : v.Kindred := by
  have hempty : v₀.jobs = {} := h₀.jobs
  induction h with
  | refl =>
      refine ⟨?_, ?_⟩
      · rw [hempty]
        exact Enrolled.empty
      · rw [hempty]
        exact Vindicated.empty
  | tail hrun hlast ih =>
      obtain ⟨e, -, hstep⟩ := hlast
      obtain ⟨hn, hs⟩ := sound_of_run (fun _ => False) h₀ hrun
      exact ih.step hn hs hstep

-- A job is only complete when every unit of it was answered for.
theorem complete_covers (h₀ : v₀.Started) (h : Reach (Step cfg) (fun _ _ => True) v₀ v)
    {jobId : JobId} {job : Job} (hjob : v.jobs.findJob jobId = some job) (hfits : job.Fits)
    (hcomplete : v.jobs.jobComplete jobId = true) (u : Nat) (hu : u < job.totalUnits.toNat) :
    ∃ id t, v.jobs.find id = some t ∧ t.job = jobId ∧
      (id ∈ job.tasks ∨ t.replicaOf ∈ job.tasks) ∧ t.state = .accepted ∧ u ∈ t.span.units := by
  obtain ⟨-, hs⟩ := sound_of_run (fun _ => True) h₀ h
  have hk := kindred_of_run h₀ h
  exact covered_of_complete hs.minted hs.partition hk.vindicated trivial hjob hfits hcomplete u hu

end

-- Four tiles whose samples add up to more than a word holds.
def wideRender : RenderConfig where
  grid := ⟨128, 128, 64, 64⟩
  samplesPerTile := 4611686018427390404
  camera := ⟨(0, 0, 0), (0, 0, 0), (0, 0, 0), (0, 0, 0)⟩
  nodeCount := 1
  primCount := 1
  materialCount := 1

def wideRun : List (Event Rat) :=
  .seedRender wideRender [] :: joins 1 10 80 ++
    [asks 1 20, tells 1 ⟨0, 2⟩ [1] 30, asks 1 40, tells 1 ⟨0, 3⟩ [1] 50]

theorem complete_covers_search :
    ∃ id t,
      (searchStart.runAll (searches {}) (.createJob "brute_search_v1" 3 7 0 ::
        joins 1 10 80 ++ [asks 1 20, tells 1 ⟨0, 2⟩ [1] 30])).jobs.find id = some t ∧
      t.job = ⟨0, 1⟩ ∧ (id ∈ [⟨0, 2⟩] ∨ t.replicaOf ∈ [⟨0, 2⟩]) ∧ t.state = .accepted ∧
      2 ∈ t.span.units := by
  have hjob : (searchStart.runAll (searches {}) (.createJob "brute_search_v1" 3 7 0 ::
      joins 1 10 80 ++ [asks 1 20, tells 1 ⟨0, 2⟩ [1] 30])).jobs.findJob ⟨0, 1⟩ = some
        { id := ⟨0, 1⟩, kernelId := "brute_search_v1", seed := 7, totalUnits := 3, nextUnit := 3
          unitsPerGroup := 0, tasks := [⟨0, 2⟩] } := by decide +kernel
  exact complete_covers searchStart_started (reach_runAll _ _ _) hjob nofun (by decide +kernel) 2
    (by decide)

-- The keyspace of the render wrapped around, and with it the end of the cursor.
theorem complete_leaves_gap : ¬ ∀ v, Reach (Step (searches {})) (fun _ _ => True) searchStart v →
    ∀ jobId job, v.jobs.findJob jobId = some job → v.jobs.jobComplete jobId = true →
      ∀ u < job.totalUnits.toNat, ∃ id t, v.jobs.find id = some t ∧ t.job = jobId ∧
        (id ∈ job.tasks ∨ t.replicaOf ∈ job.tasks) ∧ t.state = .accepted ∧ u ∈ t.span.units := by
  intro h
  have hjob : ((searchStart.runAll (searches {}) wideRun).jobs.findJob ⟨0, 1⟩).map
      Job.totalUnits = some 10000 := by decide +kernel
  obtain ⟨job, hfind, htotal⟩ := Option.map_eq_some_iff.mp hjob
  have hwhole : 9999 < job.totalUnits.toNat := by
    rw [htotal]
    decide
  obtain ⟨id, t, ht, -, -, -, hu⟩ := h _ (reach_runAll _ wideRun _) ⟨0, 1⟩ job hfind
    (by decide +kernel) 9999 hwhole
  have hgap : ∀ e ∈ (searchStart.runAll (searches {}) wideRun).jobs.tasks.entries,
      ¬ (e.2.startUnit.toNat ≤ 9999 ∧ 9999 < e.2.startUnit.toNat + e.2.unitCount.toNat) := by
    decide +kernel
  exact hgap _ (Table.mem_entries_iff.mpr ht) hu

section

variable {F : Type} [Double F] {cfg : Config F} {v₀ v v' : Server F} {e : Event F}
  {m : JobManager} {id i : TaskId} {t t' : Task} {good : JobId → Prop}

-- The step in which an answer to the task is accepted.
structure Wins (v v' : Server F) (id : TaskId) (t : Task) : Prop where
  before : v.jobs.find id = some t
  unsettled : t.state ≠ .accepted
  after : ∃ t', v'.jobs.find id = some t' ∧ t'.state = .accepted

-- No task of the family waits in the queue.
def Unopposed (v : Server F) (family : TaskId) : Prop :=
  ∀ i s, v.jobs.find i = some s → s.family = family → s.state ≠ .queued

def FamilyClosed (v : Server F) (family : TaskId) : Prop :=
  ∀ i s, v.jobs.find i = some s → s.family = family →
    isTerminal s.state = true ∧ i ∉ v.jobs.queue

-- A task only becomes final where an answer is judged.
theorem Deed.spared (h : Deed cfg v e m) (hs : v.jobs.Sound cfg.kernels good) :
    Moves (fun n l => n.SeedsOnly l ∧ n.Spares l) v.jobs m ∨
      (∃ id answer action, Answers cfg.quorum v.jobs id answer action m ∧ action ≠ .accept) ∨
      ∃ n id answer, Answers cfg.quorum v.jobs id answer .accept n ∧
        m = (n.cancelSiblingsOf id).2 := by
  cases h with
  | idle => exact .inl (Reach.refl _)
  | plants h =>
      refine .inl (Reach.mono ?_ (h hs.partition.fresh))
      rintro n l ⟨hseeds, hplants⟩
      refine ⟨hseeds, fun id a he => ?_⟩
      rw [he] at hplants
      exact hplants.elim
  | speaks he hconn hheld h =>
      cases h with
      | lends h =>
          exact .inl (Reach.mono (fun _ _ hl => ⟨hl.seedsOnly, hl.spares⟩) (h.moves hs.minted))
      | answers h hworker haction => exact .inr (.inl ⟨_, _, _, h, haction⟩)
      | accepts h hworker => exact .inr (.inr ⟨_, _, _, h, rfl⟩)
      | strands h hfind hleased hlost =>
          have hrests := hs.settled _ _ hfind
          exact absurd (hrests.known (isLeasedTo_iff.mp hleased).1) hlost
  | leaves he hconn hheld =>
      refine .inl (Reach.mono (fun _ _ hl => ⟨?_, hl.spares⟩) (releaseAllHeldBy_moves _ _))
      obtain ⟨i, t, rfl, -⟩ := hl
      trivial
  | @sweeps m nowMs flushed he h =>
      have hseeds : ∀ {p : Task → Prop} (n : JobManager) (l : Label), Requeues p n l →
          n.SeedsOnly l ∧ n.Spares l := by
        rintro p n l hl
        refine ⟨?_, hl.spares⟩
        obtain ⟨i, t, rfl, -⟩ := hl
        trivial
      have hexpired := Reach.mono hseeds (sweepExpiredLeases_moves v.jobs nowMs)
      have hlost := hexpired.trans (Reach.mono hseeds h)
      refine .inl ?_
      split
      · refine hlost.tail ?_ (Move.flush m)
        exact ⟨trivial, nofun⟩
      · exact hlost

theorem wins_accepts (hs : v.jobs.Sound cfg.kernels good) (h : Step cfg v e v')
    (hwin : Wins v v' id t) :
    ∃ n answer, Answers cfg.quorum v.jobs id answer .accept n ∧
      ∀ i, v'.jobs.find i = (n.cancelSiblingsOf id).2.find i := by
  obtain ⟨t', hf', haccepted⟩ := hwin.after
  rw [h.rows.find_eq] at hf'
  rcases (next_deed cfg v e).spared hs with hspared | ⟨i, answer, action, hanswers, haction⟩ |
    ⟨n, i, answer, hanswers, hjobs⟩
  · have hold := Spares.was (fun _ _ hl => hl.2) hspared hs.minted hf' (by rw [haccepted]; rfl)
    rw [hwin.before] at hold
    cases hold
    exact absurd haccepted hwin.unsettled
  · obtain ⟨u, hu, -, hjudged, -⟩ := hanswers.judged
    by_cases hi : id = i
    · rw [hi, hjudged] at hf'
      cases hf'
      cases action with
      | accept => exact absurd rfl haction
      | needMoreReplicas => cases haccepted
      | inconclusive => cases haccepted
    · rw [hanswers.others id hi, hwin.before] at hf'
      cases hf'
      exact absurd haccepted hwin.unsettled
  · obtain ⟨u, hu, -, hwon, hrest⟩ := hanswers.cancel_find hs.minted hs.partition
    rw [hjobs] at hf'
    by_cases hi : id = i
    · subst hi
      exact ⟨n, answer, hanswers, fun j => by rw [h.rows.find_eq, hjobs]⟩
    · rcases hrest id hi with hsame | ⟨s, hs', -, -, hcancelled⟩
      · rw [hsame, hwin.before] at hf'
        cases hf'
        exact absurd haccepted hwin.unsettled
      · rw [hcancelled] at hf'
        cases hf'
        cases haccepted

-- What a won race makes of the others: who is at work is cancelled, and who waits
-- goes on waiting.
theorem siblings_after (hs : v.jobs.Sound cfg.kernels good) (hk : v.Kindred)
    (h : Step cfg v e v') (hwin : Wins v v' id t) {s : Task} (hi : v.jobs.find i = some s)
    (hfamily : s.family = t.family) (hne : i ≠ id) :
    (s.state = .leased ∧ v'.jobs.find i = some s.cancelled) ∨
      (s.state ≠ .leased ∧ v'.jobs.find i = some s) := by
  obtain ⟨n, answer, hanswers, hfind⟩ := wins_accepts hs h hwin
  obtain ⟨u, hu, hheld, hwon, hrest⟩ := hanswers.cancel_find hs.minted hs.partition
  rw [hwin.before] at hu
  cases hu
  have hrests := hs.settled i s hi
  by_cases hleased : s.state = .leased
  · refine .inl ⟨hleased, ?_⟩
    obtain ⟨job, hjob, hmem⟩ := sibling_listed hs.minted hs.partition hk.enrolled hwin.before hi
      hfamily hne
    obtain ⟨w, hw, -, hjudged, -⟩ := hanswers.judged
    rw [hwin.before] at hw
    cases hw
    have hpn := hanswers.partition hs.minted hs.partition
    rw [hfind]
    unfold cancelSiblingsOf
    rw [hjudged]
    dsimp only
    have hjob' : n.findJob (t.answered answer .accept).job = some job := by
      rw [hanswers.jobs]
      exact hjob
    rw [hjob']
    have hroot := sibling_root hs.minted hwin.before hi hfamily
    have hlisted := hpn.nodup hjob'
    exact find_cancelFrom _ _ _ hlisted n hmem hne ((hanswers.others i hne).trans hi) hroot
      (.inl hleased)
  · refine .inr ⟨hleased, ?_⟩
    rw [hfind]
    rcases hrest i hne with hsame | ⟨s', hs', -, hlive, -⟩
    · rw [hsame, hi]
    · rw [hi] at hs'
      cases hs'
      rcases hlive with hl | hl | hl
      · exact absurd hl hleased
      · exact absurd hl hrests.validating
      · exact absurd hl hrests.needsReplica

theorem closed_iff_unopposed (hn : v.Named) (hs : v.jobs.Sound cfg.kernels good) (hk : v.Kindred)
    (h : Step cfg v e v') (hwin : Wins v v' id t) :
    FamilyClosed v' t.family ↔ Unopposed v t.family := by
  have hs' := sound_step hn hs h
  obtain ⟨n, answer, hanswers, hfind⟩ := wins_accepts hs h hwin
  obtain ⟨u, hu, hheld, hwon, hrest⟩ := hanswers.cancel_find hs.minted hs.partition
  rw [hwin.before] at hu
  cases hu
  have hleased : t.state = .leased := (isLeasedTo_iff.mp hheld).1
  constructor
  · intro hclosed i s hi hfamily hqueued
    have hne : i ≠ id := by
      intro he
      rw [he, hwin.before] at hi
      cases hi
      rw [hleased] at hqueued
      cases hqueued
    rcases siblings_after hs hk h hwin hi hfamily hne with ⟨hl, -⟩ | ⟨-, hsame⟩
    · rw [hl] at hqueued
      cases hqueued
    · obtain ⟨hterminal, -⟩ := hclosed i s hsame hfamily
      rw [hqueued] at hterminal
      cases hterminal
  · intro hopen i s' hi' hfamily
    have hterminal : isTerminal s'.state = true := by
      by_cases hne : i = id
      · rw [hne, hfind, hwon] at hi'
        cases hi'
        rfl
      · have hback := hrest i hne
        rw [← hfind] at hback
        rcases hback with hsame | ⟨s, hs₀, -, -, hcancelled⟩
        · rw [hsame] at hi'
          rcases siblings_after hs hk h hwin hi' hfamily hne with ⟨-, hcancelled⟩ | ⟨hl, -⟩
          · rw [hsame, hi'] at hcancelled
            rw [Option.some.inj hcancelled]
            rfl
          · have hrests := hs.settled i s' hi'
            have hqueued := hopen i s' hi' hfamily
            cases hstate : s'.state with
            | queued => exact absurd hstate hqueued
            | leased => exact absurd hstate hl
            | validating => exact absurd hstate hrests.validating
            | needsReplica => exact absurd hstate hrests.needsReplica
            | accepted => rfl
            | rejected => rfl
            | cancelled => rfl
        · rw [hi'] at hcancelled
          rw [Option.some.inj hcancelled]
          rfl
    refine ⟨hterminal, fun hmem => ?_⟩
    obtain ⟨w, hw, hqueued⟩ := (hs'.queue.queued i).mp hmem
    rw [hi'] at hw
    cases hw
    rw [hqueued] at hterminal
    cases hterminal

-- A race that is won while nobody of the family waits.
def WinsAlone (cfg : Config F) (v : Server F) (e : Event F) : Prop :=
  ∀ id t, Wins v (v.next cfg e) id t → Unopposed v t.family

theorem decided_step (hn : v.Named) (hs : v.jobs.Sound cfg.kernels good) (hk : v.Kindred)
    (hd : v.jobs.Decided) (halone : WinsAlone cfg v e) (h : Step cfg v e v') :
    v'.jobs.Decided := by
  have hrows : ∀ i, v'.jobs.find i = (v.next cfg e).jobs.find i := h.rows.find_eq
  suffices hnext : (v.next cfg e).jobs.Decided by
    intro i s j t hi hstate hj hne hfamily
    rw [hrows] at hi hj
    exact hnext i s j t hi hstate hj hne hfamily
  rcases (next_deed cfg v e).spared hs with hspared | ⟨id, answer, action, hanswers, haction⟩ |
    ⟨n, id, answer, hanswers, hjobs⟩
  · exact Decided.moves (fun _ _ hl => hl) hspared hs.minted hs.partition hd
  · obtain ⟨u, hu, hheld, hjudged, -⟩ := hanswers.judged
    have hleased := (isLeasedTo_iff.mp hheld).1
    have hqueued : (u.answered answer action).state = .queued := by
      cases action with
      | accept => exact absurd rfl haction
      | needMoreReplicas => rfl
      | inconclusive => rfl
    intro i s j t hi hstate hj hne hfamily
    have hother : i ≠ id := by
      intro he
      rw [he, hjudged] at hi
      cases hi
      rw [hqueued] at hstate
      cases hstate
    rw [hanswers.others i hother] at hi
    by_cases hjid : j = id
    · rw [hjid, hjudged] at hj
      cases hj
      have hsame : u.family = s.family := by
        obtain ⟨hid, -, -, hreplica⟩ := Task.answered_shape u answer action
        rw [← hfamily, Task.family, Task.family, hid, hreplica]
      obtain ⟨hterminal, -⟩ := hd i s id u hi hstate hu hother.symm hsame
      rw [hleased] at hterminal
      cases hterminal
    · rw [hanswers.others j hjid] at hj
      exact hd i s j t hi hstate hj hne hfamily
  · obtain ⟨u, hu, hheld, hwon, hrest⟩ := hanswers.cancel_find hs.minted hs.partition
    rw [← hjobs] at hwon hrest
    have hleased := (isLeasedTo_iff.mp hheld).1
    have hwin : Wins v (v.next cfg e) id u :=
      ⟨hu, by rw [hleased]; decide, _, hwon, rfl⟩
    have hclosed := (closed_iff_unopposed hn hs hk (step_next cfg v e) hwin).mpr (halone id u hwin)
    have hufamily : (u.answered answer .accept).family = u.family := rfl
    -- The winner is the only one of its family that was accepted.
    have honly : ∀ i s, (v.next cfg e).jobs.find i = some s → s.state = .accepted → i ≠ id →
        v.jobs.find i = some s ∧ s.family ≠ u.family := by
      intro i s hi hstate hne
      rcases hrest i hne with hsame | ⟨s', -, -, -, hcancelled⟩
      · have hold : v.jobs.find i = some s := hsame ▸ hi
        refine ⟨hold, fun hfamily => ?_⟩
        obtain ⟨hterminal, -⟩ := hd i s id u hold hstate hu hne.symm hfamily.symm
        rw [hleased] at hterminal
        cases hterminal
      · rw [hi] at hcancelled
        rw [Option.some.inj hcancelled] at hstate
        cases hstate
    intro i s j t hi hstate hj hne hfamily
    by_cases hid : i = id
    · rw [hid, hwon] at hi
      cases hi
      refine ⟨(hclosed j t hj hfamily).1, fun haccepted => ?_⟩
      exact (honly j t hj haccepted (hid ▸ hne)).2 hfamily
    · obtain ⟨hold, hother⟩ := honly i s hi hstate hid
      have hjid : j ≠ id := by
        intro he
        rw [he, hwon] at hj
        cases hj
        exact hother hfamily.symm
      rcases hrest j hjid with hsame | ⟨t₀, ht₀, htfamily, -, hcancelled⟩
      · exact hd i s j t hold hstate (hsame ▸ hj) hne hfamily
      · rw [hj] at hcancelled
        rw [Option.some.inj hcancelled]
        exact ⟨rfl, fun h => by cases h⟩

-- Winning closes the family just where none of it waits in the queue, and a run on
-- which every race is won so accepts one answer a family.
theorem won_race_closes (h₀ : v₀.Started) :
    (∀ v e v' id t, Reach (Step cfg) (fun _ _ => True) v₀ v → Step cfg v e v' → Wins v v' id t →
      (FamilyClosed v' t.family ↔ Unopposed v t.family)) ∧
    ∀ v, Reach (Step cfg) (WinsAlone cfg) v₀ v → ∀ i s j t, v.jobs.find i = some s →
      v.jobs.find j = some t → s.state = .accepted → t.state = .accepted →
      t.family = s.family → i = j := by
  refine ⟨fun v e v' id t hrun hstep hwin => ?_, fun v hrun => ?_⟩
  · obtain ⟨hn, hs⟩ := sound_of_run (fun _ => False) h₀ hrun
    exact closed_iff_unopposed hn hs (kindred_of_run h₀ hrun) hstep hwin
  · have hdecided : v.jobs.Decided := by
      have hempty : v₀.jobs = {} := h₀.jobs
      induction hrun with
      | refl =>
          rw [hempty]
          exact Decided.empty
      | tail hrun hlast ih =>
          obtain ⟨e, halone, hstep⟩ := hlast
          obtain ⟨hn, hs⟩ := sound_of_run (fun _ => False) h₀ hrun
          exact decided_step hn hs (kindred_of_run h₀ hrun) ih halone hstep
    intro i s j t hi hj hs ht hfamily
    by_contra hne
    exact (hdecided i s j t hi hs hj (Ne.symm hne) hfamily).2 ht

end

-- The last task of a job is raced, and the lease of the original ends before the other.
def raceRun : List (Event Rat) :=
  .createJob "brute_search_v1" 10000000 7 0 :: joins 1 10 3072000000 ++ joins 2 10 80 ++
    joins 3 10 80 ++ [asks 1 20, tells 1 ⟨0, 2⟩ [1] 30, asks 2 40, asks 3 100, .sweep 30050 false]

theorem won_race_closes_search :
    FamilyClosed ((searchStart.runAll (searches {}) searchRun).next (searches {})
        (tells 1 ⟨0, 2⟩ [1] 30)) ⟨0, 2⟩ ↔
      Unopposed (searchStart.runAll (searches {}) searchRun) ⟨0, 2⟩ := by
  obtain ⟨t, ht, hfamily⟩ : ∃ t, (searchStart.runAll (searches {}) searchRun).jobs.find ⟨0, 2⟩ =
      some t ∧ t.family = ⟨0, 2⟩ := by
    refine ⟨_, Option.eq_some_of_isSome (by decide +kernel), ?_⟩
    decide +kernel
  have hstate : ((searchStart.runAll (searches {}) searchRun).jobs.find ⟨0, 2⟩).map Task.state =
      some .leased := by decide +kernel
  have hafter : (((searchStart.runAll (searches {}) searchRun).next (searches {})
      (tells 1 ⟨0, 2⟩ [1] 30)).jobs.find ⟨0, 2⟩).map Task.state = some .accepted := by
    decide +kernel
  have hwin : Wins (searchStart.runAll (searches {}) searchRun) ((searchStart.runAll (searches {})
      searchRun).next (searches {}) (tells 1 ⟨0, 2⟩ [1] 30)) ⟨0, 2⟩ t := by
    refine ⟨ht, ?_, Option.map_eq_some_iff.mp hafter⟩
    rw [ht] at hstate
    rw [Option.some.inj hstate]
    decide
  have hcloses := (won_race_closes searchStart_started).1 _ _ _ _ t (reach_runAll _ searchRun _)
    (step_next _ _ _) hwin
  rw [hfamily] at hcloses
  exact hcloses

-- The replica wins while the original waits, which is then handed out and accepted too.
theorem race_won_twice :
    ¬ ((∀ v e v' id t, Reach (Step (searches {})) (fun _ _ => True) searchStart v →
        Step (searches {}) v e v' → Wins v v' id t → FamilyClosed v' t.family) ∧
      ∀ v, Reach (Step (searches {})) (fun _ _ => True) searchStart v → ∀ i s j t,
        v.jobs.find i = some s → v.jobs.find j = some t → s.state = .accepted →
        t.state = .accepted → t.family = s.family → i = j) := by
  rintro ⟨-, hone⟩
  have hrun := reach_runAll (searches {}) (raceRun ++ [tells 3 ⟨0, 4⟩ [1] 30060, asks 1 30070,
    tells 1 ⟨0, 3⟩ [1] 30080]) searchStart
  have horiginal : ∃ s, (searchStart.runAll (searches {}) (raceRun ++ [tells 3 ⟨0, 4⟩ [1] 30060,
      asks 1 30070, tells 1 ⟨0, 3⟩ [1] 30080])).jobs.find ⟨0, 3⟩ = some s ∧
      (s.state, s.family) = (.accepted, ⟨0, 3⟩) := Option.map_eq_some_iff.mp (by decide +kernel)
  have hreplica : ∃ t, (searchStart.runAll (searches {}) (raceRun ++ [tells 3 ⟨0, 4⟩ [1] 30060,
      asks 1 30070, tells 1 ⟨0, 3⟩ [1] 30080])).jobs.find ⟨0, 4⟩ = some t ∧
      (t.state, t.family) = (.accepted, ⟨0, 3⟩) := Option.map_eq_some_iff.mp (by decide +kernel)
  obtain ⟨s, hs, hsdone⟩ := horiginal
  obtain ⟨t, ht, htdone⟩ := hreplica
  obtain ⟨hsstate, hsfamily⟩ := Prod.mk.inj hsdone
  obtain ⟨htstate, htfamily⟩ := Prod.mk.inj htdone
  have hsame := hone _ hrun ⟨0, 3⟩ s ⟨0, 4⟩ t hs ht hsstate htstate (htfamily.trans hsfamily.symm)
  exact absurd hsame (by decide)

end Server

end P2pGpu.Coordinator
