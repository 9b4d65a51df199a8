import P2pGpu.Coordinator.Server.Hearing
import P2pGpu.Coordinator.Server.Voters

namespace P2pGpu.Coordinator

open P2pGpu.Protocol

namespace Server

open JobManager Session Quorum

section

variable {F : Type} [Double F] {cfg : Config F} {v₀ v v' : Server F} {e : Event F} {c : Hearing}

-- The checksum and the bytes are those of one who agreed, and so is the credit.
def Backed (q : QuorumResult F) (c : Hearing) : Prop :=
  (∃ s ∈ c.submissions, s.worker ∈ q.agreeing ∧ s.checksum = c.header.checksum ∧
    s.payload = retained c.spec c.payload) ∧ c.session.workerId ∈ q.agreeing

-- The answer joins the group that is accepted: with it, that group is larger than any
-- that is older, and no younger one is larger.
def Carries (F : Type) [Double F] (c : Hearing) : Prop :=
  FirstFit.Overtakes (sameAnswer F c.spec) c.answer (answers F c.spec c.task.submissions)

instance (c : Hearing) : Decidable (Carries F c) :=
  inferInstanceAs (Decidable (FirstFit.Overtakes (sameAnswer F c.spec) c.answer
    (answers F c.spec c.task.submissions)))

theorem Hears.voters (hp : v.jobs.Polled cfg.quorum.maxReplicas) (h : v.Hears cfg e c) :
    (c.submissions.map Submission.worker).Nodup := by
  have hpolled := hp c.taskId c.task h.task
  obtain ⟨t, ht, hheld, -⟩ := h.landed.readied_find
  have hsame : t = c.task := Option.some.inj (ht.symm.trans h.task)
  rw [hsame] at hheld
  obtain ⟨hleased, hholder⟩ := isLeasedTo_iff.mp hheld
  have hnew : c.session.workerId ∉ c.task.priorWorkers := hholder ▸ hpolled.holder hleased
  rw [Hearing.submissions, List.map_append]
  refine List.Nodup.append hpolled.voters (List.nodup_singleton _) fun w hw hmem => ?_
  obtain ⟨s, hs, rfl⟩ := List.mem_map.mp hw
  have hprior := hpolled.voted s hs
  rw [List.mem_singleton.mp hmem] at hprior
  exact hnew hprior

-- One worker has one answer, so that the workers who agree stand for their answers.
theorem agrees_iff (hvoters : (c.submissions.map Submission.worker).Nodup)
    (hpolicy : cfg.quorum.policy ≠ .none) (haccept : (c.verdict cfg v).action = .accept)
    {s : Submission} (hs : s ∈ c.submissions) :
    s.worker ∈ (c.verdict cfg v).agreeing ↔
      s ∈ (largest (clusters F c.spec c.submissions)).members := by
  have hne : c.submissions ≠ [] := List.ne_nil_of_mem hs
  have hsame := (quorumFor_policy cfg c.session (c.opened v).reputation).1
  obtain ⟨hagreeing, -⟩ := decide_accepted (hsame ▸ hpolicy) hne haccept
  obtain ⟨hwon, -⟩ := largest_clusters F c.spec hne
  have hperm := FirstFit.groups_perm (sameAnswer F c.spec) c.submissions
  have heq : (c.verdict cfg v).agreeing =
      (largest (clusters F c.spec c.submissions)).members.map Submission.worker := hagreeing
  rw [heq]
  constructor
  · intro hmem
    obtain ⟨r, hr, hworker⟩ := List.mem_map.mp hmem
    have hmember : r ∈ c.submissions :=
      hperm.mem_iff.mp (List.mem_flatten.mpr ⟨_, List.mem_of_getElem? hwon, hr⟩)
    have hinj := List.inj_on_of_nodup_map hvoters hmember hs hworker
    exact hinj ▸ hr
  · exact fun hmem => List.mem_map_of_mem hmem

theorem answer_mem (c : Hearing) : c.answer ∈ c.submissions :=
  List.mem_append_right _ (List.mem_singleton_self _)

-- Whoever answers is on the winning side just when its answer is.
theorem worker_agrees_iff (hvoters : (c.submissions.map Submission.worker).Nodup)
    (hpolicy : cfg.quorum.policy ≠ .none) (haccept : (c.verdict cfg v).action = .accept) :
    c.session.workerId ∈ (c.verdict cfg v).agreeing ↔ Carries F c := by
  have hne : c.submissions ≠ [] := List.ne_nil_of_mem (answer_mem c)
  have hnew : c.answer ∉ (answers F c.spec c.task.submissions).flatten := by
    intro hmem
    have hold := (FirstFit.groups_perm (sameAnswer F c.spec) c.task.submissions).mem_iff.mp hmem
    rw [Hearing.submissions, List.map_append] at hvoters
    have hapart := List.disjoint_of_nodup_append hvoters (List.mem_map_of_mem hold)
    exact hapart (List.mem_singleton_self _)
  have hone := agrees_iff hvoters hpolicy haccept (answer_mem c)
  obtain ⟨hwon, -⟩ := largest_clusters F c.spec hne
  rw [best_clusters, answers, Hearing.submissions, FirstFit.groups_concat] at hwon
  exact hone.trans (FirstFit.mem_firstMax_place hnew hwon)

theorem backed_iff (hvoters : (c.submissions.map Submission.worker).Nodup)
    (hpolicy : cfg.quorum.policy ≠ .none) (haccept : (c.verdict cfg v).action = .accept) :
    Backed (c.verdict cfg v) c ↔ Carries F c := by
  rw [← worker_agrees_iff hvoters hpolicy haccept]
  constructor
  · exact fun h => h.2
  · intro hworker
    exact ⟨⟨c.answer, answer_mem c, hworker, rfl, rfl⟩, hworker⟩

-- What is published is the answer that came last. It is what was agreed on just when
-- that one joins the winners.
theorem published_iff (h₀ : v₀.Started) (hrun : Reach (Step cfg) (fun _ _ => True) v₀ v)
    (h : v.Hears cfg e c) (hpolicy : cfg.quorum.policy ≠ .none)
    (haccept : (c.verdict cfg v).action = .accept) (hstep : Step cfg v e v') :
    v.Publishes cfg v' c ∧ (Backed (c.verdict cfg v) c ↔ Carries F c) := by
  have hpolled := polled_of_run h₀ hrun
  have hpublished := (h.publishes haccept).step hstep
  exact ⟨hpublished, backed_iff (h.voters hpolled) hpolicy haccept⟩

end

-- Two workers agree about one task after the other, until both are trusted.
def agreeing (task : Nat) : List (Event Rat) :=
  let nowMs := 100 * task.toUInt64
  [asks 2 nowMs, tells 2 ⟨0, task⟩ [1] (nowMs + 10), asks 3 (nowMs + 20),
    tells 3 ⟨0, task⟩ [1] (nowMs + 30)]

def crew : List (Event Rat) :=
  .createJob "brute_search_v1" 1000000000 7 0 :: joins 1 10 80 ++ joins 2 10 80 ++ joins 3 10 80

-- Then a new worker answers, and one of the two is asked for its opinion.
def trustRun : List (Event Rat) :=
  crew ++ (List.range' 2 16).flatMap agreeing ++
    [asks 1 2000, tells 1 ⟨0, 18⟩ [1] 2010, asks 2 2020]

def doubled : Config Rat := searches { policy := .fixed2x }

theorem published_iff_search :
    ∃ c, ((searchStart.runAll doubled (crew ++ (agreeing 2).take 3)).Publishes doubled
        ((searchStart.runAll doubled (crew ++ (agreeing 2).take 3)).next doubled
          (tells 3 ⟨0, 2⟩ [1] 230)) c) ∧
      (Backed (c.verdict doubled (searchStart.runAll doubled (crew ++ (agreeing 2).take 3))) c ↔
        Carries Rat c) := by
  have hear : ((searchStart.runAll doubled (crew ++ (agreeing 2).take 3)).hear doubled
      (tells 3 ⟨0, 2⟩ [1] 230)).map (fun c => (c.verdict doubled
        (searchStart.runAll doubled (crew ++ (agreeing 2).take 3))).action) = some .accept := by
    decide +kernel
  obtain ⟨c, hc, haction⟩ := Option.map_eq_some_iff.mp hear
  exact ⟨c, published_iff searchStart_started (reach_runAll _ _ _) (hears_of_hear hc) (by decide)
    haction (step_next _ _ _)⟩

-- The trusted worker is on its own, and its answer is published as the other's.
theorem outvoted_answer_published :
    ¬ ∀ v e c, Reach (Step (searches { policy := .adaptive })) (fun _ _ => True) searchStart v →
      v.Hears (searches { policy := .adaptive }) e c →
      (c.verdict (searches { policy := .adaptive }) v).action = .accept →
      Backed (c.verdict (searches { policy := .adaptive }) v) c := by
  intro h
  have hear : ((searchStart.runAll (searches { policy := .adaptive }) trustRun).hear
      (searches { policy := .adaptive }) (tells 2 ⟨0, 18⟩ [2] 2030)).map (fun c =>
        let q := c.verdict (searches { policy := .adaptive })
          (searchStart.runAll (searches { policy := .adaptive }) trustRun)
        (q.action, q.agreeing, c.session.workerId)) = some (.accept, [⟨1, 0⟩], ⟨2, 0⟩) := by
    decide +kernel
  obtain ⟨c, hc, hruling⟩ := Option.map_eq_some_iff.mp hear
  obtain ⟨haction, hrest⟩ := Prod.mk.inj hruling
  obtain ⟨hagreeing, hworker⟩ := Prod.mk.inj hrest
  have hbacked := h _ _ c (reach_runAll _ trustRun _) (hears_of_hear hc) haction
  have hmem := hbacked.2
  rw [hagreeing, hworker] at hmem
  exact absurd hmem (by decide)

end Server

end P2pGpu.Coordinator
