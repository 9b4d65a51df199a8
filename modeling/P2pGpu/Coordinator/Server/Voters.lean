import P2pGpu.Coordinator.Server.Family

namespace P2pGpu.Coordinator

open P2pGpu.Protocol

-- Nobody is asked twice about a task, and it is never asked about more than `most` times.
structure Task.Polled (most : UInt32) (t : Task) : Prop where
  voters : (t.submissions.map Submission.worker).Nodup
  voted : ∀ s ∈ t.submissions, s.worker ∈ t.priorWorkers
  once : t.priorWorkers.Nodup
  holder : t.state = .leased → t.holder ∉ t.priorWorkers
  room : t.submissions.length < max 1 most.toNat

namespace JobManager

def Polled (most : UInt32) (m : JobManager) : Prop := ∀ id t, m.find id = some t → t.Polled most

section

variable {m m' n : JobManager} {l : Label} {id : TaskId} {t t' : Task} {answer : Submission}
  {action : QuorumAction} {quorum : QuorumConfig} {most : UInt32} {good : JobId → Prop}

theorem Polled.empty : Polled most {} := by
  intro id t h
  cases h

theorem polled_born (h : m.Born t) : t.Polled most where
  voters := by
    rw [h.submissions]
    exact List.nodup_nil
  voted s hs := by
    rw [h.submissions] at hs
    cases hs
  once := by
    rw [h.priorWorkers]
    exact List.nodup_nil
  holder _ hmem := by
    rw [h.priorWorkers] at hmem
    cases hmem
  room := by
    rw [h.submissions, List.length_nil]
    omega

theorem polled_loaned {a : Act} (h : t.Polled most) (hr : a.result t = some t') (ha : loans a) :
    t'.Polled most := by
  obtain ⟨hsubmissions, hprior, -, hholder⟩ := result_spares hr ha
  refine ⟨?_, ?_, ?_, fun hleased => ?_, ?_⟩
  · rw [hsubmissions]
    exact h.voters
  · rw [hsubmissions, hprior]
    exact h.voted
  · rw [hprior]
    exact h.once
  · rw [hprior]
    rcases hholder hleased with ⟨hold, hsame⟩ | hfree
    · rw [hsame]
      exact h.holder hold
    · exact hfree
  · rw [hsubmissions]
    exact h.room

theorem Polled.move (hd : m.Polled most) (hm : m.Minted) (hl : m.Spares l) (h : Move m l m') :
    m'.Polled most := by
  intro id t hf
  rcases h.find_eq hm id with ⟨heq, -⟩ | ⟨a, s, t', rfl, hs, hr, -, hf'⟩ |
    ⟨u, -, hborn, -, -, hf'⟩
  · exact hd id t (heq ▸ hf)
  · rw [hf] at hf'
    cases hf'
    exact polled_loaned (hd id s hs) hr (hl id a rfl)
  · rw [hf] at hf'
    cases hf'
    exact polled_born hborn

theorem Polled.moves {guard : JobManager → Label → Prop}
    (hguard : ∀ n l, guard n l → n.Spares l) (h : Moves guard m m') (hm : m.Minted)
    (hd : m.Polled most) : m'.Polled most := by
  have hinv := h.invariant (fun n => n.Minted ∧ n.Polled most) ⟨hm, hd⟩ fun n l n' hn hg hmove =>
    ⟨hmove.minted hn.1, hn.2.move hn.1 (hguard n l hg) hmove⟩
  exact hinv.2

-- One more answer fits where the cap lets one more be asked for.
theorem room_of_needMore (h : t.Polled most)
    (hroom : UInt32.ofNat (t.submissions ++ [answer]).length < most) :
    (t.submissions ++ [answer]).length < max 1 most.toNat := by
  have hold := h.room
  have hcap := most.toNat_lt
  rw [UInt32.lt_iff_toNat_lt, UInt32.toNat_ofNat'] at hroom
  simp only [List.length_append, List.length_singleton] at hroom ⊢
  by_cases hzero : most.toNat = 0
  · omega
  · have hsmall : t.submissions.length + 1 < 2 ^ 32 := by omega
    rw [Nat.mod_eq_of_lt hsmall] at hroom
    omega

-- The one who answers held the task, and so had not been asked before.
theorem polled_answered (h : t.Polled most) (hheld : t.isLeasedTo answer.worker)
    (hroom : action = .needMoreReplicas →
      UInt32.ofNat (t.submissions ++ [answer]).length < most) :
    (t.answered answer action).Polled most := by
  obtain ⟨hleased, hholder⟩ := isLeasedTo_iff.mp hheld
  have hnew : answer.worker ∉ t.priorWorkers := by
    rw [← hholder]
    exact h.holder hleased
  have honce : (t.priorWorkers ++ [answer.worker]).Nodup := by
    have hsingle : [answer.worker].Nodup := List.nodup_singleton _
    refine List.Nodup.append h.once hsingle fun w hw hmem => ?_
    rw [List.mem_singleton.mp hmem] at hw
    exact hnew hw
  have hnone : (0 : Nat) < max 1 most.toNat := by omega
  cases action with
  | needMoreReplicas =>
      refine ⟨?_, ?_, honce, nofun, room_of_needMore h (hroom rfl)⟩
      · have hvoters : ((t.submissions ++ [answer]).map Submission.worker).Nodup := by
          rw [List.map_append]
          refine List.Nodup.append h.voters (List.nodup_singleton _) fun w hw hmem => ?_
          obtain ⟨s, hs, rfl⟩ := List.mem_map.mp hw
          have hprior := h.voted s hs
          rw [List.mem_singleton.mp hmem] at hprior
          exact hnew hprior
        exact hvoters
      · intro s hs
        rcases List.mem_append.mp hs with hold | hlast
        · exact List.mem_append_left _ (h.voted s hold)
        · rw [List.mem_singleton.mp hlast]
          exact List.mem_append_right _ (List.mem_singleton_self _)
  | inconclusive => exact ⟨List.nodup_nil, nofun, honce, nofun, hnone⟩
  | accept => exact ⟨List.nodup_nil, nofun, honce, nofun, hnone⟩

theorem Polled.answers (hd : m.Polled quorum.maxReplicas)
    (h : Answers quorum m id answer action n) : n.Polled quorum.maxReplicas := by
  obtain ⟨t, hf, hheld, hjudged, hroom⟩ := h.judged
  intro i u hu
  by_cases hi : i = id
  · rw [hi, hjudged] at hu
    cases hu
    exact polled_answered (hd id t hf) hheld fun he => (hroom he).2
  · rw [h.others i hi] at hu
    exact hd i u hu

theorem Polled.cancels (hd : n.Polled most) (hm : n.Minted) :
    (n.cancelSiblingsOf id).2.Polled most := by
  have hmoves := cancelSiblingsOf_moves n id
  have hinv := hmoves.invariant (fun k => k.Minted ∧ k.Polled most) ⟨hm, hd⟩ ?_
  · exact hinv.2
  · rintro k l k' ⟨hk, hpolled⟩ ⟨u, -, hl⟩ hmove
    refine ⟨hmove.minted hk, fun i s hf => ?_⟩
    rcases hmove.find_eq hk i with ⟨heq, -⟩ | ⟨a, s', t', hact, hs', hr, -, hf'⟩ | ⟨v, he, -⟩
    · exact hpolled i s (heq ▸ hf)
    · rw [hf] at hf'
      cases hf'
      rcases hl with rfl | ⟨j, w, rfl, -⟩
      · cases hact
      · cases hact
        simp only [Act.result] at hr
        split at hr <;> cases hr
        have hold := hpolled i s' hs'
        exact ⟨hold.voters, hold.voted, hold.once, fun h => (by cases h), hold.room⟩
    · rcases hl with rfl | ⟨j, w, rfl, -⟩ <;> cases he

end

end JobManager

namespace Server

open JobManager

section

variable {F : Type} [Double F] {cfg : Config F} {v₀ v v' : Server F} {e : Event F}
  {id : TaskId} {t : Task} {good : JobId → Prop}

theorem polled_step (hs : v.jobs.Sound cfg.kernels good)
    (hd : v.jobs.Polled cfg.quorum.maxReplicas) (h : Step cfg v e v') :
    v'.jobs.Polled cfg.quorum.maxReplicas := by
  suffices hnext : (v.next cfg e).jobs.Polled cfg.quorum.maxReplicas by
    intro i u hu
    rw [h.rows.find_eq] at hu
    exact hnext i u hu
  rcases (next_deed cfg v e).spared hs with hspared | ⟨i, answer, action, hanswers, -⟩ |
    ⟨n, i, answer, hanswers, hjobs⟩
  · exact Polled.moves (fun _ _ hl => hl.2) hspared hs.minted hd
  · exact hd.answers hanswers
  · rw [hjobs]
    exact (hd.answers hanswers).cancels (hanswers.minted hs.minted)

theorem polled_of_run {guard : Server F → Event F → Prop} (h₀ : v₀.Started)
    (h : Reach (Step cfg) guard v₀ v) : v.jobs.Polled cfg.quorum.maxReplicas := by
  have hempty : v₀.jobs = {} := h₀.jobs
  exact keeps_of_run h₀ h (fun v => v.jobs.Polled cfg.quorum.maxReplicas)
    (by rw [hempty]; exact Polled.empty) fun _ _ _ _ hs _ hd hstep => polled_step hs hd hstep

-- No two votes on a task are of one worker, and there are fewer than the cap.
theorem distinct_voters (h₀ : v₀.Started) (h : Reach (Step cfg) (fun _ _ => True) v₀ v)
    (hf : v.jobs.find id = some t) :
    (t.submissions.map Submission.worker).Nodup ∧
      (∀ s ∈ t.submissions, s.worker ∈ t.priorWorkers) ∧ t.priorWorkers.Nodup ∧
      t.submissions.length < max 1 cfg.quorum.maxReplicas.toNat := by
  have htask := polled_of_run h₀ h id t hf
  exact ⟨htask.voters, htask.voted, htask.once, htask.room⟩

end

-- Two workers have answered, and the third one is asked.
def thriceRun : List (Event Rat) :=
  .createJob "brute_search_v1" 1000 7 0 :: joins 1 10 80 ++ joins 2 10 80 ++ joins 3 10 80 ++
    [asks 1 20, tells 1 ⟨0, 2⟩ [1] 30, asks 2 40, tells 2 ⟨0, 2⟩ [2] 50, asks 3 60]

theorem distinct_voters_search :
    ∃ t, (searchStart.runAll (searches { policy := .fixed2x }) thriceRun).jobs.find ⟨0, 2⟩ =
        some t ∧ (t.submissions.length, t.holder) = (2, ⟨3, 0⟩) ∧
      (t.submissions.map Submission.worker).Nodup ∧
        (∀ s ∈ t.submissions, s.worker ∈ t.priorWorkers) ∧ t.priorWorkers.Nodup ∧
        t.submissions.length < max 1 (4 : UInt32).toNat := by
  have hrun : ∃ t, (searchStart.runAll (searches { policy := .fixed2x }) thriceRun).jobs.find
      ⟨0, 2⟩ = some t ∧ (t.submissions.length, t.holder) = (2, ⟨3, 0⟩) :=
    Option.map_eq_some_iff.mp (by decide +kernel)
  obtain ⟨t, ht, hstate⟩ := hrun
  exact ⟨t, ht, hstate, distinct_voters searchStart_started (reach_runAll _ thriceRun _) ht⟩

end Server

end P2pGpu.Coordinator
