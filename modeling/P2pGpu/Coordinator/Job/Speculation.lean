import P2pGpu.Coordinator.Job.Siblings

namespace P2pGpu.Coordinator

open P2pGpu.Protocol

namespace JobManager

-- A replica repeats an original, and nobody else does while it is live.
structure Speculated (m : JobManager) : Prop where
  original : ∀ {i t}, m.find i = some t → t.replicaOf ≠ Id.nil →
    ∃ o, m.find t.replicaOf = some o ∧ o.replicaOf = Id.nil ∧ o.job = t.job ∧
      o.startUnit = t.startUnit ∧ o.unitCount = t.unitCount
  lone : ∀ {i j s t}, m.find i = some s → m.find j = some t → s.replicaOf = t.replicaOf →
    s.replicaOf ≠ Id.nil → isTerminal s.state = false → isTerminal t.state = false → i = j

-- The replica is one that the operation sets against an original near the end of its
-- job, and somebody else is at work on that.
def Races {F : Type} [Double F] (m : JobManager) (o : Operation F) (t : Task) : Prop :=
  ∃ nowMs leaseMs threshold job original,
    o = .issueSpeculative t.holder nowMs leaseMs threshold ∧
      m.findJob t.job = some job ∧ job.keyspaceExhausted = true ∧
      ¬ m.completionFraction F t.job < threshold ∧
      m.find t.replicaOf = some original ∧ original.state = .leased ∧
      original.holder ≠ t.holder ∧ t.holder ∉ original.priorWorkers

section

variable {m m' : JobManager} {l : Label} {worker : WorkerId} {id i j : TaskId} {t t' s : Task}
  {good : JobId → Prop}

-- A live replica was there before, or it is the one that is entered.
theorem Move.replica_was (h : Move m l m') (hm : m.Minted) (hf : m'.find i = some t)
    (hreplica : t.replicaOf ≠ Id.nil) :
    (∃ s, m.find i = some s ∧ s.replicaOf = t.replicaOf ∧
        (isTerminal t.state = false → isTerminal s.state = false)) ∨
      (l = .replica t ∧ t.id = i) := by
  rcases h.find_eq hm i with ⟨heq, -⟩ | ⟨a, s, t', -, hs, hr, -, hf'⟩ |
    ⟨u, hent, -, hid, -, hf'⟩
  · exact .inl ⟨t, heq ▸ hf, rfl, fun hlive => hlive⟩
  · rw [hf] at hf'
    cases hf'
    obtain ⟨-, -, -, hsame⟩ := Act.result_shape hr
    refine .inl ⟨s, hs, hsame.symm, fun hlive => ?_⟩
    cases hterminal : isTerminal s.state with
    | false => rfl
    | true => rw [result_terminal hr hterminal, hterminal] at hlive; cases hlive
  · rw [hf] at hf'
    cases hf'
    cases h with
    | carve job tile t units hjob hleft hborn horig =>
        cases hent
        exact absurd horig hreplica
    | probe job t hjob hborn horig =>
        cases hent
        exact absurd horig hreplica
    | replica job original t =>
        cases hent
        exact .inr ⟨rfl, hid⟩
    | create => cases hent
    | edit => cases hent
    | mint => cases hent
    | act => cases hent
    | aux => cases hent
    | flush => cases hent

-- Where a race is started, the races that there were for the original are over.
theorem Move.replica_first (h : Move m (.replica t) m') (hm : m.Minted) (hp : m.Partition good)
    (he : m.Enrolled) (hf : m.find i = some s) (hsame : s.replicaOf = t.replicaOf) :
    isTerminal s.state = true := by
  cases h with
  | replica job original t hjob hmem hfind horig hborn hstart hcount hrace =>
      obtain ⟨-, -, -, -, -, hlone⟩ := speculable_some hrace
      have hnil : t.replicaOf ≠ Id.nil := hm.ne_nil hfind
      have hown : s.job = t.job := by
        obtain ⟨o, ho, -, hojob, -⟩ := hp.family hf (hsame ▸ hnil)
        rw [hsame, hfind] at ho
        cases ho
        exact hojob.symm.trans (hp.member hjob hmem hfind).own
      exact replica_terminal he (hown ▸ hjob) hlone hf hsame hnil

def Lone (m : JobManager) : Prop :=
  ∀ i j s t, m.find i = some s → m.find j = some t → s.replicaOf = t.replicaOf →
    s.replicaOf ≠ Id.nil → isTerminal s.state = false → isTerminal t.state = false → i = j

theorem Lone.empty : Lone {} := by
  intro i j s t h
  cases h

theorem Lone.move (hlone : m.Lone) (hm : m.Minted) (hp : m.Partition good) (he : m.Enrolled)
    (h : Move m l m') : m'.Lone := by
  -- Whoever was there before is no longer live where another one comes in.
  have hfirst : ∀ {k : TaskId} {u v : Task}, m.find k = some u → u.replicaOf = v.replicaOf →
      isTerminal u.state = false → l ≠ .replica v := by
    rintro k u v hu hsame hlive rfl
    have hdone := h.replica_first hm hp he hu hsame
    rw [hlive] at hdone
    cases hdone
  intro i j s t hi hj hsame hreplica hs ht
  rcases h.replica_was hm hi hreplica with ⟨s₀, hs₀, hrs, hlive⟩ | ⟨hl, hid⟩
  · rcases h.replica_was hm hj (hsame ▸ hreplica) with ⟨t₀, ht₀, hrt, hlive'⟩ | ⟨hl, -⟩
    · have hboth : s₀.replicaOf = t₀.replicaOf := hrs.trans (hsame.trans hrt.symm)
      exact hlone i j s₀ t₀ hs₀ ht₀ hboth (hrs ▸ hreplica) (hlive hs) (hlive' ht)
    · exact absurd hl (hfirst hs₀ (hrs.trans hsame) (hlive hs))
  · rcases h.replica_was hm hj (hsame ▸ hreplica) with ⟨t₀, ht₀, hrt, hlive'⟩ | ⟨hl', hid'⟩
    · exact absurd hl (hfirst ht₀ (hrt.trans hsame.symm) (hlive' ht))
    · rw [hl] at hl'
      cases hl'
      exact hid.symm.trans hid'

end

section

variable {F : Type} [Double F] {m m' : JobManager} {o : Operation F} {i : TaskId} {t : Task}
  {good : JobId → Prop}

-- The original that is raced next is one that may be.
theorem nextRaced_some {worker : WorkerId} {threshold : F} {jobId : JobId} {id : TaskId}
    {original : Task} (h : m.nextRaced worker threshold = some (jobId, id, original)) :
    ∃ job, m.findJob jobId = some job ∧ job.keyspaceExhausted = true ∧
      ¬ m.completionFraction F jobId < threshold ∧ id ∈ job.tasks ∧
      m.speculable worker job id = some original := by
  unfold nextRaced at h
  obtain ⟨⟨k, job⟩, hmem, hjob⟩ := List.exists_of_findSome?_eq_some h
  dsimp only at hjob
  split at hjob
  · cases hjob
  · rename_i hnear
    rw [not_or] at hnear
    obtain ⟨hspent, hfar⟩ := hnear
    obtain ⟨j, hj, hspec⟩ := List.exists_of_findSome?_eq_some hjob
    obtain ⟨u, hu, he⟩ := Option.map_eq_some_iff.mp hspec
    cases he
    exact ⟨job, Table.mem_entries_iff.mp hmem, by simpa using hspent, hfar, hj, hu⟩

-- What a race that is started enters, and for whom.
theorem issueSpeculative_find {worker : WorkerId} {nowMs : UInt64} {leaseMs : UInt32}
    {threshold : F} (hm : m.Minted)
    (hf : (m.issueSpeculative worker nowMs leaseMs threshold).2.find i = some t) :
    m.find i = some t ∨ (t.holder = worker ∧
      ∃ original, m.nextRaced worker threshold = some (t.job, t.replicaOf, original)) := by
  cases hnext : m.nextRaced worker threshold with
  | none =>
      unfold nextRaced at hnext
      unfold issueSpeculative at hf
      simp only [hnext] at hf
      exact .inl hf
  | some target =>
      obtain ⟨jobId, id, original⟩ := target
      unfold nextRaced at hnext
      unfold issueSpeculative at hf
      simp only [hnext] at hf
      have hentered : ∀ (n : JobManager) (u : Task), n.tasks = m.tasks → u.id = m.mint.1 →
          (n.addTask u).find i = if i = m.mint.1 then some u else m.find i := by
        intro n u hsame hid
        have hfresh : m.tasks.lookup u.id = none := hid ▸ hm.fresh
        show (n.tasks.emplace u.id u).lookup i = _
        rw [hsame, Table.lookup_emplace m.tasks u.id i u hfresh, hid]
        rfl
      rw [hentered (m.mint.2.mutableJob jobId _) _ rfl rfl] at hf
      split at hf
      · cases hf
        exact .inr ⟨rfl, original, rfl⟩
      · exact .inl hf

end

section

variable {F : Type} {m : JobManager} {o : Operation F} {l : Label}

theorem takes_no_replica (h : Takes o m l) (ho : ∀ worker nowMs leaseMs threshold,
    o ≠ .issueSpeculative worker nowMs leaseMs threshold) (t : Task) : l ≠ .replica t := by
  rintro rfl
  cases o with
  | issueSpeculative worker nowMs leaseMs threshold =>
      exact ho worker nowMs leaseMs threshold rfl
  | createJob => cases h
  | mutableJob => cases h
  | grant => cases h.2
  | issueKnownRange => cases h.2
  | clearDirty => cases h
  | _ => exact h.elim

end

section

variable {F : Type} [Double F] {m m' : JobManager} {o : Operation F} {i : TaskId} {t : Task}
  {good : JobId → Prop}

theorem run_races (hm : m.Minted) (ho : KeepsShape o) (hf : (o.run m).find i = some t)
    (hreplica : t.replicaOf ≠ Id.nil) :
    (∃ s, m.find i = some s ∧ s.replicaOf = t.replicaOf) ∨ m.Races o t := by
  by_cases hspec : ∃ worker nowMs leaseMs threshold,
      o = .issueSpeculative worker nowMs leaseMs threshold
  · obtain ⟨worker, nowMs, leaseMs, threshold, rfl⟩ := hspec
    rcases issueSpeculative_find hm hf with hold | ⟨rfl, original, hnext⟩
    · exact .inl ⟨t, hold, rfl⟩
    · obtain ⟨job, hjob, hspent, hnear, -, hraced⟩ := nextRaced_some hnext
      obtain ⟨hfind, hleased, -, hother, hfree, -⟩ := speculable_some hraced
      exact .inr ⟨nowMs, leaseMs, threshold, job, original, rfl, hjob, hspent, hnear, hfind, hleased,
        hother, hfree⟩
  · left
    by_cases hseed : ∃ render inputRef, o = .seedRender render inputRef
    · obtain ⟨render, inputRef, rfl⟩ := hseed
      exact ⟨t, hf, rfl⟩
    · have hreq : o.requeuesLeased := by
        cases o <;> trivial
      have hmoves := run_moves (m := m) o hreq fun render inputRef he => hseed ⟨render, inputRef, he⟩
      have hinv := hmoves.invariant (fun n => n.Minted ∧ ∀ u, n.find i = some u →
        u.replicaOf ≠ Id.nil → ∃ s, m.find i = some s ∧ s.replicaOf = u.replicaOf)
        ⟨hm, fun u hu _ => ⟨u, hu, rfl⟩⟩ ?_
      · exact hinv.2 t hf hreplica
      · rintro n l n' ⟨hn, hold⟩ hl hmove
        refine ⟨hmove.minted hn, fun u hu hnil => ?_⟩
        rcases hmove.replica_was hn hu hnil with ⟨w, hw, hsame, -⟩ | ⟨he, -⟩
        · obtain ⟨s, hs, hs'⟩ := hold w hw (hsame ▸ hnil)
          exact ⟨s, hs, hs'.trans hsame⟩
        · refine absurd he (takes_no_replica hl (fun worker nowMs leaseMs threshold heq => ?_) u)
          exact hspec ⟨worker, nowMs, leaseMs, threshold, heq⟩

theorem step_lone (h : Step m o m') (hshape : KeepsShape o) (hm : m.Minted)
    (hp : m.Partition good) (he : m.Enrolled) (hlone : m.Lone) : m'.Lone := by
  have hinv := (run_seeds hshape hp.fresh).invariant
    (fun n => (n.Minted ∧ n.Partition good) ∧ n.Enrolled ∧ n.Lone) ⟨⟨hm, hp⟩, he, hlone⟩
    fun n l n' hi hl hmove => ⟨⟨hmove.minted hi.1.1, hi.1.2.move hi.1.1 hmove hl.1⟩,
      hi.2.1.move hi.1.1 hi.1.2 hmove hl.1, hi.2.2.move hi.1.1 hi.1.2 hi.2.1 hmove⟩
  exact hinv.2.2.move hinv.1.1 hinv.1.2 hinv.2.1 (Move.aux _ _ h.sameRows)

theorem speculated_of (hp : m.Partition good) (hlone : m.Lone) : m.Speculated where
  original hf hreplica := by
    obtain ⟨o, ho, horig, hjob, hspan⟩ := hp.family hf hreplica
    exact ⟨o, ho, horig, hjob, UInt64.toNat_inj.mp (congrArg Span.start hspan),
      UInt64.toNat_inj.mp (congrArg Span.count hspan)⟩
  lone hi hj hsame hreplica hs ht := hlone _ _ _ _ hi hj hsame hreplica hs ht

-- A task that is a replica, and was none before, was raced for by the operation.
def FairRaces (m : JobManager) (o : Operation F) (m' : JobManager) : Prop :=
  ∀ i t, m'.find i = some t → t.replicaOf ≠ Id.nil →
    (∃ s, m.find i = some s ∧ s.replicaOf = t.replicaOf) ∨ m.Races o t

-- Races are well formed in every state, and only the operation that is there for it
-- starts one, near the end of a job and against somebody else.
theorem races_of_run (h : Reach Step (fun _ (o : Operation F) => KeepsShape o) {} m) :
    m.Speculated ∧ ∀ (o : Operation F) m', KeepsShape o → Step m o m' → m.FairRaces o m' := by
  have hinv := h.invariant
    (fun n => (n.Minted ∧ n.Partition fun _ => False) ∧ n.Enrolled ∧ n.Lone)
    ⟨⟨Minted.empty, Partition.empty⟩, Enrolled.empty, Lone.empty⟩ fun n o n' hi hg hstep =>
      ⟨step_partition hstep hg hi.1.1 hi.1.2, step_enrolled hstep hg hi.1.1 hi.1.2 hi.2.1,
        step_lone hstep hg hi.1.1 hi.1.2 hi.2.1 hi.2.2⟩
  obtain ⟨⟨hm, hp⟩, -, hlone⟩ := hinv
  refine ⟨speculated_of hp hlone, fun o m' ho hstep i t hf hreplica => ?_⟩
  rw [hstep.sameRows.find_eq] at hf
  exact run_races hm ho hf hreplica

end

end JobManager

end P2pGpu.Coordinator
