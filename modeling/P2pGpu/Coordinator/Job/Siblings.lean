import P2pGpu.Coordinator.Job.Family

namespace P2pGpu.Coordinator

open P2pGpu.Protocol

-- The worker has submitted a result for the task, or holds it.
def Task.Engages (t : Task) (worker : WorkerId) : Prop :=
  worker ∈ t.priorWorkers ∨ t.isLeasedTo worker

namespace JobManager

-- The task at a place of the queue, if it may go to the worker.
def freeAt (m : JobManager) (worker : WorkerId) (place : Nat) : Option Task :=
  (m.queue[place]?).bind fun id => (m.find id).filter fun t =>
    t.state = .queued ∧ (checkReplicaAssignment t.priorWorkers worker).isOk

-- The queued task that a grant comes to first.
def nextQueued (m : JobManager) (worker : WorkerId) (cached : List AssetId) : Option Task :=
  (m.grantOrder cached).findSome? (m.freeAt worker)

-- The original that is raced next, with its job.
def nextRaced {F : Type} [Double F] (m : JobManager) (worker : WorkerId) (threshold : F) :
    Option (JobId × TaskId × Task) :=
  m.jobs.entries.findSome? fun ⟨jobId, job⟩ =>
    if !job.keyspaceExhausted ∨ m.completionFraction F jobId < threshold then none
    else job.tasks.findSome? fun id =>
      (m.speculable worker job id).map fun original => (jobId, id, original)

-- Nobody of the family is, or was, at the worker.
def Unengaged (m : JobManager) (worker : WorkerId) (family : TaskId) : Prop :=
  ∀ i s, m.find i = some s → s.family = family → ¬ s.Engages worker

-- A worker is at most at one task of a family, and has not submitted what it holds.
structure Apart (m : JobManager) : Prop where
  siblings : ∀ {i j s t worker}, m.find i = some s → m.find j = some t → s.family = t.family →
    s.Engages worker → t.Engages worker → i = j
  holder : ∀ {i t}, m.find i = some t → t.state = .leased → t.holder ∉ t.priorWorkers

-- What an operation leases out, and to whom.
def leased {F : Type} [Double F] (m : JobManager) : Operation F → Option Task
  | .grant worker nowMs leaseMs units cached => (m.grant worker nowMs leaseMs units cached).1
  | .issueSpeculative worker nowMs leaseMs threshold =>
      (m.issueSpeculative worker nowMs leaseMs threshold).1
  | _ => none

-- A task only goes to a worker that has nothing of its family.
def Assigns {F : Type} [Double F] (m : JobManager) (o : Operation F) : Prop :=
  ∀ t, m.leased o = some t → m.Unengaged t.holder t.family

-- The task that a grant comes to has no sibling at the worker, and the original that
-- is raced none that the worker has submitted.
def SiblingsFree {F : Type} [Double F] (m : JobManager) : Operation F → Prop
  | .grant worker _ _ _ cached => ∀ t, m.nextQueued worker cached = some t →
      ∀ i s, m.find i = some s → i ≠ t.id → s.family = t.family → ¬ s.Engages worker
  | .issueSpeculative worker _ _ threshold => ∀ jobId id original,
      m.nextRaced worker threshold = some (jobId, id, original) →
        ∀ i s, m.find i = some s → s.replicaOf = id → worker ∉ s.priorWorkers
  | _ => True

section

variable {m m' : JobManager} {l : Label} {worker w : WorkerId} {nowMs : UInt64}
  {leaseMs : UInt32} {units : UInt64} {cached : List AssetId} {id i : TaskId} {t t' s : Task}
  {good : JobId → Prop}

theorem Apart.empty : Apart {} where
  siblings h := by cases h
  holder h := by cases h

theorem not_engages_queued (hs : t.state = .queued) (hw : w ∉ t.priorWorkers) : ¬ t.Engages w := by
  rintro (hprior | hheld)
  · exact hw hprior
  · rw [(isLeasedTo_iff.mp hheld).1] at hs
    cases hs

variable (m worker nowMs leaseMs) in
theorem nextQueued_scan (order : List Nat) :
    (m.grantQueued worker nowMs leaseMs order).map Prod.fst =
      (order.findSome? (m.freeAt worker)).map fun t =>
        t.lentTo worker (nowMs + leaseMs.toUInt64) := by
  induction order with
  | nil => rfl
  | cons place order ih =>
      unfold grantQueued
      rw [List.findSome?_cons]
      cases hplace : m.queue[place]? with
      | none =>
          have hfree : m.freeAt worker place = none := by rw [freeAt, hplace, Option.bind_none]
          rw [hfree]
          exact ih
      | some id =>
          cases hfind : m.find id with
          | none =>
              have hfree : m.freeAt worker place = none := by
                rw [freeAt, hplace, Option.bind_some, hfind, Option.filter_none]
              rw [hfree]
              simp only [hfind]
              exact ih
          | some t =>
              have hat : m.freeAt worker place = (some t).filter fun t =>
                  t.state = .queued ∧ (checkReplicaAssignment t.priorWorkers worker).isOk := by
                rw [freeAt, hplace, Option.bind_some, hfind]
              by_cases hok : (checkReplicaAssignment t.priorWorkers worker).isOk = true
              · by_cases hstate : t.state = .queued
                · rw [hat, Option.filter_some, if_pos (by simp [hstate, hok])]
                  simp only [hfind, hok, if_true, apply, hstate, advance, Option.map_some]
                  rfl
                · have hnext : ∃ e, m.apply id t .grant = .error e := by
                    unfold apply
                    cases hadvance : advance t.state .grant with
                    | error e => exact ⟨e, rfl⟩
                    | ok next => exact absurd (advance_grant.mp hadvance).1 hstate
                  obtain ⟨e, he⟩ := hnext
                  rw [hat, Option.filter_some, if_neg (by simp [hstate])]
                  simp only [hfind, hok, if_true, he]
                  exact ih
              · rw [hat, Option.filter_some, if_neg (by simp [hok])]
                simp only [hfind, hok]
                exact ih

-- A grant hands out the queued task that it comes to first.
theorem grant_queued (h : m.nextQueued worker cached = some t) :
    (m.grant worker nowMs leaseMs units cached).1 =
      some (t.lentTo worker (nowMs + leaseMs.toUInt64)) := by
  have hscan := nextQueued_scan m worker nowMs leaseMs (m.grantOrder cached)
  unfold nextQueued at h
  rw [h, Option.map_some] at hscan
  obtain ⟨r, hr, hfst⟩ := Option.map_eq_some_iff.mp hscan
  unfold grant
  rw [hr]
  exact congrArg some hfst

theorem nextQueued_find (h : m.nextQueued worker cached = some t) :
    ∃ id, m.find id = some t ∧ t.state = .queued ∧ worker ∉ t.priorWorkers := by
  obtain ⟨place, -, hplace⟩ := List.exists_of_findSome?_eq_some h
  obtain ⟨id, -, hid⟩ := Option.bind_eq_some_iff.mp hplace
  obtain ⟨hfind, hok⟩ := Option.filter_eq_some_iff.mp hid
  obtain ⟨hstate, hfree⟩ := of_decide_eq_true hok
  exact ⟨id, hfind, hstate, checkReplicaAssignment_isOk.mp hfree⟩

-- A task that has just been carved is nobody's sibling.
structure Unrelated (m : JobManager) (t : Task) : Prop where
  id : ∃ n, m.nextId ≤ n ∧ t.id = ⟨0, n⟩
  original : t.replicaOf = Id.nil
  priorWorkers : t.priorWorkers = []

theorem Unrelated.family_ne (h : m.Unrelated t) (hm : m.Minted) (hp : m.Partition good)
    (hf : m.find i = some s) : s.family ≠ t.family := by
  obtain ⟨n, hn, hid⟩ := h.id
  have hnone : m.find t.id = none := by
    cases hold : m.find t.id with
    | none => rfl
    | some u =>
        obtain ⟨-, k, -, hk, heq⟩ := hm.task hold
        rw [hid] at heq
        have := Id.mk_zero_inj.mp heq
        omega
  intro he
  rw [Task.family, Task.family, if_pos h.original] at he
  by_cases hroot : s.replicaOf = Id.nil
  · rw [if_pos hroot, hm.id_eq hf] at he
    rw [← he, hf] at hnone
    cases hnone
  · rw [if_neg hroot] at he
    obtain ⟨o, ho, -⟩ := hp.family hf hroot
    rw [he, hnone] at ho
    cases ho

theorem carveFrom_unrelated (entries : List (Sigma fun _ : JobId => Job)) (m : JobManager)
    (h : (carveFrom worker nowMs leaseMs units cached entries m).1 = some t) :
    m.Unrelated t ∧ t.holder = worker := by
  induction entries generalizing m with
  | nil => cases h
  | cons e entries ih =>
      have hskip : (carveFrom worker nowMs leaseMs units cached entries m.mint.2).1 = some t →
          m.Unrelated t ∧ t.holder = worker := by
        intro hrest
        obtain ⟨⟨⟨n, hn, hid⟩, horig, hprior⟩, hholder⟩ := ih m.mint.2 hrest
        have hlater : m.nextId + 1 ≤ n := hn
        exact ⟨⟨⟨n, by omega, hid⟩, horig, hprior⟩, hholder⟩
      unfold carveFrom at h
      split at h
      · exact ih m h
      · dsimp only at h
        split at h
        · exact hskip h
        · split at h
          · exact hskip h
          · cases h
            exact ⟨⟨⟨m.nextId, Nat.le_refl _, rfl⟩, rfl, rfl⟩, rfl⟩

-- What a grant hands out was queued, or is new.
theorem grant_cases (h : (m.grant worker nowMs leaseMs units cached).1 = some t) :
    (∃ s, m.nextQueued worker cached = some s ∧ t = s.lentTo worker (nowMs + leaseMs.toUInt64)) ∨
      (m.Unrelated t ∧ t.holder = worker) := by
  cases hnext : m.nextQueued worker cached with
  | some s =>
      rw [grant_queued hnext] at h
      exact .inl ⟨s, rfl, (Option.some.inj h).symm⟩
  | none =>
      refine .inr ?_
      have hscan := nextQueued_scan m worker nowMs leaseMs (m.grantOrder cached)
      unfold nextQueued at hnext
      rw [hnext, Option.map_none, Option.map_eq_none_iff] at hscan
      unfold grant at h
      rw [hscan] at h
      dsimp only at h
      split at h
      · cases h
      · exact carveFrom_unrelated _ m h

-- A race is started for the original that comes first, or for none.
theorem issueSpeculative_cases {F : Type} [Double F] (m : JobManager) (worker : WorkerId)
    (nowMs : UInt64) (leaseMs : UInt32) (threshold : F) :
    (m.nextRaced worker threshold = none ∧
        (m.issueSpeculative worker nowMs leaseMs threshold).1 = none) ∨
      ∃ jobId job id original t, m.nextRaced worker threshold = some (jobId, id, original) ∧
        m.findJob jobId = some job ∧ id ∈ job.tasks ∧
        m.speculable worker job id = some original ∧
        (m.issueSpeculative worker nowMs leaseMs threshold).1 = some t ∧ t.replicaOf = id ∧
        t.holder = worker ∧ t.priorWorkers = [] := by
  cases hnext : m.nextRaced worker threshold with
  | none =>
      refine .inl ⟨rfl, ?_⟩
      unfold nextRaced at hnext
      unfold issueSpeculative
      simp only [hnext]
  | some target =>
      obtain ⟨jobId, id, original⟩ := target
      have hraced := hnext
      unfold nextRaced at hnext
      obtain ⟨⟨j, job⟩, hmem, hjob⟩ := List.exists_of_findSome?_eq_some hnext
      dsimp only at hjob
      split at hjob
      · cases hjob
      · obtain ⟨i, hi, hspec⟩ := List.exists_of_findSome?_eq_some hjob
        obtain ⟨u, hu, he⟩ := Option.map_eq_some_iff.mp hspec
        cases he
        let replica : Task :=
          { id := m.mint.1, job := jobId, replicaOf := id, startUnit := original.startUnit
            unitCount := original.unitCount, state := .leased
            holder := worker, leaseExpiresAtMs := nowMs + leaseMs.toUInt64 }
        have hreplica : (m.issueSpeculative worker nowMs leaseMs threshold).1 = some replica := by
          unfold issueSpeculative
          simp only [hnext]
          rfl
        exact .inr ⟨jobId, job, id, original, replica, rfl, Table.mem_entries_iff.mp hmem, hi, hu,
          hreplica, rfl, rfl, rfl⟩

-- What is still live of a raced family is in the list of its job.
theorem replica_terminal {job : Job} (he : m.Enrolled)
    (hjob : m.findJob s.job = some job) (hlone : m.hasLiveReplica job id = false)
    (hf : m.find i = some s) (hreplica : s.replicaOf = id) (hid : id ≠ Id.nil) :
    isTerminal s.state = true := by
  obtain ⟨job', hjob', hmem, -⟩ := he i s hf (hreplica ▸ hid)
  rw [hjob] at hjob'
  cases hjob'
  have hany := List.any_eq_false.mp hlone i hmem
  simp only [hf, hreplica, decide_true, Bool.true_and, Bool.not_eq_true, Bool.not_eq_false'] at hany
  exact hany

section

variable {F : Type} [Double F] {o : Operation F} {threshold : F}

theorem grant_assigns (hm : m.Minted) (hp : m.Partition good) :
    m.Assigns (.grant worker nowMs leaseMs units cached : Operation F) ↔
      m.SiblingsFree (.grant worker nowMs leaseMs units cached : Operation F) := by
  constructor
  · intro hassign t hnext i s hf hne hfamily
    have hlent := hassign _ (grant_queued hnext)
    exact hlent i s hf hfamily
  · intro hfree t ht
    rcases grant_cases ht with ⟨u, hnext, rfl⟩ | ⟨hnew, hholder⟩
    · obtain ⟨id, hfind, hstate, hprior⟩ := nextQueued_find hnext
      intro i s hf hfamily
      by_cases hi : i = u.id
      · rw [hi, hm.id_eq hfind, hfind] at hf
        cases hf
        exact not_engages_queued hstate hprior
      · exact hfree u hnext i s hf hi hfamily
    · intro i s hf hfamily
      exact absurd hfamily (hnew.family_ne hm hp hf)

theorem issueSpeculative_assigns (hm : m.Minted) (hp : m.Partition good) (he : m.Enrolled) :
    m.Assigns (.issueSpeculative worker nowMs leaseMs threshold) ↔
      m.SiblingsFree (.issueSpeculative worker nowMs leaseMs threshold) := by
  rcases issueSpeculative_cases m worker nowMs leaseMs threshold with ⟨hnone, hr⟩ |
    ⟨jobId, job, id, original, t, hnext, hjob, hlisted, hspec, hr, rfl, hholder, hprior⟩
  · refine ⟨fun _ jobId id original hnext => ?_, fun _ t ht => ?_⟩
    · rw [hnone] at hnext
      cases hnext
    · rw [leased, hr] at ht
      cases ht
  · obtain ⟨hfind, hleased, horig, hother, hfree, hlone⟩ := speculable_some hspec
    have hnil : t.replicaOf ≠ Id.nil := hm.ne_nil hfind
    have htfamily : t.family = t.replicaOf := by rw [Task.family, if_neg hnil]
    refine ⟨fun hassign jobId' id' original' hnext' i s hf hreplica => ?_, fun hsib u hu => ?_⟩
    · rw [hnext] at hnext'
      cases hnext'
      have hsfamily : s.family = t.family := by
        rw [htfamily, Task.family, hreplica, if_neg hnil]
      have hun := hassign t hr i s hf hsfamily
      rw [hholder] at hun
      exact fun hmem => hun (.inl hmem)
    · rw [leased, hr] at hu
      cases hu
      intro i s hf hsfamily
      rw [hholder]
      rw [htfamily] at hsfamily
      by_cases hroot : s.replicaOf = Id.nil
      · -- The original itself.
        rw [Task.family, if_pos hroot, hm.id_eq hf] at hsfamily
        rw [hsfamily, hfind] at hf
        cases hf
        rintro (hmem | hheld)
        · exact hfree hmem
        · exact hother (isLeasedTo_iff.mp hheld).2
      · rw [Task.family, if_neg hroot] at hsfamily
        have hown : s.job = jobId := by
          obtain ⟨o, ho, -, hojob, -⟩ := hp.family hf hroot
          rw [hsfamily, hfind] at ho
          cases ho
          exact hojob.symm.trans (hp.member hjob hlisted hfind).own
        have hdone := replica_terminal he (hown ▸ hjob) hlone hf hsfamily hnil
        rintro (hmem | hheld)
        · exact hsib _ _ _ hnext i s hf hsfamily hmem
        · rw [(isLeasedTo_iff.mp hheld).1] at hdone
          cases hdone

end

-- A move that leases nothing out engages nobody.
structure Leaves (_ : JobManager) (l : Label) : Prop where
  entered : l.entered = none
  grants : ∀ id place worker deadline, l ≠ .act id (.grant place worker deadline)

theorem engages_result {a : Act} (hr : a.result t = some t')
    (ha : ∀ place worker deadline, a ≠ .grant place worker deadline) (h : t'.Engages w) :
    t.Engages w := by
  have hkept : t'.priorWorkers = t.priorWorkers →
      (t'.state = .leased → t.state = .leased ∧ t'.holder = t.holder) → t.Engages w := by
    intro hprior hlease
    rcases h with hmem | hheld
    · exact .inl (hprior ▸ hmem)
    · obtain ⟨hleased, hholder⟩ := isLeasedTo_iff.mp hheld
      obtain ⟨hold, hsame⟩ := hlease hleased
      exact .inr (isLeasedTo_iff.mpr ⟨hold, hsame.symm.trans hholder⟩)
  cases a with
  | grant place worker deadline => exact absurd rfl (ha place worker deadline)
  | submit worker =>
      simp only [Act.result] at hr
      split at hr <;> cases hr
      rename_i hstate
      rcases h with hmem | hheld
      · rcases List.mem_append.mp hmem with hold | hlast
        · exact .inl hold
        · rw [List.mem_singleton.mp hlast]
          exact .inr (isLeasedTo_iff.mpr hstate)
      · cases hheld
  | renew worker deadline =>
      simp only [Act.result] at hr
      split at hr <;> cases hr
      exact hkept rfl fun hl => ⟨hl, rfl⟩
  | requeue =>
      simp only [Act.result] at hr
      split at hr <;> cases hr
      exact hkept rfl fun h => by cases h
  | replicate drop =>
      simp only [Act.result] at hr
      split at hr <;> cases hr
      exact hkept rfl fun h => by cases h
  | record submission =>
      cases hr
      exact hkept rfl fun hl => ⟨hl, rfl⟩
  | finish accepted =>
      simp only [Act.result] at hr
      split at hr <;> cases hr
      exact hkept rfl fun hl => by cases accepted <;> cases hl
  | cancel =>
      simp only [Act.result] at hr
      split at hr <;> cases hr
      exact hkept rfl fun h => by cases h

theorem holder_result {a : Act} (hr : a.result t = some t')
    (ha : ∀ place worker deadline, a ≠ .grant place worker deadline) (hl : t'.state = .leased) :
    t.state = .leased ∧ t'.holder = t.holder ∧ t'.priorWorkers = t.priorWorkers := by
  cases a with
  | grant place worker deadline => exact absurd rfl (ha place worker deadline)
  | record submission =>
      cases hr
      exact ⟨hl, rfl, rfl⟩
  | renew worker deadline =>
      simp only [Act.result] at hr
      split at hr <;> cases hr
      exact ⟨hl, rfl, rfl⟩
  | finish accepted =>
      simp only [Act.result] at hr
      split at hr <;> cases hr
      cases accepted <;> cases hl
  | _ =>
      simp only [Act.result] at hr
      split at hr <;> cases hr
      cases hl

theorem Apart.move (ha : m.Apart) (hm : m.Minted) (hl : m.Leaves l) (h : Move m l m') :
    m'.Apart := by
  -- Every task was there before, and whoever is at it now was so before.
  have hback : ∀ i u, m'.find i = some u → ∃ s, m.find i = some s ∧ s.family = u.family ∧
      (∀ w, u.Engages w → s.Engages w) ∧
      (u.state = .leased → s.state = .leased ∧ u.holder = s.holder ∧
        u.priorWorkers = s.priorWorkers) := by
    intro i u hf
    rcases h.find_eq hm i with ⟨heq, -⟩ | ⟨a, s, u', rfl, hs, hr, -, hf'⟩ | ⟨v, he, -⟩
    · exact ⟨u, heq ▸ hf, rfl, fun _ hu => hu, fun hu => ⟨hu, rfl, rfl⟩⟩
    · rw [hf] at hf'
      cases hf'
      have hno : ∀ place worker deadline, a ≠ .grant place worker deadline :=
        fun place worker deadline he => hl.grants i place worker deadline (by rw [he])
      exact ⟨s, hs, (family_result hr).symm, fun w => engages_result hr hno, holder_result hr hno⟩
    · rw [hl.entered] at he
      cases he
  refine ⟨fun {i j s t w} hi hj hfamily hs ht => ?_, fun {i t} hf hleased => ?_⟩
  · obtain ⟨s₀, hs₀, hsf, hse, -⟩ := hback i s hi
    obtain ⟨t₀, ht₀, htf, hte, -⟩ := hback j t hj
    have hsame : s₀.family = t₀.family := hsf.trans (hfamily.trans htf.symm)
    exact ha.siblings hs₀ ht₀ hsame (hse w hs) (hte w ht)
  · obtain ⟨s, hs, -, -, hsl⟩ := hback i t hf
    obtain ⟨hold, hholder, hprior⟩ := hsl hleased
    rw [hholder, hprior]
    exact ha.holder hs hold

theorem Apart.moves {guard : JobManager → Label → Prop}
    (hguard : ∀ n l, guard n l → n.Leaves l) (h : Moves guard m m') (hm : m.Minted)
    (ha : m.Apart) : m'.Apart := by
  have hinv := h.invariant (fun n => n.Minted ∧ n.Apart) ⟨hm, ha⟩ fun n l n' hn hg hmove =>
    ⟨hmove.minted hn.1, hn.2.move hn.1 (hguard n l hg) hmove⟩
  exact hinv.2

-- One lease to somebody who has nothing of the family.
theorem Apart.hands {deadline : UInt64} {issue : Issue} {r : Option Task × JobManager}
    (ha : m.Apart) (hm : m.Minted) (h : m.Grants worker deadline issue r)
    (hassign : ∀ t, r.1 = some t → m.Unengaged worker t.family)
    (hprior : ∀ t, r.1 = some t → t.priorWorkers = [] ∨
      ∃ s, m.find t.id = some s ∧ s.family = t.family ∧ t.priorWorkers = s.priorWorkers) :
    r.2.Apart := by
  have hback : ∀ i u, r.2.find i = some u → m.find i = some u ∨ (r.1 = some u ∧ u.id = i) := by
    intro i u hf
    by_cases hi : ∃ t, r.1 = some t ∧ t.id = i
    · obtain ⟨t, ht, rfl⟩ := hi
      rw [h.entered ht hm] at hf
      cases hf
      exact .inr ⟨ht, rfl⟩
    · rw [h.frame i (fun t ht he => hi ⟨t, ht, he⟩) hm] at hf
      exact .inl hf
  have hnew : ∀ {t}, r.1 = some t → worker ∉ t.priorWorkers := by
    intro t ht hmem
    rcases hprior t ht with hnil | ⟨s, hs, hfamily, hsame⟩
    · rw [hnil] at hmem
      cases hmem
    · exact hassign t ht t.id s hs hfamily (.inl (hsame ▸ hmem))
  have hmixed : ∀ {j t u w}, r.1 = some t → m.find j = some u → u.family = t.family →
      t.Engages w → u.Engages w → t.id = j := by
    intro j t u w ht hu hfamily htw huw
    rcases htw with hmem | hheld
    · rcases hprior t ht with hnil | ⟨s, hs, hsf, hsame⟩
      · rw [hnil] at hmem
        cases hmem
      · exact ha.siblings hs hu (hsf.trans hfamily.symm) (.inl (hsame ▸ hmem)) huw
    · obtain ⟨-, hholder, -⟩ := h.leased ht
      rw [← (isLeasedTo_iff.mp hheld).2, hholder] at huw
      exact absurd huw (hassign t ht j u hu hfamily)
  refine ⟨fun {i j s t w} hi hj hfamily hs ht => ?_, fun {i t} hf hleased => ?_⟩
  · rcases hback i s hi with hold | ⟨hr, rfl⟩
    · rcases hback j t hj with hold' | ⟨hr', rfl⟩
      · exact ha.siblings hold hold' hfamily hs ht
      · exact (hmixed hr' hold hfamily ht hs).symm
    · rcases hback j t hj with hold' | ⟨hr', rfl⟩
      · exact hmixed hr hold' hfamily.symm hs ht
      · rw [hr] at hr'
        cases hr'
        rfl
  · rcases hback i t hf with hold | ⟨hr, -⟩
    · exact ha.holder hold hleased
    · rw [(h.leased hr).2.1]
      exact hnew hr

section

variable {F : Type} [Double F] {o : Operation F}

theorem Apart.sameRows (ha : m.Apart) (h : m.SameRows m') : m'.Apart where
  siblings hi hj := by
    rw [h.find_eq] at hi hj
    exact ha.siblings hi hj
  holder hf := by
    rw [h.find_eq] at hf
    exact ha.holder hf

theorem leaves_settles (hl : l.Settles) : m.Leaves l := by
  cases l with
  | act id a =>
      refine ⟨rfl, fun i place worker deadline he => ?_⟩
      cases he
      exact hl
  | aux => exact ⟨rfl, nofun⟩
  | _ => exact hl.elim

theorem leaves_plants (hl : l.Plants) : m.Leaves l := by
  cases l with
  | create job => exact ⟨rfl, nofun⟩
  | edit id edit => exact ⟨rfl, nofun⟩
  | _ => exact hl.elim

theorem run_apart (ha : m.Apart) (hm : m.Minted) (hp : m.Partition good) (he : m.Enrolled)
    (hshape : KeepsShape o) (hfree : m.SiblingsFree o) : (o.run m).Apart := by
  have hreq : o.requeuesLeased := by
    cases o <;> trivial
  have hplain : (∀ n l, Takes o n l → n.Leaves l) →
      (∀ render inputRef, o ≠ .seedRender render inputRef) → (o.run m).Apart :=
    fun htakes hseed => Apart.moves htakes (run_moves o hreq hseed) hm ha
  cases o with
  | grant worker nowMs leaseMs units cached =>
      have hassign := (grant_assigns hm hp).mpr hfree
      have hgrants := grant_grants m worker nowMs leaseMs units cached
      refine ha.hands hm hgrants (fun t ht => ?_) fun t ht => ?_
      · have hun := hassign t ht
        rw [(hgrants.leased ht).2.1] at hun
        exact hun
      · rcases grant_cases ht with ⟨s, hnext, rfl⟩ | ⟨hnew, -⟩
        · obtain ⟨id, hfind, -⟩ := nextQueued_find hnext
          refine .inr ⟨s, ?_, rfl, rfl⟩
          rw [← hm.id_eq hfind] at hfind
          exact hfind
        · exact .inl hnew.priorWorkers
  | issueSpeculative worker nowMs leaseMs threshold =>
      have hassign := (issueSpeculative_assigns hm hp he).mpr hfree
      have hgrants := issueSpeculative_grants m worker nowMs leaseMs threshold
      refine ha.hands hm hgrants (fun t ht => ?_) fun t ht => ?_
      · have hun := hassign t ht
        rw [(hgrants.leased ht).2.1] at hun
        exact hun
      · rcases issueSpeculative_cases m worker nowMs leaseMs threshold with ⟨-, hr⟩ |
          ⟨jobId, job, id, original, u, -, -, -, -, hr, -, -, hprior⟩
        · rw [hr] at ht
          cases ht
        · rw [hr] at ht
          cases ht
          exact .inl hprior
  | issueKnownRange worker nowMs leaseMs start count =>
      have hgrants := issueKnownRange_grants m worker nowMs leaseMs start count
      have hborn : ∀ t, (m.issueKnownRange worker nowMs leaseMs start count).1 = some t →
          m.Unrelated t := by
        intro t ht
        rcases issueKnownRange_cases m worker nowMs leaseMs start count with hr |
          ⟨u, job, -, hborn, horig, -, -, -, -, -, hr⟩
        · rw [hr] at ht
          cases ht
        · rw [hr] at ht
          cases ht
          exact ⟨⟨m.nextId, Nat.le_refl _, hborn.id⟩, horig, hborn.priorWorkers⟩
      refine ha.hands hm hgrants (fun t ht i s hf hfamily => ?_) fun t ht =>
        .inl (hborn t ht).priorWorkers
      exact absurd hfamily ((hborn t ht).family_ne hm hp hf)
  | seedRender render inputRef =>
      have hmoves : Moves (fun n l => n.SeedsOnly l ∧ l.Plants) m (m.seedRender render inputRef).2 :=
        seedRender_seeds hp.fresh
      exact Apart.moves (fun _ _ hl => leaves_plants hl.2) hmoves hm ha
  | mutableJob id edit => exact hshape.elim
  | createJob kernelId totalUnits seed unitsPerGroup =>
      refine hplain (fun n l hl => ?_) nofun
      cases hl
      exact ⟨rfl, nofun⟩
  | clearDirty =>
      refine hplain (fun n l hl => ?_) nofun
      cases hl
      exact ⟨rfl, nofun⟩
  | submit => exact hplain (fun _ _ hl => leaves_settles hl) nofun
  | renewLease => exact hplain (fun _ _ hl => leaves_settles hl) nofun
  | recordPartial => exact hplain (fun _ _ hl => leaves_settles hl) nofun
  | recordAssetSource => exact hplain (fun _ _ hl => leaves_settles hl) nofun
  | recordIceOutcome => exact hplain (fun _ _ hl => leaves_settles hl) nofun
  | sweepExpiredLeases => exact hplain (fun _ _ hl => leaves_settles hl) nofun
  | releaseAllHeldBy => exact hplain (fun _ _ hl => leaves_settles hl) nofun
  | finish => exact hplain (fun _ _ hl => leaves_settles hl) nofun
  | recordSubmission => exact hplain (fun _ _ hl => leaves_settles hl) nofun
  | requestReplica => exact hplain (fun _ _ hl => leaves_settles hl) nofun
  | restartValidation => exact hplain (fun _ _ hl => leaves_settles hl) nofun
  | requeue => exact hplain (fun _ _ hl => leaves_settles hl) nofun
  | cancelSiblingsOf => exact hplain (fun _ _ hl => leaves_settles hl) nofun

theorem step_enrolled (h : Step m o m') (hshape : KeepsShape o) (hm : m.Minted)
    (hp : m.Partition good) (he : m.Enrolled) : m'.Enrolled := by
  have hinv := (run_seeds hshape hp.fresh).invariant
    (fun n => (n.Minted ∧ n.Partition good) ∧ n.Enrolled) ⟨⟨hm, hp⟩, he⟩
    fun n l n' hi hl hmove => ⟨⟨hmove.minted hi.1.1, hi.1.2.move hi.1.1 hmove hl.1⟩,
      hi.2.move hi.1.1 hi.1.2 hmove hl.1⟩
  exact hinv.2.move hinv.1.1 hinv.1.2 (Move.aux _ _ h.sameRows) trivial

-- Work goes to somebody who has nothing of its family just where the siblings are
-- free, and where they always are nobody is ever at two tasks of one family.
theorem family_assignment :
    (∀ m, Reach Step (fun _ (o : Operation F) => KeepsShape o) {} m →
      ∀ o : Operation F, m.Assigns o ↔ m.SiblingsFree o) ∧
    ∀ m, Reach Step (fun n (o : Operation F) => KeepsShape o ∧ n.SiblingsFree o) {} m →
      m.Apart := by
  have hlegal : ∀ {guard : JobManager → Operation F → Prop} {m : JobManager},
      (∀ n o, guard n o → KeepsShape o) → Reach Step guard {} m →
      (m.Minted ∧ m.Partition fun _ => False) ∧ m.Enrolled := by
    intro guard m hguard h
    exact h.invariant (fun n => (n.Minted ∧ n.Partition fun _ => False) ∧ n.Enrolled)
      ⟨⟨Minted.empty, Partition.empty⟩, Enrolled.empty⟩ fun n o n' hi hg hstep =>
        ⟨step_partition hstep (hguard n o hg) hi.1.1 hi.1.2,
          step_enrolled hstep (hguard n o hg) hi.1.1 hi.1.2 hi.2⟩
  refine ⟨fun m h o => ?_, fun m h => ?_⟩
  · obtain ⟨⟨hm, hp⟩, he⟩ := hlegal (fun _ _ hg => hg) h
    cases o with
    | grant => exact grant_assigns hm hp
    | issueSpeculative => exact issueSpeculative_assigns hm hp he
    | _ => exact ⟨fun _ => trivial, fun _ t ht => by cases ht⟩
  · induction h with
    | refl => exact Apart.empty
    | tail hrun hlast ih =>
        obtain ⟨o, ⟨hshape, hfree⟩, hstep⟩ := hlast
        obtain ⟨⟨hm, hp⟩, he⟩ := hlegal (fun _ _ hg => hg.1) hrun
        exact (run_apart ih hm hp he hshape hfree).sameRows hstep.sameRows

end

end

-- The last task of a job is raced, and the lease of the original ends first.
def raceOps : List (Operation Rat) :=
  [.createJob "brute_search_v1" 100 7 0, .grant ⟨1, 0⟩ 0 1000 96 [], .submit ⟨1, 0⟩ ⟨0, 2⟩,
    .finish ⟨0, 2⟩ true, .grant ⟨2, 0⟩ 0 1000 96 [],
    .issueSpeculative ⟨3, 0⟩ 500 1000 (19 / 20), .sweepExpiredLeases 1000]

theorem raceOps_keepsShape : ∀ o ∈ raceOps, JobManager → KeepsShape o := by
  intro o ho _
  simp only [raceOps, List.mem_cons, List.not_mem_nil, or_false] at ho
  rcases ho with rfl | rfl | rfl | rfl | rfl | rfl | rfl <;> trivial

-- The one who comes next may have the original, and the one who races it may not.
theorem family_assignment_race :
    (runAll {} raceOps).Assigns (.grant ⟨4, 0⟩ 1000 1000 96 [] : Operation Rat) ↔
      (runAll {} raceOps).SiblingsFree (.grant ⟨4, 0⟩ 1000 1000 96 [] : Operation Rat) :=
  family_assignment.1 _ (reach_runAll raceOps {} raceOps_keepsShape) _

theorem original_to_racer : ¬ ∀ m : JobManager,
    Reach Step (fun _ (o : Operation Rat) => KeepsShape o) {} m → ∀ o : Operation Rat,
      m.Assigns o := by
  intro h
  have hassign := h _ (reach_runAll raceOps {} raceOps_keepsShape) (.grant ⟨3, 0⟩ 1000 1000 96 [])
  have hgranted : ((runAll {} raceOps).leased (.grant ⟨3, 0⟩ 1000 1000 96 [] :
      Operation Rat)).map (fun t => (t.holder, t.family)) = some (⟨3, 0⟩, ⟨0, 3⟩) := by
    decide +kernel
  obtain ⟨t, ht, hgiven⟩ := Option.map_eq_some_iff.mp hgranted
  obtain ⟨hholder, hfamily⟩ := Prod.mk.inj hgiven
  have hreplica : ((runAll {} raceOps).find ⟨0, 4⟩).map (fun s =>
      (s.family, s.isLeasedTo ⟨3, 0⟩)) = some (⟨0, 3⟩, true) := by decide +kernel
  obtain ⟨s, hs, hracing⟩ := Option.map_eq_some_iff.mp hreplica
  obtain ⟨hsfamily, hheld⟩ := Prod.mk.inj hracing
  have hfree := hassign t ht ⟨0, 4⟩ s hs (hsfamily.trans hfamily.symm)
  rw [hholder] at hfree
  exact hfree (.inr hheld)

end JobManager

end P2pGpu.Coordinator
