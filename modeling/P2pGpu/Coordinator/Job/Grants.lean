import P2pGpu.Coordinator.Job.Minted

namespace P2pGpu.Coordinator.JobManager

open P2pGpu.Protocol

-- An operation that hands at most one task to `worker`, leased until `deadline`.
structure Grants (m : JobManager) (worker : WorkerId) (deadline : UInt64)
    (issue : Issue) (r : Option Task × JobManager) : Prop where
  moves : Moves (fun _ l => l.grants worker deadline issue) m r.2
  leased : ∀ {t}, r.1 = some t →
    t.state = .leased ∧ t.holder = worker ∧ t.leaseExpiresAtMs = deadline
  entered : ∀ {t}, r.1 = some t → m.Minted → r.2.find t.id = some t
  -- No other task is touched.
  frame : ∀ i, (∀ t, r.1 = some t → t.id ≠ i) → m.Minted → r.2.find i = m.find i

namespace Grants

variable {m m' : JobManager} {worker : WorkerId} {deadline : UInt64} {issue : Issue}

theorem none (m : JobManager) (worker : WorkerId) (deadline : UInt64) (issue : Issue) :
    m.Grants worker deadline issue (none, m) := ⟨Reach.refl m, nofun, nofun, fun _ _ _ => rfl⟩

-- An identifier may be spent before the task is found.
theorem mint {r : Option Task × JobManager} (hr : m.mint.2.Grants worker deadline issue r) :
    m.Grants worker deadline issue r where
  moves := by
    have hmint : Label.grants worker deadline issue .mint := trivial
    exact Reach.head hmint (Move.mint m) hr.moves
  leased := hr.leased
  entered ht hm := hr.entered ht ((Move.mint m).minted hm)
  frame i hi hm := hr.frame i hi ((Move.mint m).minted hm)

-- A move that enters the task it hands out, up to bookkeeping.
theorem enters {n : JobManager} {l : Label} {t : Task} (h : Move m l n)
    (hgrant : l.grants worker deadline issue) (hl : l.entered = some t)
    (hborn : m.Born t) (hrows : n.SameRows m') : m.Grants worker deadline issue (some t, m') where
  moves := by
    have haux : Label.grants worker deadline issue .aux := trivial
    exact Reach.tail (Reach.single hgrant h) haux (Move.aux _ _ hrows)
  leased := by
    intro s hs
    cases hs
    have hown : t.holder = worker ∧ t.leaseExpiresAtMs = deadline := by
      cases l <;> cases hl
      · exact hgrant
      · exact hgrant.1
      · exact hgrant.1
    exact ⟨hborn.state, hown⟩
  entered := by
    intro s hs hm
    cases hs
    rw [hrows.find_eq]
    rcases h.find_eq hm t.id with ⟨-, hne, -⟩ | ⟨a, u, u', hact, -⟩ | ⟨u, he, -, -, -, hf⟩
    · exact absurd rfl (hne t hl)
    · rw [hact] at hl
      cases hl
    · rw [hl] at he
      cases he
      exact hf
  frame := by
    intro i hi hm
    have hne : t.id ≠ i := hi t rfl
    rw [hrows.find_eq]
    rcases h.find_eq hm i with ⟨hf, -, -⟩ | ⟨a, u, u', hact, -⟩ | ⟨u, he, -, hid, -, -⟩
    · exact hf
    · rw [hact] at hl
      cases hl
    · rw [hl] at he
      cases he
      exact absurd hid hne

end Grants

section

variable {m : JobManager} {worker : WorkerId} {nowMs : UInt64} {leaseMs : UInt32}

theorem grantQueued_some {order : List Nat} {r : Task × JobManager}
    (h : m.grantQueued worker nowMs leaseMs order = some r) :
    ∃ place id t, m.queue[place]? = some id ∧ m.find id = some t ∧
      (Act.grant place worker (nowMs + leaseMs.toUInt64)).result t = some r.1 ∧
      r.2 = m.perform id (.grant place worker (nowMs + leaseMs.toUInt64)) r.1 := by
  induction order with
  | nil => cases h
  | cons place order ih =>
      unfold grantQueued at h
      split at h
      · exact ih h
      · rename_i id hplace
        split at h
        · exact ih h
        · rename_i t hfind
          split at h
          · rename_i hfree
            split at h
            · exact ih h
            · rename_i t' m' happly
              obtain ⟨next, hnext, heq⟩ := apply_ok.mp happly
              obtain ⟨hstate, rfl⟩ := advance_grant.mp hnext
              cases heq
              cases h
              refine ⟨place, id, t, hplace, hfind, ?_, ?_⟩
              · exact if_pos ⟨hstate, checkReplicaAssignment_isOk.mp hfree⟩
              · simp [perform, put, markTaskDirty, Act.queue]
          · exact ih h

theorem grantQueued_grants {order : List Nat} {r : Task × JobManager}
    (h : m.grantQueued worker nowMs leaseMs order = some r) :
    m.Grants worker (nowMs + leaseMs.toUInt64) .plain (some r.1, r.2) := by
  obtain ⟨t', m'⟩ := r
  obtain ⟨place, id, t, hplace, hfind, hresult, hr⟩ := grantQueued_some h
  dsimp only at hresult hr
  subst hr
  have hgrant : Label.grants worker (nowMs + leaseMs.toUInt64) .plain
      (.act id (.grant place worker (nowMs + leaseMs.toUInt64))) := ⟨rfl, rfl⟩
  have hid : m.Minted → t'.id = id := fun hm =>
    (Act.result_shape hresult).1.trans (hm.id_eq hfind)
  refine ⟨Reach.single hgrant (Move.act m id _ t t' hfind hresult hplace), ?_, ?_, ?_⟩
  · intro s hs
    cases hs
    simp only [Act.result] at hresult
    split at hresult
    · cases hresult
      exact ⟨rfl, rfl, rfl⟩
    · cases hresult
  · intro s hs hm
    cases hs
    dsimp only
    rw [hid hm, find_perform hfind, if_pos rfl]
  · intro i hi hm
    have hne : i ≠ id := fun he => hi t' rfl ((hid hm).trans he.symm)
    dsimp only
    rw [find_perform hfind, if_neg hne]

theorem sameRows_countAssetGrant (m : JobManager) (job : Job) (cached : List AssetId) :
    m.SameRows (m.countAssetGrant job cached) := by
  unfold countAssetGrant
  split
  · exact SameRows.refl m
  · exact ⟨.refl _, .refl _, .refl _, .refl _, rfl, rfl⟩

theorem carveFrom_grants {units : UInt64} {cached : List AssetId}
    (entries : List (Sigma fun _ : JobId => Job)) (m : JobManager)
    (he : ∀ e ∈ entries, m.findJob e.1 = some e.2) :
    m.Grants worker (nowMs + leaseMs.toUInt64) .plain
      (carveFrom worker nowMs leaseMs units cached entries m) := by
  induction entries generalizing m with
  | nil => exact Grants.none m _ _ _
  | cons e entries ih =>
      obtain ⟨jobId, job⟩ := e
      have hjob : m.findJob jobId = some job := he _ List.mem_cons_self
      have hrest : ∀ e ∈ entries, m.findJob e.1 = some e.2 :=
        fun e hmem => he e (List.mem_cons_of_mem _ hmem)
      have hskip : m.Grants worker (nowMs + leaseMs.toUInt64) .plain
          (carveFrom worker nowMs leaseMs units cached entries m.mint.2) :=
        Grants.mint (ih m.mint.2 hrest)
      unfold carveFrom
      split
      · exact ih m hrest
      · rename_i hleft
        dsimp only
        split
        · exact hskip
        · rename_i tile start hstart
          split
          · exact hskip
          · rename_i hcount
            refine Grants.enters (Move.carve m job tile _ units hjob (by simpa using hleft)
              ⟨rfl, rfl, rfl, rfl⟩ rfl hstart rfl hcount) ⟨rfl, rfl⟩ rfl ⟨rfl, rfl, rfl, rfl⟩ ?_
            exact sameRows_countAssetGrant _ job cached

-- Affinity puts jobs first, and leaves none of them out.
theorem mem_carveOrder {cached : List AssetId} {e : Sigma fun _ : JobId => Job} :
    e ∈ m.carveOrder cached ↔ m.findJob e.1 = some e.2 := by
  have hentries : e ∈ m.jobs.entries ↔ m.findJob e.1 = some e.2 := Table.mem_entries_iff
  unfold carveOrder
  dsimp only
  rw [List.mem_append, ← hentries]
  constructor
  · rintro (h | h)
    · split at h
      · cases h
      · exact List.mem_of_mem_filter h
    · exact h
  · exact .inr

theorem grant_grants (m : JobManager) (worker : WorkerId) (nowMs : UInt64) (leaseMs : UInt32)
    (units : UInt64) (cached : List AssetId) :
    m.Grants worker (nowMs + leaseMs.toUInt64) .plain
      (m.grant worker nowMs leaseMs units cached) := by
  unfold grant
  split
  · rename_i t m' h
    exact grantQueued_grants h
  · split
    · exact Grants.none m _ _ _
    · exact carveFrom_grants _ m fun e he => mem_carveOrder.mp he

theorem knownRangeJob_find {start count : UInt64} {e : Sigma fun _ : JobId => Job}
    (h : m.knownRangeJob start count = some e) : m.findJob e.1 = some e.2 :=
  Table.mem_entries_iff.mp (List.mem_of_find?_eq_some h)

-- The probe and the job that it was attached to.
theorem issueKnownRange_cases (m : JobManager) (worker : WorkerId) (nowMs : UInt64)
    (leaseMs : UInt32) (start count : UInt64) :
    m.issueKnownRange worker nowMs leaseMs start count = (none, m) ∨
      ∃ t job, m.knownRangeJob start count = some ⟨t.job, job⟩ ∧ m.Born t ∧
        t.replicaOf = Id.nil ∧ t.startUnit = start ∧ t.unitCount = count ∧ count ≠ 0 ∧
        t.holder = worker ∧ t.leaseExpiresAtMs = nowMs + leaseMs.toUInt64 ∧
        m.issueKnownRange worker nowMs leaseMs start count = (some t, m.enter t) := by
  unfold issueKnownRange
  split
  · exact .inl rfl
  · rename_i hcount
    split
    · exact .inl rfl
    · rename_i jobId job hjob
      exact .inr ⟨_, job, hjob, ⟨rfl, rfl, rfl, rfl⟩, rfl, rfl, rfl, hcount, rfl, rfl, rfl⟩

theorem issueKnownRange_grants (m : JobManager) (worker : WorkerId) (nowMs : UInt64)
    (leaseMs : UInt32) (start count : UInt64) :
    m.Grants worker (nowMs + leaseMs.toUInt64) (.knownRange start count)
      (m.issueKnownRange worker nowMs leaseMs start count) := by
  rcases issueKnownRange_cases m worker nowMs leaseMs start count with hr |
    ⟨t, job, hjob, hborn, horig, rfl, rfl, hcount, hholder, hdeadline, hr⟩
  · rw [hr]
    exact Grants.none m _ _ _
  · rw [hr]
    exact Grants.enters (Move.probe m job t hjob hborn horig hcount)
      ⟨⟨hholder, hdeadline⟩, rfl⟩ rfl hborn (SameRows.refl _)

theorem speculable_some {job : Job} {id : TaskId} {original : Task}
    (h : m.speculable worker job id = some original) :
    m.find id = some original ∧ original.state = .leased ∧ original.replicaOf = Id.nil ∧
      original.holder ≠ worker ∧ worker ∉ original.priorWorkers ∧
      m.hasLiveReplica job id = false := by
  unfold speculable at h
  split at h
  · cases h
  · rename_i t hfind
    split at h
    · rename_i hok
      cases h
      obtain ⟨hstate, horig, hholder, hfree, hlone⟩ := hok
      exact ⟨hfind, hstate, horig, hholder, checkReplicaAssignment_isOk.mp hfree, by simpa using hlone⟩
    · cases h

theorem issueSpeculative_grants {F : Type} [Double F] (m : JobManager) (worker : WorkerId)
    (nowMs : UInt64) (leaseMs : UInt32) (threshold : F) :
    m.Grants worker (nowMs + leaseMs.toUInt64) .speculative
      (m.issueSpeculative worker nowMs leaseMs threshold) := by
  unfold issueSpeculative
  dsimp only
  split
  · exact Grants.none m _ _ _
  · rename_i jobId originalId original htarget
    obtain ⟨⟨j, job⟩, hmem, hjob⟩ := List.exists_of_findSome?_eq_some htarget
    dsimp only at hjob
    split at hjob
    · cases hjob
    · obtain ⟨id, hid, hspec⟩ := List.exists_of_findSome?_eq_some hjob
      simp only [Option.map_eq_some_iff, Prod.mk.injEq] at hspec
      obtain ⟨t, ht, rfl, rfl, rfl⟩ := hspec
      obtain ⟨hfind, -, horig, -⟩ := speculable_some ht
      let replica : Task :=
        { id := m.mint.1, job := j, replicaOf := id, startUnit := t.startUnit
          unitCount := t.unitCount, state := .leased
          holder := worker, leaseExpiresAtMs := nowMs + leaseMs.toUInt64 }
      have hborn : m.Born replica := ⟨rfl, rfl, rfl, rfl⟩
      exact Grants.enters (Move.replica m job t replica (Table.mem_entries_iff.mp hmem) hid hfind
        horig hborn rfl rfl ht) ⟨⟨rfl, rfl⟩, rfl⟩ rfl hborn (SameRows.refl _)

end

end P2pGpu.Coordinator.JobManager
