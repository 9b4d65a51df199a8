import P2pGpu.Coordinator.Job.Progress

namespace P2pGpu.Coordinator

open P2pGpu.Protocol

-- A lease that is there afterwards was there before, with the same holder.
def Task.SameHolder (t t' : Task) : Prop :=
  t'.state = .leased → t.state = .leased ∧ t'.holder = t.holder

namespace Task.SameHolder

variable {t t' t'' : Task}

theorem refl (t : Task) : t.SameHolder t := fun h => ⟨h, rfl⟩

theorem trans (h : t.SameHolder t') (h' : t'.SameHolder t'') : t.SameHolder t'' := by
  intro hs
  obtain ⟨hmid, hholder'⟩ := h' hs
  obtain ⟨hstate, hholder⟩ := h hmid
  exact ⟨hstate, hholder'.trans hholder⟩

theorem of_result {a : Act} (h : a.result t = some t')
    (ha : ∀ place worker deadline, a ≠ .grant place worker deadline) : t.SameHolder t' := by
  intro hs
  cases a with
  | grant place worker deadline => exact absurd rfl (ha place worker deadline)
  | record =>
      cases h
      exact ⟨hs, rfl⟩
  | renew =>
      simp only [Act.result] at h
      split at h
      · cases h
        exact ⟨hs, rfl⟩
      · cases h
  | finish accepted =>
      simp only [Act.result] at h
      split at h
      · cases h
        cases accepted <;> cases hs
      · cases h
  | _ =>
      simp only [Act.result] at h
      split at h
      · cases h
        cases hs
      · cases h

end Task.SameHolder

namespace Operation

variable {F : Type}

-- An operation that delivers nothing and judges nothing.
def leavesPartials : Operation F → Prop
  | .recordPartial _ _ _ _ _ _ _ => False
  | .finish _ _ => False
  | _ => True

-- A queued task goes back out only once nothing is kept of what was delivered for it.
def grantsAfresh (m : JobManager) : Operation F → Prop
  | .grant worker nowMs leaseMs units cached =>
      ∀ t, (m.grant worker nowMs leaseMs units cached).1 = some t → m.latestPartial t.id = none
  | _ => True

end Operation

namespace JobManager

section Kept

variable {m m' : JobManager} {l : Label} {id i : TaskId} {t : Task} {worker : WorkerId}
  {nowMs : UInt64} {leaseMs : UInt32}

-- Only a grant leases a task that was there already.
theorem Move.sameHolder (h : Move m l m') (hm : m.Minted) (hl : l.Settles ∨ l.Plants ∨ l = .flush)
    (hf : m.find i = some t) : ∃ t', m'.find i = some t' ∧ t.SameHolder t' := by
  rcases h.find_some hm hf with hsame | ⟨a, t', rfl, hresult, -, hf'⟩
  · exact ⟨t, hsame, .refl t⟩
  · refine ⟨t', hf', .of_result hresult ?_⟩
    rintro place worker deadline rfl
    rcases hl with hl | hl | hl
    · exact hl
    · exact hl
    · cases hl

theorem Moves.sameHolder {guard : JobManager → Label → Prop}
    (hguard : ∀ n l, guard n l → l.Settles ∨ l.Plants ∨ l = .flush)
    (h : Moves guard m m') (hm : m.Minted) (hf : m.find i = some t) :
    ∃ t', m'.find i = some t' ∧ t.SameHolder t' := by
  have hinv := h.invariant
    (fun n => n.Minted ∧ ∃ t', n.find i = some t' ∧ t.SameHolder t') ⟨hm, t, hf, .refl t⟩ ?_
  · exact hinv.2
  · rintro n l n' ⟨hn, s, hs, hsame⟩ hl hmove
    obtain ⟨s', hs', hsame'⟩ := hmove.sameHolder hn (hguard n l hl) hs
    exact ⟨hmove.minted hn, s', hs', hsame.trans hsame'⟩

theorem issueKnownRange_kept (hf : m.find i = some t) (start count : UInt64) :
    (m.issueKnownRange worker nowMs leaseMs start count).2.find i = some t := by
  rcases issueKnownRange_cases m worker nowMs leaseMs start count with hr |
    ⟨s, job, -, -, -, -, -, -, -, -, hr⟩
  · rw [hr]
    exact hf
  · rw [hr]
    exact find_enter_kept hf

theorem issueSpeculative_kept {F : Type} [Double F] (hf : m.find i = some t) (threshold : F) :
    (m.issueSpeculative worker nowMs leaseMs threshold).2.find i = some t := by
  unfold issueSpeculative
  dsimp only
  split
  · exact hf
  · exact Table.lookup_emplace_kept hf _ _

-- Whatever is done to a task, what was delivered for it stays.
theorem apply_partials {ev : TaskEvent} {r : Task × JobManager} (h : m.apply id t ev = .ok r) :
    r.2.partials = m.partials := by
  obtain ⟨next, -, rfl⟩ := apply_ok.mp h
  rfl

theorem requeue_partials (m : JobManager) (id : TaskId) (why : TaskEvent) :
    (m.requeue id why).2.partials = m.partials := by
  rcases requeue_cases m id why with hsame | ⟨t, next, -, -, hback⟩
  · rw [hsame]
  · rw [hback]
    rfl

theorem sweepFrom_partials (ids : List TaskId) (m : JobManager) :
    (sweepFrom nowMs ids m).2.partials = m.partials := by
  induction ids generalizing m with
  | nil => rfl
  | cons id ids ih =>
      rw [sweepFrom_cons]
      split
      · exact ih m
      · split
        · exact ih _
        · exact ih m

theorem releaseFrom_partials (ids : List TaskId) (m : JobManager) :
    (releaseFrom ids m).2.partials = m.partials := by
  induction ids generalizing m with
  | nil => rfl
  | cons id ids ih =>
      have hone := requeue_partials m id .release
      unfold releaseFrom
      split
      · rename_i n heq
        rw [heq] at hone
        exact (ih n).trans hone
      · rename_i n heq
        rw [heq] at hone
        exact (ih n).trans hone

theorem cancelFrom_partials (winner root : TaskId) (ids : List TaskId) (m : JobManager) :
    (cancelFrom winner root ids m).2.partials = m.partials := by
  induction ids generalizing m with
  | nil => rfl
  | cons id ids ih =>
      unfold cancelFrom
      split
      · exact ih m
      · split
        · exact ih m
        · rename_i sibling hfind
          split
          · exact ih m
          · cases happly : m.apply id sibling .cancel with
            | error e => exact ih m
            | ok r => exact (ih _).trans (apply_partials happly)

theorem carveFrom_partials {units : UInt64} {cached : List AssetId}
    (entries : List (Sigma fun _ : JobId => Job)) (m : JobManager) :
    (carveFrom worker nowMs leaseMs units cached entries m).2.partials = m.partials := by
  induction entries generalizing m with
  | nil => rfl
  | cons e entries ih =>
      unfold carveFrom
      split
      · exact ih m
      · dsimp only
        split
        · exact ih m.mint.2
        · split
          · exact ih m.mint.2
          · unfold countAssetGrant
            split <;> rfl

theorem grant_partials (m : JobManager) (units : UInt64) (cached : List AssetId) :
    (m.grant worker nowMs leaseMs units cached).2.partials = m.partials := by
  unfold grant
  split
  · rename_i t m' h
    obtain ⟨place, id, s, -, -, -, hr⟩ := grantQueued_some h
    dsimp only at hr ⊢
    rw [hr]
    rfl
  · split
    · rfl
    · exact carveFrom_partials _ m

theorem renewLease_partials (m : JobManager) (worker : WorkerId) (id : TaskId) (nowMs : UInt64)
    (leaseMs : UInt32) : (m.renewLease worker id nowMs leaseMs).2.partials = m.partials := by
  unfold renewLease
  split
  · rfl
  · split
    · rfl
    · rename_i happly
      exact apply_partials happly

theorem requestReplica_partials (m : JobManager) (id : TaskId) :
    (m.requestReplica id).2.partials = m.partials := by
  unfold requestReplica
  split
  · rfl
  · split
    · rfl
    · rename_i happly
      split
      · exact apply_partials happly
      · rename_i hissue
        exact (apply_partials hissue).trans (apply_partials happly)

theorem restartValidation_partials (m : JobManager) (id : TaskId) :
    (m.restartValidation id).2.partials = m.partials := by
  unfold restartValidation
  split
  · rfl
  · split
    · rfl
    · rename_i happly
      split
      · exact apply_partials happly
      · rename_i hissue
        exact (apply_partials hissue).trans (apply_partials happly)

theorem recordSubmission_partials (m : JobManager) (checksum : UInt64) (payload : Payload) :
    (m.recordSubmission id worker checksum payload).partials = m.partials := by
  unfold recordSubmission
  split <;> rfl

theorem issueKnownRange_partials (m : JobManager) (start count : UInt64) :
    (m.issueKnownRange worker nowMs leaseMs start count).2.partials = m.partials := by
  unfold issueKnownRange
  split
  · rfl
  · split <;> rfl

theorem issueSpeculative_partials {F : Type} [Double F] (m : JobManager) (threshold : F) :
    (m.issueSpeculative worker nowMs leaseMs threshold).2.partials = m.partials := by
  unfold issueSpeculative
  dsimp only
  split <;> rfl

theorem cancelSiblingsOf_partials (m : JobManager) (id : TaskId) :
    (m.cancelSiblingsOf id).2.partials = m.partials := by
  unfold cancelSiblingsOf
  split
  · rfl
  · dsimp only
    split
    · rfl
    · exact cancelFrom_partials _ _ _ m

-- A verdict drops what was delivered for the task.
theorem finish_latestPartial {p : PartialResult} (accepted : Bool)
    (h : (m.finish id accepted).2.latestPartial i = some p) : m.latestPartial i = some p := by
  unfold finish at h
  split at h
  · exact h
  · split at h
    · exact h
    · rename_i happly
      have hsame := apply_partials happly
      dsimp only [latestPartial, put] at h hsame
      rw [hsame] at h
      by_cases hi : i = id
      · subst hi
        rw [AList.lookup_erase] at h
        cases h
      · rw [AList.lookup_erase_ne hi] at h
        exact h

-- A recorded partial renews the lease, and replaces the one held.
theorem recordPartial_cases (m : JobManager) (worker : WorkerId) (id : TaskId)
    (sequence : UInt32) (unitsDone : UInt64) (payload : Payload) (nowMs : UInt64)
    (leaseMs : UInt32) :
    (∃ e, m.recordPartial worker id sequence unitsDone payload nowMs leaseMs = (.error e, m)) ∨
      ∃ t n, m.find id = some t ∧ t.isLeasedTo worker ∧ m.stale id sequence = false ∧
        n.find id = some { t with leaseExpiresAtMs := nowMs + leaseMs.toUInt64 } ∧
        n.partials = AList.insert id ⟨worker, sequence, unitsDone, payload, nowMs⟩ m.partials ∧
        m.recordPartial worker id sequence unitsDone payload nowMs leaseMs = (.ok (), n) := by
  unfold recordPartial
  cases hlease : m.checkLease worker id with
  | error e => exact .inl ⟨e, rfl⟩
  | ok _ =>
      dsimp only
      by_cases hstale : m.stale id sequence = true
      · rw [if_pos hstale]
        exact .inl ⟨_, rfl⟩
      · rw [if_neg hstale]
        obtain ⟨t, hf, hstate, hholder⟩ := checkLease_ok hlease
        have hkept := renewLease_partials m worker id nowMs leaseMs
        rcases renewLease_performs m worker id nowMs leaseMs with
          ⟨e, hr⟩ | ⟨s, t', m', hs, hresult, hrows, hr⟩
        · rw [hr]
          exact .inl ⟨e, rfl⟩
        · rw [hf] at hs
          cases hs
          rw [hr] at hkept ⊢
          have hrenewed : t' = { t with leaseExpiresAtMs := nowMs + leaseMs.toUInt64 } := by
            simp only [Act.result, if_pos (And.intro hstate hholder)] at hresult
            exact (Option.some.inj hresult).symm
          have hfind : m'.find id = some t' := by
            rw [hrows.find_eq, find_perform hf, if_pos rfl]
          refine .inr ⟨t, _, hf, isLeasedTo_iff.mpr ⟨hstate, hholder⟩, by simpa using hstale,
            hrenewed ▸ hfind, ?_, rfl⟩
          dsimp only at hkept ⊢
          rw [hkept]

-- The holder of the lease is only ever turned away for what is held already.
theorem recordPartial_ok (hm : m.Minted) (hf : m.find id = some t) (hheld : t.isLeasedTo worker)
    {sequence : UInt32} (hfresh : m.stale id sequence = false) (unitsDone : UInt64)
    (payload : Payload) :
    (m.recordPartial worker id sequence unitsDone payload nowMs leaseMs).1 = .ok () := by
  obtain ⟨hstate, hholder⟩ := isLeasedTo_iff.mp hheld
  have htask : m.heldTask worker id = .ok t := by
    have hlive : ¬ (t.state ≠ .leased ∨ t.holder ≠ worker) := by simp [hstate, hholder]
    simp only [heldTask, hf, if_neg hlive, hm.id_eq hf, checkLeaseHeld_self]
  have happly : m.apply id t .renew = .ok ({ t with state := .leased },
      (m.put id { t with state := .leased }).markTaskDirty id) :=
    apply_ok.mpr ⟨.leased, advance_renew.mpr ⟨hstate, rfl⟩, rfl⟩
  simp [recordPartial, checkLease, renewLease, htask, hfresh, happly]

end Kept

section

variable {F : Type} [Double F] {m m' : JobManager} {o : Operation F} {past : List (JobManager × Operation F)}
  {id i : TaskId} {t : Task} {worker : WorkerId}

theorem run_partials (m : JobManager) (ho : o.leavesPartials) :
    (o.run m).partials = m.partials := by
  cases o with
  | createJob => rfl
  | seedRender => rfl
  | mutableJob => rfl
  | grant => exact grant_partials m _ _
  | submit worker id =>
      simp only [Operation.run, submit]
      split
      · rfl
      · split
        · rfl
        · rename_i happly
          exact apply_partials happly
  | renewLease => exact renewLease_partials m _ _ _ _
  | recordPartial => exact ho.elim
  | recordAssetSource => rfl
  | recordIceOutcome =>
      simp only [Operation.run, recordIceOutcome]
      split <;> rfl
  | sweepExpiredLeases => exact sweepFrom_partials _ m
  | releaseAllHeldBy => exact releaseFrom_partials _ m
  | finish => exact ho.elim
  | recordSubmission => exact recordSubmission_partials m _ _
  | requestReplica id => exact requestReplica_partials m id
  | restartValidation id => exact restartValidation_partials m id
  | issueKnownRange => exact issueKnownRange_partials m _ _
  | requeue id why => exact requeue_partials m id why
  | issueSpeculative => exact issueSpeculative_partials m _
  | cancelSiblingsOf id => exact cancelSiblingsOf_partials m id
  | clearDirty => rfl

theorem run_minted (hm : m.Minted) (hreq : o.requeuesLeased) : (o.run m).Minted := by
  have hmoves := run_moves (m := m) o hreq
  cases o with
  | seedRender render inputRef =>
      obtain ⟨n, hcreate, hedit⟩ := seedRender_moves m render inputRef
      exact hedit.minted (hcreate.minted hm)
  | _ => exact (hmoves nofun).minted hm

theorem run_sameHolder (hm : m.Minted) (hreq : o.requeuesLeased) (hgrant : o.grantsAfresh m)
    {p : PartialResult} (hp : m.latestPartial i = some p) (hf : m.find i = some t) :
    ∃ t', (o.run m).find i = some t' ∧ t.SameHolder t' := by
  have hmoves := run_moves (m := m) o hreq
  cases o with
  | grant worker nowMs leaseMs units cached =>
      have hframe := (grant_grants m worker nowMs leaseMs units cached).frame i ?_ hm
      · exact ⟨t, hframe.trans hf, .refl t⟩
      · rintro s hs rfl
        rw [hgrant s hs] at hp
        cases hp
  | issueKnownRange => exact ⟨t, issueKnownRange_kept hf _ _, .refl t⟩
  | issueSpeculative => exact ⟨t, issueSpeculative_kept hf _, .refl t⟩
  | createJob => exact ⟨t, hf, .refl t⟩
  | seedRender => exact ⟨t, hf, .refl t⟩
  | mutableJob => exact ⟨t, hf, .refl t⟩
  | clearDirty => exact ⟨t, hf, .refl t⟩
  | _ => exact Moves.sameHolder (fun _ _ h => .inl h) (hmoves nofun) hm hf

-- What a worker sent for a task since the task was last leased to it.
def SentUnder (past : List (JobManager × Operation F)) (id : TaskId) (worker : WorkerId)
    (sequence : UInt32) : Prop :=
  ∃ before since, past = before ++ since ∧
    (∀ e ∈ since, ∃ t, e.1.find id = some t ∧ t.isLeasedTo worker) ∧
    ∃ n unitsDone payload nowMs leaseMs,
      (n, .recordPartial worker id sequence unitsDone payload nowMs leaseMs) ∈ since

omit [Double F] in
theorem SentUnder.later {sequence : UInt32} (h : SentUnder past id worker sequence)
    (hf : m.find id = some t) (hheld : t.isLeasedTo worker) (o : Operation F) :
    SentUnder (past ++ [(m, o)]) id worker sequence := by
  obtain ⟨before, since, rfl, hlease, n, unitsDone, payload, nowMs, leaseMs, hmem⟩ := h
  refine ⟨before, since ++ [(m, o)], List.append_assoc _ _ _, ?_, n, unitsDone, payload, nowMs,
    leaseMs, List.mem_append_left _ hmem⟩
  intro e he
  rcases List.mem_append.mp he with hold | hnew
  · exact hlease e hold
  · rw [List.mem_singleton.mp hnew]
    exact ⟨t, hf, hheld⟩

omit [Double F] in
theorem SentUnder.now {sequence : UInt32} (past : List (JobManager × Operation F))
    (hf : m.find id = some t) (hheld : t.isLeasedTo worker) (unitsDone : UInt64)
    (payload : Payload) (nowMs : UInt64) (leaseMs : UInt32) :
    SentUnder (past ++ [(m, .recordPartial worker id sequence unitsDone payload nowMs leaseMs)]) id
      worker sequence := by
  refine ⟨past, _, rfl, ?_, m, unitsDone, payload, nowMs, leaseMs, List.mem_singleton_self _⟩
  intro e he
  rw [List.mem_singleton.mp he]
  exact ⟨t, hf, hheld⟩

-- Partial results follow the lease.
structure FollowsLease (m : JobManager) (past : List (JobManager × Operation F)) : Prop where
  recorded : ∀ {id t worker sequence}, m.find id = some t → t.isLeasedTo worker = true →
    (∀ sent, SentUnder past id worker sent → sent < sequence) →
    ∀ unitsDone payload nowMs leaseMs,
      let r := m.recordPartial worker id sequence unitsDone payload nowMs leaseMs
      r.1 = .ok () ∧ r.2.latestPartial id = some ⟨worker, sequence, unitsDone, payload, nowMs⟩ ∧
        r.2.find id = some { t with leaseExpiresAtMs := nowMs + leaseMs.toUInt64 }
  holder : ∀ {id t p}, m.find id = some t → t.state = .leased → m.latestPartial id = some p →
    p.worker = t.holder

-- Whatever is kept for a leased task was sent under that lease.
structure KeepsSent (m : JobManager) (past : List (JobManager × Operation F)) : Prop where
  minted : m.Minted
  kept : ∀ {id p}, m.latestPartial id = some p → ∃ t, m.find id = some t ∧
    (t.state = .leased → p.worker = t.holder ∧ SentUnder past id t.holder p.sequence)

namespace KeepsSent

omit [Double F] in
theorem empty : KeepsSent ({} : JobManager) ([] : List (JobManager × Operation F)) where
  minted := .empty
  kept h := by cases h

omit [Double F] in
theorem followsLease (h : KeepsSent m past) : FollowsLease m past where
  recorded := by
    intro id t worker sequence hf hheld hsent unitsDone payload nowMs leaseMs r
    obtain ⟨hstate, hholder⟩ := isLeasedTo_iff.mp hheld
    have hfresh : m.stale id sequence = false := by
      unfold stale
      cases hp : m.partials.lookup id with
      | none => rfl
      | some p =>
          obtain ⟨s, hs, hlast⟩ := h.kept hp
          rw [hf] at hs
          cases hs
          have hunder := (hlast hstate).2
          rw [hholder] at hunder
          have hlt := hsent p.sequence hunder
          simpa using hlt
    have hok : r.1 = .ok () := recordPartial_ok h.minted hf hheld hfresh unitsDone payload
    rcases recordPartial_cases m worker id sequence unitsDone payload nowMs leaseMs with
      ⟨e, hr⟩ | ⟨s, n, hs, -, -, hfind, hpartials, hr⟩
    · simp only [r, hr] at hok
      cases hok
    · rw [hf] at hs
      cases hs
      refine ⟨hok, ?_, ?_⟩
      · simp only [r, hr, latestPartial, hpartials, AList.lookup_insert]
      · simp only [r, hr, hfind]
  holder := by
    intro id t p hf hstate hp
    obtain ⟨s, hs, hlast⟩ := h.kept hp
    rw [hf] at hs
    cases hs
    exact (hlast hstate).1

-- What was kept before an operation, and is kept after it.
theorem run_kept (h : KeepsSent m past) (hreq : o.requeuesLeased) (hgrant : o.grantsAfresh m)
    {p : PartialResult} (hp : m.latestPartial i = some p) :
    ∃ t, (o.run m).find i = some t ∧
      (t.state = .leased → p.worker = t.holder ∧
        SentUnder (past ++ [(m, o)]) i t.holder p.sequence) := by
  obtain ⟨t, hf, hlast⟩ := h.kept hp
  obtain ⟨t', hf', hsame⟩ := run_sameHolder h.minted hreq hgrant hp hf
  refine ⟨t', hf', fun hs => ?_⟩
  obtain ⟨hstate, hholder⟩ := hsame hs
  obtain ⟨hworker, hunder⟩ := hlast hstate
  rw [hholder]
  exact ⟨hworker, hunder.later hf (isLeasedTo_iff.mpr ⟨hstate, rfl⟩) o⟩

theorem run (h : KeepsSent m past) (hreq : o.requeuesLeased) (hgrant : o.grantsAfresh m)
    {p : PartialResult} (hp : (o.run m).latestPartial i = some p) :
    ∃ t, (o.run m).find i = some t ∧
      (t.state = .leased → p.worker = t.holder ∧
        SentUnder (past ++ [(m, o)]) i t.holder p.sequence) := by
  have hsame : o.leavesPartials → m.latestPartial i = some p := by
    intro ho
    rw [latestPartial, run_partials m ho] at hp
    exact hp
  cases o with
  | recordPartial worker id sequence unitsDone payload nowMs leaseMs =>
      rcases recordPartial_cases m worker id sequence unitsDone payload nowMs leaseMs with
        ⟨e, hr⟩ | ⟨t, n, hf, hheld, -, hfind, hpartials, hr⟩
      · have hback : m.latestPartial i = some p := by
          simpa only [Operation.run, hr] using hp
        exact h.run_kept hreq hgrant hback
      · simp only [Operation.run, hr, latestPartial, hpartials, Table.lookup_insert_eq] at hp
        by_cases hi : i = id
        · subst hi
          rw [if_pos rfl] at hp
          cases hp
          refine ⟨_, by simpa only [Operation.run, hr] using hfind, fun _ => ?_⟩
          obtain ⟨-, hholder⟩ := isLeasedTo_iff.mp hheld
          dsimp only
          rw [hholder]
          exact ⟨rfl, .now past hf hheld _ _ _ _⟩
        · rw [if_neg hi] at hp
          exact h.run_kept hreq hgrant hp
  | finish id accepted => exact h.run_kept hreq hgrant (finish_latestPartial accepted hp)
  | _ => exact h.run_kept hreq hgrant (hsame trivial)

theorem step (h : KeepsSent m past) (hreq : o.requeuesLeased) (hgrant : o.grantsAfresh m)
    (hstep : Step m o m') : KeepsSent m' (past ++ [(m, o)]) where
  minted := by
    have hrun := run_minted h.minted hreq
    exact (Move.aux _ _ hstep.sameRows).minted hrun
  kept := by
    intro i p hp
    have hlookup : (o.run m).latestPartial i = m'.latestPartial i :=
      Table.lookup_of_perm hstep.partials i
    rw [← hlookup] at hp
    obtain ⟨t, hf, hlast⟩ := h.run hreq hgrant hp
    exact ⟨t, (hstep.sameRows.find_eq i).trans hf, hlast⟩

end KeepsSent

theorem partials_follow_lease
    (h : Reach (Recalling Step) (fun x (o : Operation F) => o.requeuesLeased ∧ o.grantsAfresh x.1)
      ({}, []) (m, past)) : FollowsLease m past := by
  have hkeeps := Recalling.invariant h KeepsSent .empty
    fun _ _ _ _ _ ho hk hstep => hk.step ho.1 ho.2 hstep
  exact hkeeps.followsLease

-- One task, leased and delivered in part.
def deliverRun : List (Operation Rat) :=
  [.createJob "brute_search_v1" 8 42 0, .grant ⟨1, 1⟩ 0 10 8 [],
    .recordPartial ⟨1, 1⟩ ⟨0, 2⟩ 10 4 [] 5 10]

-- The worker goes silent, and the task goes to another one.
def takeoverRun : List (Operation Rat) :=
  deliverRun ++ [.sweepExpiredLeases 100, .grant ⟨2, 1⟩ 100 10 8 []]

def afresh (_ : List (JobManager × Operation Rat)) (m : JobManager) : Operation Rat → Bool
  | .grant worker nowMs leaseMs units cached =>
      (m.grant worker nowMs leaseMs units cached).1.all fun t => m.latestPartial t.id = none
  | .requeue _ _ => false
  | _ => true

-- Nothing is sent back by hand.
def unforced (_ : List (JobManager × Operation Rat)) (_ : JobManager) : Operation Rat → Bool
  | .requeue _ _ => false
  | _ => true

theorem requeuesLeased_of_unforced {o : Operation Rat} {m : JobManager}
    {past : List (JobManager × Operation Rat)} (h : unforced past m o = true) :
    o.requeuesLeased := by
  cases o with
  | requeue => cases h
  | _ => exact trivial

theorem grantsAfresh_of_afresh {o : Operation Rat} {past : List (JobManager × Operation Rat)}
    (h : afresh past m o = true) : o.requeuesLeased ∧ o.grantsAfresh m := by
  cases o with
  | grant worker nowMs leaseMs units cached =>
      refine ⟨trivial, fun t ht => ?_⟩
      simpa [afresh, ht] using h
  | requeue => cases h
  | _ => exact ⟨trivial, trivial⟩

theorem partials_follow_lease_deliver :
    let m := runAll {} deliverRun
    (m.latestPartial ⟨0, 2⟩).map (fun p => p.worker) = some ⟨1, 1⟩ ∧
      FollowsLease m (Recalling.history (fun m (o : Operation Rat) => o.run m) {} deliverRun) := by
  have hstep : ∀ (n : JobManager) (o : Operation Rat), Step n o (o.run n) := fun n o =>
    Rehashed.refl (o.run n)
  have hchecks : Recalling.passes (fun m (o : Operation Rat) => o.run m) afresh [] {} deliverRun =
      true := by decide
  exact ⟨by decide, partials_follow_lease
    (Recalling.foldl_passes hstep (fun _ _ _ => grantsAfresh_of_afresh) deliverRun [] {} hchecks)⟩

-- What the first worker delivered is still shown once the second holds the lease.
theorem partial_outlives_lease :
    ¬ ∀ (m : JobManager) (past : List (JobManager × Operation Rat)),
      Reach (Recalling Step) (fun _ (o : Operation Rat) => o.requeuesLeased) ({}, []) (m, past) →
        FollowsLease m past := by
  intro hall
  have hstep : ∀ (n : JobManager) (o : Operation Rat), Step n o (o.run n) := fun n o =>
    Rehashed.refl (o.run n)
  have hchecks : Recalling.passes (fun m (o : Operation Rat) => o.run m) unforced [] {}
      takeoverRun = true := by decide
  have hfollows := hall _ _
    (Recalling.foldl_passes hstep (fun _ _ _ => requeuesLeased_of_unforced) takeoverRun [] {} hchecks)
  obtain ⟨t, p, hf, hstate, hp, hne⟩ : ∃ t p, (runAll {} takeoverRun).find ⟨0, 2⟩ = some t ∧
      t.state = .leased ∧ (runAll {} takeoverRun).latestPartial ⟨0, 2⟩ = some p ∧
      p.worker ≠ t.holder := ⟨_, _, rfl, rfl, rfl, by decide⟩
  exact hne (hfollows.holder hf hstate hp)

end

end JobManager

end P2pGpu.Coordinator
