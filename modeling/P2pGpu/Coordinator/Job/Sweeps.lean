import P2pGpu.Coordinator.Job.Minted

namespace P2pGpu.Coordinator.JobManager

open P2pGpu.Protocol

section

variable {m : JobManager} {worker : WorkerId} {id i : TaskId} {t : Task} {nowMs : UInt64}

theorem nodup_keys (m : JobManager) : m.tasks.keys.Nodup := AList.keys_nodup m.tasks

theorem mem_keys_iff : id ∈ m.tasks.keys ↔ ∃ t, m.find id = some t :=
  AList.mem_keys.symm.trans Table.mem_iff_lookup

theorem mem_heldBy : id ∈ m.heldBy worker ↔ ∃ t, m.find id = some t ∧ t.isLeasedTo worker := by
  simp only [heldBy, List.mem_map, List.mem_filter, Sigma.exists]
  constructor
  · rintro ⟨j, t, ⟨hmem, hleased⟩, rfl⟩
    exact ⟨t, Table.mem_entries_iff.mp hmem, hleased⟩
  · rintro ⟨t, hfind, hleased⟩
    exact ⟨id, t, ⟨Table.mem_entries_iff.mpr hfind, hleased⟩, rfl⟩

theorem nodup_heldBy (m : JobManager) (worker : WorkerId) : (m.heldBy worker).Nodup := by
  have hsub : (m.heldBy worker).Sublist m.tasks.keys := by
    simp only [heldBy, AList.keys, List.keys]
    exact List.filter_sublist.map _
  exact hsub.nodup (nodup_keys m)

theorem isLeasedTo_iff : t.isLeasedTo worker = true ↔ t.state = .leased ∧ t.holder = worker := by
  simp [Task.isLeasedTo]

-- A task whose lease has run out. Validity is half open.
def Expired (nowMs : UInt64) (t : Task) : Prop :=
  t.state = .leased ∧ t.leaseExpiresAtMs ≤ nowMs

instance : DecidablePred (Expired nowMs) := fun _ => inferInstanceAs (Decidable (_ ∧ _))

-- The labels of a loop that requeues what satisfies `p`.
def Requeues (p : Task → Prop) (m : JobManager) (l : Label) : Prop :=
  ∃ id t, l = .act id .requeue ∧ m.find id = some t ∧ p t

-- One requeue, and the rest of the loop from there.
theorem requeue_step {p : Task → Prop} {m' : JobManager} (hfind : m.find id = some t)
    (hstate : t.state = .leased) (hp : p t)
    (hrest : Moves (Requeues p) (m.perform id .requeue t.requeued) m') :
    Moves (Requeues p) m m' :=
  Reach.head ⟨id, t, rfl, hfind, hp⟩ (Move.act m id .requeue t _ hfind (if_pos hstate) trivial)
    hrest

theorem sweepFrom_cons (nowMs : UInt64) (id : TaskId) (rest : List TaskId) (m : JobManager) :
    (sweepFrom nowMs (id :: rest) m).2 =
      match m.find id with
      | none => (sweepFrom nowMs rest m).2
      | some t =>
          if Expired nowMs t then (sweepFrom nowMs rest (m.perform id .requeue t.requeued)).2
          else (sweepFrom nowMs rest m).2 := by
  rw [sweepFrom]
  cases m.find id with
  | none => rfl
  | some t =>
      dsimp only
      by_cases hexp : Expired nowMs t
      · have hlive : ¬ (t.state ≠ .leased ∨ nowMs < t.leaseExpiresAtMs) := by
          rintro (h | h)
          · exact h hexp.1
          · exact absurd hexp.2 (UInt64.not_le.mpr h)
        rw [if_neg hlive, if_pos hexp]
        have happly : m.apply id t .leaseExpired =
            .ok ({ t with state := .queued },
              (m.put id { t with state := .queued }).markTaskDirty id) :=
          apply_ok.mpr ⟨.queued, advance_leaseExpired.mpr ⟨hexp.1, rfl⟩, rfl⟩
        rw [happly]
        simp [release, perform, put, markTaskDirty, Act.queue, Task.requeued]
      · have hlive : t.state ≠ .leased ∨ nowMs < t.leaseExpiresAtMs := by
          by_contra hcon
          rw [not_or, not_not, UInt64.not_lt] at hcon
          exact hexp hcon
        rw [if_pos hlive, if_neg hexp]

theorem sweepFrom_moves (ids : List TaskId) (m : JobManager) :
    Moves (Requeues (Expired nowMs)) m (sweepFrom nowMs ids m).2 := by
  induction ids generalizing m with
  | nil => exact Reach.refl m
  | cons id ids ih =>
      rw [sweepFrom_cons]
      cases hfind : m.find id with
      | none => exact ih m
      | some t =>
          dsimp only
          split
          · rename_i hexp
            exact requeue_step hfind hexp.1 hexp (ih _)
          · exact ih m

theorem sweepExpiredLeases_moves (m : JobManager) (nowMs : UInt64) :
    Moves (Requeues (Expired nowMs)) m (m.sweepExpiredLeases nowMs).2 :=
  sweepFrom_moves _ m

theorem find_sweepFrom (ids : List TaskId) (hnodup : ids.Nodup) (m : JobManager) (i : TaskId) :
    (sweepFrom nowMs ids m).2.find i =
      (m.find i).map fun t => if i ∈ ids ∧ Expired nowMs t then t.requeued else t := by
  induction ids generalizing m with
  | nil => simp [sweepFrom]
  | cons id ids ih =>
      obtain ⟨hid, hnodup⟩ := List.nodup_cons.mp hnodup
      rw [sweepFrom_cons]
      cases hfind : m.find id with
      | none =>
          dsimp only
          rw [ih hnodup]
          by_cases hi : i = id
          · subst hi
            rw [hfind]
            rfl
          · simp [hi]
      | some t =>
          dsimp only
          by_cases hexp : Expired nowMs t
          · rw [if_pos hexp, ih hnodup, find_perform hfind]
            by_cases hi : i = id
            · subst hi
              simp [hfind, hexp, hid]
            · simp [hi]
          · rw [if_neg hexp, ih hnodup]
            by_cases hi : i = id
            · subst hi
              simp [hfind, hexp]
            · simp [hi]

-- A sweep requeues exactly what has expired.
theorem find_sweepExpiredLeases (m : JobManager) (nowMs : UInt64) (i : TaskId) :
    (m.sweepExpiredLeases nowMs).2.find i =
      (m.find i).map fun t => if Expired nowMs t then t.requeued else t := by
  unfold sweepExpiredLeases
  rw [find_sweepFrom _ (nodup_keys m)]
  cases hfind : m.find i with
  | none => rfl
  | some t => simp [mem_keys_iff.mpr ⟨t, hfind⟩]

theorem requeue_release (hfind : m.find id = some t) (hstate : t.state = .leased) :
    m.requeue id .release = (.ok (), m.perform id .requeue t.requeued) := by
  have happly : m.apply id t .release =
      .ok ({ t with state := .queued },
        (m.put id { t with state := .queued }).markTaskDirty id) :=
    apply_ok.mpr ⟨.queued, advance_release.mpr ⟨hstate, rfl⟩, rfl⟩
  simp only [requeue, hfind, happly]
  simp [release, perform, put, markTaskDirty, Act.queue, Task.requeued]

theorem releaseFrom_cons (id : TaskId) (rest : List TaskId) (hfind : m.find id = some t)
    (hstate : t.state = .leased) :
    (releaseFrom (id :: rest) m).2 =
      (releaseFrom rest (m.perform id .requeue t.requeued)).2 := by
  simp only [releaseFrom, requeue_release hfind hstate]

section

variable {ids : List TaskId}

-- What is still to be released stays leased to the worker.
theorem leased_tail (hnodup : (id :: ids).Nodup) (hfind : m.find id = some t)
    (hheld : ∀ j ∈ id :: ids, ∃ t, m.find j = some t ∧ t.isLeasedTo worker) :
    ∀ j ∈ ids, ∃ s, (m.perform id .requeue t.requeued).find j = some s ∧ s.isLeasedTo worker := by
  intro j hj
  obtain ⟨s, hs, hleased⟩ := hheld j (List.mem_cons_of_mem _ hj)
  have hne : j ≠ id := fun he => (List.nodup_cons.mp hnodup).1 (he ▸ hj)
  exact ⟨s, by rw [find_perform hfind, if_neg hne]; exact hs, hleased⟩

theorem releaseFrom_moves (hnodup : ids.Nodup)
    (hheld : ∀ j ∈ ids, ∃ t, m.find j = some t ∧ t.isLeasedTo worker) :
    Moves (Requeues fun t => t.isLeasedTo worker) m (releaseFrom ids m).2 := by
  induction ids generalizing m with
  | nil => exact Reach.refl m
  | cons id ids ih =>
      obtain ⟨t, hfind, hleased⟩ := hheld id List.mem_cons_self
      have hstate := (isLeasedTo_iff.mp hleased).1
      rw [releaseFrom_cons id ids hfind hstate]
      exact requeue_step hfind hstate hleased
        (ih (List.nodup_cons.mp hnodup).2 (leased_tail hnodup hfind hheld))

theorem find_releaseFrom (hnodup : ids.Nodup)
    (hheld : ∀ j ∈ ids, ∃ t, m.find j = some t ∧ t.isLeasedTo worker) (i : TaskId) :
    (releaseFrom ids m).2.find i =
      (m.find i).map fun t => if i ∈ ids then t.requeued else t := by
  induction ids generalizing m with
  | nil => simp [releaseFrom]
  | cons id ids ih =>
      obtain ⟨t, hfind, hleased⟩ := hheld id List.mem_cons_self
      rw [releaseFrom_cons id ids hfind (isLeasedTo_iff.mp hleased).1,
        ih (List.nodup_cons.mp hnodup).2 (leased_tail hnodup hfind hheld), find_perform hfind]
      by_cases hi : i = id
      · subst hi
        simp [hfind, (List.nodup_cons.mp hnodup).1]
      · simp [hi]

end

theorem releaseAllHeldBy_moves (m : JobManager) (worker : WorkerId) :
    Moves (Requeues fun t => t.isLeasedTo worker) m (m.releaseAllHeldBy worker).2 :=
  releaseFrom_moves (nodup_heldBy m worker) fun _ hj => mem_heldBy.mp hj

-- A release requeues exactly what the worker held.
theorem find_releaseAllHeldBy (m : JobManager) (worker : WorkerId) (i : TaskId) :
    (m.releaseAllHeldBy worker).2.find i =
      (m.find i).map fun t => if t.isLeasedTo worker then t.requeued else t := by
  unfold releaseAllHeldBy
  rw [find_releaseFrom (nodup_heldBy m worker) fun _ hj => mem_heldBy.mp hj]
  cases hfind : m.find i with
  | none => rfl
  | some t =>
      have hmem : i ∈ m.heldBy worker ↔ t.isLeasedTo worker := by
        rw [mem_heldBy, hfind]
        simp
      simp [hmem]

-- The labels of a cancellation: live members of the family of `winner`.
def Cancels (winner root : TaskId) (m : JobManager) (l : Label) : Prop :=
  l = .aux ∨ ∃ id t, l = .act id .cancel ∧ id ≠ winner ∧ m.find id = some t ∧
    (id = root ∨ t.replicaOf = root)

theorem cancelFrom_moves (winner root : TaskId) (ids : List TaskId) (m : JobManager) :
    Moves (Cancels winner root) m (cancelFrom winner root ids m).2 := by
  induction ids generalizing m with
  | nil => exact Reach.refl m
  | cons id ids ih =>
      unfold cancelFrom
      split
      · exact ih m
      · rename_i hne
        split
        · exact ih m
        · rename_i sibling hfind
          split
          · exact ih m
          · rename_i hfamily
            rw [not_or, not_not] at hfamily
            cases happly : m.apply id sibling .cancel with
            | error e => exact ih m
            | ok r =>
                obtain ⟨next, hnext, rfl⟩ := apply_ok.mp happly
                obtain ⟨hstate, rfl⟩ := advance_cancel.mp hnext
                refine Reach.head (.inr ⟨id, sibling, rfl, hne, hfind, hfamily.1⟩)
                  (Move.act m id .cancel sibling _ hfind (if_pos hstate) trivial) ?_
                refine Reach.head (.inl rfl) (Move.aux _ _ ?_) (ih _)
                simp only [perform, put, markTaskDirty, Table.modify_modify_const, Act.queue]
                exact ⟨.refl _, .refl _, .refl _, .refl _, rfl, rfl⟩

theorem cancelSiblingsOf_moves (m : JobManager) (winner : TaskId) :
    Moves (fun n l => ∃ t, m.find winner = some t ∧
      Cancels winner (if t.replicaOf = Id.nil then winner else t.replicaOf) n l)
      m (m.cancelSiblingsOf winner).2 := by
  unfold cancelSiblingsOf
  split
  · exact Reach.refl m
  · rename_i t hfind
    dsimp only
    split
    · exact Reach.refl m
    · exact Reach.mono (fun _ _ h => ⟨t, hfind, h⟩) (cancelFrom_moves _ _ _ m)

end

end P2pGpu.Coordinator.JobManager
