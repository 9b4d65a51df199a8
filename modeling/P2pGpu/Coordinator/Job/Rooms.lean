import P2pGpu.Coordinator.Job.Grants

namespace P2pGpu.Coordinator.JobManager

open P2pGpu.Protocol

-- The jobs with their sizes, in the order in which they are looked at.
def rooms (m : JobManager) : List (JobId × UInt64) :=
  m.jobs.entries.map fun e => (e.1, e.2.totalUnits)

-- The first of them that seems to have room for a range.
def roomFor (m : JobManager) (startUnit unitCount : UInt64) : Option (JobId × UInt64) :=
  m.rooms.find? fun room => startUnit + unitCount ≤ room.2

section

variable {m m' : JobManager} {jobId : JobId} {job : Job} {startUnit unitCount total : UInt64}
  {worker : WorkerId} {nowMs : UInt64} {leaseMs : UInt32}

theorem roomFor_of_rooms (h : m'.rooms = m.rooms) :
    m'.roomFor startUnit unitCount = m.roomFor startUnit unitCount := by
  unfold roomFor
  rw [h]

theorem roomFor_of_knownRangeJob (h : m.knownRangeJob startUnit unitCount = some ⟨jobId, job⟩) :
    m.roomFor startUnit unitCount = some (jobId, job.totalUnits) := by
  have hmap : m.roomFor startUnit unitCount =
      (m.knownRangeJob startUnit unitCount).map fun e => (e.1, e.2.totalUnits) :=
    List.find?_map
  rw [hmap, h]
  rfl

theorem findJob_of_roomFor (h : m.roomFor startUnit unitCount = some (jobId, total)) :
    ∃ job, m.findJob jobId = some job ∧ job.totalUnits = total := by
  have hmem := List.mem_of_find?_eq_some h
  obtain ⟨⟨j, job⟩, hentry, heq⟩ := List.mem_map.mp hmem
  obtain ⟨rfl, rfl⟩ := Prod.mk.inj heq
  exact ⟨job, Table.mem_entries_iff.mp hentry, rfl⟩

theorem rooms_mutableJob (m : JobManager) (id : JobId) {edit : Job → Job}
    (h : ∀ job, (edit job).totalUnits = job.totalUnits) :
    (m.mutableJob id edit).rooms = m.rooms := by
  simp only [rooms, mutableJob, Table.modify, List.map_map]
  apply List.map_congr_left
  intro e _
  by_cases he : e.1 = id
  · simp [he, h]
  · simp [he]

theorem rooms_requeue (m : JobManager) (id : TaskId) (why : TaskEvent) :
    (m.requeue id why).2.rooms = m.rooms := by
  unfold requeue
  split
  · rfl
  · split
    · rfl
    · rename_i r happly
      obtain ⟨next, -, heq⟩ := apply_ok.mp happly
      cases heq
      rfl

theorem rooms_carveFrom {units : UInt64} {cached : List AssetId}
    (entries : List (Sigma fun _ : JobId => Job)) (m : JobManager) :
    (carveFrom worker nowMs leaseMs units cached entries m).2.rooms = m.rooms := by
  induction entries generalizing m with
  | nil => rfl
  | cons e entries ih =>
      have hskip : (carveFrom worker nowMs leaseMs units cached entries m.mint.2).2.rooms =
          m.rooms := ih m.mint.2
      unfold carveFrom
      split
      · exact ih m
      · dsimp only
        split
        · exact hskip
        · split
          · exact hskip
          · unfold countAssetGrant
            split
            · exact rooms_mutableJob m.mint.2 e.1 fun job => rfl
            · exact rooms_mutableJob m.mint.2 e.1 fun job => rfl

theorem rooms_grant (m : JobManager) (units : UInt64) (cached : List AssetId) :
    (m.grant worker nowMs leaseMs units cached).2.rooms = m.rooms := by
  unfold grant
  split
  · rename_i t m' hqueued
    obtain ⟨place, id, task, -, -, -, hr⟩ := grantQueued_some hqueued
    dsimp only at hr
    rw [hr]
    rfl
  · split
    · rfl
    · exact rooms_carveFrom _ m

theorem rooms_issueSpeculative {F : Type} [Double F] (m : JobManager) (threshold : F) :
    (m.issueSpeculative worker nowMs leaseMs threshold).2.rooms = m.rooms := by
  unfold issueSpeculative
  dsimp only
  split
  · rfl
  · exact rooms_mutableJob m.mint.2 _ fun job => rfl

end

end P2pGpu.Coordinator.JobManager
