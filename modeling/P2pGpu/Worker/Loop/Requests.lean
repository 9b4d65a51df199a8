import P2pGpu.Worker.KernelHost
import P2pGpu.Worker.Loop.Parked

namespace P2pGpu

namespace LittleEndian

-- A word of a buffer, by its bytes.
theorem readWords_getD {bytes : List UInt8} {i : Nat} (h : 4 * i + 4 ≤ bytes.length) :
    (readWords bytes).getD i 0 =
      readU32LE (bytes.getD (4 * i) 0) (bytes.getD (4 * i + 1) 0) (bytes.getD (4 * i + 2) 0)
        (bytes.getD (4 * i + 3) 0) := by
  induction i generalizing bytes with
  | zero =>
      rcases bytes with _ | ⟨b₀, _ | ⟨b₁, _ | ⟨b₂, _ | ⟨b₃, rest⟩⟩⟩⟩
      · simp at h
      · simp at h
      · simp at h
      · simp at h
      · rfl
  | succ i ih =>
      rcases bytes with _ | ⟨b₀, _ | ⟨b₁, _ | ⟨b₂, _ | ⟨b₃, rest⟩⟩⟩⟩
      · simp at h
      · simp at h
      · simp at h
      · simp at h
      · have hrest : 4 * i + 4 ≤ rest.length := by
          simp only [List.length_cons] at h
          omega
        exact ih hrest

end LittleEndian

namespace Worker

open LittleEndian
open P2pGpu.Protocol
open P2pGpu.Coordinator (KernelSpec Task)

namespace PendingTask

-- What `Execute` asks of the host, with the first contents of the output that the kernel has.
def request (task : PendingTask) (outputInit : List UInt8) : TaskRequest where
  params := task.params
  startUnit := task.startUnit
  unitCount := task.workUnits
  outputBytes := task.outputBytes
  workgroupSize := task.workgroupSize
  workgroupSizeY := task.workgroupSizeY
  invocationsX := task.invocationsX
  invocationsY := task.invocationsY
  outputInit

theorem sized_request (task : PendingTask) (info : KernelInfo) (outputInit : List UInt8) :
    (task.sized info).request outputInit =
      { task.request outputInit with outputBytes := (task.sized info).outputBytes } := by
  unfold sized
  split <;> rfl

end PendingTask

namespace WorkerLoop

section

variable {cfg : Config} {w : WorkerLoop} {e : Event} {p : PendingTask}

-- The kernels are those of the last welcome.
theorem moved_kernelInfo (cfg : Config) (w : WorkerLoop)
    (h : ∀ kernels, e.2 ≠ .welcome kernels) : (w.moved cfg e).kernelInfo = w.kernelInfo := by
  have hsourced : ∀ (v : WorkerLoop) task, (v.sourced task).kernelInfo = v.kernelInfo := by
    intro v task
    unfold sourced
    split <;> rfl
  obtain ⟨now, e⟩ := e
  unfold moved
  cases e with
  | welcome kernels => exact absurd rfl (h kernels)
  | start =>
      unfold next start
      dsimp only
      split <;> rfl
  | stop =>
      unfold next stop
      dsimp only
      split <;> rfl
  | taskGrant grant =>
      unfold next handleTaskGrant
      dsimp only
      split
      · split
        · rfl
        · split
          · split <;> rfl
          · rfl
      · rfl
  | revoke task => cases task <;> rfl
  | poll ability =>
      unfold next poll
      dsimp only
      split
      · rfl
      · split
        · cases ability with
          | noDevice => rfl
          | noSource => rfl
          | noKernel => exact hsourced _ _
          | able => exact hsourced _ _
        · rfl
  | executed ok healthy =>
      unfold next onExecuted
      dsimp only
      split
      · rfl
      · cases ok <;> rfl
  | _ => rfl

-- A task of the loop was there, or it is laid out from the grant that is handled.
theorem tasks_from (cfg : Config) (hpossible : w.Possible e) (hp : p ∈ (w.moved cfg e).tasks) :
    p ∈ w.tasks ∨ ∃ grant task info, e.2 = .taskGrant grant ∧
      w.described grant = some (task, info) ∧ (p = task ∨ p = task.sized info) := by
  rcases mem_tasks.mp hp with hpending | hexecuting
  · rcases (moved_tasks cfg hpossible).1 p hpending with hold | ⟨grant, hgrant, -⟩
    · exact .inl (mem_tasks.mpr (.inl hold))
    · obtain ⟨now, e⟩ := e
      dsimp only at hgrant
      subst hgrant
      have hthere : p ∈ (w.handleTaskGrant now grant).1.pending := hpending
      cases hdescribed : w.described grant with
      | none =>
          rw [(handleTaskGrant_refused now hdescribed).1] at hthere
          exact .inl (mem_tasks.mpr (.inl hthere))
      | some pair =>
          obtain ⟨task, info⟩ := pair
          by_cases hhand : w.AtHand grant
          · have hqueues := (handleTaskGrant_queued now hdescribed hhand).2
            rcases hqueues.accepts.pending_sub p hthere with hold | rfl
            · exact .inl (mem_tasks.mpr (.inl hold))
            · exact .inr ⟨grant, task, info, rfl, hdescribed, .inr rfl⟩
          · have hparks := (handleTaskGrant_parked now hdescribed hhand).2
            rcases hparks.accepts.pending_sub p hthere with hold | rfl
            · exact .inl (mem_tasks.mpr (.inl hold))
            · exact .inr ⟨grant, p, info, rfl, hdescribed, .inl rfl⟩
  · rcases (moved_tasks cfg hpossible).2 p hexecuting with hold | hold
    · exact .inl (mem_tasks.mpr (.inr hold))
    · exact .inl (mem_tasks.mpr (.inl hold))

end

end WorkerLoop

end Worker

end P2pGpu
