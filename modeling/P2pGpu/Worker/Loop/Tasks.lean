import P2pGpu.Worker.Fetch.Outcome
import P2pGpu.Worker.Loop

namespace P2pGpu.Worker

open P2pGpu.Protocol
open P2pGpu.Coordinator (AssetRequest WireString)

namespace TaskLoop

-- What the fetch does with the tasks: those that waited go on waiting, or they may run, or
-- they are given back, and what is given back is not held any more.
structure Shifts (l : TaskLoop) (rs : List TaskId) (l' : TaskLoop) : Prop where
  released : l'.released = l.released ++ rs
  held : l'.held = l.held.filter (· ∉ rs)
  waiting_sub : ∀ t ∈ l'.waitingOnAsset, t ∈ l.waitingOnAsset
  waiting_rest : ∀ t ∈ l.waitingOnAsset, t ∈ l'.waitingOnAsset ∨ t ∈ l'.queue ∨ t.id ∈ rs
  queue_sub : ∀ t ∈ l'.queue, t ∈ l.queue ∨ t ∈ l.waitingOnAsset
  queue_rest : ∀ t ∈ l.queue, t ∈ l'.queue

-- The tasks are left alone.
structure Still (l l' : TaskLoop) : Prop where
  patient : l.Patient l'
  held : l'.held = l.held
  queue : l'.queue = l.queue

section

variable {l l' l'' : TaskLoop} {rs : List TaskId} {cfg : Config} {now : Nat}
  {kind : Sent → Prop}

theorem Still.refl (l : TaskLoop) : l.Still l := ⟨.refl l, rfl, rfl⟩

theorem Still.trans (h : l.Still l') (h' : l'.Still l'') : l.Still l'' :=
  ⟨h.patient.trans h'.patient, h'.held.trans h.held, h'.queue.trans h.queue⟩

theorem Still.shifts (h : l.Still l') : l.Shifts [] l' where
  released := by rw [h.patient.released, List.append_nil]
  held := by rw [h.held, List.filter_eq_self.mpr (by simp)]
  waiting_sub t ht := h.patient.waiting ▸ ht
  waiting_rest t ht := .inl (h.patient.waiting.symm ▸ ht)
  queue_sub t ht := .inl (h.queue ▸ ht)
  queue_rest t ht := h.queue.symm ▸ ht

-- After a step that leaves them alone.
theorem Still.before (h : l.Still l') (h' : l'.Shifts rs l'') : l.Shifts rs l'' where
  released := by rw [h'.released, h.patient.released]
  held := by rw [h'.held, h.held]
  waiting_sub t ht := h.patient.waiting ▸ h'.waiting_sub t ht
  waiting_rest t ht := h'.waiting_rest t (h.patient.waiting.symm ▸ ht)
  queue_sub t ht := by
    have hfrom := h'.queue_sub t ht
    rwa [h.queue, h.patient.waiting] at hfrom
  queue_rest t ht := h'.queue_rest t (h.queue.symm ▸ ht)

theorem send_still (l : TaskLoop) {m : Sent} (h : m.released = none) : l.Still (l.send m) :=
  ⟨send_patient l h, rfl, rfl⟩

theorem Tells.still (h : l.Tells kind l') (hkind : ∀ m, kind m → m.released = none) :
    l.Still l' := by
  refine ⟨h.patient hkind, ?_, ?_⟩
  · obtain ⟨ms, -, rfl⟩ := h
    rfl
  · obtain ⟨ms, -, rfl⟩ := h
    rfl

theorem fallBackToCoordinator_still (l : TaskLoop) (now : Nat) :
    l.Still (l.fallBackToCoordinator now) := by
  unfold fallBackToCoordinator
  dsimp only
  split
  · exact ⟨⟨rfl, rfl⟩, rfl, rfl⟩
  · refine Still.trans ?_ ((sendAssetRequest_tells _ _ _ _).still fun _ hm => hm.unreleased)
    exact ⟨⟨rfl, rfl⟩, rfl, rfl⟩

theorem tryNextPeerOrFallBack_still (l : TaskLoop) (now : Nat) :
    l.Still (l.tryNextPeerOrFallBack now) := by
  unfold tryNextPeerOrFallBack
  split
  · exact .refl l
  · split
    · exact fallBackToCoordinator_still l now
    · split
      · exact fallBackToCoordinator_still l now
      · refine Still.trans ?_ (send_still _ rfl)
        exact ⟨⟨rfl, rfl⟩, rfl, rfl⟩

theorem onOpen_still (l : TaskLoop) (isOpen : Bool) : l.Still (l.onOpen isOpen) := by
  unfold onOpen
  split
  · exact .refl l
  · dsimp only
    split
    · exact ⟨⟨rfl, rfl⟩, rfl, rfl⟩
    · split
      · exact ⟨⟨rfl, rfl⟩, rfl, rfl⟩
      · refine Still.trans ?_ ((sendToPeer_tells _ _ _).still fun _ hm => hm.unreleased)
        exact ⟨⟨rfl, rfl⟩, rfl, rfl⟩

theorem parkOnAsset_resident (task : PendingTask) (now : Nat) (inputBytes : UInt64)
    (h : task.asset = l.residentAsset) : l.parkOnAsset now task inputBytes =
      { l with
        assetSource := .cached
        held := l.held ++ [task.id]
        queue := l.queue ++ [task] } := if_pos h

-- It waits, and a fetch may start for it.
theorem parkOnAsset_waits {task : PendingTask} (now : Nat) (inputBytes : UInt64)
    (h : task.asset ≠ l.residentAsset) :
    Still { l with waitingOnAsset := l.waitingOnAsset ++ [task] }
      (l.parkOnAsset now task inputBytes) := by
  unfold parkOnAsset
  rw [if_neg h]
  dsimp only
  split
  · exact .refl _
  · refine Still.trans ?_ (tryNextPeerOrFallBack_still _ now)
    exact ⟨⟨rfl, rfl⟩, rfl, rfl⟩

theorem releaseAll_tasks (l : TaskLoop) (tasks : List PendingTask) :
    (l.releaseAll tasks).held = l.held.filter (· ∉ tasks.map PendingTask.id) ∧
      (l.releaseAll tasks).queue = l.queue ∧
      (l.releaseAll tasks).waitingOnAsset = l.waitingOnAsset := by
  unfold releaseAll
  induction tasks generalizing l with
  | nil => simp
  | cons t tasks ih =>
      obtain ⟨hheld, hqueue, hwaiting⟩ := ih (l.sendRelease t.id .assetUnavailable)
      rw [List.foldl_cons]
      refine ⟨?_, hqueue, hwaiting⟩
      rw [hheld]
      show (l.held.filter (· ≠ t.id)).filter (· ∉ tasks.map PendingTask.id) = _
      rw [List.filter_filter]
      apply List.filter_congr
      intro id _
      rw [Bool.eq_iff_iff]
      simp [and_comm]

theorem abandonAssetFetch_shifts (l : TaskLoop) :
    l.Shifts (l.waitingOnAsset.map PendingTask.id) l.abandonAssetFetch := by
  obtain ⟨hheld, hqueue, -⟩ := releaseAll_tasks
    { l with fetch := none, peer := none, peerTarget := Id.nil } l.waitingOnAsset
  have hreleased := (releaseAll_outbox
    { l with fetch := none, peer := none, peerTarget := Id.nil } l.waitingOnAsset).2
  refine ⟨hreleased, hheld, fun t ht => (by cases ht), fun t ht => .inr (.inr ?_),
    fun t ht => .inl (hqueue ▸ ht), fun t ht => hqueue.symm ▸ ht⟩
  exact List.mem_map_of_mem ht

theorem rejectBytesAndRetry_shifts (l : TaskLoop) (now : Nat) :
    ∃ rs, l.Shifts rs (l.rejectBytesAndRetry now) := by
  unfold rejectBytesAndRetry
  split
  · exact ⟨[], (Still.refl l).shifts⟩
  · split
    · exact ⟨_, abandonAssetFetch_shifts l⟩
    · refine ⟨[], (Still.trans ?_ (tryNextPeerOrFallBack_still _ now)).shifts⟩
      exact ⟨⟨rfl, rfl⟩, rfl, rfl⟩

-- The tasks that wait for another asset than the one that came are given back.
theorem finishAssetFetch_shifts (cfg : Config) (l : TaskLoop) (now : Nat) :
    ∃ rs, l.Shifts rs (l.finishAssetFetch cfg now) := by
  unfold finishAssetFetch
  split
  · exact ⟨[], (Still.refl l).shifts⟩
  · rename_i f hf
    split
    · exact rejectBytesAndRetry_shifts l now
    · split
      · exact rejectBytesAndRetry_shifts l now
      · dsimp only
        refine ⟨(l.waitingOnAsset.filter fun t => t.asset ≠ f.address).map PendingTask.id, ?_⟩
        have htasks := fun l₁ : TaskLoop => releaseAll_tasks l₁
          (l.waitingOnAsset.filter fun t => t.asset ≠ f.address)
        have houtbox := fun l₁ : TaskLoop => releaseAll_outbox l₁
          (l.waitingOnAsset.filter fun t => t.asset ≠ f.address)
        refine ⟨(houtbox _).2, (htasks _).1, fun t ht => (by cases ht), fun t ht => .inr ?_, ?_, ?_⟩
        · by_cases hasset : t.asset = f.address
          · exact .inl (List.mem_append_right _ (List.mem_filter.mpr ⟨ht, by simpa using hasset⟩))
          · refine .inr (List.mem_map_of_mem ?_)
            exact List.mem_filter.mpr ⟨ht, by simpa using hasset⟩
        · intro t ht
          rcases List.mem_append.mp ht with hold | hnew
          · exact .inl hold
          · exact .inr (List.mem_of_mem_filter hnew)
        · exact fun t ht => List.mem_append_left _ ht

theorem handleAssetChunk_shifts (cfg : Config) (l : TaskLoop) (now : Nat) (c : AssetChunk) :
    ∃ rs, l.Shifts rs (l.handleAssetChunk cfg now c) := by
  have hstill : ∀ g, l.Still { l with fetch := some g } := fun _ => ⟨⟨rfl, rfl⟩, rfl, rfl⟩
  unfold handleAssetChunk
  split
  · split
    · exact ⟨_, abandonAssetFetch_shifts l⟩
    · exact ⟨[], (hstill _).shifts⟩
    · rename_i g _
      dsimp only
      split
      · obtain ⟨rs, hshifts⟩ := finishAssetFetch_shifts cfg { l with fetch := some g } now
        exact ⟨rs, (hstill g).before hshifts⟩
      · split
        · have hasks := requestAssetChunks_tells { l with fetch := some g }
          exact ⟨[], ((hstill g).trans (hasks.still fun _ hm => hm.unreleased)).shifts⟩
        · exact ⟨[], (hstill g).shifts⟩
  · exact ⟨[], (Still.refl l).shifts⟩

theorem handleAssetMiss_shifts (l : TaskLoop) (now : Nat) :
    ∃ rs, l.Shifts rs (l.handleAssetMiss now) := by
  unfold handleAssetMiss
  split
  · refine ⟨[], (Still.trans ?_ (tryNextPeerOrFallBack_still _ now)).shifts⟩
    exact ⟨⟨rfl, rfl⟩, rfl, rfl⟩
  · exact ⟨_, abandonAssetFetch_shifts l⟩

theorem onPeerBytes_shifts (cfg : Config) (l : TaskLoop) (now : Nat)
    (servingCurrent : Option WorkerId) (m : AssetMsg) :
    ∃ rs, l.Shifts rs (l.onPeerBytes cfg now servingCurrent m) := by
  cases m with
  | assetRequest m =>
      have htalks := servePeerAssetRequest_tells l servingCurrent m
      exact ⟨[], (htalks.still fun _ hm => hm.unreleased).shifts⟩
  | assetChunk c => exact handleAssetChunk_shifts cfg l now c
  | assetMiss hash => exact handleAssetMiss_shifts l now

theorem pollFetch_shifts (l : TaskLoop) (now : Nat) : ∃ rs, l.Shifts rs (l.pollFetch now) := by
  unfold pollFetch
  have hfirst : l.Still (if l.fetch.isSome ∧ l.peer.isSome ∧ l.peerDeadline < now then
      { l with peer := none }.tryNextPeerOrFallBack now else l) := by
    split
    · refine Still.trans ?_ (tryNextPeerOrFallBack_still _ now)
      exact ⟨⟨rfl, rfl⟩, rfl, rfl⟩
    · exact .refl l
  dsimp only
  split
  · exact ⟨[], hfirst.shifts⟩
  · split
    · exact ⟨_, hfirst.before (abandonAssetFetch_shifts _)⟩
    · exact ⟨[], hfirst.shifts⟩

end

end TaskLoop

namespace Said

-- The task that is over with it.
def ends : Said → Option TaskId
  | .release task _ => some task
  | .result task => some task
  | .goodbye _ => none

end Said

namespace WorkerLoop

def pending (w : WorkerLoop) : List PendingTask := w.loop.waitingOnAsset ++ w.loop.queue

-- What a step settles: it is given back or answered, it is taken away, or the connection
-- goes with all that was granted on it.
def Over (cfg : Config) (w : WorkerLoop) (e : Event) (id : TaskId) : Prop :=
  id ∈ (w.handsOver cfg e).filterMap Said.ends ∨ e.2 = .revoke (some id) ∨ e.2 = .closed ∨
    (e.2 = .stop ∧ w.running = true)

-- The coordinator sends the task, and it is not given back at once.
def Grants (e : Event) (id : TaskId) : Prop :=
  ∃ grant, e.2 = .taskGrant grant ∧ grant.task = some id ∧ grant.job.isSome = true

def Starts (cfg : Config) (w : WorkerLoop) (e : Event) (id : TaskId) : Prop :=
  Grants e id ∧ ¬ Over cfg w e id

-- The tasks after a step, but for those that are gone with it.
structure Keeps (gone : TaskId → Prop) (w w' : WorkerLoop) : Prop where
  held_sub : ∀ id ∈ w'.loop.held, id ∈ w.loop.held ∧ ¬ gone id
  held_rest : ∀ id ∈ w.loop.held, id ∈ w'.loop.held ∨ gone id
  tasks_rest : ∀ t ∈ w.tasks, t ∈ w'.tasks ∨ gone t.id
  pending_sub : ∀ t ∈ w'.pending, t ∈ w.pending
  executing_sub : ∀ t, w'.executing = some t → w.executing = some t ∨ t ∈ w.pending

-- A grant is taken: its task is held and queued, or it waits.
structure Accepts (task : PendingTask) (w w' : WorkerLoop) : Prop where
  held_sub : ∀ id ∈ w'.loop.held, id ∈ w.loop.held ∨ id = task.id
  held_rest : ∀ id ∈ w.loop.held, id ∈ w'.loop.held
  tasks_rest : ∀ t ∈ w.tasks, t ∈ w'.tasks
  pending_sub : ∀ t ∈ w'.pending, t ∈ w.pending ∨ t = task
  there : task ∈ w'.tasks
  executing : w'.executing = w.executing

-- The task is held and queued.
structure Queues (task : PendingTask) (w w' : WorkerLoop) : Prop where
  held : w'.loop.held = w.loop.held ++ [task.id]
  waiting : w'.loop.waitingOnAsset = w.loop.waitingOnAsset
  queue : w'.loop.queue = w.loop.queue ++ [task]
  executing : w'.executing = w.executing

-- The task waits, and it is not held.
structure Parks (task : PendingTask) (w w' : WorkerLoop) : Prop where
  held : w'.loop.held = w.loop.held
  waiting : w'.loop.waitingOnAsset = w.loop.waitingOnAsset ++ [task]
  queue : w'.loop.queue = w.loop.queue
  executing : w'.executing = w.executing

-- A grant as it is laid out for its kernel.
def laidOut (grant : TaskGrant) (id : TaskId) (job : JobId) (info : KernelInfo) : PendingTask :=
  match grant.inputRef with
  | some hash => ((grant.pending id job).forKernel info).withAsset hash.address
  | none => (grant.pending id job).forKernel info

-- With its kernel. There is none where the grant is dropped or its task goes straight back.
def described (w : WorkerLoop) (grant : TaskGrant) : Option (PendingTask × KernelInfo) :=
  match grant.task, grant.job with
  | some id, some job =>
      (w.findKernel (grant.kernelId.getD "")).map fun info => (laidOut grant id job info, info)
  | _, _ => none

def AtHand (w : WorkerLoop) (grant : TaskGrant) : Prop :=
  ∀ hash, grant.inputRef = some hash → hash.address = w.loop.residentAsset

section

variable {cfg : Config} {w w' : WorkerLoop} {now : Nat} {gone gone' : TaskId → Prop}

theorem mem_tasks {t : PendingTask} : t ∈ w.tasks ↔ t ∈ w.pending ∨ w.executing = some t := by
  simp only [tasks, pending, List.mem_append, Option.mem_toList]

theorem Keeps.of_same (hheld : w'.loop.held = w.loop.held) (hpending : w'.pending = w.pending)
    (hexecuting : w'.executing = w.executing) (hgone : ∀ id, ¬ gone id) : Keeps gone w w' where
  held_sub id hid := ⟨hheld ▸ hid, hgone id⟩
  held_rest id hid := .inl (hheld.symm ▸ hid)
  tasks_rest t ht := by
    rw [mem_tasks] at ht ⊢
    rw [hpending, hexecuting]
    exact .inl ht
  pending_sub t ht := hpending ▸ ht
  executing_sub t ht := .inl (hexecuting ▸ ht)

-- What the fetch gives back is what it says.
theorem inLoop_ends (w : WorkerLoop) (f : TaskLoop → TaskLoop) :
    (w.inLoop f).2.filterMap Said.ends = (f w.loop.cleared).released := by
  unfold inLoop
  rw [List.filterMap_map]
  have hsome : (Said.ends ∘ fun task => Said.release task .assetUnavailable) = some := rfl
  rw [hsome, List.filterMap_some]

theorem inLoop_keeps (w : WorkerLoop) {f : TaskLoop → TaskLoop} {rs : List TaskId}
    (hf : w.loop.cleared.Shifts rs (f w.loop.cleared))
    (hgone : ∀ id, gone id ↔ id ∈ (w.inLoop f).2.filterMap Said.ends) :
    Keeps gone w (w.inLoop f).1 := by
  have hrs : ∀ id, gone id ↔ id ∈ rs := by
    intro id
    rw [hgone, inLoop_ends, hf.released]
    simp [TaskLoop.released, TaskLoop.cleared]
  have hheld : ∀ id, id ∈ (w.inLoop f).1.loop.held ↔ id ∈ w.loop.held ∧ id ∉ rs := by
    intro id
    show id ∈ (f w.loop.cleared).held ↔ _
    rw [hf.held]
    simp [TaskLoop.cleared]
  refine ⟨fun id hid => ?_, fun id hid => ?_, fun t ht => ?_, fun t ht => ?_, fun t ht => .inl ht⟩
  · obtain ⟨hold, hnot⟩ := (hheld id).mp hid
    exact ⟨hold, fun h => hnot ((hrs id).mp h)⟩
  · by_cases h : id ∈ rs
    · exact .inr ((hrs id).mpr h)
    · exact .inl ((hheld id).mpr ⟨hid, h⟩)
  · rw [mem_tasks] at ht
    rw [mem_tasks, hrs]
    rcases ht with ht | ht
    · rcases List.mem_append.mp ht with hwait | hqueue
      · rcases hf.waiting_rest t hwait with h | h | h
        · exact .inl (.inl (List.mem_append_left _ h))
        · exact .inl (.inl (List.mem_append_right _ h))
        · exact .inr h
      · exact .inl (.inl (List.mem_append_right _ (hf.queue_rest t hqueue)))
    · exact .inl (.inr ht)
  · rcases List.mem_append.mp ht with hwait | hqueue
    · exact List.mem_append_left _ (hf.waiting_sub t hwait)
    · rcases hf.queue_sub t hqueue with h | h
      · exact List.mem_append_right _ h
      · exact List.mem_append_left _ h

-- One task is settled, and nothing else is.
theorem eraseHeld_keeps {task : TaskId} (hheld : w'.loop.held = w.loop.held.filter (· ≠ task))
    (htasks : ∀ t ∈ w.tasks, t ∈ w'.tasks ∨ t.id = task)
    (hpending : ∀ t ∈ w'.pending, t ∈ w.pending)
    (hexecuting : ∀ t, w'.executing = some t → w.executing = some t)
    (hgone : ∀ id, gone id ↔ id = task) : Keeps gone w w' where
  held_sub id hid := by
    rw [hheld, List.mem_filter, decide_eq_true_eq] at hid
    exact ⟨hid.1, fun h => hid.2 ((hgone id).mp h)⟩
  held_rest id hid := by
    rw [hheld, List.mem_filter, decide_eq_true_eq, hgone]
    by_cases h : id = task
    · exact .inr h
    · exact .inl ⟨hid, h⟩
  tasks_rest t ht := (htasks t ht).imp_right (hgone t.id).mpr
  pending_sub := hpending
  executing_sub t ht := .inl (hexecuting t ht)

variable {e : LoopEvent}

theorem over_iff (hrevoke : ∀ id, e ≠ .revoke (some id)) (hclosed : e ≠ .closed)
    (hstop : e ≠ .stop) (id : TaskId) :
    Over cfg w (now, e) id ↔ id ∈ (w.next cfg now e).2.filterMap Said.ends := by
  constructor
  · rintro (hends | hrevoked | hover | ⟨hover, -⟩)
    · exact hends
    · exact absurd hrevoked (hrevoke id)
    · exact absurd hover hclosed
    · exact absurd hover hstop
  · exact .inl

theorem not_grants (h : ∀ grant, e ≠ .taskGrant grant) (id : TaskId) :
    ¬ Starts cfg w (now, e) id := by
  rintro ⟨⟨grant, hgrant, -⟩, -⟩
  exact h grant hgrant

theorem Queues.accepts {task : PendingTask} (h : Queues task w w') : Accepts task w w' := by
  have hpending : w'.pending = w.pending ++ [task] := by
    rw [pending, h.waiting, h.queue, ← List.append_assoc, pending]
  refine ⟨fun id hid => ?_, fun id hid => ?_, fun t ht => ?_, fun t ht => ?_, ?_, h.executing⟩
  · rw [h.held] at hid
    exact (List.mem_append.mp hid).imp_right List.mem_singleton.mp
  · rw [h.held]
    exact List.mem_append_left _ hid
  · rw [mem_tasks] at ht ⊢
    rw [hpending, h.executing]
    exact ht.imp_left (List.mem_append_left _)
  · rw [hpending] at ht
    exact (List.mem_append.mp ht).imp_right List.mem_singleton.mp
  · rw [mem_tasks, hpending]
    exact .inl (List.mem_append_right _ List.mem_cons_self)

theorem Parks.accepts {task : PendingTask} (h : Parks task w w') : Accepts task w w' := by
  have hpending : ∀ t, t ∈ w'.pending ↔ t ∈ w.pending ∨ t = task := by
    intro t
    simp only [pending, h.waiting, h.queue, List.mem_append, List.mem_singleton]
    constructor
    · rintro ((hold | hnew) | hold)
      · exact .inl (.inl hold)
      · exact .inr hnew
      · exact .inl (.inr hold)
    · rintro ((hold | hold) | hnew)
      · exact .inl (.inl hold)
      · exact .inr hold
      · exact .inl (.inr hnew)
  refine ⟨fun id hid => .inl (h.held ▸ hid), fun id hid => h.held.symm ▸ hid, fun t ht => ?_,
    fun t ht => (hpending t).mp ht, ?_, h.executing⟩
  · rw [mem_tasks] at ht ⊢
    rw [h.executing]
    exact ht.imp_left fun hold => (hpending t).mpr (.inl hold)
  · rw [mem_tasks]
    exact .inl ((hpending task).mpr (.inr rfl))

variable {grant : TaskGrant} {task : PendingTask} {info : KernelInfo}

theorem laidOut_id (grant : TaskGrant) (id : TaskId) (job : JobId) (info : KernelInfo) :
    (laidOut grant id job info).id = id := by
  unfold laidOut
  split
  · exact PendingTask.forKernel_id _ _
  · exact PendingTask.forKernel_id _ _

theorem laidOut_outputBytes (grant : TaskGrant) (id : TaskId) (job : JobId) (info : KernelInfo) :
    (laidOut grant id job info).outputBytes = grant.outputBytes.getD 0 := by
  unfold laidOut
  split
  · exact PendingTask.forKernel_outputBytes _ _
  · exact PendingTask.forKernel_outputBytes _ _

theorem described_some (h : w.described grant = some (task, info)) : ∃ id job,
    grant.task = some id ∧ grant.job = some job ∧
      w.findKernel (grant.kernelId.getD "") = some info ∧ task = laidOut grant id job info := by
  unfold described at h
  cases htask : grant.task with
  | none => simp [htask] at h
  | some id =>
      cases hjob : grant.job with
      | none => simp [htask, hjob] at h
      | some job =>
          simp only [htask, hjob, Option.map_eq_some_iff] at h
          obtain ⟨info', hinfo, hpair⟩ := h
          cases hpair
          exact ⟨id, job, rfl, rfl, hinfo, rfl⟩

theorem described_ids (h : w.described grant = some (task, info)) :
    grant.task = some task.id ∧ grant.job.isSome = true := by
  obtain ⟨id, job, htask, hjob, -, rfl⟩ := described_some h
  rw [htask, hjob, laidOut_id]
  exact ⟨rfl, rfl⟩

-- A grant that is dropped, or whose task goes straight back.
theorem handleTaskGrant_refused (now : Nat) (h : w.described grant = none) :
    (w.handleTaskGrant now grant).1.pending = w.pending ∧
      Keeps (fun id => id ∈ (w.handleTaskGrant now grant).2.filterMap Said.ends) w
        (w.handleTaskGrant now grant).1 ∧
      ∀ id, grant.task = some id → grant.job.isSome = true →
        id ∈ (w.handleTaskGrant now grant).2.filterMap Said.ends := by
  unfold described at h
  unfold handleTaskGrant
  cases htask : grant.task with
  | none =>
      refine ⟨rfl, .of_same rfl rfl rfl fun id h => ?_, fun id h => ?_⟩
      · cases h
      · cases h
  | some id =>
      cases hjob : grant.job with
      | none =>
          refine ⟨rfl, .of_same rfl rfl rfl fun id h => ?_, fun id _ h => ?_⟩
          · cases h
          · cases h
      | some job =>
          simp only [htask, hjob, Option.map_eq_none_iff] at h
          have hkernel : w.unsourced.findKernel (grant.pending id job).kernelId = none := h
          simp only [hkernel]
          refine ⟨rfl, eraseHeld_keeps rfl (fun t ht => .inl ht) (fun t ht => ht)
            (fun t ht => ht) fun id' => ?_, fun id' hid _ => ?_⟩
          · simp [sendRelease, Said.ends]
          · cases hid
            simp [sendRelease, Said.ends]

-- A grant without a bulk input, or with one that is resident.
theorem handleTaskGrant_queued (now : Nat) (h : w.described grant = some (task, info))
    (hhand : w.AtHand grant) :
    (w.handleTaskGrant now grant).2.filterMap Said.ends = [] ∧
      Queues (task.sized info) w (w.handleTaskGrant now grant).1 := by
  obtain ⟨id, job, htask, hjob, hinfo, rfl⟩ := described_some h
  have hkernel : w.unsourced.findKernel (grant.pending id job).kernelId = some info := hinfo
  have hid := (PendingTask.sized_id _ info).trans (laidOut_id grant id job info)
  unfold handleTaskGrant
  simp only [htask, hjob, hkernel]
  unfold laidOut at hid ⊢
  cases hinput : grant.inputRef with
  | none =>
      rw [hinput] at hid
      refine ⟨rfl, ?_, rfl, rfl, rfl⟩
      rw [hid]
      rfl
  | some hash =>
      dsimp only
      have hasset : (((grant.pending id job).forKernel info).withAsset hash.address).asset =
          w.unsourced.loop.residentAsset := hhand hash hinput
      have hqueues : w.unsourced.loop.cleared.parkOnAsset now _ grant.inputBytes = _ :=
        TaskLoop.parkOnAsset_resident _ now grant.inputBytes
          ((PendingTask.sized_asset _ info).trans hasset)
      rw [if_pos hasset, inLoop_ends, inLoop, hqueues]
      exact ⟨rfl, rfl, rfl, rfl, rfl⟩

-- A grant with another bulk input.
theorem handleTaskGrant_parked (now : Nat) (h : w.described grant = some (task, info))
    (hhand : ¬ w.AtHand grant) :
    (w.handleTaskGrant now grant).2.filterMap Said.ends = [] ∧
      Parks task w (w.handleTaskGrant now grant).1 := by
  obtain ⟨id, job, htask, hjob, hinfo, rfl⟩ := described_some h
  have hkernel : w.unsourced.findKernel (grant.pending id job).kernelId = some info := hinfo
  obtain ⟨hash, hinput, hother⟩ : ∃ hash, grant.inputRef = some hash ∧
      hash.address ≠ w.loop.residentAsset := by
    simpa [AtHand] using hhand
  unfold handleTaskGrant laidOut
  simp only [htask, hjob, hkernel, hinput]
  have hasset : (((grant.pending id job).forKernel info).withAsset hash.address).asset ≠
      w.unsourced.loop.residentAsset := hother
  have hstill : TaskLoop.Still _ (w.unsourced.loop.cleared.parkOnAsset now _ _) :=
    TaskLoop.parkOnAsset_waits now grant.inputBytes hasset
  rw [if_neg hasset, inLoop_ends]
  exact ⟨hstill.patient.released, hstill.held, hstill.patient.waiting, hstill.queue, rfl⟩

-- A grant is taken, or it changes nothing, or its task goes straight back.
theorem handleTaskGrant_cases (w : WorkerLoop) (now : Nat) (grant : TaskGrant) :
    (Keeps (fun id => id ∈ (w.handleTaskGrant now grant).2.filterMap Said.ends) w
        (w.handleTaskGrant now grant).1 ∧
      ∀ id, grant.task = some id → grant.job.isSome = true →
        id ∈ (w.handleTaskGrant now grant).2.filterMap Said.ends) ∨
    ∃ task, grant.task = some task.id ∧ grant.job.isSome = true ∧
      (w.handleTaskGrant now grant).2.filterMap Said.ends = [] ∧
      Accepts task w (w.handleTaskGrant now grant).1 := by
  cases h : w.described grant with
  | none => exact .inl (handleTaskGrant_refused now h).2
  | some pair =>
      obtain ⟨task, info⟩ := pair
      obtain ⟨htask, hjob⟩ := described_ids h
      right
      by_cases hhand : w.AtHand grant
      · obtain ⟨hends, hqueues⟩ := handleTaskGrant_queued now h hhand
        refine ⟨task.sized info, ?_, hjob, hends, hqueues.accepts⟩
        rw [htask, PendingTask.sized_id]
      · obtain ⟨hends, hparks⟩ := handleTaskGrant_parked now h hhand
        exact ⟨task, htask, hjob, hends, hparks.accepts⟩

-- The head of the queue runs, or it is given back.
theorem execute_keeps {task : PendingTask} {rest : List PendingTask}
    (hqueue : w.loop.queue = task :: rest) (hnone : w.executing = none) (ability : Ability) :
    Keeps (fun id => id ∈ ({ w with loop := { w.loop with queue := rest } }.execute task
        ability).2.filterMap Said.ends) w
      ({ w with loop := { w.loop with queue := rest } }.execute task ability).1 := by
  have htasks : ∀ {v : WorkerLoop}, v.pending = w.loop.waitingOnAsset ++ rest → ∀ t ∈ w.tasks,
      t ∈ v.tasks ∨ t = task := by
    intro v hv t ht
    rw [mem_tasks, hnone] at ht
    rw [mem_tasks, hv]
    rcases ht with ht | ht
    · simp only [pending, hqueue, List.mem_append, List.mem_cons] at ht
      rw [List.mem_append]
      rcases ht with h | h | h
      · exact .inl (.inl (.inl h))
      · exact .inr h
      · exact .inl (.inl (.inr h))
    · cases ht
  have hpending : ∀ t ∈ w.loop.waitingOnAsset ++ rest, t ∈ w.pending := by
    intro t ht
    simp only [pending, hqueue, List.mem_append, List.mem_cons] at ht ⊢
    exact ht.imp_right .inr
  have hback : ∀ (reason : Reason) (v : WorkerLoop), v.pending = w.loop.waitingOnAsset ++ rest →
      v.loop.held = w.loop.held → v.executing = w.executing →
      Keeps (fun id => id ∈ (v.sendRelease task.id reason).2.filterMap Said.ends) w
        (v.sendRelease task.id reason).1 := by
    intro reason v hv hheld hexecuting
    have hfiltered : (v.sendRelease task.id reason).1.loop.held =
        w.loop.held.filter (· ≠ task.id) := by
      rw [← hheld]
      rfl
    refine eraseHeld_keeps hfiltered (fun t ht => ?_) (fun t ht => ?_) (fun t ht => ?_) fun id => ?_
    · rcases htasks hv t ht with hthere | rfl
      · exact .inl hthere
      · exact .inr rfl
    · exact hpending t (hv ▸ ht)
    · exact hexecuting ▸ ht
    · simp [sendRelease, Said.ends]
  have hsourced : ∀ v : WorkerLoop, (v.sourced task).pending = v.pending ∧
      (v.sourced task).loop.held = v.loop.held ∧ (v.sourced task).executing = v.executing := by
    intro v
    unfold sourced
    split <;> exact ⟨rfl, rfl, rfl⟩
  obtain ⟨hsame, hheld, hexecuting⟩ := hsourced { w with loop := { w.loop with queue := rest } }
  cases ability with
  | noDevice => exact hback _ _ rfl rfl rfl
  | noSource => exact hback _ _ rfl rfl rfl
  | noKernel => exact hback _ _ hsame hheld hexecuting
  | able =>
      refine ⟨fun id hid => ⟨hheld ▸ hid, fun h => by cases h⟩,
        fun id hid => .inl (hheld.symm ▸ hid), fun t ht => ?_, fun t ht => ?_, fun t ht => ?_⟩
      · left
        rcases htasks (v := ({ w with loop := { w.loop with queue := rest } }.execute task .able).1)
          hsame t ht with hthere | rfl
        · exact hthere
        · exact mem_tasks.mpr (.inr rfl)
      · exact hpending t (Eq.mp (congrArg (t ∈ ·) hsame) ht)
      · cases ht
        right
        simp [pending, hqueue]

theorem poll_keeps (w : WorkerLoop) (now : Nat) (ability : Ability)
    (hnone : w.executing = none) :
    Keeps (fun id => id ∈ (w.poll now ability).2.filterMap Said.ends) w
      (w.poll now ability).1 := by
  unfold poll
  split
  · exact .of_same rfl rfl rfl fun id h => by cases h
  · split
    · rename_i task rest hqueue
      exact execute_keeps hqueue hnone ability
    · obtain ⟨rs, hshifts⟩ := TaskLoop.pollFetch_shifts w.loop.cleared now
      exact inLoop_keeps w hshifts fun _ => Iff.rfl

theorem onExecuted_keeps (w : WorkerLoop) (ok healthy : Bool) :
    Keeps (fun id => id ∈ (w.onExecuted ok healthy).2.filterMap Said.ends) w
      (w.onExecuted ok healthy).1 := by
  unfold onExecuted
  cases hexecuting : w.executing with
  | none => exact .of_same rfl rfl rfl fun id h => by cases h
  | some task =>
      have htasks : ∀ v : WorkerLoop, v.pending = w.pending → ∀ t ∈ w.tasks,
          t ∈ v.tasks ∨ t.id = task.id := by
        intro v hv t ht
        rw [mem_tasks, hexecuting] at ht
        rw [mem_tasks, hv]
        rcases ht with ht | ht
        · exact .inl (.inl ht)
        · cases ht
          exact .inr rfl
      dsimp only
      cases ok with
      | true =>
          exact eraseHeld_keeps rfl (htasks _ rfl) (fun t ht => ht) (fun t ht => by cases ht)
            fun id => by simp [sendResult, Said.ends]
      | false =>
          exact eraseHeld_keeps rfl (htasks _ rfl) (fun t ht => ht) (fun t ht => by cases ht)
            fun id => by simp [sendRelease, Said.ends]

theorem handleRevoke_keeps (w : WorkerLoop) (task : TaskId) :
    Keeps (fun id => id = task) w (w.handleRevoke (some task)) := by
  refine eraseHeld_keeps rfl (fun t ht => ?_) (fun t ht => ?_) (fun t ht => ht) fun _ => Iff.rfl
  · by_cases hid : t.id = task
    · exact .inr hid
    · left
      rw [mem_tasks] at ht ⊢
      refine ht.imp_left fun hold => ?_
      rcases List.mem_append.mp hold with hwait | hqueue
      · exact List.mem_append_left _ hwait
      · exact List.mem_append_right _ (List.mem_filter.mpr ⟨hqueue, by simpa using hid⟩)
  · rcases List.mem_append.mp ht with hwait | hqueue
    · exact List.mem_append_left _ hwait
    · exact List.mem_append_right _ (List.mem_of_mem_filter hqueue)

theorem Keeps.congr (h : Keeps gone w w') (hgone : ∀ id, gone' id ↔ gone id) :
    Keeps gone' w w' where
  held_sub id hid := (h.held_sub id hid).imp_right fun hnot hgone' => hnot ((hgone id).mp hgone')
  held_rest id hid := (h.held_rest id hid).imp_right (hgone id).mpr
  tasks_rest t ht := (h.tasks_rest t ht).imp_right (hgone t.id).mpr
  pending_sub := h.pending_sub
  executing_sub := h.executing_sub

-- With all that was granted gone, it matters only that nothing comes from nowhere.
theorem Keeps.of_gone (hheld : w'.loop.held = []) (hpending : ∀ t ∈ w'.pending, t ∈ w.pending)
    (hexecuting : w'.executing = w.executing) (hgone : ∀ id, gone id) : Keeps gone w w' where
  held_sub id hid := by
    rw [hheld] at hid
    cases hid
  held_rest id _ := .inr (hgone id)
  tasks_rest t _ := .inr (hgone t.id)
  pending_sub := hpending
  executing_sub t ht := .inl (hexecuting ▸ ht)

theorem start_keeps (w : WorkerLoop) (hgone : ∀ id, ¬ gone id) : Keeps gone w w.start := by
  unfold start
  split
  · exact .of_same rfl rfl rfl hgone
  · exact .of_same rfl rfl rfl hgone

-- Stop gives back all that is held, and leaves what is parked.
theorem stop_keeps (cfg : Config) (w : WorkerLoop) (now : Nat) :
    Keeps (Over cfg w (now, .stop)) w (w.moved cfg (now, .stop)) := by
  by_cases hrunning : w.running = true
  · have hstop : (w.next cfg now .stop).1 = { w with
        running := false
        isOpen := false
        loop := { w.loop with held := [], queue := [] } } := by
      simp [next, stop, hrunning, releaseHeld]
    rw [moved, hstop]
    refine .of_gone rfl (fun t ht => ?_) rfl fun id => .inr (.inr (.inr ⟨rfl, hrunning⟩))
    rcases List.mem_append.mp ht with hwait | hnone
    · exact List.mem_append_left _ hwait
    · cases hnone
  · have hstop : w.next cfg now .stop = (w, []) := by
      simp [next, stop, hrunning]
    rw [moved, hstop]
    refine .of_same rfl rfl rfl fun id => ?_
    rintro (hends | hover | hover | ⟨-, hover⟩)
    · rw [handsOver, hstop] at hends
      cases hends
    · cases hover
    · cases hover
    · exact hrunning hover

theorem revoke_keeps (cfg : Config) (w : WorkerLoop) (now : Nat) (task : Option TaskId) :
    Keeps (Over cfg w (now, .revoke task)) w (w.moved cfg (now, .revoke task)) := by
  have hover : ∀ id, Over cfg w (now, .revoke task) id ↔ task = some id := by
    intro id
    simp [Over, handsOver, next]
  cases task with
  | none => exact .of_same rfl rfl rfl fun id h => by cases (hover id).mp h
  | some task =>
      refine (handleRevoke_keeps w task).congr fun id => ?_
      rw [hover, Option.some.injEq, eq_comm]

-- What a step does but the loss of the device: it takes a grant, or it keeps all tasks but
-- those that are over with it.
theorem next_cases (cfg : Config) (w : WorkerLoop) (e : Event) (hlost : e.2 ≠ .deviceLost)
    (hpossible : w.Possible e) :
    (Keeps (Over cfg w e) w (w.moved cfg e) ∧ ∀ id, ¬ Starts cfg w e id) ∨
    ∃ task, Grants e task.id ∧ (∀ id, ¬ Over cfg w e id) ∧
      Accepts task w (w.moved cfg e) := by
  obtain ⟨now, e⟩ := e
  dsimp only at hlost ⊢
  have hfetch : ∀ (f : TaskLoop → TaskLoop) (rs : List TaskId), w.next cfg now e = w.inLoop f →
      w.loop.cleared.Shifts rs (f w.loop.cleared) → (∀ id, e ≠ .revoke (some id)) → e ≠ .closed →
      e ≠ .stop → (∀ grant, e ≠ .taskGrant grant) →
      Keeps (Over cfg w (now, e)) w (w.moved cfg (now, e)) ∧ ∀ id, ¬ Starts cfg w (now, e) id := by
    intro f rs hnext hf hrevoke hclosed hstop hgrant
    refine ⟨?_, not_grants hgrant⟩
    rw [moved, hnext]
    refine inLoop_keeps w hf fun id => ?_
    rw [over_iff hrevoke hclosed hstop, hnext]
  cases e with
  | start =>
      refine .inl ⟨?_, not_grants (by simp)⟩
      have hgone : ∀ id, ¬ Over cfg w (now, .start) id := by
        intro id
        rw [over_iff (by simp) (by simp) (by simp)]
        simp [next]
      exact start_keeps w hgone
  | stop => exact .inl ⟨stop_keeps cfg w now, not_grants (by simp)⟩
  | opened =>
      refine .inl ⟨.of_same rfl rfl rfl fun id => ?_, not_grants (by simp)⟩
      rw [over_iff (by simp) (by simp) (by simp)]
      simp [next]
  | closed =>
      refine .inl ⟨.of_gone rfl (fun t ht => ?_) rfl fun id => .inr (.inr (.inl rfl)),
        not_grants (by simp)⟩
      rcases List.mem_append.mp ht with hwait | hnone
      · exact List.mem_append_left _ hwait
      · cases hnone
  | peerBytes servingCurrent m =>
      obtain ⟨rs, hf⟩ := TaskLoop.onPeerBytes_shifts cfg w.loop.cleared now servingCurrent m
      exact .inl (hfetch (fun l => l.onPeerBytes cfg now servingCurrent m) rs rfl hf (by simp)
        (by simp) (by simp) (by simp))
  | peerOpen isOpen =>
      have hf := (TaskLoop.onOpen_still w.loop.cleared isOpen).shifts
      exact .inl (hfetch (fun l => l.onOpen isOpen) [] rfl hf (by simp) (by simp) (by simp)
        (by simp))
  | deviceLost => exact absurd rfl hlost
  | deviceUnrecoverable =>
      refine .inl ⟨.of_same rfl rfl rfl fun id => ?_, not_grants (by simp)⟩
      rw [over_iff (by simp) (by simp) (by simp)]
      simp [next, onDeviceUnrecoverable, Said.ends]
  | welcome kernels =>
      refine .inl ⟨.of_same rfl rfl rfl fun id => ?_, not_grants (by simp)⟩
      rw [over_iff (by simp) (by simp) (by simp)]
      simp [next]
  | taskGrant grant =>
      have hover : ∀ id, Over cfg w (now, .taskGrant grant) id ↔
          id ∈ (w.handleTaskGrant now grant).2.filterMap Said.ends :=
        over_iff (by simp) (by simp) (by simp)
      rcases handleTaskGrant_cases w now grant with
        ⟨hkeeps, hback⟩ | ⟨task, htask, hjob, hends, haccepts⟩
      · refine .inl ⟨hkeeps.congr hover, fun id => ?_⟩
        rintro ⟨⟨grant', hgrant, htask, hjob⟩, hnot⟩
        cases hgrant
        exact hnot ((hover id).mpr (hback id htask hjob))
      · refine .inr ⟨task, ⟨grant, rfl, htask, hjob⟩, fun id => ?_, haccepts⟩
        rw [hover, hends]
        simp
  | revoke task => exact .inl ⟨revoke_keeps cfg w now task, not_grants (by simp)⟩
  | peerList peers =>
      have hf : w.loop.cleared.Still { w.loop.cleared with peerCandidates := peers.take 8 } :=
        ⟨⟨rfl, rfl⟩, rfl, rfl⟩
      exact .inl (hfetch (fun l => { l with peerCandidates := peers.take 8 }) [] rfl hf.shifts
        (by simp) (by simp) (by simp) (by simp))
  | assetChunk c =>
      obtain ⟨rs, hf⟩ := TaskLoop.handleAssetChunk_shifts cfg w.loop.cleared now c
      exact .inl (hfetch (fun l => l.handleAssetChunk cfg now c) rs rfl hf (by simp) (by simp)
        (by simp) (by simp))
  | assetMiss =>
      obtain ⟨rs, hf⟩ := TaskLoop.handleAssetMiss_shifts w.loop.cleared now
      exact .inl (hfetch (fun l => l.handleAssetMiss now) rs rfl hf (by simp) (by simp) (by simp)
        (by simp))
  | poll ability =>
      have hnone : w.executing = none := by
        by_contra hsome
        have hpoll := hpossible (Option.isSome_iff_ne_none.mpr hsome)
        cases hpoll
      refine .inl ⟨(poll_keeps w now ability hnone).congr fun id => ?_, not_grants (by simp)⟩
      exact over_iff (by simp) (by simp) (by simp) id
  | executed ok healthy =>
      refine .inl ⟨(onExecuted_keeps w ok healthy).congr fun id => ?_, not_grants (by simp)⟩
      exact over_iff (by simp) (by simp) (by simp) id

end

end WorkerLoop

end P2pGpu.Worker
