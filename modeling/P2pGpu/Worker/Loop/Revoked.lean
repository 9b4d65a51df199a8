import P2pGpu.Worker.Fetch.Blame
import P2pGpu.Worker.Loop.GivesBack

namespace P2pGpu.Worker

open P2pGpu.Protocol
open P2pGpu.Coordinator (Hash32 WireString)

namespace WorkerLoop

-- A revoke of a task that does not execute, or the end of the connection.
def Bars (w : WorkerLoop) (e : Event) (id : TaskId) : Prop :=
  (e.2 = .revoke (some id) ∧ ∀ t, w.executing = some t → t.id ≠ id) ∨ e.2 = .closed

-- Revoked, or of another connection, and not granted since.
def Barred (past : History) (id : TaskId) : Prop :=
  Since (fun _ x => x.1.Bars x.2 id) (fun _ x => Grants x.2 id) past

-- A task starts to execute.
def Begins (cfg : Config) (w : WorkerLoop) (e : Event) (id : TaskId) : Prop :=
  w.executing = none ∧ ∃ t, (w.moved cfg e).executing = some t ∧ t.id = id

-- What is barred does not start, and no result of it goes out.
def LeavesAlone (cfg : Config) (past : History) (w : WorkerLoop) (e : Event) : Prop :=
  ∀ id, (w.Begins cfg e id ∨ .result id ∈ w.sends cfg e) → ¬ Barred past id

-- Nothing that is barred is parked: it is not waiting when it is revoked, and nothing waits
-- when the connection goes. No connection opens while a task executes.
structure Unparked (w : WorkerLoop) (e : Event) : Prop where
  revoked : ∀ id, e.2 = .revoke (some id) → ∀ t ∈ w.loop.waitingOnAsset, t.id ≠ id
  closed : e.2 = .closed → w.loop.waitingOnAsset = []
  opened : e.2 = .opened → w.executing = none

-- Nothing that is barred can run, but a task of a connection that is gone may be at its end.
structure Clear (past : History) (w : WorkerLoop) : Prop where
  pending : ∀ t ∈ w.pending, ¬ Barred past t.id
  executing : ∀ t, w.executing = some t → Barred past t.id → w.isOpen = false

section

variable {cfg : Config} {past : History} {w : WorkerLoop} {e : Event}

theorem barred_concat {id : TaskId} : Barred (past ++ [(w, e)]) id ↔
    w.Bars e id ∨ (Barred past id ∧ ¬ Grants e id) := Since.concat

theorem inLoop_result {f : TaskLoop → TaskLoop} {id : TaskId} :
    .result id ∉ (w.inLoop f).2 := by
  simp [inLoop]

theorem sendRelease_result {task id : TaskId} {reason : Reason} :
    .result id ∉ (w.sendRelease task reason).2 := by
  simp [sendRelease]

theorem start_isOpen (w : WorkerLoop) : w.start.isOpen = w.isOpen := by
  unfold start
  split <;> rfl

theorem handleTaskGrant_rest (w : WorkerLoop) (now : Nat) (grant : TaskGrant) :
    (w.handleTaskGrant now grant).1.isOpen = w.isOpen ∧
      ∀ id, .result id ∉ (w.handleTaskGrant now grant).2 := by
  unfold handleTaskGrant
  cases grant.task with
  | none => simp
  | some task =>
      cases grant.job with
      | none => simp
      | some job =>
          dsimp only
          split
          · exact ⟨rfl, fun _ => sendRelease_result⟩
          · cases grant.inputRef with
            | none => exact ⟨rfl, fun _ => List.not_mem_nil⟩
            | some hash =>
                dsimp only
                split
                · exact ⟨rfl, fun _ => inLoop_result⟩
                · exact ⟨rfl, fun _ => inLoop_result⟩

theorem poll_isOpen (w : WorkerLoop) (now : Nat) (ability : Ability) :
    (w.poll now ability).1.isOpen = w.isOpen := by
  unfold poll
  split
  · rfl
  · split
    · rename_i task rest _
      have hsourced : ∀ v : WorkerLoop, (v.sourced task).isOpen = v.isOpen := by
        intro v
        unfold sourced
        split <;> rfl
      cases ability with
      | noDevice => rfl
      | noSource => rfl
      | noKernel => exact hsourced _
      | able => exact hsourced _
    · rfl

theorem onExecuted_isOpen (w : WorkerLoop) (ok healthy : Bool) :
    (w.onExecuted ok healthy).1.isOpen = w.isOpen := by
  unfold onExecuted
  cases w.executing with
  | none => rfl
  | some task => cases ok <;> rfl

-- The transport opens by one event only.
theorem moved_isOpen (h : (w.moved cfg e).isOpen = true) : w.isOpen = true ∨ e.2 = .opened := by
  obtain ⟨now, e⟩ := e
  cases e with
  | opened => exact .inr rfl
  | closed => cases h
  | deviceUnrecoverable => cases h
  | start => exact .inl (start_isOpen w ▸ h)
  | stop =>
      left
      by_cases hrunning : w.running = true
      · simp [moved, next, stop, hrunning] at h
      · simpa [moved, next, stop, hrunning] using h
  | deviceLost => exact .inl h
  | peerBytes servingCurrent m => exact .inl h
  | peerOpen isOpen => exact .inl h
  | welcome kernels => exact .inl h
  | peerList peers => exact .inl h
  | assetChunk c => exact .inl h
  | assetMiss => exact .inl h
  | revoke task => cases task <;> exact .inl h
  | taskGrant grant => exact .inl ((handleTaskGrant_rest w now grant).1 ▸ h)
  | poll ability => exact .inl (poll_isOpen w now ability ▸ h)
  | executed ok healthy => exact .inl (onExecuted_isOpen w ok healthy ▸ h)

theorem poll_result {now : Nat} {ability : Ability} {id : TaskId} :
    .result id ∉ (w.poll now ability).2 := by
  unfold poll
  split
  · simp
  · split
    · cases ability with
      | able => simp [execute]
      | noDevice => exact sendRelease_result
      | noSource => exact sendRelease_result
      | noKernel => exact sendRelease_result
    · exact inLoop_result

-- A result is of the task that executes.
theorem handsOver_result {id : TaskId} (h : .result id ∈ w.handsOver cfg e) :
    ∃ t, w.executing = some t ∧ t.id = id := by
  obtain ⟨now, e⟩ := e
  cases e with
  | start => cases h
  | opened => cases h
  | closed => cases h
  | welcome kernels => cases h
  | revoke task => cases h
  | stop =>
      by_cases hrunning : w.running = true
      · simp [handsOver, next, stop, releaseHeld, hrunning] at h
      · simp [handsOver, next, stop, hrunning] at h
  | deviceLost => simp [handsOver, next, releaseHeld] at h
  | deviceUnrecoverable => simp [handsOver, next, onDeviceUnrecoverable] at h
  | peerBytes servingCurrent m => exact absurd h inLoop_result
  | peerOpen isOpen => exact absurd h inLoop_result
  | peerList peers => exact absurd h inLoop_result
  | assetChunk c => exact absurd h inLoop_result
  | assetMiss => exact absurd h inLoop_result
  | taskGrant grant => exact absurd h ((handleTaskGrant_rest w now grant).2 id)
  | poll ability => exact absurd h poll_result
  | executed ok healthy =>
      have hexecuted : .result id ∈ (w.onExecuted ok healthy).2 := h
      unfold onExecuted at hexecuted
      cases hsome : w.executing with
      | none => simp [hsome] at hexecuted
      | some t =>
          refine ⟨t, rfl, ?_⟩
          cases ok with
          | true => simpa [hsome, sendResult, eq_comm] using hexecuted
          | false => simp [hsome, sendRelease] at hexecuted

-- What a step can add to what is pending, and to what executes.
theorem moved_tasks (cfg : Config) (hpossible : w.Possible e) :
    (∀ t ∈ (w.moved cfg e).pending, t ∈ w.pending ∨ Grants e t.id) ∧
      ∀ t, (w.moved cfg e).executing = some t → w.executing = some t ∨ t ∈ w.pending := by
  by_cases hlost : e.2 = .deviceLost
  · obtain ⟨now, e⟩ := e
    dsimp only at hlost
    subst hlost
    refine ⟨fun t ht => .inl ?_, fun t ht => .inl ht⟩
    rcases List.mem_append.mp ht with hwait | hnone
    · exact List.mem_append_left _ hwait
    · cases hnone
  · rcases next_cases cfg w e hlost hpossible with ⟨hkeeps, -⟩ | ⟨task, hgrants, -, haccepts⟩
    · exact ⟨fun t ht => .inl (hkeeps.pending_sub t ht), hkeeps.executing_sub⟩
    · refine ⟨fun t ht => ?_, fun t ht => .inl (haccepts.executing ▸ ht)⟩
      rcases haccepts.pending_sub t ht with hold | rfl
      · exact .inl hold
      · exact .inr hgrants

-- What a step bars is not pending after it.
theorem not_bars_pending (hunparked : w.Unparked e) {t : PendingTask}
    (ht : t ∈ (w.moved cfg e).pending) : ¬ w.Bars e t.id := by
  obtain ⟨now, e⟩ := e
  rintro (⟨hrevoked, -⟩ | hclosed)
  · dsimp only at hrevoked
    subst hrevoked
    rcases List.mem_append.mp ht with hwait | hqueue
    · exact hunparked.revoked t.id rfl t hwait rfl
    · simpa using (List.mem_filter.mp hqueue).2
  · dsimp only at hclosed
    subst hclosed
    rcases List.mem_append.mp ht with hwait | hnone
    · have hempty : w.loop.waitingOnAsset = [] := hunparked.closed rfl
      have hwait' : t ∈ w.loop.waitingOnAsset := hwait
      rw [hempty] at hwait'
      cases hwait'
    · cases hnone

theorem Clear.step (h : Clear past w) (hpossible : w.Possible e) (hunparked : w.Unparked e) :
    Clear (past ++ [(w, e)]) (w.moved cfg e) := by
  obtain ⟨hpending, hexecuting⟩ := moved_tasks cfg hpossible
  refine ⟨fun t ht hbarred => ?_, fun t ht hbarred => ?_⟩
  · rcases barred_concat.mp hbarred with hbars | ⟨hold, hnot⟩
    · exact not_bars_pending hunparked ht hbars
    · rcases hpending t ht with hwas | hgrants
      · exact h.pending t hwas hold
      · exact hnot hgrants
  · by_contra hopen
    rw [Bool.not_eq_false] at hopen
    rcases barred_concat.mp hbarred with (⟨hrevoked, -⟩ | hclosed) | ⟨hold, -⟩
    · -- nothing executes while a frame is handled
      have hbusy : w.executing.isSome = true := by
        rcases hexecuting t ht with hwas | hwas
        · rw [hwas]
          rfl
        · rw [moved, hrevoked] at ht
          exact Option.isSome_of_mem ht
      have hbetween := hpossible hbusy
      rw [hrevoked] at hbetween
      cases hbetween
    · rw [moved, hclosed] at hopen
      cases hopen
    · rcases hexecuting t ht with hwas | hwas
      · have hshut := h.executing t hwas hold
        rcases moved_isOpen hopen with hopen' | hopened
        · rw [hshut] at hopen'
          cases hopen'
        · rw [hunparked.opened hopened] at hwas
          cases hwas
      · exact h.pending t hwas hold

theorem Clear.leavesAlone (h : Clear past w) (cfg : Config) (hpossible : w.Possible e) :
    LeavesAlone cfg past w e := by
  rintro id (⟨hnone, t, ht, rfl⟩ | hresult) hbarred
  · rcases (moved_tasks cfg hpossible).2 t ht with hwas | hwas
    · rw [hnone] at hwas
      cases hwas
    · exact h.pending t hwas hbarred
  · unfold sends at hresult
    split at hresult
    · rename_i hopen
      obtain ⟨t, ht, rfl⟩ := handsOver_result hresult
      rw [h.executing t ht hbarred] at hopen
      cases hopen
    · cases hresult

-- What is revoked stays undone as long as it is not parked when the revoke comes, and
-- nothing is parked when the connection goes.
theorem revoked_stays_undone (cfg : Config) (x : WorkerLoop × History)
    (h : Reach (Recalling (Step cfg)) (fun x e => x.1.Possible e ∧ x.1.Unparked e) ({}, []) x)
    (e : Event) (hpossible : x.1.Possible e) : LeavesAlone cfg x.2 x.1 e := by
  have hclear : Clear x.2 x.1 := by
    refine Recalling.invariant h (fun w past => Clear past w) ⟨fun t ht => ?_, fun t ht => ?_⟩ ?_
    · cases ht
    · cases ht
    · intro w past e w' _ hguard hold hstep
      rw [hstep]
      exact hold.step hguard.1 hguard.2
  exact hclear.leavesAlone cfg hpossible

end

-- A task waits for three bytes.
def parksThree : Event := grantsTask (some Swarm.nameOfThree) 3

def loadsThree : Config := { Swarm.knowsThree with loadBvh := fun _ => true }

def revokesTask : Event := (4, .revoke (some ⟨0, 9⟩))

def threeArrive : Event := (5, .assetChunk (chunkOf Swarm.nameOfThree Swarm.threeBytes 0))

def resumesRevoked : WorkerLoop × History :=
  after loadsThree (connects ++ [parksThree, revokesTask, threeArrive])

-- Revoked while it waits, it is resumed with the asset, and it runs.
theorem parked_runs_after_revoke :
    ¬ LeavesAlone loadsThree resumesRevoked.2 resumesRevoked.1 (6, .poll .able) := by
  intro h
  have hbegins : resumesRevoked.1.Begins loadsThree (6, .poll .able) ⟨0, 9⟩ := by
    have hruns : (resumesRevoked.1.moved loadsThree (6, .poll .able)).executing.map
        PendingTask.id = some ⟨0, 9⟩ := by
      decide +kernel
    exact ⟨by decide +kernel, Option.map_eq_some_iff.mp hruns⟩
  refine h ⟨0, 9⟩ (.inl hbegins) ?_
  have hlast : resumesRevoked.2 = (after loadsThree (connects ++ [parksThree])).2 ++
      [((after loadsThree (connects ++ [parksThree])).1, revokesTask)] ++
      [((after loadsThree (connects ++ [parksThree, revokesTask])).1, threeArrive)] := rfl
  have hnone : (after loadsThree (connects ++ [parksThree])).1.executing = none := by
    decide +kernel
  have hbars : (after loadsThree (connects ++ [parksThree])).1.Bars revokesTask ⟨0, 9⟩ := by
    refine .inl ⟨rfl, fun t ht => ?_⟩
    rw [hnone] at ht
    cases ht
  have hungranted : ¬ Grants threeArrive ⟨0, 9⟩ := by
    rintro ⟨grant, hgrant, -⟩
    cases hgrant
  rw [Barred, hlast]
  exact (Since.start hbars).keep hungranted

-- Nothing executes, and nothing is parked where that matters.
def unparked (_ : History) (w : WorkerLoop) : Event → Bool
  | (_, .revoke _) | (_, .closed) => w.executing.isNone && w.loop.waitingOnAsset.isEmpty
  | _ => w.executing.isNone

theorem unparked_guard {past : History} {w : WorkerLoop} {e : Event}
    (h : unparked past w e = true) : w.Possible e ∧ w.Unparked e := by
  obtain ⟨now, e⟩ := e
  have hnone : w.executing = none := by
    cases e <;> simp_all [unparked]
  refine ⟨possible_of_idle hnone, fun id hrevoked t ht => ?_, fun hclosed => ?_, fun _ => hnone⟩
  · dsimp only at hrevoked
    subst hrevoked
    have hempty : w.loop.waitingOnAsset = [] := by
      simpa [unparked, hnone] using h
    rw [hempty] at ht
    cases ht
  · dsimp only at hclosed
    subst hclosed
    simpa [unparked, hnone] using h

def queuesOne : WorkerLoop × History :=
  after TaskLoop.shortConfig (connects ++ [grantsTask none 0, revokesTask])

-- Revoked while it is queued, it does not run.
theorem queued_not_run_after_revoke :
    LeavesAlone TaskLoop.shortConfig queuesOne.2 queuesOne.1 (5, .poll .able) := by
  have hnone : queuesOne.1.executing = none := by decide +kernel
  have hpasses : Recalling.passes (moved TaskLoop.shortConfig) unparked [] ({} : WorkerLoop)
      (connects ++ [grantsTask none 0, revokesTask]) = true := by
    decide +kernel
  exact revoked_stays_undone TaskLoop.shortConfig queuesOne
    (after_passes (fun _ _ _ => unparked_guard) (connects ++ [grantsTask none 0, revokesTask])
      hpasses) (5, .poll .able) (possible_of_idle hnone)

end WorkerLoop

end P2pGpu.Worker
