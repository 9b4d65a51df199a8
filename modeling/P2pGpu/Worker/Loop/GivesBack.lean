import P2pGpu.Data.Reach
import P2pGpu.Worker.Loop.Tasks

namespace P2pGpu.Worker

open P2pGpu.Protocol
open P2pGpu.Coordinator (Hash32)

namespace Said

def gives (id : TaskId) : Said → Bool
  | .release task _ => task = id
  | _ => false

end Said

namespace WorkerLoop

-- The user stops the worker, or its device is lost.
def GivesUp (w : WorkerLoop) (e : Event) : Prop :=
  (e.2 = .stop ∧ w.running = true) ∨ e.2 = .deviceLost

-- Granted on this connection, and not given back, not answered and not revoked since.
def Owed (cfg : Config) (past : History) (id : TaskId) : Prop :=
  Since (fun _ x => x.1.Starts cfg x.2 id) (fun _ x => x.1.Over cfg x.2 id) past

-- The list of what is held says it all, and it is short enough to be walked.
structure Listed (cfg : Config) (past : History) (w : WorkerLoop) : Prop where
  nodup : w.loop.held.Nodup
  few : w.loop.held.length ≤ 2
  all : ∀ t ∈ w.tasks, Owed cfg past t.id → t.id ∈ w.loop.held

-- What is held is owed, and what is owed is somewhere.
structure Tracked (cfg : Config) (past : History) (w : WorkerLoop) : Prop where
  held : ∀ id ∈ w.loop.held, Owed cfg past id
  placed : ∀ id, Owed cfg past id → id ∈ w.loop.held ∨ ∃ t ∈ w.tasks, t.id = id

section

variable {cfg : Config} {past : History} {w : WorkerLoop} {e : Event}

theorem handsOver_of_givesUp (cfg : Config) (h : w.GivesUp e) : ∃ reason,
    w.handsOver cfg e = (Cells.walked w.loop.held).map fun task => .release task reason := by
  obtain ⟨now, e⟩ := e
  rcases h with ⟨rfl, hrunning⟩ | rfl
  · refine ⟨.userStopped, ?_⟩
    simp [handsOver, next, stop, releaseHeld, hrunning]
  · exact ⟨.deviceLost, rfl⟩

theorem countP_gives (reason : Reason) (l : List TaskId) (id : TaskId) :
    (l.map fun task => Said.release task reason).countP (Said.gives id) = l.count id := by
  rw [List.countP_map]
  apply List.countP_congr
  intro task _
  simp [Said.gives]

-- What is given up is over with that, if it is listed.
theorem Tracked.over (h : Tracked cfg past w) (hlisted : Listed cfg past w) (he : w.GivesUp e)
    (id : TaskId) (howed : Owed cfg past id) : w.Over cfg e id := by
  obtain ⟨reason, hsaid⟩ := handsOver_of_givesUp cfg he
  have hheld : id ∈ w.loop.held := by
    rcases h.placed id howed with hheld | ⟨t, ht, rfl⟩
    · exact hheld
    · exact hlisted.all t ht howed
  left
  rw [hsaid, Cells.walked_eq hlisted.nodup hlisted.few, List.filterMap_map]
  exact List.mem_filterMap.mpr ⟨id, hheld, rfl⟩

theorem Tracked.step (h : Tracked cfg past w) (hpossible : w.Possible e)
    (hlisted : w.GivesUp e → Listed cfg past w) :
    Tracked cfg (past ++ [(w, e)]) (w.moved cfg e) := by
  by_cases hlost : e.2 = .deviceLost
  · -- nothing is held any more, and nothing is owed
    have hover := h.over (hlisted (.inr hlost)) (.inr hlost)
    have hnext : (w.moved cfg e).loop.held = [] := by
      rw [moved, hlost]
      rfl
    refine ⟨fun id hid => ?_, fun id howed => ?_⟩
    · rw [hnext] at hid
      cases hid
    · rcases Since.concat.mp howed with ⟨⟨grant, hgrant, -⟩, -⟩ | ⟨hold, hnot⟩
      · rw [hlost] at hgrant
        cases hgrant
      · exact absurd (hover id hold) hnot
  · rcases next_cases cfg w e hlost hpossible with
      ⟨hkeeps, hstarts⟩ | ⟨task, hgrants, hover, haccepts⟩
    · refine ⟨fun id hid => ?_, fun id howed => ?_⟩
      · obtain ⟨hold, hnot⟩ := hkeeps.held_sub id hid
        exact Since.concat.mpr (.inr ⟨h.held id hold, hnot⟩)
      · rcases Since.concat.mp howed with hstart | ⟨hold, hnot⟩
        · exact absurd hstart (hstarts id)
        · rcases h.placed id hold with hheld | ⟨t, ht, rfl⟩
          · exact .inl ((hkeeps.held_rest id hheld).resolve_right hnot)
          · exact .inr ⟨t, (hkeeps.tasks_rest t ht).resolve_right hnot, rfl⟩
    · refine ⟨fun id hid => ?_, fun id howed => ?_⟩
      · rcases haccepts.held_sub id hid with hold | rfl
        · exact Since.concat.mpr (.inr ⟨h.held id hold, hover id⟩)
        · exact Since.concat.mpr (.inl ⟨hgrants, hover task.id⟩)
      · rcases Since.concat.mp howed with ⟨hgrants', -⟩ | ⟨hold, -⟩
        · obtain ⟨grant, hgrant, hid, -⟩ := hgrants
          obtain ⟨grant', hgrant', hid', -⟩ := hgrants'
          rw [hgrant] at hgrant'
          cases hgrant'
          rw [hid] at hid'
          cases hid'
          exact .inr ⟨task, haccepts.there, rfl⟩
        · rcases h.placed id hold with hheld | ⟨t, ht, rfl⟩
          · exact .inl (haccepts.held_rest id hheld)
          · exact .inr ⟨t, haccepts.tasks_rest t ht, rfl⟩

-- What is given up goes back once each just where it is all on the list, and there are no
-- more than two on it. Before, it was so at each loss of the device.
theorem gives_back_iff (cfg : Config) (x : WorkerLoop × History)
    (h : Reach (Recalling (Step cfg))
      (fun x e => x.1.Possible e ∧ (x.1.GivesUp e → Listed cfg x.2 x.1)) ({}, []) x)
    (e : Event) (he : x.1.GivesUp e) (hopen : x.1.isOpen = true) :
    (∀ id, Owed cfg x.2 id → (x.1.sends cfg e).countP (Said.gives id) = 1) ↔
      Listed cfg x.2 x.1 := by
  have htracked : Tracked cfg x.2 x.1 := by
    refine Recalling.invariant h (fun w past => Tracked cfg past w)
      ⟨fun id hid => ?_, fun id howed => ?_⟩ ?_
    · cases hid
    · exact absurd howed Since.nil
    · intro w past e w' _ hguard hold hstep
      rw [hstep]
      exact hold.step hguard.1 hguard.2
  obtain ⟨reason, hsaid⟩ := handsOver_of_givesUp cfg he
  have hsends : ∀ id, (x.1.sends cfg e).countP (Said.gives id) =
      (Cells.walked x.1.loop.held).count id := by
    intro id
    rw [sends, if_pos hopen, hsaid, countP_gives]
  simp only [hsends]
  constructor
  · intro honce
    have hheld := Cells.count_walked_iff.mp fun id hid => honce id (htracked.held id hid)
    refine ⟨hheld.1, hheld.2, fun t _ howed => Cells.mem_walked ?_⟩
    apply List.count_pos_iff.mp
    rw [honce t.id howed]
    exact Nat.zero_lt_one
  · intro hlisted id howed
    apply Cells.count_walked_iff.mpr ⟨hlisted.nodup, hlisted.few⟩
    rcases htracked.placed id howed with hheld | ⟨t, ht, rfl⟩
    · exact hheld
    · exact hlisted.all t ht howed

end

def pathtraceTile : KernelInfo where
  kernelId := "pathtrace_tile_v1"
  workgroupSize := 8
  workgroupSizeY := 8
  outputBytes := 65536

-- Connected, and with one kernel.
def connects : List Event :=
  [(0, .start), (1, .opened), (2, .welcome [pathtraceTile])]

def grantsTask (inputRef : Option Hash32) (inputBytes : UInt64) : Event :=
  (3, .taskGrant {
    task := some ⟨0, 9⟩
    job := some ⟨0, 7⟩
    kernelId := some "pathtrace_tile_v1"
    outputBytes := some 65536
    inputRef
    inputBytes })

def after (cfg : Config) (es : List Event) : WorkerLoop × History :=
  (es.foldl (moved cfg) {},
    Recalling.history (moved cfg) {} es)

theorem after_passes {cfg : Config} {guard : WorkerLoop × History → Event → Prop}
    {check : History → WorkerLoop → Event → Bool}
    (hguard : ∀ past w e, check past w e = true → guard (w, past) e) (es : List Event)
    (h : Recalling.passes (moved cfg) check [] ({} : WorkerLoop) es = true) :
    Reach (Recalling (Step cfg)) guard ({}, []) (after cfg es) := by
  have hmoved : ∀ w e, Step cfg w e (w.moved cfg e) := fun _ _ => rfl
  exact Recalling.foldl_passes hmoved hguard es [] ({} : WorkerLoop) h

-- No step of the list gives anything up or comes while a task executes.
def calm (_ : History) (w : WorkerLoop) : Event → Bool
  | (_, .stop) | (_, .deviceLost) => false
  | _ => w.executing.isNone

theorem after_run (cfg : Config) (es : List Event)
    (h : Recalling.passes (moved cfg) calm [] ({} : WorkerLoop) es = true) :
    Reach (Recalling (Step cfg))
      (fun x e => x.1.Possible e ∧ (x.1.GivesUp e → Listed cfg x.2 x.1)) ({}, [])
      (after cfg es) := by
  refine after_passes (fun past w e hcalm => ?_) es h
  obtain ⟨now, e⟩ := e
  refine ⟨possible_of_idle ?_, ?_⟩
  · have hnone : w.executing.isNone = true := by
      cases e <;> first | exact hcalm | cases hcalm
    exact Option.isNone_iff_eq_none.mp hnone
  · rintro (⟨hgives, -⟩ | hgives)
    · dsimp only at hgives
      subst hgives
      cases hcalm
    · dsimp only at hgives
      subst hgives
      cases hcalm

def holdsOne : WorkerLoop × History :=
  after TaskLoop.shortConfig (connects ++ [grantsTask none 0])

def parksOne : WorkerLoop × History :=
  after TaskLoop.shortConfig (connects ++ [grantsTask (some ⟨1, 2, 3, 4⟩) 16384])

-- A task without a bulk input is held, and it goes back.
theorem gives_back_one :
    holdsOne.1.loop.held = [⟨0, 9⟩] ∧ ∀ id, Owed TaskLoop.shortConfig holdsOne.2 id →
      (holdsOne.1.sends TaskLoop.shortConfig (4, .stop)).countP (Said.gives id) = 1 := by
  have hrun := after_run TaskLoop.shortConfig (connects ++ [grantsTask none 0])
    (by decide +kernel)
  refine ⟨by decide +kernel, (gives_back_iff TaskLoop.shortConfig holdsOne hrun (4, .stop)
    (.inl ⟨rfl, by decide +kernel⟩) (by decide +kernel)).mpr ⟨?_, ?_, fun t ht _ => ?_⟩⟩
  · decide +kernel
  · decide +kernel
  · have htasks : ∀ t ∈ holdsOne.1.tasks, t.id ∈ holdsOne.1.loop.held := by decide +kernel
    exact htasks t ht

-- A task that waits for its input does not go back.
theorem parked_not_given_back : ¬ ∀ id, Owed TaskLoop.shortConfig parksOne.2 id →
    (parksOne.1.sends TaskLoop.shortConfig (4, .stop)).countP (Said.gives id) = 1 := by
  intro h
  have howed : Owed TaskLoop.shortConfig parksOne.2 ⟨0, 9⟩ := by
    have hlast : parksOne.2 = (after TaskLoop.shortConfig connects).2 ++
        [((after TaskLoop.shortConfig connects).1,
          grantsTask (some ⟨1, 2, 3, 4⟩) 16384)] := rfl
    rw [Owed, hlast]
    refine Since.start ⟨⟨_, rfl, rfl, rfl⟩, ?_⟩
    rw [grantsTask, over_iff (by simp) (by simp) (by simp)]
    decide +kernel
  have hnone : (parksOne.1.sends TaskLoop.shortConfig (4, .stop)).countP
      (Said.gives ⟨0, 9⟩) = 0 := by
    decide +kernel
  rw [h ⟨0, 9⟩ howed] at hnone
  cases hnone

end WorkerLoop

end P2pGpu.Worker
