import P2pGpu.Worker.Loop.Revoked

namespace P2pGpu.Worker

open P2pGpu.Protocol

namespace WorkerLoop

-- A grant of the task was queued at once.
def QueuedAtOnce (w : WorkerLoop) (e : Event) (id : TaskId) : Prop :=
  ∃ grant task info, e.2 = .taskGrant grant ∧ w.described grant = some (task, info) ∧
    w.AtHand grant ∧ task.id = id

-- The loss of the device settles all that is held.
def Settles (cfg : Config) (w : WorkerLoop) (e : Event) (id : TaskId) : Prop :=
  Over cfg w e id ∨ e.2 = .deviceLost

-- A grant of the task was queued at once, and it was not given back, not answered and not
-- revoked since.
def HeldSince (cfg : Config) (past : History) (id : TaskId) : Prop :=
  Since (fun _ x => x.1.QueuedAtOnce x.2 id) (fun _ x => x.1.Settles cfg x.2 id) past

-- The same worker, with the input of the grant at hand.
def supplied (w : WorkerLoop) (grant : TaskGrant) : WorkerLoop :=
  match grant.inputRef with
  | some hash => { w with loop := { w.loop with residentAsset := hash.address } }
  | none => w

-- A task that the loop will execute, or that executes.
def MayRun (w : WorkerLoop) (t : PendingTask) : Prop := t ∈ w.loop.queue ∨ w.executing = some t

-- The grant would have held and queued the task just so with its input at hand, and it is held.
def LikeDirect (v : WorkerLoop) (now : Nat) (grant : TaskGrant) (t : PendingTask)
    (w : WorkerLoop) : Prop :=
  Queues t (v.supplied grant) ((v.supplied grant).handleTaskGrant now grant).1 ∧
    t.id ∈ w.loop.held

-- The grant tells the size of the output, or the kernel has none to tell.
def SizeGiven (w : WorkerLoop) (grant : TaskGrant) : Prop :=
  ∀ info, w.findKernel (grant.kernelId.getD "") = some info → grant.outputBytes.getD 0 = 0 →
    info.outputBytes = 0

-- A grant of the past made the task wait, or queued it.
def Granted (past : History) (t : PendingTask) : Prop :=
  ∃ w now grant, (w, (now, .taskGrant grant)) ∈ past ∧
    (Queues t w (w.handleTaskGrant now grant).1 ∨ Parks t w (w.handleTaskGrant now grant).1)

section

variable {cfg : Config} {past : History} {w w' : WorkerLoop} {e : Event} {now : Nat}
  {grant : TaskGrant} {t task : PendingTask} {info : KernelInfo}

theorem Parks.pending_length (h : Parks t w w') :
    w'.pending.length = w.pending.length + 1 := by
  rw [pending, h.waiting, h.queue, pending]
  simp only [List.length_append, List.length_singleton]
  omega

theorem Queues.unique (h : Queues t w w') (h' : Queues task w w') : t = task := by
  have heq : w.loop.queue ++ [t] = w.loop.queue ++ [task] := h.queue.symm.trans h'.queue
  exact List.singleton_inj.mp (List.append_cancel_left heq)

theorem Parks.unique (h : Parks t w w') (h' : Parks task w w') : t = task := by
  have heq : w.loop.waitingOnAsset ++ [t] = w.loop.waitingOnAsset ++ [task] :=
    h.waiting.symm.trans h'.waiting
  exact List.singleton_inj.mp (List.append_cancel_left heq)

theorem Queues.not_parks (h : Queues t w w') (h' : Parks task w w') : False := by
  have hlength := congrArg List.length (h.queue.symm.trans h'.queue)
  rw [List.length_append] at hlength
  exact absurd hlength (Nat.succ_ne_self _)

-- What a grant makes wait is as it is laid out.
theorem parks_described (h : Parks t w (w.handleTaskGrant now grant).1) :
    ∃ info, w.described grant = some (t, info) := by
  cases hdescribed : w.described grant with
  | none =>
      have hlength := h.pending_length
      rw [(handleTaskGrant_refused now hdescribed).1] at hlength
      exact absurd hlength.symm (Nat.succ_ne_self _)
  | some pair =>
      obtain ⟨task, info⟩ := pair
      by_cases hhand : w.AtHand grant
      · exact ((handleTaskGrant_queued now hdescribed hhand).2.not_parks h).elim
      · rw [h.unique (handleTaskGrant_parked now hdescribed hhand).2]
        exact ⟨info, rfl⟩

theorem supplied_described (w : WorkerLoop) (grant : TaskGrant) :
    (w.supplied grant).described grant = w.described grant := by
  unfold supplied
  cases grant.inputRef <;> rfl

theorem supplied_atHand (w : WorkerLoop) (grant : TaskGrant) :
    (w.supplied grant).AtHand grant := by
  intro hash hinput
  unfold supplied
  rw [hinput]

-- With its input at hand, the task is queued with the size that its kernel has.
theorem supplied_queues_iff (now : Nat) (h : w.described grant = some (task, info)) :
    Queues task (w.supplied grant) ((w.supplied grant).handleTaskGrant now grant).1 ↔
      task.sized info = task := by
  have hqueues := (handleTaskGrant_queued now ((supplied_described w grant).trans h)
    (supplied_atHand w grant)).2
  constructor
  · intro hdirect
    exact hqueues.unique hdirect
  · intro hsame
    rwa [hsame] at hqueues

theorem sized_eq_iff : task.sized info = task ↔ (task.outputBytes = 0 → info.outputBytes = 0) := by
  unfold PendingTask.sized
  split
  · rename_i hzero
    constructor
    · intro hsame _
      rw [← hzero]
      exact congrArg PendingTask.outputBytes hsame
    · intro hnone
      rw [hnone hzero, ← hzero]
  · rename_i hsize
    exact ⟨fun _ hzero => absurd hzero hsize, fun _ => rfl⟩

theorem sizeGiven_iff (h : w.described grant = some (task, info)) :
    w.SizeGiven grant ↔ (task.outputBytes = 0 → info.outputBytes = 0) := by
  obtain ⟨id, job, -, -, hinfo, rfl⟩ := described_some h
  rw [laidOut_outputBytes]
  unfold SizeGiven
  rw [hinfo]
  simp

-- A grant that has to wait leaves out the size of the output just where it is not told of it.
theorem parks_direct_iff (h : Parks t w (w.handleTaskGrant now grant).1) :
    Queues t (w.supplied grant) ((w.supplied grant).handleTaskGrant now grant).1 ↔
      w.SizeGiven grant := by
  obtain ⟨info, hdescribed⟩ := parks_described h
  rw [supplied_queues_iff now hdescribed, sized_eq_iff, sizeGiven_iff hdescribed]

theorem queuedAtOnce_iff {id : TaskId} : w.QueuedAtOnce (now, .taskGrant grant) id ↔
    ∃ task info, w.described grant = some (task, info) ∧ w.AtHand grant ∧ task.id = id := by
  constructor
  · rintro ⟨grant', task, info, hgrant, hdescribed⟩
    cases hgrant
    exact ⟨task, info, hdescribed⟩
  · rintro ⟨task, info, hdescribed⟩
    exact ⟨grant, task, info, rfl, hdescribed⟩

-- The list of what is held, after a grant.
theorem taskGrant_held (cfg : Config) (w : WorkerLoop) (now : Nat) (grant : TaskGrant)
    (id : TaskId) : id ∈ (w.handleTaskGrant now grant).1.loop.held ↔
      w.QueuedAtOnce (now, .taskGrant grant) id ∨
        (id ∈ w.loop.held ∧ ¬ w.Settles cfg (now, .taskGrant grant) id) := by
  have hsettles : w.Settles cfg (now, .taskGrant grant) id ↔
      id ∈ (w.handleTaskGrant now grant).2.filterMap Said.ends := by
    unfold Settles
    rw [over_iff (by simp) (by simp) (by simp)]
    simp [next]
  rw [queuedAtOnce_iff, hsettles]
  cases hdescribed : w.described grant with
  | none =>
      obtain ⟨-, hkeeps, -⟩ := handleTaskGrant_refused now hdescribed
      constructor
      · exact fun hid => .inr (hkeeps.held_sub id hid)
      · rintro (⟨task, info, hsome, -⟩ | ⟨hid, hnot⟩)
        · cases hsome
        · exact (hkeeps.held_rest id hid).resolve_right hnot
  | some pair =>
      obtain ⟨task, info⟩ := pair
      by_cases hhand : w.AtHand grant
      · obtain ⟨hends, hqueues⟩ := handleTaskGrant_queued now hdescribed hhand
        rw [hends, hqueues.held, List.mem_append, List.mem_singleton, PendingTask.sized_id]
        constructor
        · rintro (hid | rfl)
          · exact .inr ⟨hid, List.not_mem_nil⟩
          · exact .inl ⟨task, info, rfl, hhand, rfl⟩
        · rintro (⟨task', info', hsome, -, rfl⟩ | ⟨hid, -⟩)
          · cases hsome
            exact .inr rfl
          · exact .inl hid
      · obtain ⟨hends, hparks⟩ := handleTaskGrant_parked now hdescribed hhand
        rw [hends, hparks.held]
        constructor
        · exact fun hid => .inr ⟨hid, List.not_mem_nil⟩
        · rintro (⟨-, -, -, hhand', -⟩ | ⟨hid, -⟩)
          · exact absurd hhand' hhand
          · exact hid

-- What a step does to the list of what is held.
theorem moved_held (cfg : Config) (hpossible : w.Possible e) (id : TaskId) :
    id ∈ (w.moved cfg e).loop.held ↔
      w.QueuedAtOnce e id ∨ (id ∈ w.loop.held ∧ ¬ w.Settles cfg e id) := by
  obtain ⟨now, e⟩ := e
  by_cases hgrant : ∃ grant, e = .taskGrant grant
  · obtain ⟨grant, rfl⟩ := hgrant
    exact taskGrant_held cfg w now grant id
  · have hnot : ¬ w.QueuedAtOnce (now, e) id := by
      rintro ⟨grant, task, info, he, -⟩
      exact hgrant ⟨grant, he⟩
    rw [or_iff_right hnot]
    by_cases hlost : e = .deviceLost
    · subst hlost
      refine ⟨fun hid => (by cases hid), ?_⟩
      rintro ⟨-, hkept⟩
      exact absurd (.inr rfl) hkept
    · rcases next_cases cfg w (now, e) hlost hpossible with ⟨hkeeps, -⟩ | ⟨task, ⟨grant, he, -⟩, -⟩
      · constructor
        · intro hid
          obtain ⟨hold, hkept⟩ := hkeeps.held_sub id hid
          exact ⟨hold, fun hsettles => hsettles.elim hkept hlost⟩
        · rintro ⟨hold, hkept⟩
          exact (hkeeps.held_rest id hold).resolve_right fun hover => hkept (.inl hover)
      · exact absurd ⟨grant, he⟩ hgrant

theorem heldSince_concat {id : TaskId} : HeldSince cfg (past ++ [(w, e)]) id ↔
    w.QueuedAtOnce e id ∨ (HeldSince cfg past id ∧ ¬ w.Settles cfg e id) := Since.concat

theorem Granted.concat (h : Granted past t) : Granted (past ++ [(w, e)]) t := by
  obtain ⟨v, now, grant, hmem, htook⟩ := h
  exact ⟨v, now, grant, List.mem_append_left _ hmem, htook⟩

-- What a step puts on, it has of a grant.
theorem moved_granted (cfg : Config) (hpossible : w.Possible e)
    (hold : ∀ t ∈ w.pending, Granted past t) :
    ∀ t ∈ (w.moved cfg e).pending, Granted (past ++ [(w, e)]) t := by
  intro t ht
  rcases (moved_tasks cfg hpossible).1 t ht with hwas | ⟨grant, hgrant, -⟩
  · exact (hold t hwas).concat
  · obtain ⟨now, e⟩ := e
    dsimp only at hgrant
    subst hgrant
    have hthere : t ∈ (w.handleTaskGrant now grant).1.pending := ht
    cases hdescribed : w.described grant with
    | none =>
        rw [(handleTaskGrant_refused now hdescribed).1] at hthere
        exact (hold t hthere).concat
    | some pair =>
        obtain ⟨task, info⟩ := pair
        have hnew : ∀ t', Queues t' w (w.handleTaskGrant now grant).1 ∨
            Parks t' w (w.handleTaskGrant now grant).1 →
            t ∈ w.pending ∨ t = t' → Granted (past ++ [(w, (now, .taskGrant grant))]) t := by
          rintro t' htook (hwas | rfl)
          · exact (hold t hwas).concat
          · exact ⟨w, now, grant, List.mem_append_right _ List.mem_cons_self, htook⟩
        by_cases hhand : w.AtHand grant
        · have hqueues := (handleTaskGrant_queued now hdescribed hhand).2
          exact hnew _ (.inl hqueues) (hqueues.accepts.pending_sub t hthere)
        · have hparks := (handleTaskGrant_parked now hdescribed hhand).2
          exact hnew _ (.inr hparks) (hparks.accepts.pending_sub t hthere)

-- All that is pending or executes is of a grant, and what is held is what was queued at once.
structure Accounted (cfg : Config) (past : History) (w : WorkerLoop) : Prop where
  pending : ∀ t ∈ w.pending, Granted past t
  executing : ∀ t, w.executing = some t → Granted past t
  held : ∀ id, id ∈ w.loop.held ↔ HeldSince cfg past id

theorem Accounted.step (h : Accounted cfg past w) (hpossible : w.Possible e) :
    Accounted cfg (past ++ [(w, e)]) (w.moved cfg e) := by
  refine ⟨moved_granted cfg hpossible h.pending, fun t ht => ?_, fun id => ?_⟩
  · rcases (moved_tasks cfg hpossible).2 t ht with hwas | hwas
    · exact (h.executing t hwas).concat
    · exact (h.pending t hwas).concat
  · rw [moved_held cfg hpossible, h.held, heldSince_concat]

theorem Accounted.mayRun (h : Accounted cfg past w) (ht : w.MayRun t) : Granted past t := by
  rcases ht with hqueue | hexecuting
  · exact h.pending t (List.mem_append_right _ hqueue)
  · exact h.executing t hexecuting

-- What runs comes of a grant as it was queued or made to wait. What had to wait is as it would
-- have been without, and it is held, just where the grant told the size of the output and the
-- same task was granted once more.
theorem parked_like_direct_iff (cfg : Config) (x : WorkerLoop × History)
    (h : Reach (Recalling (Step cfg)) (fun x e => x.1.Possible e) ({}, []) x) :
    (∀ t, x.1.MayRun t → Granted x.2 t) ∧
      ∀ w now grant t, (w, (now, .taskGrant grant)) ∈ x.2 →
        Parks t w (w.handleTaskGrant now grant).1 → x.1.MayRun t →
        (LikeDirect w now grant t x.1 ↔ w.SizeGiven grant ∧ HeldSince cfg x.2 t.id) := by
  have haccounted : Accounted cfg x.2 x.1 := by
    refine Recalling.invariant h (fun w past => Accounted cfg past w)
      ⟨fun t ht => ?_, fun t ht => ?_, fun id => ⟨fun hid => ?_, fun hid => ?_⟩⟩ ?_
    · cases ht
    · cases ht
    · cases hid
    · exact absurd hid Since.nil
    · intro w past e w' _ hguard hold hstep
      rw [hstep]
      exact hold.step hguard
  refine ⟨fun t ht => haccounted.mayRun ht, fun w now grant t _ hparks _ => ?_⟩
  unfold LikeDirect
  rw [parks_direct_iff hparks, haccounted.held]

end

theorem after_possible (cfg : Config) (es : List Event)
    (h : Recalling.passes (moved cfg) (fun _ w e => decide (w.Possible e)) [] ({} : WorkerLoop)
      es = true) :
    Reach (Recalling (Step cfg)) (fun x e => x.1.Possible e) ({}, []) (after cfg es) := by
  refine after_passes (fun past w e hcheck => ?_) es h
  exact of_decide_eq_true hcheck

-- Without an output spec.
def unsizedGrant : TaskGrant where
  task := some ⟨0, 9⟩
  job := some ⟨0, 7⟩
  kernelId := some "pathtrace_tile_v1"
  inputRef := some Swarm.nameOfThree
  inputBytes := 3

def connected : WorkerLoop × History := after loadsThree connects

def grantsUnsized : List Event :=
  connects ++ [(3, .taskGrant unsizedGrant), threeArrive, (6, .poll .able)]

def runsUnsized : WorkerLoop × History := after loadsThree grantsUnsized

def unsizedTask : PendingTask where
  id := ⟨0, 9⟩
  asset := Swarm.nameOfThree.address
  job := ⟨0, 7⟩
  kernelId := "pathtrace_tile_v1"
  workgroupSize := 8
  workgroupSizeY := 8

-- It waits for its input, and then it runs without any output, and it is not held.
theorem parked_runs_unsized :
    runsUnsized.1.executing = some unsizedTask ∧ unsizedTask.outputBytes = 0 ∧
      ((connected.1.supplied unsizedGrant).handleTaskGrant 3 unsizedGrant).1.loop.queue.map
        PendingTask.outputBytes = [65536] ∧ runsUnsized.1.loop.held = [] ∧
      ¬ ∀ x, Reach (Recalling (Step loadsThree)) (fun x e => x.1.Possible e) ({}, []) x →
        ∀ w now grant t, (w, (now, .taskGrant grant)) ∈ x.2 →
          Parks t w (w.handleTaskGrant now grant).1 → x.1.MayRun t →
          LikeDirect w now grant t x.1 := by
  have hruns : runsUnsized.1.executing = some unsizedTask := by decide +kernel
  have hheld : runsUnsized.1.loop.held = [] := by decide +kernel
  refine ⟨hruns, rfl, by decide +kernel, hheld, fun h => ?_⟩
  have hrun := after_possible loadsThree grantsUnsized (by decide +kernel)
  have hlast : runsUnsized.2 = connected.2 ++ [(connected.1, (3, .taskGrant unsizedGrant))] ++
      [((after loadsThree (connects ++ [(3, .taskGrant unsizedGrant)])).1, threeArrive),
        ((after loadsThree (connects ++ [(3, .taskGrant unsizedGrant), threeArrive])).1,
          (6, .poll .able))] := rfl
  have hmem : (connected.1, (3, .taskGrant unsizedGrant)) ∈ runsUnsized.2 := by
    rw [hlast]
    simp
  have hparks : Parks unsizedTask connected.1
      (connected.1.handleTaskGrant 3 unsizedGrant).1 := by
    refine ⟨?_, ?_, ?_, ?_⟩ <;> decide +kernel
  have hlike := (h runsUnsized hrun _ 3 unsizedGrant unsizedTask hmem hparks (.inr hruns)).2
  rw [hheld] at hlike
  cases hlike

def sizedTask : PendingTask := { unsizedTask with outputBytes := 65536 }

def threeGrant : TaskGrant := { unsizedGrant with outputBytes := some 65536 }

def threeAgain : TaskGrant := { threeGrant with inputRef := none, inputBytes := 0 }

-- The task is granted once more before it runs, without a bulk input.
def grantsAgain : List Event :=
  connects ++ [(3, .taskGrant threeGrant), threeArrive, (6, .taskGrant threeAgain)]

def runsSized : WorkerLoop × History := after loadsThree (grantsAgain ++ [(7, .poll .able)])

-- The first grant of it told the size of its output.
theorem parked_runs_sized :
    LikeDirect connected.1 3 threeGrant sizedTask runsSized.1 ∧
      HeldSince loadsThree runsSized.2 sizedTask.id := by
  have hrun := after_possible loadsThree (grantsAgain ++ [(7, .poll .able)]) (by decide +kernel)
  have hlast : runsSized.2 = connected.2 ++ [(connected.1, (3, .taskGrant threeGrant))] ++
      [((after loadsThree (connects ++ [(3, .taskGrant threeGrant)])).1, threeArrive),
        ((after loadsThree (connects ++ [(3, .taskGrant threeGrant), threeArrive])).1,
          (6, .taskGrant threeAgain)),
        ((after loadsThree grantsAgain).1, (7, .poll .able))] := rfl
  have hmem : (connected.1, (3, .taskGrant threeGrant)) ∈ runsSized.2 := by
    rw [hlast]
    simp
  have hparks : Parks sizedTask connected.1 (connected.1.handleTaskGrant 3 threeGrant).1 := by
    refine ⟨?_, ?_, ?_, ?_⟩ <;> decide +kernel
  have hruns : runsSized.1.executing = some sizedTask := by decide +kernel
  have hlike : LikeDirect connected.1 3 threeGrant sizedTask runsSized.1 := by
    refine ⟨⟨?_, ?_, ?_, ?_⟩, ?_⟩ <;> decide +kernel
  have hiff := (parked_like_direct_iff loadsThree runsSized hrun).2 connected.1 3 threeGrant
    sizedTask hmem hparks (.inr hruns)
  exact ⟨hlike, (hiff.mp hlike).2⟩

end WorkerLoop

end P2pGpu.Worker
