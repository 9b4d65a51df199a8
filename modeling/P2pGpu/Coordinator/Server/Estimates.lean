import P2pGpu.Coordinator.Server.Refusals
import P2pGpu.Coordinator.Session.Notes

namespace P2pGpu.Coordinator

open P2pGpu.Protocol

namespace JobManager

variable {m m' : JobManager} {l : Label} {worker : WorkerId} {deadline : UInt64}
  {id i : TaskId} {nowMs : UInt64}

-- The moves that hand no task to anybody.
def Withholds (_ : JobManager) : Label → Prop
  | .act _ (.grant _ _ _) | .carve _ _ | .probe _ | .replica _ => False
  | .act _ _ | .create _ | .edit _ _ | .mint | .aux | .flush => True

theorem Requeues.withholds {p : Task → Prop} (h : Requeues p m l) : m.Withholds l := by
  obtain ⟨id, t, rfl, -⟩ := h
  trivial

theorem Light.withholds {asked : Prop} (h : Light asked worker deadline m l) (hnot : ¬ asked) :
    m.Withholds l := by
  rcases h with rfl | ⟨hasked, -⟩ | hback | ⟨id, rfl⟩
  · trivial
  · exact absurd hasked hnot
  · exact hback.withholds
  · trivial

theorem Works.withholds (h : Works id m l) : m.Withholds l := by
  rcases h with rfl | ⟨a, rfl, ⟨_, rfl⟩ | ⟨_, rfl⟩ | ⟨_, rfl⟩ | rfl⟩ <;> trivial

theorem withholds_of_plants (h : m.SeedsOnly l ∧ l.Plants) : m.Withholds l := by
  obtain ⟨-, hplants⟩ := h
  cases l with
  | create job => trivial
  | edit jobId edit => trivial
  | _ => exact hplants.elim

theorem cancelSiblingsOf_withholds (m : JobManager) (winner : TaskId) :
    Moves Withholds m (m.cancelSiblingsOf winner).2 := by
  refine Reach.mono ?_ (cancelSiblingsOf_moves m winner)
  rintro n l ⟨t, -, rfl | ⟨id, u, rfl, -⟩⟩ <;> trivial

-- What is held afterwards was held before, and by the same worker.
theorem Withholds.held (h : Moves Withholds m m') (hm : m.Minted) (hi : i ∈ m'.heldBy worker) :
    i ∈ m.heldBy worker := by
  have hinv := h.invariant (fun n => n.Minted ∧ (i ∈ n.heldBy worker → i ∈ m.heldBy worker))
    ⟨hm, fun hheld => hheld⟩ ?_
  · exact hinv.2 hi
  · rintro n l n' ⟨hn, hold⟩ hl hmove
    refine ⟨hmove.minted hn, fun hheld => hold ?_⟩
    obtain ⟨t, hf, hleased⟩ := mem_heldBy.mp hheld
    obtain ⟨hstate, hholder⟩ := isLeasedTo_iff.mp hleased
    rcases hmove.find_eq hn i with ⟨heq, -⟩ | ⟨a, u, u', rfl, hu, hr, -, hu'⟩ | ⟨u, he, -⟩
    · exact mem_heldBy.mpr ⟨t, heq ▸ hf, hleased⟩
    · obtain rfl : t = u' := Option.some.inj (hf.symm.trans hu')
      refine mem_heldBy.mpr ⟨u, hu, isLeasedTo_iff.mpr ?_⟩
      cases a with
      | grant place w d => exact hl.elim
      | record answer =>
          cases hr
          exact ⟨hstate, hholder⟩
      | renew w d =>
          simp only [Act.result] at hr
          split at hr <;> cases hr
          exact ⟨hstate, hholder⟩
      | finish accepted =>
          simp only [Act.result] at hr
          split at hr <;> cases hr
          cases accepted <;> cases hstate
      | _ =>
          simp only [Act.result] at hr
          split at hr <;> cases hr
          cases hstate
    · cases l with
      | carve => exact hl.elim
      | probe => exact hl.elim
      | replica => exact hl.elim
      | _ => cases he

-- What a sweep reports was held by the worker that it names.
theorem sweepFrom_held (ids : List TaskId) (hnodup : ids.Nodup) (m : JobManager) :
    ∀ e ∈ (sweepFrom nowMs ids m).1, e.task ∈ ids ∧ e.task ∈ m.heldBy e.holder := by
  induction ids generalizing m with
  | nil => exact fun e he => absurd he List.not_mem_nil
  | cons id ids ih =>
      obtain ⟨hid, hnodup⟩ := List.nodup_cons.mp hnodup
      have hskip : ∀ e ∈ (sweepFrom nowMs ids m).1,
          e.task ∈ id :: ids ∧ e.task ∈ m.heldBy e.holder := by
        intro e he
        obtain ⟨hmem, hheld⟩ := ih hnodup m e he
        exact ⟨List.mem_cons_of_mem id hmem, hheld⟩
      intro e he
      unfold sweepFrom at he
      split at he
      · exact hskip e he
      · rename_i task hfind
        split at he
        · exact hskip e he
        · rename_i hlive
          rw [not_or, not_not] at hlive
          split at he
          · exact hskip e he
          · rename_i next n happly
            obtain ⟨state, hnext, heq⟩ := apply_ok.mp happly
            cases heq
            rcases List.mem_cons.mp he with rfl | hrest
            · exact ⟨List.mem_cons_self,
                mem_heldBy.mpr ⟨task, hfind, isLeasedTo_iff.mpr ⟨hlive.1, rfl⟩⟩⟩
            · obtain ⟨hmem, hheld⟩ := ih hnodup _ e hrest
              have hne : e.task ≠ id := by
                intro heq
                exact hid (heq ▸ hmem)
              obtain ⟨t, hf, hleased⟩ := mem_heldBy.mp hheld
              refine ⟨List.mem_cons_of_mem id hmem, mem_heldBy.mpr ⟨t, ?_, hleased⟩⟩
              simpa [release, markTaskDirty, find, put, Table.lookup_modify, hne] using hf

theorem sweepExpiredLeases_held (m : JobManager) (nowMs : UInt64) :
    ∀ e ∈ (m.sweepExpiredLeases nowMs).1, e.task ∈ m.heldBy e.holder :=
  fun e he => (sweepFrom_held m.tasks.keys (nodup_keys m) m e he).2

end JobManager

section

variable {F : Type} [Double F]

-- What a worker is known to do in a second, if it is known.
def Fleet.scoreOf (f : Fleet F) (id : WorkerId) : F :=
  match f.find id with
  | none => 0.0
  | some r => r.scoreOpsPerSec

namespace Session

open JobManager

variable {cfg : Config F} {s : Session} {w : Shared F} {body : Body F} {payload : Payload}
  {nowMs : UInt64} {token : Token} {header : ResultHeader} {taskId : TaskId} {n : JobManager}

theorem drainRevokes_revised (s : Session) (w : Shared F) :
    w.fleet.Revised [] (s.drainRevokes w).2.fleet := by
  unfold drainRevokes
  split
  · exact .refl w.fleet
  · exact .mutable w.fleet s.workerId fun _ _ => rfl

theorem onMessage_drained (cfg : Config F) (s : Session) (w : Shared F) (body : Body F)
    (payload : Payload) (nowMs : UInt64) (token : Token) :
    (s.receive cfg w body payload nowMs token).shared.fleet.Revised []
      (s.onMessage cfg w body payload nowMs token).shared.fleet := by
  unfold onMessage
  dsimp only
  split
  · exact drainRevokes_revised _ _
  · exact .refl _

-- Whoever says hello is entered anew.
theorem onHello_follows (cfg : Config F) (s : Session) (w : Shared F) (hello : Hello)
    (token : Token) : w.fleet.Follows [] (s.onHello cfg w hello token).shared.fleet := by
  intro id r' hr'
  by_cases hsilent : (s.onHello cfg w hello token).shared.fleet = w.fleet
  · rw [hsilent] at hr'
    exact .inr ⟨r', hr', rfl⟩
  · have hjoined : (w.fleet.join (s.identify w hello) s.connId s.nowMs).Revised []
        (s.onHello cfg w hello token).shared.fleet := by
      unfold onHello at hsilent ⊢
      split at hsilent
      · exact absurd rfl hsilent
      · rename_i hnew
        rw [if_neg hnew]
        split at hsilent
        · exact absurd rfl hsilent
        · rename_i hversion
          rw [if_neg hversion]
          have hcached : (w.fleet.join (s.identify w hello) s.connId s.nowMs).Revised []
              ((w.fleet.join (s.identify w hello) s.connId s.nowMs).mutable (s.identify w hello)
                fun r => { r with cachedAssets := adoptCachedAssets hello.cachedAssets }) :=
            .mutable _ _ fun _ _ => rfl
          dsimp only
          split
          · exact hcached
          · exact hcached.keep (.mutable _ _ fun _ _ => rfl)
    obtain ⟨r, hr, heq⟩ := hjoined id r' hr'
    by_cases hid : id = s.identify w hello
    · have hfresh := Table.lookup_insert_eq w.fleet.workers (s.identify w hello) id
        { id := s.identify w hello, connId := s.connId, lastSeenMs := s.nowMs,
          joinedMs := s.nowMs }
      rw [if_pos hid] at hfresh
      obtain rfl := Option.some.inj (hr.symm.trans hfresh)
      exact .inl heq
    · rw [Fleet.find_join_ne _ _ _ _ _ hid] at hr
      exact .inr ⟨r, hr, heq⟩

-- Nothing is predicted or observed but by what asks for work and what brings an answer.
theorem dispatch_revised (hs : s.handshaked = true) (hasks : ∀ req, body ≠ .leaseRequest req)
    (hlands : ∀ header, body = .resultHeader header →
      ∀ taskId n, ¬ Landed cfg s w header payload taskId n) :
    w.fleet.Revised [] (s.dispatch cfg w body payload token).shared.fleet := by
  have hself := Fleet.Revised.refl w.fleet
  cases body with
  | hello m =>
      have hagain : s.onHello cfg w m token =
          s.nonFatal w .malformedMessage "duplicate Hello" := if_pos hs
      rw [dispatch, hagain]
      exact hself
  | leaseRequest m => exact absurd rfl (hasks m)
  | resultHeader m =>
      show w.fleet.Revised [] (s.onResultHeader cfg w m payload).shared.fleet
      rw [(onResultHeader_unlanded (hlands m rfl)).2]
      exact hself
  | release taskId =>
      unfold dispatch onRelease
      dsimp only
      repeat' split
      all_goals exact hself
  | progress m =>
      unfold dispatch onProgress
      dsimp only
      repeat' split
      all_goals exact hself
  | goodbye => exact .leave w.fleet s.workerId
  | assetRequest m =>
      unfold dispatch onAssetRequest
      dsimp only
      repeat' split
      all_goals exact hself
  | assetData => exact hself
  | benchmarkResult score =>
      unfold dispatch onBenchmarkResult
      dsimp only
      split
      · exact hself
      · split
        · exact hself
        · exact .mutable w.fleet s.workerId fun _ _ => rfl
  | throttle level => exact .mutable w.fleet s.workerId fun _ _ => rfl
  | signal m =>
      unfold dispatch onSignal
      dsimp only
      repeat' split
      all_goals exact hself
  | coordinatorOnly => exact hself

theorem readied_revised (s : Session) (w : Shared F) (header : ResultHeader) (taskId : TaskId)
    (n : JobManager) : w.fleet.Revised [] (readied s w header taskId n).fleet := by
  have hstats : w.fleet.Revised [] (s.recordStats { w with jobs := n } header.stats).fleet := by
    unfold recordStats
    split
    · exact .refl w.fleet
    · exact .mutable w.fleet s.workerId fun _ _ => rfl
  have hasset : ∀ w : Shared F, w.fleet.Revised [] (s.creditAsset w taskId).fleet := by
    intro w
    unfold creditAsset
    split
    · exact .refl w.fleet
    · split
      · exact .refl w.fleet
      · exact .mutable w.fleet s.workerId fun _ _ => rfl
  have hprobe : ∀ w : Shared F, (s.checkProbe w taskId header.checksum).fleet = w.fleet := by
    intro w
    unfold checkProbe
    split
    · rfl
    · split <;> rfl
  unfold readied prepare
  rw [hprobe]
  exact hstats.keep (hasset _)

-- What the one who completes a task is observed to have needed for it.
def completion (worker : WorkerId) (taskId : TaskId) (nowMs : UInt64) (e : Estimate F) :
    List (Note F) :=
  if 0.0 < e.predictedMs ∧ 0 < e.grantedAtMs then
    [.observed ⟨worker, taskId, e.predictedMs, Double.ofUInt64 (nowMs - e.grantedAtMs),
      some nowMs⟩]
  else []

def completionOf (f : Fleet F) (worker : WorkerId) (taskId : TaskId) (nowMs : UInt64) :
    List (Note F) :=
  match f.find worker with
  | none => []
  | some r => completion worker taskId nowMs r.estimate

theorem worker_of_completion {worker : WorkerId} {e : Estimate F} {note : Note F}
    (h : note ∈ completion worker taskId nowMs e) : note.worker = worker := by
  unfold completion at h
  split at h
  · rw [List.mem_singleton.mp h]
    rfl
  · cases h

theorem worker_of_completionOf {f : Fleet F} {worker : WorkerId} {note : Note F}
    (h : note ∈ completionOf f worker taskId nowMs) : note.worker = worker := by
  unfold completionOf at h
  split at h
  · cases h
  · exact worker_of_completion h

theorem observeCompletion_estimate (worker : WorkerId) (taskId : TaskId) (nowMs : UInt64)
    (done : Option Task) (r : WorkerRecord F) :
    (observeCompletion nowMs done r).estimate =
      r.estimate.after worker (completion worker taskId nowMs r.estimate) := by
  unfold observeCompletion completion
  split
  · rename_i hobserved
    have hpositive : 0.0 < r.estimate.predictedMs ∧ 0 < r.estimate.grantedAtMs := hobserved
    rw [if_pos hpositive]
    refine Eq.trans ?_ (Estimate.after_own ?_ r.estimate).symm
    · cases done <;> rfl
    · rfl
  · rename_i hobserved
    have hnot : ¬ (0.0 < r.estimate.predictedMs ∧ 0 < r.estimate.grantedAtMs) := hobserved
    rw [if_neg hnot, Estimate.after_nil]

theorem complete_revised {f : Fleet F} (h : f.Revised [] w.fleet) :
    f.Revised (completionOf f s.workerId taskId s.nowMs) (s.complete w taskId).shared.fleet := by
  have hlosers : w.fleet.Revised [] (notifyLosers w.fleet (w.jobs.cancelSiblingsOf taskId).1) := by
    unfold notifyLosers
    refine .foldl (fun f rev => ?_) _ _
    exact .mutable f rev.holder fun _ _ => rfl
  have hcounted : f.Revised [] ((notifyLosers w.fleet
      (w.jobs.cancelSiblingsOf taskId).1).recordCompletion s.workerId) :=
    (h.keep hlosers).kept (.mutable _ s.workerId fun _ _ => rfl)
  intro id r' hr'
  unfold complete at hr'
  dsimp only [quiet] at hr'
  rw [Fleet.find_mutable] at hr'
  by_cases hid : id = s.workerId
  · subst hid
    rw [if_pos rfl] at hr'
    obtain ⟨r₂, hr₂, rfl⟩ := Option.map_eq_some_iff.mp hr'
    obtain ⟨r, hr, heq⟩ := hcounted _ r₂ hr₂
    refine ⟨r, hr, ?_⟩
    rw [observeCompletion_estimate s.workerId taskId, heq, Estimate.after_nil, completionOf, hr]
  · rw [if_neg hid] at hr'
    obtain ⟨r, hr, heq⟩ := hcounted id r' hr'
    refine ⟨r, hr, heq.trans ?_⟩
    refine (Estimate.after_others fun note hnote => ?_).symm
    rw [worker_of_completionOf hnote]
    exact Ne.symm hid

-- What was predicted of a task that a worker is sent.
def predictedFor (cfg : Config F) (score : F) (env : TaskEnvelope) : F :=
  1000.0 * Double.ofUInt64 env.workUnits / (score / opsPerUnit (cfg.kernels.find env.kernelId))

def grantOf (cfg : Config F) (worker : WorkerId) (score : F) (nowMs : UInt64) :
    Reply → Option (Grant F)
  | .taskGrant env => some ⟨worker, env.taskId, predictedFor cfg score env, nowMs⟩
  | _ => none

-- The tasks among what a worker is told.
def grantsIn (cfg : Config F) (worker : WorkerId) (score : F) (nowMs : UInt64)
    (replies : List Reply) : List (Grant F) :=
  replies.filterMap (grantOf cfg worker score nowMs)

theorem grantsIn_append (cfg : Config F) (worker : WorkerId) (score : F) (nowMs : UInt64)
    (replies more : List Reply) : grantsIn cfg worker score nowMs (replies ++ more) =
      grantsIn cfg worker score nowMs replies ++ grantsIn cfg worker score nowMs more :=
  List.filterMap_append

theorem grantsIn_peers (cfg : Config F) (s : Session) (rec : WorkerRecord F) (w : Shared F)
    (job : Job) (worker : WorkerId) (score : F) (nowMs : UInt64) :
    grantsIn cfg worker score nowMs (peersFor cfg s rec w job) = [] := by
  unfold peersFor
  split
  · rfl
  · split
    · rfl
    · dsimp only
      split <;> rfl

-- Work was handed to one worker: what it holds more than before, and what is predicted of it.
structure Hands (worker : WorkerId) (nowMs : UInt64) (w w' : Shared F) (gs : List (Grant F)) :
    Prop where
  held : w.jobs.Minted → ∀ x i, i ∈ w'.jobs.heldBy x →
    i ∈ w.jobs.heldBy x ∨ ∃ g ∈ gs, g.worker = x ∧ g.task = i
  fleet : w.fleet.Revised (gs.map .granted) w'.fleet
  own : ∀ g ∈ gs, g.worker = worker ∧ g.atMs = nowMs

theorem Hands.trans {worker : WorkerId} {w w' w'' : Shared F} {gs more : List (Grant F)}
    (h : Hands worker nowMs w w' gs) (h' : Hands worker nowMs w' w'' more)
    (hminted : w.jobs.Minted → w'.jobs.Minted) : Hands worker nowMs w w'' (gs ++ more) where
  held hm x i hi := by
    rcases h'.held (hminted hm) x i hi with hold | ⟨g, hg, hnew⟩
    · rcases h.held hm x i hold with hfirst | ⟨g, hg, hnew⟩
      · exact .inl hfirst
      · exact .inr ⟨g, List.mem_append_left more hg, hnew⟩
    · exact .inr ⟨g, List.mem_append_right gs hg, hnew⟩
  fleet := by
    rw [List.map_append]
    exact h.fleet.trans h'.fleet
  own g hg := by
    rcases List.mem_append.mp hg with hold | hnew
    · exact h.own g hold
    · exact h'.own g hnew

-- A draw lets its worker hold the task that was drawn, and nobody anything else.
theorem held_of_draws {m : JobManager} {worker x : WorkerId} {deadline : UInt64}
    {r : Option Task × JobManager} (h : m.Draws worker deadline r) (hm : m.Minted) {i : TaskId}
    (hi : i ∈ r.2.heldBy x) :
    i ∈ m.heldBy x ∨ ∃ task, r.1 = some task ∧ task.id = i ∧ x = worker := by
  obtain ⟨t, hf, hleased⟩ := mem_heldBy.mp hi
  by_cases hdrawn : ∃ task, r.1 = some task ∧ task.id = i
  · obtain ⟨task, htask, rfl⟩ := hdrawn
    obtain ⟨hfind, hown⟩ := h.leased htask hm
    obtain rfl : t = task := Option.some.inj (hf.symm.trans hfind)
    refine .inr ⟨t, htask, rfl, ?_⟩
    exact (isLeasedTo_iff.mp hleased).2.symm.trans (isLeasedTo_iff.mp hown).2
  · have hother : ∀ task, r.1 = some task → task.id ≠ i :=
      fun task ht he => hdrawn ⟨task, ht, he⟩
    rcases h.rest hm i t hother hf with hold | hqueued
    · exact .inl (mem_heldBy.mpr ⟨t, hold, hleased⟩)
    · have hstate := (isLeasedTo_iff.mp hleased).1
      rw [hqueued] at hstate
      cases hstate

omit [Double F] in
theorem kernelOf_known {m : JobManager} {task : Task} {job : Job} {spec : KernelSpec}
    (h : kernelOf cfg m task = some (job, spec)) : cfg.kernels.find spec.id = some spec := by
  unfold kernelOf at h
  split at h
  · cases h
  · obtain ⟨found, hfound, heq⟩ := Option.map_eq_some_iff.mp h
    cases heq
    rw [KernelRegistry.find_id hfound]
    exact hfound

-- A task that was drawn is sent, or it goes back where it cannot be described.
theorem sendTask_hands {w₀ : Shared F} (s : Session) (rec : WorkerRecord F) (task : Task)
    (hfleet : w.fleet = w₀.fleet)
    (hdraws : w₀.jobs.Draws s.workerId (nowMs + cfg.leaseMs.toUInt64) (some task, w.jobs)) :
    Hands s.workerId nowMs w₀ (s.sendTask cfg nowMs rec w task).2
      (grantsIn cfg s.workerId rec.scoreOpsPerSec nowMs
        ((s.sendTask cfg nowMs rec w task).1.getD [])) := by
  have hback : Hands s.workerId nowMs w₀
      { w with jobs := (w.jobs.requeue task.id .release).2 } [] := by
    refine ⟨fun hm x i hi => ?_, ?_, fun g hg => absurd hg List.not_mem_nil⟩
    · obtain ⟨hfind, hleased⟩ := hdraws.leased rfl hm
      obtain ⟨t, hf, hheld⟩ := mem_heldBy.mp hi
      dsimp only at hf
      rw [requeue_release hfind (isLeasedTo_iff.mp hleased).1, find_perform hfind] at hf
      by_cases hid : i = task.id
      · rw [if_pos hid] at hf
        cases hf
        have hstate := (isLeasedTo_iff.mp hheld).1
        cases hstate
      · rw [if_neg hid] at hf
        rcases held_of_draws hdraws hm (mem_heldBy.mpr ⟨t, hf, hheld⟩) with
          hold | ⟨drawn, hdrawn, heq, -⟩
        · exact .inl hold
        · cases hdrawn
          exact absurd heq.symm hid
    · show w₀.fleet.Revised [] w.fleet
      rw [hfleet]
      exact .refl w₀.fleet
  unfold sendTask
  split
  · exact hback
  · rename_i job spec hkernel
    split
    · exact hback
    · rename_i params hparams
      dsimp only [Option.getD_some]
      rw [grantsIn_append, grantsIn_peers, List.nil_append]
      have hsent : grantsIn cfg s.workerId rec.scoreOpsPerSec nowMs
          [.taskGrant (envelope cfg spec job task params)] =
            [⟨s.workerId, task.id, 1000.0 * Double.ofUInt64 task.unitCount /
              (rec.scoreOpsPerSec / opsPerUnit (some spec)), nowMs⟩] := by
        have hspec := kernelOf_known hkernel
        simp [grantsIn, grantOf, predictedFor, envelope, hspec]
      rw [hsent]
      refine ⟨fun hm x i hi => ?_, ?_, fun g hg => ?_⟩
      · rcases held_of_draws hdraws hm hi with hold | ⟨drawn, hdrawn, hid, hx⟩
        · exact .inl hold
        · cases hdrawn
          exact .inr ⟨_, List.mem_singleton_self _, hx.symm, hid⟩
      · rw [← hfleet]
        exact .note w.fleet (.granted _) fun _ _ => rfl
      · rw [List.mem_singleton.mp hg]
        exact ⟨rfl, rfl⟩

theorem grantOne_hands (cfg : Config F) (s : Session) (nowMs : UInt64) (rec : WorkerRecord F)
    (w : Shared F) :
    Hands s.workerId nowMs w (s.grantOne cfg nowMs rec w).2
      (grantsIn cfg s.workerId rec.scoreOpsPerSec nowMs
        ((s.grantOne cfg nowMs rec w).1.getD [])) := by
  have hdraws := drawTask_draws cfg s nowMs rec w
  have haside := drawTask_aside cfg s nowMs rec w
  unfold grantOne
  split
  · rename_i w' hdraw
    rw [hdraw] at hdraws haside
    refine ⟨fun hm x i hi => ?_, ?_, fun g hg => absurd hg List.not_mem_nil⟩
    · rcases held_of_draws hdraws hm hi with hold | ⟨drawn, hdrawn, -⟩
      · exact .inl hold
      · cases hdrawn
    · show w.fleet.Revised [] w'.fleet
      rw [haside.fleet]
      exact .refl w.fleet
  · rename_i task w' hdraw
    rw [hdraw] at hdraws haside
    exact sendTask_hands s rec task haside.fleet hdraws

theorem grantLoop_hands (cfg : Config F) (s : Session) (nowMs : UInt64) (rec : WorkerRecord F)
    (n : Nat) (w : Shared F) :
    Hands s.workerId nowMs w (s.grantLoop cfg nowMs rec n w).2
      (grantsIn cfg s.workerId rec.scoreOpsPerSec nowMs (s.grantLoop cfg nowMs rec n w).1) := by
  induction n generalizing w with
  | zero =>
      exact ⟨fun _ _ _ hi => .inl hi, .refl w.fleet, fun g hg => absurd hg List.not_mem_nil⟩
  | succ n ih =>
      have hone := grantOne_hands cfg s nowMs rec w
      have hroutine := grantOne_routine cfg s nowMs rec w
      unfold grantLoop
      split
      · rename_i w' hgrant
        rw [hgrant] at hone
        exact hone
      · rename_i replies w' hgrant
        rw [hgrant] at hone hroutine
        dsimp only
        rw [grantsIn_append]
        exact hone.trans (ih w') fun hm => (hroutine.jobs.moves hm).minted hm

theorem onLeaseRequest_hands (cfg : Config F) (s : Session) (w : Shared F) (req : LeaseRequest)
    (nowMs : UInt64) :
    Hands s.workerId nowMs w (s.onLeaseRequest cfg w req nowMs).shared
      (grantsIn cfg s.workerId (w.fleet.scoreOf s.workerId) nowMs
        (s.onLeaseRequest cfg w req nowMs).reaction.replies) := by
  have hcached : w.fleet.Revised [] (s.editRecord w fun r =>
      { r with cachedAssets := adoptCachedAssets req.cachedAssets }).fleet :=
    .mutable w.fleet s.workerId fun _ _ => rfl
  have hquiet : ∀ {w' : Shared F}, w'.jobs = w.jobs → w.fleet.Revised [] w'.fleet →
      Hands s.workerId nowMs w w' [] := by
    intro w' hjobs hfleet
    refine ⟨fun hm x i hi => .inl ?_, hfleet, fun g hg => absurd hg List.not_mem_nil⟩
    rw [← hjobs]
    exact hi
  unfold onLeaseRequest
  dsimp only
  split
  · exact hquiet rfl hcached
  · rename_i rec hrec
    have hscore : w.fleet.scoreOf s.workerId = rec.scoreOpsPerSec := by
      change (w.fleet.mutable s.workerId _).find s.workerId = some rec at hrec
      rw [Fleet.find_mutable, if_pos rfl] at hrec
      obtain ⟨r, hr, rfl⟩ := Option.map_eq_some_iff.mp hrec
      unfold Fleet.scoreOf
      rw [hr]
    split
    · exact hquiet rfl hcached
    · split
      · exact hquiet rfl hcached
      · split
        · exact hquiet rfl hcached
        · rw [hscore]
          have hloop := grantLoop_hands cfg s nowMs rec (min (max req.maxTasks 1) 4).toNat
            { s.editRecord w fun r =>
                { r with cachedAssets := adoptCachedAssets req.cachedAssets } with
              reputation := (w.reputation.map fun rep =>
                rep.isBlacklisted s.workerId nowMs).map Prod.snd }
          have hfirst : Hands s.workerId nowMs w
              { s.editRecord w fun r =>
                  { r with cachedAssets := adoptCachedAssets req.cachedAssets } with
                reputation := (w.reputation.map fun rep =>
                  rep.isBlacklisted s.workerId nowMs).map Prod.snd } [] := hquiet rfl hcached
          exact hfirst.trans hloop fun hm => hm

end Session

end

end P2pGpu.Coordinator
