import P2pGpu.Coordinator.Server.Judged

namespace P2pGpu.Coordinator

open P2pGpu.Protocol

section

variable {F : Type} [Double F]

-- More than one worker gave the answer that is accepted.
structure Hearing.Seconded (cfg : Config F) (v : Server F) (c : Hearing) : Prop where
  accepted : (c.verdict cfg v).action = .accept
  several : 2 ≤ (c.verdict cfg v).agreeing.length

instance (cfg : Config F) (v : Server F) (c : Hearing) : Decidable (c.Seconded cfg v) :=
  decidable_of_iff ((c.verdict cfg v).action = .accept ∧ 2 ≤ (c.verdict cfg v).agreeing.length)
    ⟨fun h => ⟨h.1, h.2⟩, fun h => ⟨h.accepted, h.several⟩⟩

namespace Server

open JobManager Session

variable {cfg : Config F} {v₀ v v' : Server F} {e : Event F} {past : List (Server F × Event F)}
  {job : JobId} {span : Span} {checksum : UInt64} {k : Known} {good : JobId → Prop}

-- A quorum has accepted this answer for this range of the job.
def Agreed (cfg : Config F) (past : List (Server F × Event F)) (job : JobId) (span : Span)
    (checksum : UInt64) : Prop :=
  ∃ x ∈ past, ∃ c : Hearing, x.1.Hears cfg x.2 c ∧ c.Seconded cfg x.1 ∧ c.task.job = job ∧
    c.task.span = span ∧
      ∃ s ∈ c.submissions, s.worker ∈ (c.verdict cfg x.1).agreeing ∧ s.checksum = checksum

-- The range was remembered from a task of this job.
def Learned (cfg : Config F) (past : List (Server F × Event F)) (job : JobId) (k : Known) : Prop :=
  ∃ x ∈ past, ∃ c : Hearing, x.1.Hears cfg x.2 c ∧ c.Seconded cfg x.1 ∧ c.task.job = job ∧
    k = ⟨c.task.startUnit, c.task.unitCount, c.header.checksum⟩

-- Every probe that is under way has the answer of its own job for its own range.
def Grounded (cfg : Config F) (past : List (Server F × Event F)) (v : Server F) : Prop :=
  ∀ pool id checksum, v.shared.spotChecks = some pool → pool.expectedFor id = some checksum →
    ∃ job span j, v.jobs.Ranges id job span ∧ v.jobs.findJob job = some j ∧
      Agreed cfg past job span checksum ∧ span.start + span.count ≤ j.totalUnits.toNat

-- What is remembered is an answer of those who agreed. When work is asked for, the
-- first job with room for a remembered range is the one that it was remembered from,
-- and its end does not wrap.
structure Paired (cfg : Config F) (past : List (Server F × Event F)) (v : Server F)
    (e : Event F) : Prop where
  carried : ∀ c, v.Hears cfg e c → c.Seconded cfg v → Carries F c
  owned : e.Asks → ∀ pool, v.shared.spotChecks = some pool → ∀ k ∈ pool.known,
    k.startUnit.toNat + k.unitCount.toNat < 2 ^ 64 ∧
      ∀ job total, v.jobs.roomFor k.startUnit k.unitCount = some (job, total) →
        Learned cfg past job k

theorem Agreed.more (h : Agreed cfg past job span checksum) (x : Server F × Event F) :
    Agreed cfg (past ++ [x]) job span checksum := by
  obtain ⟨y, hy, hrest⟩ := h
  exact ⟨y, List.mem_append_left _ hy, hrest⟩

-- The winners' own answers are what was remembered, where the last one was a winner.
theorem Learned.agreed (hbacked : ∀ x ∈ past, ∀ c : Hearing, x.1.Hears cfg x.2 c →
      c.Seconded cfg x.1 → Backed (c.verdict cfg x.1) c)
    (h : Learned cfg past job k) : Agreed cfg past job k.span k.checksum := by
  obtain ⟨x, hx, c, hhears, hseconded, hjob, rfl⟩ := h
  obtain ⟨⟨s, hs, hagrees, hchecksum, -⟩, -⟩ := hbacked x hx c hhears hseconded
  exact ⟨x, hx, c, hhears, hseconded, hjob, rfl, s, hs, hagrees, hchecksum⟩

theorem roomFor_room {m : JobManager} {startUnit unitCount total : UInt64}
    (h : m.roomFor startUnit unitCount = some (job, total))
    (hwrap : startUnit.toNat + unitCount.toNat < 2 ^ 64) :
    startUnit.toNat + unitCount.toNat ≤ total.toNat := by
  unfold roomFor at h
  have hroom : startUnit + unitCount ≤ total := by simpa using List.find?_some h
  have hsum : (startUnit + unitCount).toNat = startUnit.toNat + unitCount.toNat := by
    rw [UInt64.toNat_add]
    exact Nat.mod_eq_of_lt hwrap
  have hle := UInt64.le_iff_toNat_le.mp hroom
  omega

theorem step_moves (hn : v.Named) (hs : v.jobs.Sound cfg.kernels good) (h : Step cfg v e v') :
    Moves (Legal (e.deadline cfg)) v.jobs v'.jobs := by
  have hlegal := (next_deed cfg v e).legal hn hs.minted hs.partition
  exact hlegal.tail legal_aux (Move.aux _ _ h.rows)

theorem total_moves {guard : JobManager → Label → Prop} {m m' : JobManager} {j : Job}
    (hguard : ∀ n l, guard n l → n.SeedsOnly l) (h : Moves guard m m') (hm : m.Minted)
    (hp : m.Partition good) (hf : m.findJob job = some j) :
    ∃ j', m'.findJob job = some j' ∧ j'.totalUnits = j.totalUnits := by
  have hinv := h.invariant (fun n => (n.Minted ∧ n.Partition good) ∧
    ∃ j', n.findJob job = some j' ∧ j'.totalUnits = j.totalUnits) ⟨⟨hm, hp⟩, j, hf, rfl⟩ ?_
  · exact hinv.2
  · rintro n l n' ⟨⟨hn, hpart⟩, j', hj', htotal⟩ hg hmove
    have hseeds := hguard n l hg
    obtain ⟨j'', hj'', -, hsame⟩ := hmove.job_kept hpart hseeds hj'
    exact ⟨⟨hmove.minted hn, hpart.move hn hmove hseeds⟩, j'', hj'', hsame.trans htotal⟩

-- A probe that is under way stays what it is.
theorem placed_step (hn : v.Named) (hs : v.jobs.Sound cfg.kernels good) (h : Step cfg v e v')
    {id : TaskId} {j : Job} (hranges : v.jobs.Ranges id job span)
    (hj : v.jobs.findJob job = some j) :
    v'.jobs.Ranges id job span ∧
      ∃ j', v'.jobs.findJob job = some j' ∧ j'.totalUnits = j.totalUnits := by
  have hmoves := step_moves hn hs h
  refine ⟨hranges.moves hs.minted hmoves, ?_⟩
  exact total_moves (fun _ _ hl => hl.seeds) hmoves hs.minted hs.partition hj

theorem Grounded.started (h : v.Started) : Grounded cfg past v := by
  intro pool id checksum hpool hx
  rw [h.expectedFor hpool] at hx
  cases hx

theorem Grounded.step (hg : Grounded cfg past v) (hn : v.Named)
    (hs : v.jobs.Sound cfg.kernels good) (hpaired : Paired cfg past v e)
    (hbacked : ∀ x ∈ past, ∀ c : Hearing, x.1.Hears cfg x.2 c → c.Seconded cfg x.1 →
      Backed (c.verdict cfg x.1) c) (h : Step cfg v e v') :
    Grounded cfg (past ++ [(v, e)]) v' := by
  have hkept : ∀ {pool id checksum}, v.shared.spotChecks = some pool →
      pool.expectedFor id = some checksum → ∃ job span j, v'.jobs.Ranges id job span ∧
        v'.jobs.findJob job = some j ∧ Agreed cfg (past ++ [(v, e)]) job span checksum ∧
          span.start + span.count ≤ j.totalUnits.toNat := by
    intro pool id checksum hpool hx
    obtain ⟨job, span, j, hranges, hj, hagreed, hwithin⟩ := hg pool id checksum hpool hx
    obtain ⟨hranges', j', hj', htotal⟩ := placed_step hn hs h hranges hj
    exact ⟨job, span, j', hranges', hj', hagreed.more (v, e), by rw [htotal]; exact hwithin⟩
  intro pool' id checksum hpool' hx
  rw [h.rest] at hpool'
  by_cases hhears : ∃ c, v.Hears cfg e c
  · obtain ⟨c, hc⟩ := hhears
    obtain ⟨pool, hpool, hexpected, -⟩ := hc.pool hpool'
    rw [hexpected] at hx
    split at hx
    · cases hx
    · exact hkept hpool hx
  · have hquiet := not_exists.mp hhears
    by_cases hasks : e.Asks
    · -- Somebody is handed work, and perhaps a probe.
      have hissues := next_pool hs hquiet
      obtain ⟨pool, hpool⟩ : ∃ pool, v.shared.spotChecks = some pool := by
        have hknown := hissues.known
        rw [hpool'] at hknown
        obtain ⟨pool, hpool, -⟩ := Option.map_eq_some_iff.mp hknown.symm
        exact ⟨pool, hpool⟩
      rcases hissues.probes hpool hpool' hx with hold | ⟨-, k, hk, rfl, job, total, hroom, hranges⟩
      · exact hkept hpool hold
      · obtain ⟨hwrap, hlearned⟩ := hpaired.owned hasks pool hpool k hk
        obtain ⟨j, hj, rfl⟩ := findJob_of_roomFor hroom
        have hmoves := step_moves hn hs h
        obtain ⟨j', hj', htotal⟩ :=
          total_moves (fun _ _ hl => hl.seeds) hmoves hs.minted hs.partition hj
        have hafter := hranges.move ((next_deed cfg v e).sound hn hs).minted
          (Move.aux _ _ h.rows)
        have hagreed := (hlearned job j.totalUnits hroom).agreed hbacked
        have hwithin := roomFor_room hroom hwrap
        exact ⟨job, k.span, j', hafter, hj', hagreed.more (v, e), by rw [htotal]; exact hwithin⟩
    · obtain ⟨hpool, -⟩ := next_pool_kept hs hquiet hasks
      rw [hpool] at hpool'
      exact hkept hpool' hx

-- What is remembered in such a run is an answer of those who agreed.
theorem backed_of_run (h₀ : v₀.Started)
    (hrun : Reach (Recalling (Step cfg)) (fun x e => Paired cfg x.2 x.1 e) (v₀, []) (v, past)) :
    ∀ x ∈ past, ∀ c : Hearing, x.1.Hears cfg x.2 c → c.Seconded cfg x.1 →
      Backed (c.verdict cfg x.1) c := by
  refine Recalling.invariant hrun (fun _ past => ∀ x ∈ past, ∀ c : Hearing, x.1.Hears cfg x.2 c →
    c.Seconded cfg x.1 → Backed (c.verdict cfg x.1) c) (fun x hx => absurd hx List.not_mem_nil) ?_
  intro v past e v' hrecalled hpaired hbacked _ x hx c hhears hseconded
  rcases List.mem_append.mp hx with hold | hnew
  · exact hbacked x hold c hhears hseconded
  · obtain rfl := List.mem_singleton.mp hnew
    have hseveral : 2 ≤ (c.verdict cfg v).agreeing.length := hseconded.several
    have hpolicy : cfg.quorum.policy ≠ .none := fun hnone => by
      have hone := (verdict_unreplicated (v := v) c hnone).1
      omega
    have hvoters := hhears.voters (polled_of_run h₀ (Recalling.forget hrecalled))
    exact (backed_iff hvoters hpolicy hseconded.accepted).mpr
      (hpaired.carried c hhears hseconded)

-- In a run whose steps are all paired, a probe is checked against an answer that was
-- agreed on for its own job and its own range.
theorem probes_grounded (h₀ : v₀.Started)
    (hrun : Reach (Recalling (Step cfg)) (fun x e => Paired cfg x.2 x.1 e) (v₀, []) (v, past)) :
    Grounded cfg past v := by
  refine Recalling.invariant hrun (fun v past => Grounded cfg past v) (Grounded.started h₀) ?_
  intro v past e v' hrecalled hpaired hgrounded hstep
  obtain ⟨hn, hs⟩ := sound_of_run (fun _ => False) h₀ (Recalling.forget hrecalled)
  exact hgrounded.step hn hs hpaired (backed_of_run h₀ hrecalled) hstep

-- The condition as a check.
def learns (cfg : Config F) (past : List (Server F × Event F)) (job : JobId) (k : Known) : Bool :=
  past.any fun x =>
    match x.1.hear cfg x.2 with
    | none => false
    | some c => c.Seconded cfg x.1 ∧ c.task.job = job ∧
        k = ⟨c.task.startUnit, c.task.unitCount, c.header.checksum⟩

def owns (cfg : Config F) (past : List (Server F × Event F)) (v : Server F) (k : Known) : Bool :=
  k.startUnit.toNat + k.unitCount.toNat < 2 ^ 64 &&
    match v.jobs.roomFor k.startUnit k.unitCount with
    | none => true
    | some room => learns cfg past room.1 k

def pairs (cfg : Config F) (past : List (Server F × Event F)) (v : Server F) : Event F → Bool
  | .message _ (.leaseRequest _) _ _ _ =>
      v.shared.spotChecks.all fun pool => pool.known.all (owns cfg past v)
  | e => (v.hear cfg e).all fun c => c.Seconded cfg v → Carries F c

theorem learned_of_learns (h : learns cfg past job k = true) : Learned cfg past job k := by
  obtain ⟨x, hx, hlearns⟩ := List.any_eq_true.mp h
  split at hlearns
  · cases hlearns
  · rename_i c hc
    obtain ⟨hseconded, hjob, hk⟩ := of_decide_eq_true hlearns
    exact ⟨x, hx, c, hears_of_hear hc, hseconded, hjob, hk⟩

theorem paired_of_pairs (h : pairs cfg past v e = true) : Paired cfg past v e where
  carried c hc hseconded := by
    have hheard := hear_of_hears hc
    obtain ⟨token, rfl⟩ := hc.event
    have hall : (v.hear cfg (.message c.connId (.resultHeader c.header) c.payload c.session.nowMs
        token)).all (fun c => decide (c.Seconded cfg v → Carries F c)) = true := h
    rw [hheard] at hall
    exact of_decide_eq_true hall hseconded
  owned hasks pool hpool k hk := by
    obtain ⟨connId, req, payload, nowMs, token, rfl⟩ := hasks
    have hall : v.shared.spotChecks.all (fun pool => pool.known.all (owns cfg past v)) = true := h
    rw [hpool] at hall
    have howns := List.all_eq_true.mp hall k hk
    unfold owns at howns
    obtain ⟨hwrap, hroom⟩ := Bool.and_eq_true_iff.mp howns
    refine ⟨of_decide_eq_true hwrap, fun job total hfirst => ?_⟩
    rw [hfirst] at hroom
    exact learned_of_learns hroom

end Server

end

namespace Server

theorem probeStart_started : probeStart.Started where
  fleet := rfl
  tokens rep h := by
    cases h
    exact ⟨rfl, rfl⟩
  spotChecks pool h := by
    cases h
    exact ⟨rfl, rfl⟩
  compositor c h := by cases h
  conns := rfl
  live := rfl
  nextConnId := by decide
  jobs := rfl

theorem probes_grounded_search :
    (probeStart.runAll doubled probeRun).shared.spotChecks.bind (fun pool =>
        pool.expectedFor ⟨0, 8⟩) = some (digest [1]) ∧
      ∃ past, Grounded doubled past (probeStart.runAll doubled probeRun) := by
  have hchecks : Recalling.passes (next doubled) (pairs doubled) [] probeStart probeRun = true := by
    decide +kernel
  have hrun : Reach (Recalling (Step doubled)) (fun x e => Paired doubled x.2 x.1 e)
      (probeStart, []) (probeStart.runAll doubled probeRun,
        [] ++ probeStart.history doubled probeRun) :=
    Recalling.foldl_passes (step_next doubled) (fun _ _ _ => paired_of_pairs) probeRun [] probeStart
      hchecks
  exact ⟨by decide +kernel, _, probes_grounded probeStart_started hrun⟩

-- A second job is there by the time that the probe is drawn.
def secondRun : List (Event Rat) :=
  crew ++ (List.range' 2 4).flatMap agreeing ++
    [.createJob "brute_search_v1" 1000000000 8 0, asks 2 1000]

-- The range is one of the first job, and the probe one of the second.
theorem probe_of_another_job :
    ¬ ∀ (v : Server Rat) (past : List (Server Rat × Event Rat)),
      Reach (Recalling (Step doubled)) (fun _ _ => True) (probeStart, []) (v, past) →
      Grounded doubled past v := by
  intro h
  have hprobe : (probeStart.runAll doubled secondRun).shared.spotChecks.bind (fun pool =>
      pool.expectedFor ⟨0, 8⟩) = some (digest [1]) := by decide +kernel
  have hjob : ((probeStart.runAll doubled secondRun).jobs.find ⟨0, 8⟩).map Task.job =
      some ⟨0, 6⟩ := by decide +kernel
  have hnever : (probeStart.history doubled secondRun).all (fun x =>
      x.1.jobs.tasks.entries.all fun e => e.2.job ≠ ⟨0, 6⟩) = true := by decide +kernel
  obtain ⟨pool, hpool, hexpected⟩ := Option.bind_eq_some_iff.mp hprobe
  obtain ⟨t, ht, htjob⟩ := Option.map_eq_some_iff.mp hjob
  have hgrounded := h _ _ (recalls_history doubled secondRun probeStart [])
  obtain ⟨job, span, -, ⟨u, hu, hujob, -⟩, -, ⟨x, hx, c, hhears, -, hcjob, -⟩, -⟩ :=
    hgrounded pool ⟨0, 8⟩ (digest [1]) hpool hexpected
  have hsame : u = t := Option.some.inj (hu.symm.trans ht)
  have hsecond : c.task.job = ⟨0, 6⟩ := by rw [hcjob, ← hujob, hsame, htjob]
  -- Nothing was ever answered for the second job.
  rw [List.nil_append] at hx
  have hnone := List.all_eq_true.mp (List.all_eq_true.mp hnever x hx) ⟨c.taskId, c.task⟩
    (Table.mem_entries_iff.mpr hhears.task)
  exact of_decide_eq_true hnone hsecond

end Server

end P2pGpu.Coordinator
