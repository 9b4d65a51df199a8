import P2pGpu.Coordinator.Server.Settles

namespace P2pGpu.Coordinator

open P2pGpu.Protocol

-- What a grant tells of a job. It is chosen when the job is made.
structure Job.SameSetup (job job' : Job) : Prop where
  kernelId : job'.kernelId = job.kernelId
  seed : job'.seed = job.seed
  inputRef : job'.inputRef = job.inputRef
  render : job'.render = job.render

namespace Job.SameSetup

variable {job job' job'' : Job}

theorem refl (job : Job) : job.SameSetup job := ⟨rfl, rfl, rfl, rfl⟩

theorem trans (h : job.SameSetup job') (h' : job'.SameSetup job'') : job.SameSetup job'' where
  kernelId := h'.kernelId.trans h.kernelId
  seed := h'.seed.trans h.seed
  inputRef := h'.inputRef.trans h.inputRef
  render := h'.render.trans h.render

end Job.SameSetup

theorem buildParams_later {spec : KernelSpec} {job job' : Job} {t t' : Task}
    (hjob : job.SameSetup job') (ht : t.Later t') :
    buildParams spec job' t' = buildParams spec job t := by
  unfold buildParams buildBruteSearch buildPathTrace
  rw [hjob.seed, hjob.render, ht.startUnit, ht.unitCount]

namespace JobManager

-- No task and no job goes, and what a grant tells of them does not change.
structure Stays (m m' : JobManager) : Prop where
  task : ∀ {id t}, m.find id = some t → ∃ t', m'.find id = some t' ∧ t'.id = t.id ∧ t.Later t'
  job : ∀ {jobId job}, m.findJob jobId = some job →
    ∃ job', m'.findJob jobId = some job' ∧ job.SameSetup job'

section

variable {m m' m'' : JobManager} {l : Label} {good : JobId → Prop}

theorem Stays.refl (m : JobManager) : m.Stays m where
  task {_ t} hf := ⟨t, hf, rfl, .refl t⟩
  job {_ job} hf := ⟨job, hf, .refl job⟩

theorem Stays.trans (h : m.Stays m') (h' : m'.Stays m'') : m.Stays m'' where
  task hf := by
    obtain ⟨t', hf', hid, hlater⟩ := h.task hf
    obtain ⟨t'', hf'', hid', hlater'⟩ := h'.task hf'
    exact ⟨t'', hf'', hid'.trans hid, hlater.trans hlater'⟩
  job hf := by
    obtain ⟨job', hf', hsame⟩ := h.job hf
    obtain ⟨job'', hf'', hsame'⟩ := h'.job hf'
    exact ⟨job'', hf'', hsame.trans hsame'⟩

theorem Stays.sameRows (h : m.SameRows m') : m.Stays m' where
  task {_ t} hf := ⟨t, by rw [h.find_eq]; exact hf, rfl, .refl t⟩
  job {_ job} hf := ⟨job, by rw [h.findJob_eq]; exact hf, .refl job⟩

theorem Moves.task_stays {guard : JobManager → Label → Prop} (h : Moves guard m m') (hm : m.Minted)
    {id : TaskId} {t : Task} (hf : m.find id = some t) :
    ∃ t', m'.find id = some t' ∧ t'.id = t.id ∧ t.Later t' := by
  obtain ⟨t', hf', hlater⟩ := Moves.later h hf
  have hm' : m'.Minted := Moves.minted h hm
  exact ⟨t', hf', (hm'.id_eq hf').trans (hm.id_eq hf).symm, hlater⟩

-- Only what brings in a job sets one up.
theorem Move.setup (h : Move m l m') (hp : m.Partition good) (hl : ¬ l.Plants) {jobId : JobId}
    {job : Job} (hf : m.findJob jobId = some job) :
    ∃ job', m'.findJob jobId = some job' ∧ job.SameSetup job' := by
  obtain ⟨job', hf'⟩ := h.findJob_mono hp.fresh hf
  refine ⟨job', hf', ?_⟩
  rcases h.findJob_some hp.fresh hf' with hsame | ⟨rfl, -⟩ | ⟨_, edit, rfl, -⟩ |
    ⟨_, tile, u, units, -, -, hsame, rfl, -⟩ | ⟨_, u, original, -, -, hsame, rfl, -⟩
  · rw [hf] at hsame
    cases hsame
    exact .refl _
  · exact absurd trivial hl
  · exact absurd trivial hl
  · rw [hf] at hsame
    cases hsame
    exact ⟨rfl, rfl, rfl, rfl⟩
  · rw [hf] at hsame
    cases hsame
    exact ⟨rfl, rfl, rfl, rfl⟩

theorem Quiet.stays (h : Moves Quiet m m') (hm : m.Minted) (hp : m.Partition good) :
    m.Stays m' where
  task hf := Moves.task_stays h hm hf
  job {jobId job} hf := by
    have hinv := h.invariant (fun n => (n.Minted ∧ n.Partition good) ∧
      ∃ job', n.findJob jobId = some job' ∧ job.SameSetup job') ⟨⟨hm, hp⟩, job, hf, .refl job⟩ ?_
    · exact hinv.2
    · rintro n l n' ⟨⟨hn, hpart⟩, job', hf', hsame⟩ ⟨hseeds, -, hplants⟩ hmove
      obtain ⟨job'', hf'', hsame'⟩ := hmove.setup hpart hplants hf'
      exact ⟨⟨hmove.minted hn, hpart.move hn hmove hseeds⟩, job'', hf'', hsame.trans hsame'⟩

end

end JobManager

section

variable {F : Type}

-- An envelope says of its task what the jobs say of it.
structure Describes (cfg : Config F) (m : JobManager) (envelope : TaskEnvelope) (t : Task)
    (job : Job) (spec : KernelSpec) : Prop where
  found : m.find envelope.taskId = some t
  owner : m.findJob t.job = some job
  kernel : cfg.kernels.find job.kernelId = some spec
  params : buildParams spec job t = .ok envelope.params
  same : envelope = Session.envelope cfg spec job t envelope.params

-- What the coordinator says is true of its jobs and its kernels.
def Genuine (cfg : Config F) (m : JobManager) : Reply → Prop
  | .welcome _ _ _ kernels _ => kernels = cfg.kernels.kernels.map Session.describe
  | .taskGrant envelope => ∃ t job spec, Describes cfg m envelope t job spec
  | .benchmarkRequest _ _ | .peerList _ | .revoke _ | .error _ | .assetChunk _ _ _ _
  | .assetMiss _ => True

variable {cfg : Config F} {m m' : JobManager} {envelope : TaskEnvelope} {t : Task} {job : Job}
  {spec : KernelSpec} {reply : Reply}

theorem Describes.stays (h : Describes cfg m envelope t job spec) (hstays : m.Stays m') :
    ∃ t' job', Describes cfg m' envelope t' job' spec := by
  obtain ⟨t', ht', hid, hlater⟩ := hstays.task h.found
  obtain ⟨job', hjob', hsame⟩ := hstays.job h.owner
  have hinput : Session.inputOf cfg job' = Session.inputOf cfg job := by
    unfold Session.inputOf
    rw [hsame.inputRef]
  have houtput : Session.outputBytes spec job' t' = Session.outputBytes spec job t := by
    unfold Session.outputBytes
    rw [hsame.render, hlater.startUnit]
  refine ⟨t', job', ht', ?_, ?_, ?_, ?_⟩
  · rw [hlater.job]
    exact hjob'
  · rw [hsame.kernelId]
    exact h.kernel
  · rw [buildParams_later hsame hlater]
    exact h.params
  · refine h.same.trans ?_
    unfold Session.envelope
    rw [hid, hlater.job, hsame.seed, hlater.startUnit, hlater.unitCount, hinput, houtput]

theorem Genuine.stays (h : Genuine cfg m reply) (hstays : m.Stays m') : Genuine cfg m' reply := by
  cases reply with
  | taskGrant envelope =>
      obtain ⟨t, job, spec, hdescribes⟩ := h
      obtain ⟨t', job', hlater⟩ := hdescribes.stays hstays
      exact ⟨t', job', spec, hlater⟩
  | welcome workerId token heartbeatMs kernels iceServers => exact h
  | _ => trivial

end

namespace Session

open JobManager

section

variable {F : Type} {cfg : Config F}

theorem kernelOf_some {m : JobManager} {task : Task} {job : Job} {spec : KernelSpec}
    (h : kernelOf cfg m task = some (job, spec)) :
    m.findJob task.job = some job ∧ cfg.kernels.find job.kernelId = some spec := by
  unfold kernelOf at h
  split at h
  · cases h
  · rename_i found hfound
    obtain ⟨spec', hspec, heq⟩ := Option.map_eq_some_iff.mp h
    cases heq
    exact ⟨hfound, hspec⟩

variable [Double F] {s : Session} {nowMs : UInt64}

-- All of it is genuine when it is said.
def Honest (cfg : Config F) (turn : Turn F) : Prop :=
  ∀ reply ∈ turn.reaction.replies, Genuine cfg turn.shared.jobs reply

theorem Honest.quiet (s : Session) (w : Shared F) : Honest cfg (s.quiet w) := by
  simp [Honest, Session.quiet]

theorem Honest.fatal (s : Session) (w : Shared F) (code : ErrorCode) (message : String) :
    Honest cfg (s.fatal w code message) := by
  simp [Honest, Session.fatal, Genuine]

theorem Honest.nonFatal (s : Session) (w : Shared F) (code : ErrorCode) (message : String) :
    Honest cfg (s.nonFatal w code message) := by
  simp [Honest, Session.nonFatal, Genuine]

theorem judge_honest (cfg : Config F) (s : Session) (w : Shared F) (taskId : TaskId)
    (spec : KernelSpec) (checksum : UInt64) (payload : Payload) :
    Honest cfg (s.judge cfg w taskId spec checksum payload) := by
  unfold judge
  dsimp only
  split
  · split
    · exact .nonFatal _ _ _ _
    · exact .quiet _ _
  · split
    · exact .nonFatal _ _ _ _
    · exact .quiet _ _
  · unfold acceptResult
    dsimp only
    split
    · exact .nonFatal _ _ _ _
    · exact .quiet _ _

theorem onResultHeader_honest (cfg : Config F) (s : Session) (w : Shared F)
    (header : ResultHeader) (payload : Payload) :
    Honest cfg (s.onResultHeader cfg w header payload) := by
  have hreadable : ∀ taskId, Honest cfg (s.onReadable cfg w taskId header payload) := by
    intro taskId
    unfold onReadable
    split
    · exact .quiet _ _
    · split
      · exact .nonFatal _ _ _ _
      · unfold weigh
        split
        · exact .nonFatal _ _ _ _
        · exact judge_honest _ _ _ _ _ _ _
  unfold onResultHeader
  split
  · exact .nonFatal _ _ _ _
  · repeat' split
    all_goals first | exact .quiet _ _ | exact .nonFatal _ _ _ _ | exact hreadable _

-- What goes out with a grant is made of the task that was drawn.
theorem grantOne_genuine {rec : WorkerRecord F} {w w' : Shared F} {replies : List Reply}
    (hm : w.jobs.Minted) (h : s.grantOne cfg nowMs rec w = (some replies, w')) :
    ∀ reply ∈ replies, Genuine cfg w'.jobs reply := by
  have hdraws := drawTask_draws cfg s nowMs rec w
  have hpeers : ∀ (w : Shared F) (job : Job), ∀ reply ∈ peersFor cfg s rec w job,
      Genuine cfg w'.jobs reply := by
    intro w job reply hmem
    unfold peersFor at hmem
    repeat' split at hmem
    all_goals simp at hmem
    rw [hmem.2]
    trivial
  unfold grantOne at h
  split at h
  · cases h
  · rename_i task drawn hdraw
    rw [hdraw] at hdraws
    unfold sendTask at h
    split at h
    · cases h
    · rename_i job spec hkernel
      obtain ⟨hjob, hspec⟩ := kernelOf_some hkernel
      split at h
      · cases h
      · rename_i params hparams
        cases h
        intro reply hmem
        rcases List.mem_append.mp hmem with hpeer | hgrant
        · exact hpeers _ _ reply hpeer
        · obtain ⟨hfind, -⟩ := hdraws.leased rfl hm
          rw [List.mem_singleton.mp hgrant]
          exact ⟨task, job, spec, hfind, hjob, hspec, hparams, rfl⟩

theorem lends_quiet {kernels : KernelRegistry} {asked : Prop} {worker : WorkerId}
    {deadline : UInt64} {m m' : JobManager} (h : m.Lends kernels asked worker deadline m')
    (hm : m.Minted) : Moves Quiet m m' :=
  Reach.mono (fun _ _ hl => hl.quiet) (h.moves hm)

-- And stays so until all of the grants are made.
theorem grantLoop_genuine {rec : WorkerRecord F} {good : JobId → Prop} (n : Nat) {w : Shared F}
    (hm : w.jobs.Minted) (hp : w.jobs.Partition good) :
    ∀ reply ∈ (s.grantLoop cfg nowMs rec n w).1,
      Genuine cfg (s.grantLoop cfg nowMs rec n w).2.jobs reply := by
  induction n generalizing w with
  | zero => exact fun _ hmem => absurd hmem List.not_mem_nil
  | succ n ih =>
      have hone := grantOne_routine cfg s nowMs rec w
      unfold grantLoop
      split
      · exact fun _ hmem => absurd hmem List.not_mem_nil
      · rename_i replies w' hgrant
        rw [hgrant] at hone
        have hquiet := lends_quiet hone.jobs hm
        have hm' := Moves.minted hquiet hm
        have hp' := (Partition.moves (fun _ _ hl => hl.1) hquiet hm hp).2
        have hrest := grantLoop_routine cfg s nowMs rec n w'
        have hstays := Quiet.stays (lends_quiet hrest.jobs hm') hm' hp'
        intro reply hmem
        rcases List.mem_append.mp hmem with hfirst | hmore
        · exact (grantOne_genuine hm hgrant reply hfirst).stays hstays
        · exact ih hm' hp' reply hmore

theorem onLeaseRequest_honest {w : Shared F} {good : JobId → Prop} (hm : w.jobs.Minted)
    (hp : w.jobs.Partition good) (req : LeaseRequest) :
    Honest cfg (s.onLeaseRequest cfg w req nowMs) := by
  unfold onLeaseRequest
  dsimp only
  split
  · exact .quiet _ _
  · split
    · exact .quiet _ _
    · split
      · exact .quiet _ _
      · split
        · exact .quiet _ _
        · exact grantLoop_genuine _ hm hp

theorem receive_honest {w : Shared F} {good : JobId → Prop} (hm : w.jobs.Minted)
    (hp : w.jobs.Partition good) (s : Session) (body : Body F) (payload : Payload)
    (nowMs : UInt64) (token : Token) : Honest cfg (s.receive cfg w body payload nowMs token) := by
  unfold receive
  dsimp only
  split
  · exact .fatal _ _ _ _
  · unfold dispatch
    split
    · unfold onHello
      split
      · exact .nonFatal _ _ _ _
      · split
        · exact .fatal _ _ _ _
        · simp [Honest, Genuine]
    · refine onLeaseRequest_honest ?_ (?_ : Partition _ good) _
      · split <;> exact hm
      · split <;> exact hp
    · exact onResultHeader_honest _ _ _ _ _
    · unfold onRelease
      repeat' split
      all_goals first | exact .quiet _ _ | exact .nonFatal _ _ _ _
    · unfold onProgress
      repeat' split
      all_goals first | exact .quiet _ _ | exact .nonFatal _ _ _ _
    · exact .quiet _ _
    · unfold onAssetRequest
      dsimp only
      repeat' split
      all_goals first | exact .nonFatal _ _ _ _ | simp [Honest, Genuine, chunks, chunkAt]
    · exact .nonFatal _ _ _ _
    · unfold onBenchmarkResult
      repeat' split
      all_goals first | exact .quiet _ _ | exact .nonFatal _ _ _ _
    · exact .quiet _ _
    · unfold onSignal
      dsimp only
      repeat' split
      all_goals first | exact .nonFatal _ _ _ _ | simp [Honest, Genuine]
    · exact .nonFatal _ _ _ _

end

end Session

namespace Server

open JobManager Session

section

variable {F : Type} [Double F] {cfg : Config F} {v v' : Server F} {e : Event F} {k : Nat}
  {conn : Conn} {body : Body F} {payload : Payload} {nowMs : UInt64} {token : Token}
  {good : JobId → Prop} {jobId : JobId} {job : Job} {reply : Reply}

theorem createJob_keeps {m : JobManager} (hp : m.Partition good) (kernelId : String)
    (totalUnits seed unitsPerGroup : UInt64) (hf : m.findJob jobId = some job) :
    (m.createJob kernelId totalUnits seed unitsPerGroup).2.findJob jobId = some job := by
  have hfresh := hp.fresh
  have hne : jobId ≠ ⟨0, m.nextId⟩ := by
    rintro rfl
    rw [hfresh] at hf
    cases hf
  refine (Table.lookup_emplace m.jobs ⟨0, m.nextId⟩ jobId _ hfresh).trans ?_
  rw [if_neg hne]
  exact hf

theorem seedRender_keeps {m : JobManager} (hp : m.Partition good) (render : RenderConfig)
    (inputRef : AssetId) (hf : m.findJob jobId = some job) :
    (m.seedRender render inputRef).2.findJob jobId = some job := by
  have hfresh := hp.fresh
  have hne : jobId ≠ ⟨0, m.nextId⟩ := by
    rintro rfl
    rw [hfresh] at hf
    cases hf
  have hmodified := Table.lookup_modify (m.createJob kRenderKernel
    (render.grid.tileCount.toUInt64 * render.samplesPerTile) 42 render.samplesPerTile).2.jobs
    ⟨0, m.nextId⟩ jobId (Label.seedsRender render inputRef)
  refine hmodified.trans ?_
  rw [if_neg hne]
  exact createJob_keeps hp _ _ _ _ hf

theorem next_stays (hn : v.Named) (hs : v.jobs.Sound cfg.kernels good) (e : Event F) :
    v.jobs.Stays (v.next cfg e).jobs where
  task hf := Moves.task_stays ((next_deed cfg v e).legal hn hs.minted hs.partition) hs.minted hf
  job {jobId job} hf := by
    by_cases hhears : ∃ c, v.Hears cfg e c
    · obtain ⟨c, hc⟩ := hhears
      exact ⟨job, (hc.findJob jobId).trans hf, .refl job⟩
    · by_cases hplants : e.Plants
      · rcases hplants with ⟨kernelId, totalUnits, seed, unitsPerGroup, rfl⟩ |
          ⟨render, inputRef, rfl⟩
        · exact ⟨job, createJob_keeps hs.partition _ _ _ _ hf, .refl job⟩
        · exact ⟨job, seedRender_keeps hs.partition _ _ hf, .refl job⟩
      · have hquiet := next_quiet hs (not_exists.mp hhears) hplants
        exact (Quiet.stays hquiet hs.minted hs.partition).job hf

theorem step_stays (hn : v.Named) (hs : v.jobs.Sound cfg.kernels good) (h : Step cfg v e v') :
    v.jobs.Stays v'.jobs := (next_stays hn hs e).trans (.sameRows h.rows)

-- Whatever is said on a connection is genuine.
theorem said_genuine (hs : v.jobs.Sound cfg.kernels good) (hconn : v.conns.lookup k = some conn)
    (hmem : reply ∈
      (conn.session.onMessage cfg v.shared body payload nowMs token).reaction.replies) :
    Genuine cfg (v.next cfg (.message k body payload nowMs token)).jobs reply := by
  have hjobs : (v.next cfg (.message k body payload nowMs token)).jobs =
      (conn.session.receive cfg v.shared body payload nowMs token).shared.jobs := by
    obtain ⟨-, -, fleet, -, hshared⟩ :=
      onMessage_receive cfg conn.session v.shared body payload nowMs token
    unfold jobs
    rw [next_open cfg payload nowMs token hconn, hshared]
  rw [onMessage_replies] at hmem
  rcases List.mem_append.mp hmem with hsaid | hrevokes
  · rw [hjobs]
    exact receive_honest hs.minted hs.partition _ _ _ _ _ reply hsaid
  · split at hrevokes
    · unfold drainRevokes at hrevokes
      split at hrevokes
      · cases hrevokes
      · obtain ⟨task, -, rfl⟩ := List.mem_map.mp hrevokes
        trivial
    · cases hrevokes

theorem pushed_genuine {m : JobManager} (hmem : reply ∈ v.pushed cfg nowMs k) :
    Genuine cfg m reply := by
  obtain ⟨entry, -, howed⟩ := List.mem_flatMap.mp hmem
  unfold owed at howed
  split at howed
  · cases howed
  · obtain ⟨id, -, rfl⟩ := List.mem_map.mp howed
    trivial

end

end Server

end P2pGpu.Coordinator
