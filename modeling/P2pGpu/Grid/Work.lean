import P2pGpu.Coordinator.Server.Genuine
import P2pGpu.Grid.Accounts
import P2pGpu.Worker.Loop.Requests

namespace P2pGpu

open P2pGpu.Protocol
open P2pGpu.Coordinator (Describes Double Genuine Hash32 Job JobManager KernelDescriptor
  KernelRegistry KernelSpec Payload Reply Server Task TaskEnvelope TaskStats WireString buildParams)
open P2pGpu.Worker (KernelInfo LoopEvent PendingTask TaskGrant WorkerLoop taskRequest)

section

variable {F : Type}

-- What a worker has of a task is what the grant told of it.
structure Matches (envelope : TaskEnvelope) (spec : KernelSpec) (p : PendingTask) : Prop where
  id : p.id = envelope.taskId
  jobId : p.job = envelope.jobId
  kernelId : p.kernelId = envelope.kernelId
  asset : p.asset = (envelope.input.map fun input => input.1.address).getD []
  params : p.params = envelope.params
  outputBytes : p.outputBytes = envelope.outputBytes ∨
    (envelope.outputBytes = 0 ∧ p.outputBytes = spec.outputBytes)
  request : ∀ (t : Task) outputInit, t.startUnit = envelope.startUnit →
    t.unitCount = envelope.workUnits → p.request outputInit =
      { taskRequest spec envelope.params outputInit t with outputBytes := p.outputBytes }

-- And what the jobs say of it.
structure Faithful (cfg : Coordinator.Config F) (m : JobManager) (p : PendingTask) (t : Task)
    (job : Job) (spec : KernelSpec) : Prop where
  found : m.find p.id = some t
  owner : m.findJob t.job = some job
  kernel : cfg.kernels.find job.kernelId = some spec
  jobId : p.job = t.job
  kernelId : p.kernelId = spec.id
  -- The input is the one that the job names.
  asset : p.asset = (job.inputRef.map fun input => input.toHash32.address).getD []
  params : buildParams spec job t = .ok p.params
  outputBytes : p.outputBytes = Coordinator.Session.outputBytes spec job t ∨
    (Coordinator.Session.outputBytes spec job t = 0 ∧ p.outputBytes = spec.outputBytes)
  request : ∀ outputInit, p.request outputInit =
    { taskRequest spec p.params outputInit t with outputBytes := p.outputBytes }

theorem Matches.faithful {cfg : Coordinator.Config F} {m : JobManager} {p : PendingTask} {t : Task}
    {job : Job} {spec : KernelSpec} {envelope : TaskEnvelope} (h : Matches envelope spec p)
    (hdescribes : Describes cfg m envelope t job spec) : Faithful cfg m p t job spec := by
  have hsame := hdescribes.same
  have hstart : t.startUnit = envelope.startUnit := by rw [hsame]; rfl
  have hunits : t.unitCount = envelope.workUnits := by rw [hsame]; rfl
  have hinput : envelope.input = Coordinator.Session.inputOf cfg job := by rw [hsame]; rfl
  have hsize : envelope.outputBytes = Coordinator.Session.outputBytes spec job t := by
    rw [hsame]; rfl
  refine ⟨?_, hdescribes.owner, hdescribes.kernel, ?_, ?_, ?_, ?_, ?_, fun outputInit => ?_⟩
  · rw [h.id]
    exact hdescribes.found
  · rw [h.jobId, hsame]
    rfl
  · rw [h.kernelId, hsame]
    rfl
  · rw [h.asset, hinput, Coordinator.Session.inputOf, Option.map_map]
    rfl
  · rw [h.params]
    exact hdescribes.params
  · rw [← hsize]
    exact h.outputBytes
  · rw [h.params]
    exact h.request t outputInit hstart hunits

end

namespace Station

-- The kernels that a worker is told of.
def catalogue (kernels : KernelRegistry) : List KernelInfo :=
  kernels.kernels.map fun spec => kernelInfo (Coordinator.Session.describe spec)

section

variable {F : Type} {cfg : Coordinator.Config F} {m : JobManager} {envelope : TaskEnvelope}
  {t : Task} {job : Job} {spec : KernelSpec} {p : PendingTask} {info : KernelInfo}

-- The identifiers differ, so that a kernel is found as it was described.
theorem find_catalogue {kernels : KernelRegistry} (h : kernels.find spec.id = some spec) :
    (catalogue kernels).find? (fun info => info.kernelId = spec.id) =
      some (kernelInfo (Coordinator.Session.describe spec)) := by
  unfold catalogue
  rw [List.find?_map]
  have hsame : (fun info : KernelInfo => decide (info.kernelId = spec.id)) ∘
      (fun spec => kernelInfo (Coordinator.Session.describe spec)) =
        fun spec' => decide (spec'.id = spec.id) := rfl
  rw [hsame]
  have hfind : kernels.kernels.find? (fun spec' => spec'.id = spec.id) = some spec := h
  rw [hfind]
  rfl

-- The grid of a kernel with rows is read off the params.
theorem forKernel_request (hx : p.invocationsX = 0) (hy : p.invocationsY = 1)
    (hstart : t.startUnit = p.startUnit) (hunits : t.unitCount = p.workUnits)
    (outputInit : List UInt8) :
    (p.forKernel (kernelInfo (Coordinator.Session.describe spec))).request outputInit =
      { taskRequest spec p.params outputInit t with outputBytes := p.outputBytes } := by
  have hcond : (1 < (kernelInfo (Coordinator.Session.describe spec)).workgroupSizeY ∧
      24 ≤ p.params.length) =
        ((1 < if spec.workgroupSize.2.1 ≠ 0 then spec.workgroupSize.2.1 else 1) ∧
          24 ≤ p.params.length) := rfl
  unfold PendingTask.forKernel taskRequest PendingTask.request
  dsimp only
  split
  · rename_i hrows
    have hlength := hrows.2
    have hword : ∀ i, 4 * i + 4 ≤ 24 → (LittleEndian.readWords p.params).getD i 0 =
        p.readU32 (4 * i) := fun i hi => LittleEndian.readWords_getD (by omega)
    have hfirst := hword 4 (by decide)
    have hsecond := hword 5 (by decide)
    rw [hcond] at hrows
    rw [if_pos hrows, if_pos hrows, hfirst, hsecond, hstart, hunits]
    rfl
  · rename_i hrows
    rw [hcond] at hrows
    rw [if_neg hrows, if_neg hrows, hstart, hunits]
    dsimp only
    rw [hx, hy]
    rfl

-- All but the shape of the dispatch stays.
theorem forKernel_eq (p : PendingTask) (info : KernelInfo) : ∃ x y, p.forKernel info =
    { p with
      workgroupSize := info.workgroupSize
      workgroupSizeY := info.workgroupSizeY
      invocationsX := x
      invocationsY := y } := by
  unfold PendingTask.forKernel
  dsimp only
  split
  · exact ⟨_, _, rfl⟩
  · exact ⟨_, _, rfl⟩

-- A grant is laid out as it describes its task, with the kernel as it was described.
theorem laidOut_matches (envelope : TaskEnvelope) (spec : KernelSpec) :
    Matches envelope spec (WorkerLoop.laidOut (grant envelope) envelope.taskId envelope.jobId
      (kernelInfo (Coordinator.Session.describe spec))) := by
  obtain ⟨x, y, hlaid⟩ := forKernel_eq ((grant envelope).pending envelope.taskId envelope.jobId)
    (kernelInfo (Coordinator.Session.describe spec))
  have hasset : ∀ address, address = (envelope.input.map fun input => input.1.address).getD [] →
      Matches envelope spec ((((grant envelope).pending envelope.taskId envelope.jobId).forKernel
        (kernelInfo (Coordinator.Session.describe spec))).withAsset address) := by
    intro address haddress
    refine ⟨?_, ?_, ?_, haddress, ?_, .inl ?_, fun t outputInit hstart hunits => ?_⟩
    · rw [hlaid]
      rfl
    · rw [hlaid]
      rfl
    · rw [hlaid]
      rfl
    · rw [hlaid]
      rfl
    · rw [hlaid]
      rfl
    · refine (forKernel_request (t := t) rfl rfl hstart hunits outputInit).trans ?_
      rw [PendingTask.withAsset, PendingTask.forKernel_outputBytes]
      rfl
  unfold WorkerLoop.laidOut
  cases hinput : envelope.input with
  | none =>
      have hnone : (grant envelope).inputRef = none := by
        rw [grant, hinput]
        rfl
      have hplain := hasset [] (by rw [hinput]; rfl)
      rw [hlaid] at hplain
      rw [hnone]
      dsimp only
      rw [hlaid]
      exact hplain
  | some input =>
      have hsome : (grant envelope).inputRef = some input.1 := by
        rw [grant, hinput]
        rfl
      rw [hsome]
      exact hasset input.1.address (by rw [hinput]; rfl)

-- A grant that tells no size has the one of its kernel.
theorem sized_matches (h : Matches envelope spec p) :
    Matches envelope spec (p.sized (kernelInfo (Coordinator.Session.describe spec))) := by
  have hsized : ∀ q : PendingTask, p.sized (kernelInfo (Coordinator.Session.describe spec)) = q →
      q.id = p.id ∧ q.job = p.job ∧ q.kernelId = p.kernelId ∧ q.asset = p.asset ∧
        q.params = p.params := by
    rintro q rfl
    unfold PendingTask.sized
    split <;> exact ⟨rfl, rfl, rfl, rfl, rfl⟩
  obtain ⟨hid, hjob, hkernel, hasset, hparams⟩ := hsized _ rfl
  refine ⟨hid.trans h.id, hjob.trans h.jobId, hkernel.trans h.kernelId, hasset.trans h.asset,
    hparams.trans h.params, ?_, fun t outputInit hstart hunits => ?_⟩
  · unfold PendingTask.sized
    split
    · rename_i hzero
      right
      rcases h.outputBytes with hsame | ⟨hnone, -⟩
      · exact ⟨hsame.symm.trans hzero, rfl⟩
      · exact ⟨hnone, rfl⟩
    · exact h.outputBytes
  · rw [PendingTask.sized_request, h.request t outputInit hstart hunits]

end

end Station

namespace Grid

section

variable {F : Type} [Double F] {cfg : Setup F} {g g' g₀ : Grid F} {e : Event F} {n : Nat}
  {p : PendingTask}

-- Where an event of a loop can come from.
inductive Comes (g : Grid F) (n : Nat) : LoopEvent → Prop
  | opened : Comes g n .opened
  | closed : Comes g n .closed
  | own (e : LoopEvent) (h : Station.isOwn e = true) : Comes g n e
  | read (reply : Reply) (e : LoopEvent) (hmem : reply ∈ (g.stations n).inbox)
      (h : Station.read reply = some e) : Comes g n e

-- A loop takes at most one step with an event.
theorem worker_next (hpossible : g.possible e = true) (m : Nat) :
    ((g.next cfg e).stations m).worker = (g.stations m).worker ∨
      ∃ e', ((g.next cfg e).stations m).worker = (g.stations m).worker.moved cfg.worker e' ∧
        (g.stations m).worker.Possible e' ∧ Comes g m e'.2 := by
  have hstep : ∀ n (s : Station), (∃ e', s.worker = (g.stations n).worker.moved cfg.worker e' ∧
      (g.stations n).worker.Possible e' ∧ Comes g n e'.2) →
      (Function.update g.stations n s m).worker = (g.stations m).worker ∨
        ∃ e', (Function.update g.stations n s m).worker =
            (g.stations m).worker.moved cfg.worker e' ∧
          (g.stations m).worker.Possible e' ∧ Comes g m e'.2 := by
    intro n s hs
    by_cases hmn : m = n
    · subst hmn
      rw [Function.update_self]
      exact .inr hs
    · rw [Function.update_of_ne hmn]
      exact .inl rfl
  have hstill : ∀ n (s : Station), s.worker = (g.stations n).worker →
      (Function.update g.stations n s m).worker = (g.stations m).worker := by
    intro n s hs
    by_cases hmn : m = n
    · subst hmn
      rw [Function.update_self, hs]
    · rw [Function.update_of_ne hmn]
  cases e with
  | coordinator e => exact .inl rfl
  | sweep nowMs flushed => exact .inl rfl
  | deliver j nowMs token =>
      unfold Grid.next
      dsimp only
      split
      · exact .inl rfl
      · exact .inl rfl
  | connect n => exact hstep n _ ⟨(0, .opened), rfl, fun _ => rfl, .opened⟩
  | lose n => exact hstep n _ ⟨(0, .closed), rfl, fun _ => rfl, .closed⟩
  | arrive n =>
      unfold Grid.next
      dsimp only
      split
      · exact .inl rfl
      · split
        · exact .inl rfl
        · exact .inl (hstill n _ rfl)
  | handle n now =>
      have hidle : (g.stations n).worker.executing = none := Option.isNone_iff_eq_none.mp hpossible
      unfold Grid.next
      dsimp only
      split
      · exact .inl rfl
      · rename_i reply rest hinbox
        split
        · exact .inl (hstill n _ rfl)
        · rename_i e' hread
          have hmem : reply ∈ (g.stations n).inbox := hinbox ▸ List.mem_cons_self
          exact hstep n _ ⟨(now, e'), rfl, WorkerLoop.possible_of_idle hidle,
            .read reply e' hmem hread⟩
  | turn n now own output stats =>
      simp only [possible, Bool.and_eq_true, decide_eq_true_eq] at hpossible
      obtain ⟨⟨hown, hturn⟩, -⟩ := hpossible
      exact hstep n _ ⟨(now, own), rfl, hturn, .own own hown⟩
  | speak n body payload =>
      unfold Grid.next
      dsimp only
      split
      · exact .inl rfl
      · exact .inl rfl

-- The lines and the workers have what is genuine.
structure Work (cfg : Setup F) (g : Grid F) : Prop where
  down : ∀ {k reply}, reply ∈ g.down k → Genuine cfg.coordinator g.server.jobs reply
  inbox : ∀ {n reply}, reply ∈ (g.stations n).inbox → Genuine cfg.coordinator g.server.jobs reply
  kernels : ∀ n, (g.stations n).worker.kernelInfo = [] ∨
    (g.stations n).worker.kernelInfo = Station.catalogue cfg.coordinator.kernels
  tasks : ∀ {n p}, p ∈ (g.stations n).worker.tasks → ∃ envelope t job spec,
    Describes cfg.coordinator g.server.jobs envelope t job spec ∧ Matches envelope spec p

theorem Comes.welcome (h : Work cfg g) {kernels : List KernelInfo}
    (hcomes : Comes g n (.welcome kernels)) :
    kernels = Station.catalogue cfg.coordinator.kernels := by
  cases hcomes with
  | own _ hown => cases hown
  | read reply _ hmem hread =>
      have hgenuine := h.inbox hmem
      cases reply with
      | welcome workerId token heartbeatMs descriptors iceServers =>
          cases hread
          unfold Station.catalogue
          rw [show descriptors = _ from hgenuine, List.map_map]
          rfl
      | error err =>
          unfold Station.read at hread
          dsimp only at hread
          split at hread <;> cases hread
      | _ => cases hread

theorem Comes.taskGrant {grant : TaskGrant} (hcomes : Comes g n (.taskGrant grant)) :
    ∃ envelope, .taskGrant envelope ∈ (g.stations n).inbox ∧ grant = Station.grant envelope := by
  cases hcomes with
  | own _ hown => cases hown
  | read reply _ hmem hread =>
      cases reply with
      | taskGrant envelope =>
          cases hread
          exact ⟨envelope, hmem, rfl⟩
      | error err =>
          unfold Station.read at hread
          dsimp only at hread
          split at hread <;> cases hread
      | _ => cases hread

-- A task that is taken from a grant is as it was described.
theorem Work.taken (h : Work cfg g) {grant : TaskGrant} {task : PendingTask} {info : KernelInfo}
    (hcomes : Comes g n (.taskGrant grant))
    (hdescribed : (g.stations n).worker.described grant = some (task, info))
    (hp : p = task ∨ p = task.sized info) : ∃ envelope t job spec,
      Describes cfg.coordinator g.server.jobs envelope t job spec ∧ Matches envelope spec p := by
  obtain ⟨envelope, hmem, rfl⟩ := hcomes.taskGrant
  obtain ⟨t, job, spec, hdescribes⟩ := h.inbox hmem
  refine ⟨envelope, t, job, spec, hdescribes, ?_⟩
  obtain ⟨id, jobId, hid, hjob, hinfo, rfl⟩ := WorkerLoop.described_some hdescribed
  cases hid
  cases hjob
  have hkernelId : (Station.grant envelope).kernelId.getD "" = spec.id := by
    show envelope.kernelId = spec.id
    rw [hdescribes.same]
    rfl
  have hspec : cfg.coordinator.kernels.find spec.id = some spec := by
    have hname := KernelRegistry.find_id hdescribes.kernel
    rw [hname]
    exact hdescribes.kernel
  have hfound : info = Station.kernelInfo (Coordinator.Session.describe spec) := by
    unfold WorkerLoop.findKernel at hinfo
    rw [hkernelId] at hinfo
    rcases h.kernels n with hnone | hcatalogue
    · rw [hnone] at hinfo
      cases hinfo
    · rw [hcatalogue, Station.find_catalogue hspec] at hinfo
      exact (Option.some.inj hinfo).symm
  rw [hfound] at hp
  have hmatches := Station.laidOut_matches envelope spec
  rcases hp with rfl | rfl
  · exact hmatches
  · exact Station.sized_matches hmatches

theorem tells_genuine {good : JobId → Prop} {k : Nat} {reply : Reply}
    (hs : g.server.jobs.Sound cfg.coordinator.kernels good)
    (h : reply ∈ g.tells cfg.coordinator e k) :
    ∃ e', g.seen e = some e' ∧
      Genuine cfg.coordinator (g.server.next cfg.coordinator e').jobs reply := by
  cases e with
  | sweep nowMs flushed => exact ⟨_, rfl, Server.pushed_genuine h⟩
  | deliver j nowMs token =>
      unfold tells at h
      unfold seen
      dsimp only at h ⊢
      cases hup : g.up j with
      | nil =>
          rw [hup] at h
          cases h
      | cons frame rest =>
          obtain ⟨body, payload⟩ := frame
          rw [hup] at h
          dsimp only at h ⊢
          split at h
          · refine ⟨_, rfl, ?_⟩
            cases hconn : g.server.conns.lookup j with
            | none =>
                unfold replies Server.turn at h
                rw [hconn] at h
                cases h
            | some conn =>
                rw [replies_open g.server hconn] at h
                exact Server.said_genuine hs hconn h
          · cases h
  | _ => cases h

theorem Step.stays {good : JobId → Prop} (hn : g.server.Named)
    (hs : g.server.jobs.Sound cfg.coordinator.kernels good) (h : Step cfg g e g') :
    g.server.jobs.Stays g'.server.jobs := by
  cases h.moves with
  | unseen _ hserver =>
      rw [hserver]
      exact .refl _
  | seen e' _ hseen => exact Server.step_stays hn hs hseen

theorem Work.step {good : JobId → Prop} (h : Work cfg g) (hn : g.server.Named)
    (hs : g.server.jobs.Sound cfg.coordinator.kernels good) (hpossible : g.possible e = true)
    (hstep : Step cfg g e g') : Work cfg g' where
  down {k reply} hmem := by
    rw [hstep.sides.down] at hmem
    rcases down_next hmem with hold | hnew
    · exact (h.down hold).stays (hstep.stays hn hs)
    · obtain ⟨e', hsees, hgenuine⟩ := tells_genuine hs hnew
      cases hstep.moves with
      | unseen hunseen _ => cases hunseen.symm.trans hsees
      | seen e'' hsees' hseen =>
          cases hsees'.symm.trans hsees
          exact hgenuine.stays (.sameRows hseen.rows)
  inbox {n reply} hmem := by
    rw [hstep.sides.stations] at hmem
    rcases inbox_next hmem with hold | ⟨k, hdown⟩
    · exact (h.inbox hold).stays (hstep.stays hn hs)
    · exact (h.down hdown).stays (hstep.stays hn hs)
  kernels n := by
    rw [hstep.sides.stations]
    rcases worker_next hpossible n with hstill | ⟨⟨now, e'⟩, hmoved, -, hcomes⟩
    · rw [hstill]
      exact h.kernels n
    · rw [hmoved]
      by_cases hwelcome : ∃ kernels, e' = .welcome kernels
      · obtain ⟨kernels, rfl⟩ := hwelcome
        exact .inr (hcomes.welcome h)
      · rw [WorkerLoop.moved_kernelInfo cfg.worker (g.stations n).worker
          fun kernels he => hwelcome ⟨kernels, he⟩]
        exact h.kernels n
  tasks {n p} hp := by
    rw [hstep.sides.stations] at hp
    have hwas : ∃ envelope t job spec,
        Describes cfg.coordinator g.server.jobs envelope t job spec ∧ Matches envelope spec p := by
      rcases worker_next hpossible n with hstill | ⟨⟨now, e'⟩, hmoved, hturn, hcomes⟩
      · rw [hstill] at hp
        exact h.tasks hp
      · rw [hmoved] at hp
        rcases WorkerLoop.tasks_from cfg.worker hturn hp with hold |
          ⟨grant, task, info, he, hdescribed, hmade⟩
        · exact h.tasks hold
        · dsimp only at he
          subst he
          exact h.taken hcomes hdescribed hmade
    obtain ⟨envelope, t, job, spec, hdescribes, hmatches⟩ := hwas
    obtain ⟨t', job', hlater⟩ := hdescribes.stays (hstep.stays hn hs)
    exact ⟨envelope, t', job', spec, hlater, hmatches⟩

-- Before any worker has heard of anything.
theorem Work.started (h : g.Started) (hidle : ∀ n, (g.stations n).worker = {}) : Work cfg g where
  down {k reply} hmem := by
    rw [h.down k] at hmem
    cases hmem
  inbox {n reply} hmem := by
    rw [h.inbox n] at hmem
    cases hmem
  kernels n := by
    rw [hidle n]
    exact .inl rfl
  tasks {n p} hp := by
    rw [hidle n] at hp
    cases hp

theorem work_of_run (h₀ : g₀.Started) (hidle : ∀ n, (g₀.stations n).worker = {})
    (h : Reach (Step cfg) (fun g e => g.possible e = true) g₀ g) : Work cfg g := by
  induction h with
  | refl => exact .started h₀ hidle
  | tail hrun hlast ih =>
      obtain ⟨e, hpossible, hstep⟩ := hlast
      obtain ⟨hn, hs⟩ := Server.sound_of_run (fun _ => False) h₀.server (server_run hrun)
      exact ih.step hn hs hpossible hstep

-- Whatever a worker has, waits for or runs is what the coordinator's jobs say of the task.
theorem work_as_described (h₀ : g₀.Started) (hidle : ∀ n, (g₀.stations n).worker = {})
    (h : Reach (Step cfg) (fun g e => g.possible e = true) g₀ g)
    (hp : p ∈ (g.stations n).worker.tasks) :
    ∃ t job spec, Faithful cfg.coordinator g.server.jobs p t job spec := by
  obtain ⟨envelope, t, job, spec, hdescribes, hmatches⟩ := (work_of_run h₀ hidle h).tasks hp
  exact ⟨t, job, spec, hmatches.faithful hdescribes⟩

end

-- The worker of the run above, while it runs its task.
section

theorem work_as_described_runs : ∃ p ∈ (gridBusy.stations 0).worker.tasks,
    ∃ t job spec, Faithful searchGrid.coordinator gridBusy.server.jobs p t job spec := by
  have hbusy : (gridBusy.stations 0).worker.tasks ≠ [] := by decide +kernel
  obtain ⟨p, hp⟩ := List.exists_mem_of_ne_nil _ hbusy
  exact ⟨p, hp, work_as_described gridStart_started (fun _ => rfl) gridBusy_run hp⟩

end

end Grid

end P2pGpu
