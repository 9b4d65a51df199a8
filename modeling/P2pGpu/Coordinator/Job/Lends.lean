import P2pGpu.Coordinator.Job.Partition
import P2pGpu.Coordinator.Job.Queue
import P2pGpu.Coordinator.KernelRegistry

namespace P2pGpu.Coordinator

open P2pGpu.Protocol

namespace Task

-- The original of a task, which is the task itself where it is none's replica.
def family (t : Task) : TaskId := if t.replicaOf = Id.nil then t.id else t.replicaOf

def lentTo (t : Task) (worker : WorkerId) (deadline : UInt64) : Task :=
  { t with state := .leased, holder := worker, leaseExpiresAtMs := deadline }

-- What the work of one worker may make of a task that was there before.
def Touched (worker : WorkerId) (t t' : Task) : Prop :=
  t' = t ∨ t.isLeasedTo worker ∨ (t.state = .queued ∧ ∃ deadline, t' = t.lentTo worker deadline)

end Task

namespace Label

-- The leases that a move gives or renews all run until `deadline`.
def Lets (deadline : Option UInt64) : Label → Prop
  | .act _ (.grant _ _ d) => deadline = some d
  | .act _ (.renew _ d) => deadline = some d
  | .carve _ t => deadline = some t.leaseExpiresAtMs
  | .probe t => deadline = some t.leaseExpiresAtMs
  | .replica t => deadline = some t.leaseExpiresAtMs
  | .act _ _ | .create _ | .edit _ _ | .mint | .aux | .flush => True

theorem lets_of_grants {l : Label} {worker : WorkerId} {deadline : UInt64} {issue : Issue}
    (h : l.grants worker deadline issue) : l.Lets (some deadline) := by
  cases l with
  | act id a => cases a <;> first | trivial | exact congrArg some h.2.symm
  | carve tile t => exact congrArg some h.2.symm
  | probe t => exact congrArg some h.1.2.symm
  | replica t => exact congrArg some h.1.2.symm
  | create => trivial
  | edit => trivial
  | mint => trivial
  | aux => trivial
  | flush => trivial

end Label

namespace JobManager

-- What the coordinator's own code does and no more: an answer is only ever
-- accepted, and a task is only cancelled when one of its family was.
structure Legal (deadline : Option UInt64) (m : JobManager) (l : Label) : Prop where
  seeds : m.SeedsOnly l
  someone : l.HandsToSomeone
  lets : l.Lets deadline
  accepts : ∀ id accepted, l = .act id (.finish accepted) → accepted = true
  cancels : ∀ id t, l = .act id .cancel → m.find id = some t →
    ∃ i s, m.find i = some s ∧ s.state = .accepted ∧ s.family = t.family

-- Work that is handed out, if it was asked for, renewed or given back by one worker.
def Light (asked : Prop) (worker : WorkerId) (deadline : UInt64) (m : JobManager) (l : Label) :
    Prop :=
  l = .aux ∨ (asked ∧ ∃ issue, l.grants worker deadline issue) ∨
    Requeues (fun t => t.isLeasedTo worker) m l ∨ ∃ id, l = .act id (.renew worker deadline)

-- A task that waits is held by nobody, and has no deadline.
def Idle (m : JobManager) : Prop :=
  ∀ id t, m.find id = some t → t.state = .queued → t.holder = Id.nil ∧ t.leaseExpiresAtMs = 0

section

variable {m n m' : JobManager} {l : Label} {asked : Prop} {worker : WorkerId} {deadline : UInt64}
  {id : TaskId} {t t' : Task} {good : JobId → Prop}

theorem Light.of_grants {issue : Issue} (h : l.grants worker deadline issue) :
    Light True worker deadline m l := .inr (.inl ⟨trivial, issue, h⟩)

theorem Light.mono {other : Prop} (ha : asked → other) (h : Light asked worker deadline m l) :
    Light other worker deadline m l := by
  rcases h with haux | ⟨hasked, hissue⟩ | hback
  · exact .inl haux
  · exact .inr (.inl ⟨ha hasked, hissue⟩)
  · exact .inr (.inr hback)

theorem Light.seedsOnly (h : Light asked worker deadline m l) : m.SeedsOnly l := by
  rcases h with rfl | ⟨-, issue, h⟩ | ⟨id, t, rfl, -⟩ | ⟨id, rfl⟩
  · trivial
  · cases l <;> trivial
  · trivial
  · trivial

theorem Light.legal (h : Light asked worker deadline m l) (hw : worker ≠ Id.nil) :
    Legal (some deadline) m l := by
  have hseeds := h.seedsOnly
  rcases h with rfl | ⟨-, issue, h⟩ | ⟨id, t, rfl, -⟩ | ⟨id, rfl⟩
  · exact ⟨hseeds, trivial, trivial, nofun, nofun⟩
  · refine ⟨hseeds, Label.handsToSomeone_of_grants h hw, Label.lets_of_grants h, ?_, ?_⟩
    · rintro id accepted rfl
      exact h.elim
    · rintro id t rfl
      exact h.elim
  · exact ⟨hseeds, trivial, trivial, nofun, nofun⟩
  · exact ⟨hseeds, trivial, rfl, nofun, nofun⟩

theorem Idle.empty : Idle {} := by
  intro id t h
  cases h

theorem Idle.result {a : Act} (h : t.state = .queued → t.holder = Id.nil ∧ t.leaseExpiresAtMs = 0)
    (hr : a.result t = some t') (hs : t'.state = .queued) :
    t'.holder = Id.nil ∧ t'.leaseExpiresAtMs = 0 := by
  cases a with
  | record submission =>
      cases hr
      exact h hs
  | requeue =>
      simp only [Act.result] at hr
      split at hr <;> cases hr
      exact ⟨rfl, rfl⟩
  | replicate drop =>
      simp only [Act.result] at hr
      split at hr <;> cases hr
      exact ⟨rfl, rfl⟩
  | finish accepted =>
      simp only [Act.result] at hr
      split at hr <;> cases hr
      cases accepted <;> cases hs
  | grant place worker deadline =>
      simp only [Act.result] at hr
      split at hr <;> cases hr
      cases hs
  | submit worker =>
      simp only [Act.result] at hr
      split at hr <;> cases hr
      cases hs
  | renew worker deadline =>
      simp only [Act.result] at hr
      split at hr <;> cases hr
      rename_i hstate
      have hleased : t.state = .queued := hs
      rw [hstate.1] at hleased
      cases hleased
  | cancel =>
      simp only [Act.result] at hr
      split at hr <;> cases hr
      cases hs

theorem Idle.move (hi : m.Idle) (hm : m.Minted) (h : Move m l m') : m'.Idle := by
  intro id t' hf hs
  rcases h.find_eq hm id with ⟨heq, -⟩ | ⟨a, t, u, -, hf₀, hr, -, hf'⟩ | ⟨u, -, hborn, -, -, hf'⟩
  · exact hi id t' (heq ▸ hf) hs
  · rw [hf] at hf'
    cases hf'
    exact Idle.result (hi id t hf₀) hr hs
  · rw [hf] at hf'
    cases hf'
    rw [hborn.state] at hs
    cases hs

theorem Idle.moves {guard : JobManager → Label → Prop} (hi : m.Idle) (hm : m.Minted)
    (h : Moves guard m m') : m'.Idle :=
  (h.invariant (fun n => n.Minted ∧ n.Idle) ⟨hm, hi⟩ fun _ _ _ hn _ hmove =>
    ⟨hmove.minted hn.1, hn.2.move hn.1 hmove⟩).2

-- What a task has been through is closed under the worker's further moves.
theorem Touched.result {t₀ : Task} {a : Act}
    (hidle : t₀.state = .queued → t₀.holder = Id.nil ∧ t₀.leaseExpiresAtMs = 0)
    (h : t₀.Touched worker t) (hl : Light asked worker deadline m (.act id a)) (hf : m.find id = some t)
    (hr : a.result t = some t') : t₀.Touched worker t' := by
  rcases h with rfl | hheld | ⟨hqueued, d, rfl⟩
  · rcases hl with he | ⟨-, issue, hg⟩ | ⟨i, s, he, hs, hleased⟩ | ⟨i, he⟩
    · cases he
    · cases a with
      | grant place w d =>
          obtain ⟨rfl, rfl⟩ := hg
          simp only [Act.result] at hr
          split at hr <;> cases hr
          rename_i hstate
          exact .inr (.inr ⟨hstate.1, _, rfl⟩)
      | _ => exact hg.elim
    · cases he
      rw [hf] at hs
      cases hs
      exact .inr (.inl hleased)
    · cases he
      simp only [Act.result] at hr
      split at hr <;> cases hr
      rename_i hstate
      exact .inr (.inl (isLeasedTo_iff.mpr hstate))
  · exact .inr (.inl hheld)
  · obtain ⟨hholder, hdeadline⟩ := hidle hqueued
    rcases hl with he | ⟨-, issue, hg⟩ | ⟨i, s, he, -⟩ | ⟨i, he⟩
    · cases he
    · cases a with
      | grant place w d =>
          simp only [Act.result] at hr
          split at hr <;> cases hr
          rename_i hstate
          cases hstate.1
      | _ => exact hg.elim
    · -- Handed out and given back: the task is as it was.
      cases he
      simp only [Act.result] at hr
      split at hr <;> cases hr
      refine .inl ?_
      cases t₀
      cases hqueued
      cases hholder
      cases hdeadline
      rfl
    · cases he
      simp only [Act.result] at hr
      split at hr <;> cases hr
      exact .inr (.inr ⟨hqueued, _, rfl⟩)

theorem Light.touched (h : Moves (Light asked worker deadline) m m') (hm : m.Minted) (hi : m.Idle)
    (hf : m.find id = some t) : ∃ t', m'.find id = some t' ∧ t.Touched worker t' := by
  have hinv := h.invariant
    (fun n => n.Minted ∧ ∃ t', n.find id = some t' ∧ t.Touched worker t')
    ⟨hm, t, hf, .inl rfl⟩ ?_
  · exact hinv.2
  · rintro n l n' ⟨hn, t', hf', htouched⟩ hl hmove
    refine ⟨hmove.minted hn, ?_⟩
    rcases hmove.find_some hn hf' with hsame | ⟨a, t'', rfl, hr, -, hnew⟩
    · exact ⟨t', hsame, htouched⟩
    · exact ⟨t'', hnew, Touched.result (hi id t hf) htouched hl hf' hr⟩

end

section

variable {kernels : KernelRegistry} {m n m' : JobManager} {l : Label} {asked : Prop}
  {worker : WorkerId} {deadline : UInt64} {id : TaskId} {t t' : Task} {good : JobId → Prop}

-- The kernel of the task is one that the coordinator knows.
def Known (kernels : KernelRegistry) (m : JobManager) (t : Task) : Prop :=
  ∃ job spec, m.findJob t.job = some job ∧ kernels.find job.kernelId = some spec

-- A task that nobody is in the middle of judging.
structure Rests (kernels : KernelRegistry) (m : JobManager) (t : Task) : Prop where
  validating : t.state ≠ .validating
  needsReplica : t.state ≠ .needsReplica
  known : t.state = .leased → m.Known kernels t

def Settled (kernels : KernelRegistry) (m : JobManager) : Prop :=
  ∀ id t, m.find id = some t → m.Rests kernels t

theorem Settled.empty : Settled kernels {} := by
  intro id t h
  cases h

theorem Rests.of_queued (h : t.state = .queued) : m.Rests kernels t where
  validating := by rw [h]; decide
  needsReplica := by rw [h]; decide
  known hl := by rw [h] at hl; cases hl

theorem Rests.of_terminal (h : isTerminal t.state = true) : m.Rests kernels t where
  validating hs := by rw [hs] at h; cases h
  needsReplica hs := by rw [hs] at h; cases h
  known hs := by rw [hs] at h; cases h

-- The kernel of a job is chosen when the job is made, and so is its size.
theorem Move.job_kept (h : Move m l m') (hp : m.Partition good) (hl : m.SeedsOnly l) {jobId : JobId}
    {job : Job} (hf : m.findJob jobId = some job) :
    ∃ job', m'.findJob jobId = some job' ∧ job'.kernelId = job.kernelId ∧
      job'.totalUnits = job.totalUnits := by
  obtain ⟨job', hf'⟩ := h.findJob_mono hp.fresh hf
  refine ⟨job', hf', ?_⟩
  rcases h.findJob_some hp.fresh hf' with hsame | ⟨-, -, hnone, -⟩ | ⟨_, edit, rfl, hsame, rfl⟩ |
    ⟨_, tile, u, units, -, -, hsame, rfl, -⟩ | ⟨_, u, original, -, -, hsame, rfl, -⟩
  · rw [hf] at hsame
    cases hsame
    exact ⟨rfl, rfl⟩
  · rw [hnone] at hf
    cases hf
  · obtain ⟨render, inputRef, _, rfl, -⟩ := hl
    rw [hf] at hsame
    cases hsame
    exact ⟨rfl, rfl⟩
  · rw [hf] at hsame
    cases hsame
    exact ⟨rfl, rfl⟩
  · rw [hf] at hsame
    cases hsame
    exact ⟨rfl, rfl⟩

theorem Move.kernel (h : Move m l m') (hp : m.Partition good) (hl : m.SeedsOnly l) {jobId : JobId}
    {job : Job} (hf : m.findJob jobId = some job) :
    ∃ job', m'.findJob jobId = some job' ∧ job'.kernelId = job.kernelId := by
  obtain ⟨job', hf', hkernel, -⟩ := h.job_kept hp hl hf
  exact ⟨job', hf', hkernel⟩

theorem Known.of_job (h : m.Known kernels t) (hjob : t'.job = t.job)
    (hkernel : ∀ job, m.findJob t.job = some job →
      ∃ job', m'.findJob t.job = some job' ∧ job'.kernelId = job.kernelId) :
    m'.Known kernels t' := by
  obtain ⟨job, spec, hf, hspec⟩ := h
  obtain ⟨job', hf', hid⟩ := hkernel job hf
  exact ⟨job', spec, by rw [hjob]; exact hf', by rw [hid]; exact hspec⟩

theorem Known.moves {guard : JobManager → Label → Prop}
    (hguard : ∀ n l, guard n l → n.SeedsOnly l) (h : Moves guard m m') (hm : m.Minted)
    (hp : m.Partition good) (hk : m.Known kernels t) : m'.Known kernels t := by
  have hinv := h.invariant (fun n => (n.Minted ∧ n.Partition good) ∧ n.Known kernels t)
    ⟨⟨hm, hp⟩, hk⟩ ?_
  · exact hinv.2
  · rintro n l n' ⟨⟨hn, hpart⟩, hknown⟩ hg hmove
    have hl := hguard n l hg
    refine ⟨⟨hmove.minted hn, hpart.move hn hmove hl⟩, hknown.of_job rfl ?_⟩
    exact fun job hf => hmove.kernel hpart hl hf

-- A step of one task leaves every other one at rest.
theorem Settled.act {a : Act} (hs : m.Settled kernels) (hm : m.Minted)
    (h : Move m (.act id a) m')
    (ha : ∀ t t', m.find id = some t → a.result t = some t' → m'.Rests kernels t') :
    m'.Settled kernels := by
  have hjobs : ∀ j, m'.findJob j = m.findJob j := by
    intro j
    cases h
    exact findJob_perform _ _ _ _ _
  intro i u hf
  rcases h.find_eq hm i with ⟨heq, -⟩ | ⟨b, s, s', he, hf₀, hr, -, hf'⟩ | ⟨u, he, -⟩
  · have hold := hs i u (heq ▸ hf)
    refine ⟨hold.validating, hold.needsReplica, fun hl => ?_⟩
    exact (hold.known hl).of_job rfl fun job hjob => ⟨job, by rw [hjobs]; exact hjob, rfl⟩
  · rw [hf] at hf'
    cases hf'
    cases he
    exact ha _ _ hf₀ hr
  · cases he

theorem Settled.requeues {p : Task → Prop} (hs : m.Settled kernels) (hm : m.Minted)
    (h : Moves (Requeues p) m m') : m'.Settled kernels := by
  have hinv := h.invariant (fun n => n.Minted ∧ n.Settled kernels) ⟨hm, hs⟩ ?_
  · exact hinv.2
  · rintro n l n' ⟨hn, hsettled⟩ ⟨id, t, rfl, -⟩ hmove
    refine ⟨hmove.minted hn, hsettled.act hn hmove ?_⟩
    intro t t' _ hr
    simp only [Act.result] at hr
    split at hr <;> cases hr
    exact Rests.of_queued rfl

theorem Settled.sameRows (hs : m.Settled kernels) (h : m.SameRows m') : m'.Settled kernels := by
  intro i t hf
  rw [h.find_eq] at hf
  have hold := hs i t hf
  refine ⟨hold.validating, hold.needsReplica, fun hl => ?_⟩
  exact (hold.known hl).of_job rfl fun job hjob => ⟨job, by rw [h.findJob_eq]; exact hjob, rfl⟩

-- A message that only hands out, renews and gives back, and leaves nothing halfway.
structure Lends (kernels : KernelRegistry) (asked : Prop) (worker : WorkerId)
    (deadline : UInt64) (m m' : JobManager) : Prop where
  moves : m.Minted → Moves (Light asked worker deadline) m m'
  settled : ∀ {good : JobId → Prop}, m.Minted → m.Partition good → m.Settled kernels →
    m'.Settled kernels

namespace Lends

theorem refl (m : JobManager) : Lends kernels asked worker deadline m m :=
  ⟨fun _ => Reach.refl m, fun _ _ h => h⟩

theorem trans (h : Lends kernels asked worker deadline m n) (h' : Lends kernels asked worker deadline n m') :
    Lends kernels asked worker deadline m m' where
  moves hm := (h.moves hm).trans (h'.moves ((h.moves hm).minted hm))
  settled hm hp hs := by
    have hmid := Partition.moves (fun _ _ hl => Light.seedsOnly hl) (h.moves hm) hm hp
    exact h'.settled hmid.1 hmid.2 (h.settled hm hp hs)

theorem mono {other : Prop} (ha : asked → other) (h : Lends kernels asked worker deadline m m') :
    Lends kernels other worker deadline m m' where
  moves hm := Reach.mono (fun _ _ hl => hl.mono ha) (h.moves hm)
  settled := h.settled

theorem requeues (h : Moves (Requeues fun t => t.isLeasedTo worker) m m') :
    Lends kernels asked worker deadline m m' where
  moves _ := Reach.mono (fun _ _ hl => .inr (.inr (.inl hl))) h
  settled hm _ hs := hs.requeues hm h

theorem light_aux (m : JobManager) : Light asked worker deadline m .aux := .inl rfl

theorem sameRows (h : m.SameRows m') : Lends kernels asked worker deadline m m' where
  moves _ := Reach.single (light_aux m) (Move.aux m m' h)
  settled _ _ hs := hs.sameRows h

theorem renews {r : Status × JobManager} (h : m.Performs id (.renew worker deadline) r) :
    Lends kernels asked worker deadline m r.2 where
  moves _ := by
    refine Reach.mono ?_ (h.moves fun _ => trivial)
    rintro n l (rfl | ⟨-, rfl⟩)
    · exact light_aux n
    · exact .inr (.inr (.inr ⟨id, rfl⟩))
  settled hm _ hs := by
    rcases h with ⟨e, rfl⟩ | ⟨t, t', n, hfind, hresult, hrows, rfl⟩
    · exact hs
    · have hmove := Move.act m id _ t t' hfind hresult trivial
      refine Settled.sameRows (hs.act hm hmove ?_) hrows
      intro u u' hu hr
      have hold := hs id u hu
      simp only [Act.result] at hr
      split at hr <;> cases hr
      refine ⟨hold.validating, hold.needsReplica, fun hl => ?_⟩
      exact (hold.known hl).of_job rfl fun job hjob => ⟨job, hjob, rfl⟩

theorem requeues_one {r : Status × JobManager} (h : m.Performs id .requeue r)
    (hheld : ∀ t, m.find id = some t → t.isLeasedTo worker) :
    Lends kernels asked worker deadline m r.2 := by
  rcases h with ⟨e, rfl⟩ | ⟨t, t', n, hfind, hresult, hrows, rfl⟩
  · exact refl m
  · have hmove := Move.act m id _ t t' hfind hresult trivial
    have hlabel : Requeues (fun t => t.isLeasedTo worker) m (.act id .requeue) :=
      ⟨id, t, rfl, hfind, hheld t hfind⟩
    exact (requeues (Reach.single hlabel hmove)).trans (sameRows hrows)

end Lends

end

end JobManager

end P2pGpu.Coordinator
