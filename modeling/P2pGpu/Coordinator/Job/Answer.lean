import P2pGpu.Coordinator.Job.Lends
import P2pGpu.Coordinator.Quorum

namespace P2pGpu.Coordinator

open P2pGpu.Protocol

namespace Task

-- The task after one worker's answer to it was judged.
def answered (t : Task) (answer : Submission) : QuorumAction → Task
  | .needMoreReplicas =>
      { t with
        state := .queued
        holder := Id.nil
        leaseExpiresAtMs := 0
        priorWorkers := t.priorWorkers ++ [answer.worker]
        submissions := t.submissions ++ [answer] }
  | .inconclusive =>
      { t with
        state := .queued
        holder := Id.nil
        leaseExpiresAtMs := 0
        priorWorkers := t.priorWorkers ++ [answer.worker]
        submissions := [] }
  | .accept =>
      { t with
        state := .accepted
        holder := Id.nil
        priorWorkers := t.priorWorkers ++ [answer.worker]
        submissions := [] }

-- The task while the answer is being judged.
def submitted (t : Task) (answer : Submission) : Task :=
  { t with
    state := .validating
    holder := Id.nil
    priorWorkers := t.priorWorkers ++ [answer.worker]
    submissions := t.submissions ++ [answer] }

def cancelled (t : Task) : Task :=
  { t with state := .cancelled, holder := Id.nil, leaseExpiresAtMs := 0 }

def live (t : Task) : Prop := t.state = .leased ∨ t.state = .validating ∨ t.state = .needsReplica

theorem answered_shape (t : Task) (answer : Submission) (action : QuorumAction) :
    (t.answered answer action).id = t.id ∧ (t.answered answer action).job = t.job ∧
      (t.answered answer action).span = t.span ∧
      (t.answered answer action).replicaOf = t.replicaOf := by
  cases action <;> exact ⟨rfl, rfl, rfl, rfl⟩

end Task

namespace JobManager

section

variable {m n m' : JobManager} {l : Label} {worker : WorkerId} {id i : TaskId} {t t' : Task}
  {answer : Submission} {action : QuorumAction} {deadline : Option UInt64}

-- The steps in which one answer is judged. They touch one task.
def Works (id : TaskId) (_ : JobManager) (l : Label) : Prop :=
  l = .aux ∨ ∃ a, l = .act id a ∧
    ((∃ worker, a = .submit worker) ∨ (∃ answer, a = .record answer) ∨
      (∃ drop, a = .replicate drop) ∨ a = .finish true)

theorem Works.legal (h : Works id m l) : Legal deadline m l := by
  rcases h with rfl | ⟨a, rfl, ⟨worker, rfl⟩ | ⟨answer, rfl⟩ | ⟨drop, rfl⟩ | rfl⟩
  · exact ⟨trivial, trivial, trivial, nofun, nofun⟩
  · exact ⟨trivial, trivial, trivial, nofun, nofun⟩
  · exact ⟨trivial, trivial, trivial, nofun, nofun⟩
  · exact ⟨trivial, trivial, trivial, nofun, nofun⟩
  · refine ⟨trivial, trivial, trivial, fun _ accepted he => ?_, nofun⟩
    cases he
    rfl

theorem Performs.works {a : Act} {r : Status × JobManager} (h : m.Performs id a r)
    (ha : Works id m (.act id a)) : Moves (Works id) m r.2 := by
  refine Reach.mono ?_ (h.moves ?_)
  · rintro n l (rfl | ⟨rfl, rfl⟩)
    · exact .inl rfl
    · exact ha
  · rcases ha with he | ⟨b, he, ⟨_, rfl⟩ | ⟨_, rfl⟩ | ⟨_, rfl⟩ | rfl⟩ <;> cases he <;>
      exact fun _ => trivial

theorem Performs.findJob {a : Act} {r : Status × JobManager} (h : m.Performs id a r)
    (j : JobId) : r.2.findJob j = m.findJob j := by
  rcases h with ⟨e, rfl⟩ | ⟨t, t', m', hfind, hresult, hrows, rfl⟩
  · rfl
  · rw [hrows.findJob_eq]
    exact findJob_perform m id a t' j

theorem Performs.queue {a : Act} {r : Status × JobManager} (h : m.Performs id a r)
    (hok : r.1 = .ok ()) : r.2.queue = a.queue id m.queue := by
  rcases h with ⟨e, rfl⟩ | ⟨t, t', m', hfind, hresult, hrows, rfl⟩
  · cases hok
  · exact hrows.queue.symm

-- One answer from its submission to its verdict, as a single step.
structure Answers (quorum : QuorumConfig) (m : JobManager) (id : TaskId) (answer : Submission)
    (action : QuorumAction) (m' : JobManager) : Prop where
  moves : Moves (Works id) m m'
  judged : ∃ t, m.find id = some t ∧ t.isLeasedTo answer.worker ∧
    m'.find id = some (t.answered answer action) ∧
    (action = .needMoreReplicas → quorum.policy ≠ .none ∧
      UInt32.ofNat (t.submissions ++ [answer]).length < quorum.maxReplicas)
  others : ∀ i, i ≠ id → m'.find i = m.find i
  jobs : ∀ j, m'.findJob j = m.findJob j

theorem requestReplica_ok (hf : m.find id = some t) (hs : t.state = .validating) :
    (m.requestReplica id).1 = .ok () := by
  unfold requestReplica
  simp only [hf, apply, hs, advance]

theorem restartValidation_ok (hf : m.find id = some t) (hs : t.state = .validating) :
    (m.restartValidation id).1 = .ok () := by
  unfold restartValidation
  simp only [hf, apply, hs, advance]

theorem finish_ok (hf : m.find id = some t) (hs : t.state = .validating) :
    (m.finish id true).1 = .ok () := by
  unfold finish
  simp only [hf, apply, hs, advance, if_true]

-- The first half of an answer: its task is submitted, and it is written down.
structure Receives (m : JobManager) (id : TaskId) (answer : Submission) (m' : JobManager) :
    Prop where
  moves : Moves (Works id) m m'
  task : ∃ t, m.find id = some t ∧ t.isLeasedTo answer.worker ∧
    m'.find id = some (t.submitted answer)
  others : ∀ i, i ≠ id → m'.find i = m.find i
  jobs : ∀ j, m'.findJob j = m.findJob j

variable (answer) in
theorem recordSubmission_ok (hf : m.find id = some t) :
    m.Performs id (.record answer)
      (.ok (), m.recordSubmission id answer.worker answer.checksum answer.payload) := by
  unfold recordSubmission
  rw [hf]
  exact .inr ⟨t, _, _, hf, rfl, SameRows.refl _, rfl⟩

variable (answer) in
theorem receives_of_submit (hsubmit : m.submit answer.worker id = (.ok (), n))
    (hrows : n.SameRows m') :
    Receives m id answer
      (m'.recordSubmission id answer.worker answer.checksum answer.payload) := by
  have hfirst := submit_performs m answer.worker id
  rw [hsubmit] at hfirst
  obtain ⟨t, u, hf, hr, hu⟩ := hfirst.ok rfl
  simp only [Act.result] at hr
  split at hr <;> cases hr
  rename_i hheld
  have hu' := (hrows.find_eq id).trans hu
  have hrecord := recordSubmission_ok answer hu'
  have hsub : Works id m (.act id (.submit answer.worker)) := .inr ⟨_, rfl, .inl ⟨_, rfl⟩⟩
  have hrec : Works id m' (.act id (.record answer)) := .inr ⟨_, rfl, .inr (.inl ⟨_, rfl⟩)⟩
  refine ⟨?_, ⟨t, hf, isLeasedTo_iff.mpr hheld, ?_⟩, fun i hi => ?_, fun j => ?_⟩
  · have hmid : Moves (Works id) m m' :=
      (hfirst.works hsub).tail (.inl rfl) (Move.aux n m' hrows)
    exact hmid.trans (hrecord.works hrec)
  · obtain ⟨v, v', hv, hres, hv'⟩ := hrecord.ok rfl
    rw [hu'] at hv
    cases hv
    cases hres
    exact hv'
  · rw [hrecord.frame hi, hrows.find_eq, hfirst.frame hi]
  · rw [hrecord.findJob, hrows.findJob_eq, hfirst.findJob]

theorem Receives.answers {quorum : QuorumConfig} {r : Status × JobManager} {a : Act}
    (h : Receives m id answer n) (hr : n.Performs id a r) (hok : r.1 = .ok ())
    (hworks : Works id n (.act id a))
    (hresult : ∀ t : Task, a.result (t.submitted answer) = some (t.answered answer action))
    (hroom : ∀ t, m.find id = some t → action = .needMoreReplicas → quorum.policy ≠ .none ∧
      UInt32.ofNat (t.submissions ++ [answer]).length < quorum.maxReplicas) :
    Answers quorum m id answer action r.2 := by
  obtain ⟨t, hf, hheld, hsubmitted⟩ := h.task
  obtain ⟨u, u', hu, hres, hu'⟩ := hr.ok hok
  rw [hsubmitted] at hu
  cases hu
  rw [hresult t] at hres
  cases hres
  refine ⟨h.moves.trans (hr.works hworks), ⟨t, hf, hheld, hu', hroom t hf⟩, fun i hi => ?_,
    fun j => ?_⟩
  · rw [hr.frame hi, h.others i hi]
  · rw [hr.findJob, h.jobs]

-- What cancelling a family leaves of every task.
theorem Cancels.find {winner root : TaskId} (h : Moves (Cancels winner root) m m')
    (hm : m.Minted) (i : TaskId) :
    m'.find i = m.find i ∨ ∃ t, m.find i = some t ∧ i ≠ winner ∧
      (i = root ∨ t.replicaOf = root) ∧ t.live ∧ m'.find i = some t.cancelled := by
  have hinv := h.invariant (fun n => n.Minted ∧ (n.find i = m.find i ∨
    ∃ t, m.find i = some t ∧ i ≠ winner ∧ (i = root ∨ t.replicaOf = root) ∧ t.live ∧
      n.find i = some t.cancelled)) ⟨hm, .inl rfl⟩ ?_
  · exact hinv.2
  · rintro n l n' ⟨hn, hold⟩ hl hmove
    refine ⟨hmove.minted hn, ?_⟩
    rcases hmove.find_eq hn i with ⟨heq, -⟩ | ⟨a, s, s', hact, hs, hr, -, hs'⟩ | ⟨u, he, -⟩
    · rw [heq]
      exact hold
    · rcases hl with rfl | ⟨j, u, rfl, hne, hu, hfamily⟩
      · cases hact
      · cases hact
        rw [hs] at hu
        cases hu
        simp only [Act.result] at hr
        split at hr <;> cases hr
        rename_i hlive
        rcases hold with heq | ⟨t, -, -, -, -, hcancelled⟩
        · exact .inr ⟨s, heq ▸ hs, hne, hfamily, hlive, hs'⟩
        · -- A task that was cancelled cannot be cancelled again.
          rw [hs] at hcancelled
          cases hcancelled
          rcases hlive with hl | hl | hl <;> cases hl
    · rcases hl with rfl | ⟨j, u, rfl, -⟩ <;> cases he

theorem Cancels.findJob {winner root : TaskId} (h : Moves (Cancels winner root) m m')
    (j : JobId) : m'.findJob j = m.findJob j := by
  refine h.invariant (fun n => n.findJob j = m.findJob j) rfl ?_
  intro n l n' hn hl hmove
  refine Eq.trans ?_ hn
  cases hmove with
  | aux _ hrows => exact hrows.findJob_eq j
  | act id a t t' => exact findJob_perform n id a t' j
  | _ => rcases hl with he | ⟨i, u, he, -⟩ <;> cases he

-- A task that is cancelled is of the winner's family.
theorem family_of_cancelled {good : JobId → Prop} (hm : m.Minted) (hp : m.Partition good)
    {winner : TaskId} {s : Task} (hs : m.find winner = some s) (hf : m.find id = some t)
    (hne : id ≠ winner)
    (hroot : id = (if s.replicaOf = Id.nil then winner else s.replicaOf) ∨
      t.replicaOf = if s.replicaOf = Id.nil then winner else s.replicaOf) :
    t.family = s.family := by
  have hs_id := hm.id_eq hs
  have ht_id := hm.id_eq hf
  have hwinner := hm.ne_nil hs
  by_cases horig : s.replicaOf = Id.nil
  · rw [if_pos horig] at hroot
    have hreplica : t.replicaOf = winner := hroot.resolve_left hne
    have hnot : t.replicaOf ≠ Id.nil := hreplica ▸ hwinner
    rw [Task.family, Task.family, if_neg hnot, if_pos horig, hreplica, hs_id]
  · rw [if_neg horig] at hroot
    rw [Task.family, Task.family, if_neg horig]
    by_cases hmine : t.replicaOf = Id.nil
    · rw [if_pos hmine, ht_id]
      exact hroot.resolve_right fun he => horig (he.symm.trans hmine)
    · rw [if_neg hmine]
      rcases hroot with he | he
      · -- The root of a family is an original.
        obtain ⟨o, ho, hnil, -⟩ := hp.family hs horig
        rw [← he, hf] at ho
        cases ho
        exact absurd hnil hmine
      · exact he

theorem cancelSiblingsOf_legal {good : JobId → Prop} {winner : TaskId} {s : Task}
    (hm : m.Minted) (hp : m.Partition good) (hs : m.find winner = some s)
    (haccepted : s.state = .accepted) :
    Moves (Legal deadline) m (m.cancelSiblingsOf winner).2 := by
  have hmoves := cancelSiblingsOf_moves m winner
  have hstrong := hmoves.strengthen
    (fun n => (n.Minted ∧ n.Partition good) ∧ n.find winner = some s) ⟨⟨hm, hp⟩, hs⟩ ?_
  · refine Reach.mono ?_ hstrong
    rintro n l ⟨⟨⟨hn, hpart⟩, hwin⟩, u, hu, hl⟩
    rw [hs] at hu
    cases hu
    rcases hl with rfl | ⟨i, t, rfl, hne, hf, hroot⟩
    · exact ⟨trivial, trivial, trivial, nofun, nofun⟩
    · refine ⟨trivial, trivial, trivial, nofun, fun j v he hv => ?_⟩
      cases he
      rw [hf] at hv
      cases hv
      exact ⟨winner, s, hwin, haccepted, (family_of_cancelled hn hpart hwin hf hne hroot).symm⟩
  · rintro n l n' ⟨⟨hn, hpart⟩, hwin⟩ ⟨u, hu, hl⟩ hmove
    have hseeds : n.SeedsOnly l := by
      rcases hl with rfl | ⟨i, t, rfl, -⟩ <;> trivial
    refine ⟨⟨hmove.minted hn, hpart.move hn hmove hseeds⟩, ?_⟩
    rcases hmove.find_some hn hwin with hsame | ⟨a, t', hact, -⟩
    · exact hsame
    · rcases hl with rfl | ⟨i, t, rfl, hne, -⟩
      · cases hact
      · cases hact
        exact absurd rfl hne

end

section

variable {kernels : KernelRegistry} {quorum : QuorumConfig} {m n m' : JobManager} {l : Label}
  {asked : Prop} {worker : WorkerId} {deadline : UInt64} {id i : TaskId} {t t' : Task} {answer : Submission}
  {action : QuorumAction} {good : JobId → Prop}

-- What one message of a worker, or the end of its connection, does to the tasks.
inductive Effect (kernels : KernelRegistry) (quorum : QuorumConfig) (asked : Prop)
    (worker : WorkerId) (deadline : UInt64) (m : JobManager) : JobManager → Prop where
  | lends {m' : JobManager} (h : m.Lends kernels asked worker deadline m') :
      Effect kernels quorum asked worker deadline m m'
  | answers {m' : JobManager} {id : TaskId} {answer : Submission} {action : QuorumAction}
      (h : Answers quorum m id answer action m') (hworker : answer.worker = worker)
      (haction : action ≠ .accept) : Effect kernels quorum asked worker deadline m m'
  | accepts {n : JobManager} {id : TaskId} {answer : Submission}
      (h : Answers quorum m id answer .accept n) (hworker : answer.worker = worker) :
      Effect kernels quorum asked worker deadline m (n.cancelSiblingsOf id).2
  -- The kernel of the task is unknown, and the task stays where it is.
  | strands {m' : JobManager} {id : TaskId} {t : Task} (h : Moves (Works id) m m')
      (hfind : m.find id = some t) (hheld : t.isLeasedTo worker) (hlost : ¬ m.Known kernels t) :
      Effect kernels quorum asked worker deadline m m'

-- A sibling of a task for which the answer of `worker` was accepted.
def Superseded (worker : WorkerId) (m m' : JobManager) (t : Task) : Prop :=
  ∃ i s s', m.find i = some s ∧ s.isLeasedTo worker ∧ m'.find i = some s' ∧
    s'.state = .accepted ∧ s.family = t.family ∧ s.id ≠ t.id

-- What the work of one worker does to the tasks that were there before it.
def Framed (worker : WorkerId) (m m' : JobManager) : Prop :=
  ∀ id t, m.find id = some t → ∃ t', m'.find id = some t' ∧
    (t.Touched worker t' ∨ (t'.state = .cancelled ∧ m.Superseded worker m' t))

theorem Works.frame (h : Moves (Works id) m m') (hm : m.Minted) (hi : i ≠ id) :
    m'.find i = m.find i := by
  have hinv := h.invariant (fun n => n.Minted ∧ n.find i = m.find i) ⟨hm, rfl⟩ ?_
  · exact hinv.2
  · rintro n l n' ⟨hn, hold⟩ hl hmove
    refine ⟨hmove.minted hn, ?_⟩
    rcases hmove.find_eq hn i with ⟨heq, -⟩ | ⟨a, s, s', hact, -⟩ | ⟨u, he, -⟩
    · exact heq.trans hold
    · rcases hl with rfl | ⟨b, rfl, -⟩
      · cases hact
      · cases hact
        exact absurd rfl hi
    · rcases hl with rfl | ⟨b, rfl, -⟩ <;> cases he

theorem Works.kept (h : Moves (Works id) m m') (hm : m.Minted) (hf : m.find i = some t) :
    ∃ t', m'.find i = some t' := by
  have hinv := h.invariant (fun n => n.Minted ∧ ∃ t', n.find i = some t') ⟨hm, t, hf⟩ ?_
  · exact hinv.2
  · rintro n l n' ⟨hn, u, hu⟩ - hmove
    refine ⟨hmove.minted hn, ?_⟩
    rcases hmove.find_some hn hu with hsame | ⟨a, u', -, -, -, hnew⟩
    · exact ⟨u, hsame⟩
    · exact ⟨u', hnew⟩

namespace Answers

theorem minted (h : Answers quorum m id answer action n) (hm : m.Minted) : n.Minted :=
  h.moves.minted hm

theorem partition (h : Answers quorum m id answer action n) (hm : m.Minted)
    (hp : m.Partition good) : n.Partition good :=
  (Partition.moves (fun _ _ hl => (hl.legal : Legal none _ _).seeds) h.moves hm hp).2

-- The winner stands, and what else there was is as it was or cancelled.
theorem cancel_find (h : Answers quorum m id answer .accept n) (hm : m.Minted)
    (hp : m.Partition good) :
    ∃ t, m.find id = some t ∧ t.isLeasedTo answer.worker ∧
      (n.cancelSiblingsOf id).2.find id = some (t.answered answer .accept) ∧
      ∀ i, i ≠ id → (n.cancelSiblingsOf id).2.find i = m.find i ∨
        ∃ s, m.find i = some s ∧ s.family = t.family ∧ s.live ∧
          (n.cancelSiblingsOf id).2.find i = some s.cancelled := by
  obtain ⟨t, hf, hheld, hwon, -⟩ := h.judged
  have hn := h.minted hm
  have hpn := h.partition hm hp
  have hcancels := cancelSiblingsOf_moves n id
  have hroot : Moves (Cancels id (if t.replicaOf = Id.nil then id else t.replicaOf)) n
      (n.cancelSiblingsOf id).2 := by
    refine Reach.mono ?_ hcancels
    rintro k l ⟨u, hu, hl⟩
    rw [hwon] at hu
    cases hu
    exact hl
  refine ⟨t, hf, hheld, ?_, fun i hi => ?_⟩
  · rcases Cancels.find hroot hn id with hsame | ⟨u, -, hne, -⟩
    · rw [hsame, hwon]
    · exact absurd rfl hne
  · rcases Cancels.find hroot hn i with hsame | ⟨s, hs, -, hfamily, hlive, hnew⟩
    · exact .inl (hsame.trans (h.others i hi))
    · have hfam := family_of_cancelled hn hpn hwon hs hi hfamily
      exact .inr ⟨s, (h.others i hi) ▸ hs, hfam, hlive, hnew⟩

theorem cancel_findJob (n : JobManager) (id : TaskId) (j : JobId) :
    (n.cancelSiblingsOf id).2.findJob j = n.findJob j := by
  have hmoves := cancelSiblingsOf_moves n id
  cases hf : n.find id with
  | none =>
      unfold cancelSiblingsOf
      rw [hf]
  | some t =>
      have hroot : Moves (Cancels id (if t.replicaOf = Id.nil then id else t.replicaOf)) n
          (n.cancelSiblingsOf id).2 := by
        refine Reach.mono ?_ hmoves
        rintro k l ⟨u, hu, hl⟩
        rw [hf] at hu
        cases hu
        exact hl
      exact Cancels.findJob hroot j

end Answers

namespace Effect

theorem legal (h : Effect kernels quorum asked worker deadline m m') (hw : worker ≠ Id.nil)
    (hm : m.Minted) (hp : m.Partition good) : Moves (Legal (some deadline)) m m' := by
  cases h with
  | lends h => exact Reach.mono (fun _ _ hl => hl.legal hw) (h.moves hm)
  | answers h => exact Reach.mono (fun _ _ hl => hl.legal) h.moves
  | strands h => exact Reach.mono (fun _ _ hl => hl.legal) h
  | @accepts n id answer h hworker =>
      obtain ⟨t, -, -, hwon, -⟩ := h.judged
      have hfirst : Moves (Legal (some deadline)) m n :=
        Reach.mono (fun _ _ hl => hl.legal) h.moves
      exact hfirst.trans (cancelSiblingsOf_legal (h.minted hm) (h.partition hm hp) hwon rfl)

-- The tasks that nothing was done to.
theorem rests_of_same (hs : m.Settled kernels) (hjobs : ∀ j, m'.findJob j = m.findJob j)
    (hf : m.find i = some t) : m'.Rests kernels t := by
  have hold := hs i t hf
  refine ⟨hold.validating, hold.needsReplica, fun hl => ?_⟩
  exact (hold.known hl).of_job rfl fun job hjob => ⟨job, by rw [hjobs]; exact hjob, rfl⟩

theorem rests_of_answered (m : JobManager) (t : Task) (answer : Submission)
    (action : QuorumAction) : m.Rests kernels (t.answered answer action) := by
  cases action with
  | needMoreReplicas => exact Rests.of_queued rfl
  | inconclusive => exact Rests.of_queued rfl
  | accept => exact Rests.of_terminal rfl

theorem settled (h : Effect kernels quorum asked worker deadline m m') (hm : m.Minted)
    (hp : m.Partition good) (hs : m.Settled kernels) : m'.Settled kernels := by
  cases h with
  | lends h => exact h.settled hm hp hs
  | @answers _ id answer action h =>
      obtain ⟨t, -, -, hjudged, -⟩ := h.judged
      intro i u hf
      by_cases hi : i = id
      · rw [hi, hjudged] at hf
        cases hf
        exact rests_of_answered _ t answer action
      · rw [h.others i hi] at hf
        exact rests_of_same hs h.jobs hf
  | strands h hfind hheld hlost =>
      have hrests := hs _ _ hfind
      exact absurd (hrests.known (isLeasedTo_iff.mp hheld).1) hlost
  | @accepts n id answer h hworker =>
      obtain ⟨t, hfind, -, hwon, hrest⟩ := h.cancel_find hm hp
      have hjobs : ∀ j, (n.cancelSiblingsOf id).2.findJob j = m.findJob j := fun j =>
        (Answers.cancel_findJob n id j).trans (h.jobs j)
      intro i u hf
      by_cases hi : i = id
      · rw [hi, hwon] at hf
        cases hf
        exact rests_of_answered _ t answer .accept
      · rcases hrest i hi with hsame | ⟨s, hs', -, -, hcancelled⟩
        · rw [hsame] at hf
          exact rests_of_same hs hjobs hf
        · rw [hcancelled] at hf
          cases hf
          exact Rests.of_terminal rfl

theorem framed (h : Effect kernels quorum asked worker deadline m m') (hm : m.Minted)
    (hp : m.Partition good) (hidle : m.Idle) : m.Framed worker m' := by
  intro i u hf
  cases h with
  | lends h =>
      obtain ⟨u', hf', htouched⟩ := Light.touched (h.moves hm) hm hidle hf
      exact ⟨u', hf', .inl htouched⟩
  | @answers _ id answer action h hworker =>
      obtain ⟨t, hfind, hheld, hjudged, -⟩ := h.judged
      by_cases hi : i = id
      · rw [hi, hfind] at hf
        cases hf
        rw [hi]
        exact ⟨_, hjudged, .inl (.inr (.inl (hworker ▸ hheld)))⟩
      · exact ⟨u, (h.others i hi).trans hf, .inl (.inl rfl)⟩
  | @strands _ id t h hfind hheld hlost =>
      by_cases hi : i = id
      · rw [hi, hfind] at hf
        cases hf
        obtain ⟨t', ht'⟩ := Works.kept h hm hfind
        rw [hi]
        exact ⟨t', ht', .inl (.inr (.inl hheld))⟩
      · exact ⟨u, (Works.frame h hm hi).trans hf, .inl (.inl rfl)⟩
  | @accepts n id answer h hworker =>
      obtain ⟨t, hfind, hheld, hwon, hrest⟩ := h.cancel_find hm hp
      by_cases hi : i = id
      · rw [hi, hfind] at hf
        cases hf
        rw [hi]
        exact ⟨_, hwon, .inl (.inr (.inl (hworker ▸ hheld)))⟩
      · rcases hrest i hi with hsame | ⟨s, hs, hfamily, -, hcancelled⟩
        · exact ⟨u, hsame.trans hf, .inl (.inl rfl)⟩
        · rw [hf] at hs
          cases hs
          refine ⟨_, hcancelled, .inr ⟨rfl, id, t, _, hfind, hworker ▸ hheld, hwon, rfl,
            hfamily.symm, ?_⟩⟩
          rw [hm.id_eq hfind, hm.id_eq hf]
          exact fun he => hi he.symm

end Effect

-- A lease that nobody gave or renewed on the way is the one there was before.
theorem Legal.lease {until_ : Option UInt64} (h : Moves (Legal until_) m m') (hm : m.Minted)
    (hf : m'.find id = some t') (hleased : t'.state = .leased) :
    (∃ t, m.find id = some t ∧ t.state = .leased ∧ t.holder = t'.holder ∧
      t.leaseExpiresAtMs = t'.leaseExpiresAtMs) ∨ until_ = some t'.leaseExpiresAtMs := by
  have hinv := h.invariant (fun n => n.Minted ∧ ∀ u, n.find id = some u → u.state = .leased →
    (∃ t, m.find id = some t ∧ t.state = .leased ∧ t.holder = u.holder ∧
      t.leaseExpiresAtMs = u.leaseExpiresAtMs) ∨ until_ = some u.leaseExpiresAtMs)
    ⟨hm, fun u hu hl => .inl ⟨u, hu, hl, rfl, rfl⟩⟩ ?_
  · exact hinv.2 t' hf hleased
  · rintro n l n' ⟨hn, hold⟩ hl hmove
    refine ⟨hmove.minted hn, fun u hu hleased => ?_⟩
    rcases hmove.find_eq hn id with ⟨heq, -⟩ | ⟨a, s, s', rfl, hs, hr, -, hs'⟩ |
      ⟨s, he, hborn, -, -, hs'⟩
    · exact hold u (heq ▸ hu) hleased
    · rw [hu] at hs'
      cases hs'
      have hlets := hl.lets
      cases a with
      | grant place worker d =>
          simp only [Act.result] at hr
          split at hr <;> cases hr
          exact .inr hlets
      | renew worker d =>
          simp only [Act.result] at hr
          split at hr <;> cases hr
          exact .inr hlets
      | record answer =>
          cases hr
          exact hold s hs hleased
      | submit worker =>
          simp only [Act.result] at hr
          split at hr <;> cases hr
          cases hleased
      | requeue =>
          simp only [Act.result] at hr
          split at hr <;> cases hr
          cases hleased
      | replicate drop =>
          simp only [Act.result] at hr
          split at hr <;> cases hr
          cases hleased
      | finish accepted =>
          simp only [Act.result] at hr
          split at hr <;> cases hr
          cases accepted <;> cases hleased
      | cancel =>
          simp only [Act.result] at hr
          split at hr <;> cases hr
          cases hleased
    · rw [hu] at hs'
      cases hs'
      have hlets := hl.lets
      cases l <;> cases he <;> exact .inr hlets

end

end JobManager

end P2pGpu.Coordinator
