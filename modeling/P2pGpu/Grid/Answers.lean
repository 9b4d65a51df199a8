import P2pGpu.Coordinator.Server.Liars
import P2pGpu.Grid.Search

namespace P2pGpu

open P2pGpu.Protocol
open P2pGpu.Coordinator (Body Double Hearing Host Job JobManager Payload ResultHeader Server Task
  TaskStats Truth bruteSearch buildOutputInit searchParams)
open P2pGpu.Kernels.BruteSearch (Result dispatch load reference)
open P2pGpu.Worker (PendingTask WorkerLoop runTask)

namespace Kernels.BruteSearch

-- The buffer as it is read back: the kernel writes no word behind the first three, and
-- the host starts them with zeros.
def Result.store (r : Result) : List UInt8 :=
  Coordinator.toBytes [r.foundCount, r.minMatch, r.matchXor, 0, 0, 0, 0, 0]

end Kernels.BruteSearch

-- A task, as far as its range says what it is.
def Span.task (span : Span) : Task where
  id := Id.nil
  job := Id.nil
  startUnit := UInt64.ofNat span.start
  unitCount := UInt64.ofNat span.count

namespace Coordinator

theorem searchParams_span (job : Job) (t : Task) :
    searchParams job t.span.task = searchParams job t := by
  have hstart : t.span.task.startUnit = t.startUnit := UInt64.ofNat_toNat
  have hunits : t.span.task.unitCount = t.unitCount := UInt64.ofNat_toNat
  unfold searchParams
  rw [hstart, hunits]

-- What a search finds on one thread and in one piece.
def Truth.search : Truth where
  output job span :=
    if job.kernelId = bruteSearch.id then some (reference (searchParams job span.task)).store
    else none
  setup span h := by
    unfold searchParams
    rw [h.kernelId, h.seed]

end Coordinator

namespace Worker.WorkerLoop

variable {cfg : Config} {w : WorkerLoop} {e : Event} {id : TaskId}

-- A result is only said of a task that was run to its end.
theorem executed_of_result (h : .result id ∈ w.handsOver cfg e) :
    ∃ healthy, e.2 = .executed true healthy := by
  obtain ⟨now, e⟩ := e
  cases e with
  | start => cases h
  | opened => cases h
  | closed => cases h
  | welcome kernels => cases h
  | revoke task => cases h
  | stop =>
      by_cases hrunning : w.running = true
      · simp [handsOver, next, stop, releaseHeld, hrunning] at h
      · simp [handsOver, next, stop, hrunning] at h
  | deviceLost => simp [handsOver, next, releaseHeld] at h
  | deviceUnrecoverable => simp [handsOver, next, onDeviceUnrecoverable] at h
  | peerBytes servingCurrent m => exact absurd h inLoop_result
  | peerOpen isOpen => exact absurd h inLoop_result
  | peerList peers => exact absurd h inLoop_result
  | assetChunk c => exact absurd h inLoop_result
  | assetMiss => exact absurd h inLoop_result
  | taskGrant grant => exact absurd h ((handleTaskGrant_rest w now grant).2 id)
  | poll ability => exact absurd h poll_result
  | executed ok healthy =>
      cases ok with
      | true => exact ⟨healthy, rfl⟩
      | false =>
          have hexecuted : .result id ∈ (w.onExecuted false healthy).2 := h
          unfold onExecuted at hexecuted
          cases hsome : w.executing with
          | none => simp [hsome] at hexecuted
          | some t => simp [hsome, sendRelease] at hexecuted

end Worker.WorkerLoop

-- Which workers are honest and on what device, which connections belong to the others,
-- and the identities that count as liars.
structure Roster where
  honest : Nat → Bool
  host : Nat → Host
  rogue : Nat → Bool
  liars : Finset WorkerId

namespace Grid

section

variable {F : Type} [Double F] {cfg : Setup F} {g g' g₀ : Grid F} {e : Event F} {k : Nat}
  {roster : Roster} {truth : Truth} {header : ResultHeader} {payload : Payload}
  {m m' : JobManager}

-- An honest worker sends what its device makes of its searches, and no result besides.
-- Whoever comes on a connection of the others is a liar.
structure Fair (roster : Roster) (g : Grid F) (e : Event F) : Prop where
  possible : g.possible e = true
  connects : ∀ n, e = .connect n → roster.rogue g.server.nextConnId = !roster.honest n
  counts : ∀ k w, roster.rogue k = true → g.server.Speaks k w → w ∈ roster.liars
  speaks : ∀ n header payload, e = .speak n (.resultHeader header) payload →
    roster.honest n = false
  computes : ∀ n now healthy output stats p,
    e = .turn n now (.executed true healthy) output stats → roster.honest n = true →
      (g.stations n).worker.executing = some p → p.kernelId = bruteSearch.id →
        ∃ s, runTask (roster.host n).limits (p.request (buildOutputInit bruteSearch))
            (roster.host n).unitsPerChunk (dispatch (roster.host n).schedule) load = some s ∧
          output = s.result.store

-- Where a frame with a result comes from.
inductive Utters (g : Grid F) (e : Event F) (n : Nat) (header : ResultHeader) (payload : Payload) :
    Prop
  | speaks (h : e = .speak n (.resultHeader header) payload)
  | computes (now : Nat) (healthy : Bool) (stats : Option TaskStats) (p : PendingTask)
      (h : e = .turn n now (.executed true healthy) payload stats)
      (hexecuting : (g.stations n).worker.executing = some p) (hid : header.taskId = some p.id)

-- What a loop sends goes up its connection.
theorem act_up {n : Nat} {s : Station} {e' : WorkerLoop.Event} {output : Payload}
    {stats : Option TaskStats} {frame : Body F × Payload}
    (h : frame ∈ (g.act cfg n s e' output stats).up k) :
    frame ∈ g.up k ∨ s.conn = some k ∧ ∃ said ∈ s.worker.handsOver cfg.worker e',
      frame = Grid.frame cfg.coordinator output stats said := by
  unfold act at h
  dsimp only at h
  cases hconn : s.conn with
  | none =>
      rw [hconn] at h
      exact .inl h
  | some j =>
      rw [hconn] at h
      dsimp only at h
      by_cases hjk : k = j
      · subst hjk
        rw [Function.update_self] at h
        rcases List.mem_append.mp h with hold | hnew
        · exact .inl hold
        · obtain ⟨said, hsaid, rfl⟩ := List.mem_map.mp hnew
          refine .inr ⟨rfl, said, ?_, rfl⟩
          unfold WorkerLoop.sends at hsaid
          split at hsaid
          · exact hsaid
          · cases hsaid
      · rw [Function.update_of_ne hjk] at h
        exact .inl h

-- A result is of the task that the loop has just run.
theorem act_result {n : Nat} {s : Station} {e' : WorkerLoop.Event} {output : Payload}
    {stats : Option TaskStats}
    (h : (.resultHeader header, payload) ∈ (g.act cfg n s e' output stats).up k) :
    (.resultHeader header, payload) ∈ g.up k ∨ s.conn = some k ∧ payload = output ∧
      ∃ healthy p, e'.2 = .executed true healthy ∧ s.worker.executing = some p ∧
        header.taskId = some p.id := by
  rcases act_up h with hold | ⟨hconn, said, hsaid, hframe⟩
  · exact .inl hold
  · cases said with
    | release task reason => cases hframe
    | goodbye reason => cases hframe
    | result task =>
        obtain ⟨p, hp, rfl⟩ := WorkerLoop.handsOver_result hsaid
        obtain ⟨healthy, hexecuted⟩ := WorkerLoop.executed_of_result hsaid
        cases hframe
        exact .inr ⟨hconn, rfl, healthy, p, hexecuted, hp, rfl⟩

theorem result_next (hpossible : g.possible e = true)
    (h : (.resultHeader header, payload) ∈ (g.next cfg e).up k) :
    (.resultHeader header, payload) ∈ g.up k ∨
      ∃ n, (g.stations n).conn = some k ∧ Utters g e n header payload := by
  cases e with
  | coordinator e => exact .inl h
  | sweep nowMs flushed => exact .inl h
  | deliver j nowMs token =>
      cases hup : g.up j with
      | nil =>
          simp only [Grid.next, hup] at h
          exact .inl h
      | cons frame rest =>
          simp only [Grid.next, hup] at h
          by_cases hjk : k = j
          · subst hjk
            rw [Function.update_self] at h
            exact .inl (hup ▸ List.mem_cons_of_mem frame h)
          · rw [Function.update_of_ne hjk] at h
            exact .inl h
  | connect n => exact .inl h
  | lose n => exact .inl h
  | arrive n =>
      unfold Grid.next at h
      dsimp only at h
      split at h
      · exact .inl h
      · split at h
        · exact .inl h
        · exact .inl h
  | handle n now =>
      have hidle : (g.stations n).worker.executing = none := Option.isNone_iff_eq_none.mp hpossible
      unfold Grid.next at h
      dsimp only at h
      split at h
      · exact .inl h
      · split at h
        · exact .inl h
        · rcases act_result h with hold | ⟨-, -, healthy, p, -, hexecuting, -⟩
          · exact .inl hold
          · cases hidle.symm.trans hexecuting
  | turn n now own output stats =>
      rcases act_result h with hold | ⟨hconn, rfl, healthy, p, hexecuted, hexecuting, hid⟩
      · exact .inl hold
      · dsimp only at hexecuted
        subst hexecuted
        exact .inr ⟨n, hconn, .computes now healthy stats p rfl hexecuting hid⟩
  | speak n body payload' =>
      unfold Grid.next at h
      dsimp only at h
      split at h
      · exact .inl h
      · rename_i j hconn
        dsimp only at h
        by_cases hjk : k = j
        · subst hjk
          rw [Function.update_self] at h
          rcases List.mem_append.mp h with hold | hnew
          · exact .inl hold
          · cases List.mem_singleton.mp hnew
            exact .inr ⟨n, hconn, .speaks rfl⟩
        · rw [Function.update_of_ne hjk] at h
          exact .inl h

-- A result is the right one of its task, where there is one.
def Truthful (truth : Truth) (m : JobManager) (header : ResultHeader) (payload : Payload) : Prop :=
  ∃ id t job, header.taskId = some id ∧ m.find id = some t ∧ m.findJob t.job = some job ∧
    ∀ right, truth.output job t.span = some right → payload = right

theorem Truthful.stays (h : Truthful truth m header payload) (hstays : m.Stays m') :
    Truthful truth m' header payload := by
  obtain ⟨id, t, job, hid, hf, hjob, hright⟩ := h
  obtain ⟨t', hf', -, hlater⟩ := hstays.task hf
  obtain ⟨job', hjob', hsame⟩ := hstays.job hjob
  have hspan : t'.span = t.span := by
    unfold Task.span
    rw [hlater.startUnit, hlater.unitCount]
  refine ⟨id, t', job', hid, hf', hlater.job ▸ hjob', fun right hr => hright right ?_⟩
  rw [← hspan, ← truth.setup t'.span hsame]
  exact hr

-- No line of an honest worker has a wrong result.
structure Candid (roster : Roster) (truth : Truth) (g : Grid F) : Prop where
  conns : ∀ {n k}, (g.stations n).conn = some k → roster.rogue k = !roster.honest n
  up : ∀ {k header payload}, roster.rogue k = false → (.resultHeader header, payload) ∈ g.up k →
    Truthful truth g.server.jobs header payload

theorem Candid.started (h : g.Started) (hup : ∀ k, g.up k = []) : Candid roster truth g where
  conns {n k} hconn := by
    rw [h.conn n] at hconn
    cases hconn
  up {k header payload} _ hmem := by
    rw [hup k] at hmem
    cases hmem

-- What an honest worker utters is what is found on one thread.
theorem Fair.utters {n : Nat} (hfair : Fair roster g e) (hw : Work cfg g)
    (hs : g.server.jobs.Sound cfg.coordinator.kernels fun _ => True)
    (hrenders : g.server.jobs.RendersOneKernel)
    (hsearch : cfg.coordinator.kernels.find bruteSearch.id = some bruteSearch)
    (hhonest : roster.honest n = true) (h : Utters g e n header payload) :
    Truthful .search g.server.jobs header payload := by
  cases h with
  | speaks he =>
      have hlies := hfair.speaks n header payload he
      rw [hhonest] at hlies
      cases hlies
  | computes now healthy stats p he hexecuting hid =>
      have htask : p ∈ (g.stations n).worker.tasks := by
        unfold WorkerLoop.tasks
        rw [hexecuting]
        exact List.mem_append_right _ (List.mem_singleton_self p)
      obtain ⟨envelope, t, job, spec, hdescribes, hmatches⟩ := hw.tasks htask
      have hfaithful := hmatches.faithful hdescribes
      refine ⟨p.id, t, job, hid, hfaithful.found, hfaithful.owner, fun right hright => ?_⟩
      unfold Truth.search at hright
      dsimp only at hright
      split at hright
      · rename_i hkernel
        have hp : p.kernelId = bruteSearch.id := by
          rw [hfaithful.kernelId, Coordinator.KernelRegistry.find_id hfaithful.kernel]
          exact hkernel
        obtain ⟨s, hs', houtput⟩ :=
          hfair.computes n now healthy payload stats p he hhonest hexecuting hp
        obtain ⟨s', hs'', -, hresult⟩ :=
          hfaithful.searches hs.partition hrenders hp hsearch (roster.host n)
        obtain rfl := Option.some.inj (hs'.symm.trans hs'')
        cases hright
        rw [houtput, hresult, Coordinator.searchParams_span]
      · cases hright

theorem Candid.step (h : Candid roster .search g) (hw : Work cfg g) (hn : g.server.Named)
    (hs : g.server.jobs.Sound cfg.coordinator.kernels fun _ => True)
    (hrenders : g.server.jobs.RendersOneKernel)
    (hsearch : cfg.coordinator.kernels.find bruteSearch.id = some bruteSearch)
    (hfair : Fair roster g e) (hstep : Step cfg g e g') : Candid roster .search g' where
  conns {n k} hconn := by
    rw [hstep.sides.stations] at hconn
    rcases conn_next hconn with hold | ⟨rfl, rfl⟩
    · exact h.conns hold
    · exact hfair.connects n rfl
  up {k header payload} hk hmem := by
    rw [hstep.sides.up] at hmem
    have hstays := hstep.stays hn hs
    rcases result_next hfair.possible hmem with hold | ⟨n, hconn, hutters⟩
    · exact (h.up hk hold).stays hstays
    · have hhonest : roster.honest n = true := by simpa [hk] using (h.conns hconn).symm
      exact (hfair.utters hw hs hrenders hsearch hhonest hutters).stays hstays

-- So the coordinator hears nothing wrong from whoever is no liar.
theorem Candid.sincere (h : Candid roster truth g) (hfair : Fair roster g e)
    {e' : Coordinator.Event F} (hsees : g.seen e = some e') :
    Server.Sincere cfg.coordinator truth roster.liars g.server e' := by
  intro c hc hcandid job hjob right hright
  obtain ⟨token, rfl⟩ := hc.event
  obtain ⟨conn, hconn, hknown, hsession⟩ := hc.conn
  have hrogue : roster.rogue c.connId = false := by
    cases hname : roster.rogue c.connId with
    | false => rfl
    | true =>
        have hworker : conn.session.workerId = c.session.workerId := by rw [hsession]
        exact absurd (hfair.counts c.connId _ hname ⟨conn, hconn, hknown, hworker⟩) hcandid
  have hmem : (.resultHeader c.header, c.payload) ∈ g.up c.connId := by
    cases e with
    | deliver j nowMs token' =>
        unfold seen at hsees
        dsimp only at hsees
        cases hup : g.up j with
        | nil =>
            rw [hup] at hsees
            cases hsees
        | cons frame rest =>
            obtain ⟨body, payload⟩ := frame
            rw [hup] at hsees
            cases hsees
            exact hup ▸ List.mem_cons_self
    | coordinator e =>
        cases hsees
        cases hfair.possible
    | _ => cases hsees
  obtain ⟨id, t, job', hid, hf, hjob', htrue⟩ := h.up hrogue hmem
  obtain rfl := Option.some.inj (hid.symm.trans hc.landed.named)
  obtain rfl := Option.some.inj (hf.symm.trans hc.task)
  obtain rfl := Option.some.inj (hjob'.symm.trans hjob)
  exact htrue right hright

-- What holds along a fair run, on the lines and at the coordinator.
theorem candid_of_run (h₀ : g₀.Started) (hidle : ∀ n, (g₀.stations n).worker = {})
    (hup : ∀ k, g₀.up k = [])
    (hsearch : cfg.coordinator.kernels.find bruteSearch.id = some bruteSearch)
    (h : Reach (Step cfg) (Fair roster) g₀ g) : Candid roster .search g ∧
      Reach (Server.Step cfg.coordinator) (Server.Sincere cfg.coordinator .search roster.liars)
        g₀.server g.server := by
  induction h with
  | refl => exact ⟨.started h₀ hup, Reach.refl _⟩
  | tail hrun hlast ih =>
      obtain ⟨e, hfair, hstep⟩ := hlast
      obtain ⟨hcandid, hserver⟩ := ih
      have hpossible : Reach (Step cfg) (fun g e => g.possible e = true) g₀ _ :=
        Reach.mono (fun _ _ hl => hl.possible) hrun
      obtain ⟨hn, hs⟩ := Server.sound_of_run (fun _ => True) h₀.server hserver
      have hrenders := Server.rendersOneKernel_of_run h₀.server hserver
      refine ⟨hcandid.step (work_of_run h₀ hidle hpossible) hn hs hrenders hsearch hfair hstep, ?_⟩
      cases hstep.moves with
      | unseen _ hsame =>
          rw [hsame]
          exact hserver
      | seen e' hsees hseen => exact hserver.tail (hcandid.sincere hfair hsees) hseen

-- From the shader to what is published: with fewer liars than an answer needs voters, what
-- is accepted for a search is what is found on one thread.
theorem answers_right {e' : Coordinator.Event F} {c : Hearing} {job : Job}
    (h₀ : g₀.Started) (hidle : ∀ n, (g₀.stations n).worker = {}) (hup : ∀ k, g₀.up k = [])
    (hsearch : cfg.coordinator.kernels.find bruteSearch.id = some bruteSearch)
    (hq : cfg.coordinator.quorum.Strict)
    (hfew : roster.liars.card < cfg.coordinator.quorum.requiredAgreement.toNat)
    (h : Reach (Step cfg) (Fair roster) g₀ g) (hfair : Fair roster g e)
    (hsees : g.seen e = some e') (hc : g.server.Hears cfg.coordinator e' c)
    (hjob : g.server.jobs.findJob c.task.job = some job) (hkernel : job.kernelId = bruteSearch.id)
    (haccept : (c.verdict cfg.coordinator g.server).action = .accept) (hstep : Step cfg g e g') :
    g.server.Publishes cfg.coordinator g'.server c ∧
      c.header.checksum = cfg.coordinator.blake3 (reference (searchParams job c.task)).store ∧
        Server.Established cfg.coordinator g.server c roster.liars
          (reference (searchParams job c.task)).store := by
  obtain ⟨hcandid, hserver⟩ := candid_of_run h₀ hidle hup hsearch h
  have hright : Truth.search.output job c.task.span =
      some (reference (searchParams job c.task)).store := by
    unfold Truth.search
    dsimp only
    rw [if_pos hkernel, Coordinator.searchParams_span]
  have hpolled := Server.polled_of_run h₀.server hserver
  have hsworn := Server.sworn_of_run hq h₀.server hserver c.taskId c.task hc.task
  have hopen := hc.sworn hsworn hjob hright
  have hsincere := hcandid.sincere hfair hsees c hc
  have hestablished := hc.established hq hpolled hopen (fun hw => hsincere hw job hjob _ hright)
    hfew haccept
  have hexact : c.spec.determinism = .exact := by
    obtain ⟨job', hjob', hspec⟩ := hc.owner
    obtain rfl := Option.some.inj (hjob.symm.trans hjob')
    rw [hkernel, hsearch] at hspec
    rw [← Option.some.inj hspec]
    rfl
  refine ⟨?_, hestablished.checksum hexact, hestablished⟩
  cases hstep.moves with
  | unseen hunseen _ => cases hunseen.symm.trans hsees
  | seen e'' hsees' hseen =>
      cases hsees'.symm.trans hsees
      exact (hc.publishes haccept).step hseen

end

-- Three workers and a search of one unit. The first worker lies, and has the first
-- connection to itself.
section

def doubledGrid : Setup Rat where
  coordinator := Server.doubled
  worker := Worker.TaskLoop.shortConfig

def oneLiar : Roster where
  honest n := n != 0
  host _ := JobManager.plainHost
  rogue k := k == 1
  liars := {⟨1, 0⟩}

def answersFor (g : Grid Rat) : Event Rat → Bool
  | .connect n => oneLiar.rogue g.server.nextConnId == !oneLiar.honest n
  | .speak n (.resultHeader _) _ => !oneLiar.honest n
  | .turn n _ (.executed true _) output _ =>
      !oneLiar.honest n || (g.stations n).worker.executing.all fun p =>
        (runTask (oneLiar.host n).limits (p.request (buildOutputInit bruteSearch))
          (oneLiar.host n).unitsPerChunk (dispatch (oneLiar.host n).schedule) load).any fun s =>
            output == s.result.store
  | _ => true

def isFair (g : Grid Rat) (e : Event Rat) : Bool :=
  g.possible e && answersFor g e && (g.server.conns.lookup 1).all fun conn =>
    !conn.session.handshaked || decide (conn.session.workerId ∈ oneLiar.liars)

theorem fair_of_isFair {g : Grid Rat} {e : Event Rat} (h : isFair g e = true) :
    Fair oneLiar g e := by
  obtain ⟨hfirst, hcounts⟩ := Bool.and_eq_true_iff.mp h
  obtain ⟨hpossible, hanswers⟩ := Bool.and_eq_true_iff.mp hfirst
  refine ⟨hpossible, ?_, ?_, ?_, ?_⟩
  · rintro n rfl
    exact beq_iff_eq.mp hanswers
  · intro k w hrogue hspeaks
    obtain ⟨conn, hconn, hknown, rfl⟩ := hspeaks
    obtain rfl : k = 1 := beq_iff_eq.mp hrogue
    rw [hconn, Option.all_some, hknown] at hcounts
    exact of_decide_eq_true hcounts
  · rintro n header payload rfl
    unfold answersFor at hanswers
    dsimp only at hanswers
    rwa [Bool.not_eq_true'] at hanswers
  · rintro n now healthy output stats p rfl hhonest hexecuting -
    unfold answersFor at hanswers
    dsimp only at hanswers
    rw [hhonest, hexecuting, Option.all_some] at hanswers
    obtain ⟨s, hs, houtput⟩ := (Option.any_eq_true _ _).mp hanswers
    exact ⟨s, hs, beq_iff_eq.mp houtput⟩

-- One unit has no match.
def works (n k : Nat) (nowMs : UInt64) : List (Event Rat) :=
  [.speak n Server.asking [], .deliver k nowMs [], .arrive n, .handle n 0, .arrive n, .handle n 0,
    .turn n 0 (.poll .able) [] none, .turn n 0 (.executed true true) (Result.store {}) none]

def lies (n k : Nat) (nowMs : UInt64) : List (Event Rat) :=
  [.speak n Server.asking [], .deliver k nowMs [], .speak n (Server.answering ⟨0, 2⟩ [2]) [2]]

def outvotedRun : List (Event Rat) :=
  .coordinator (.createJob "brute_search_v1" 1 7 0) :: enters 0 1 80 ++ enters 1 2 80 ++
    enters 2 3 80 ++ lies 0 1 200 ++ [.deliver 1 210 []] ++ works 1 2 220 ++
    [.deliver 2 230 []] ++ works 2 3 240

def outvoted : Grid Rat := outvotedRun.foldl (next doubledGrid) gridStart

theorem outvoted_run : Reach (Step doubledGrid) (Fair oneLiar) gridStart outvoted := by
  have hfair : Recalling.passes (next doubledGrid) (fun _ g e => isFair g e) [] gridStart
      outvotedRun = true := by decide +kernel
  exact Reach.mono (fun _ _ h => fair_of_isFair h)
    (reach_foldl doubledGrid gridStart outvotedRun hfair)

-- The other two are right, and the second of them is about to be heard.
theorem answers_right_search : ∃ c job,
    outvoted.server.Publishes doubledGrid.coordinator
        (outvoted.next doubledGrid (.deliver 3 250 [])).server c ∧
      c.header.checksum =
        doubledGrid.coordinator.blake3 (reference (searchParams job c.task)).store := by
  have hear : ((outvoted.seen (.deliver 3 250 [])).bind fun e' =>
      (outvoted.server.hear doubledGrid.coordinator e').map fun c =>
        ((c.verdict doubledGrid.coordinator outvoted.server).action,
          (outvoted.server.jobs.findJob c.task.job).map Job.kernelId)) =
      some (.accept, some bruteSearch.id) := by
    decide +kernel
  obtain ⟨e', hsees, hheard⟩ := Option.bind_eq_some_iff.mp hear
  obtain ⟨c, hc, hruling⟩ := Option.map_eq_some_iff.mp hheard
  obtain ⟨haction, howned⟩ := Prod.mk.inj hruling
  obtain ⟨job, hjob, hkernel⟩ := Option.map_eq_some_iff.mp howned
  have hlast : isFair outvoted (.deliver 3 250 []) = true := by decide +kernel
  have hstrict : doubledGrid.coordinator.quorum.Strict := ⟨rfl, by decide⟩
  obtain ⟨hpublished, hchecksum, -⟩ := answers_right gridStart_started (fun _ => rfl)
    (fun _ => rfl) (by decide +kernel) hstrict (by decide) outvoted_run (fair_of_isFair hlast)
    hsees (Server.hears_of_hear hc) hjob hkernel haction (step_next doubledGrid outvoted _)
  exact ⟨c, job, hpublished, hchecksum⟩

end

end Grid

end P2pGpu
