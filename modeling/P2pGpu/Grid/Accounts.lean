import P2pGpu.Grid.Carried

namespace P2pGpu

open P2pGpu.Protocol
open P2pGpu.Coordinator (Body Conn Double JobManager Payload Reply Server Task TaskEnvelope Token
  isTerminal)
open P2pGpu.Worker (WorkerLoop)

namespace Grid

section

variable {F : Type} [Double F] {cfg : Setup F} {g g' g₀ : Grid F} {e : Event F}
  {e' : Coordinator.Event F} {k : Nat} {id : TaskId} {x : WorkerId}

-- What the coordinator sees is what happens to it.
theorem server_next (cfg : Setup F) (g : Grid F) (e : Event F) :
    (g.next cfg e).server =
      ((g.seen e).map (g.server.next cfg.coordinator)).getD g.server := by
  cases e with
  | coordinator e => rfl
  | sweep nowMs flushed => rfl
  | deliver j nowMs token =>
      unfold Grid.next seen
      dsimp only
      split <;> rfl
  | connect n => rfl
  | lose n => rfl
  | arrive n =>
      unfold Grid.next
      dsimp only
      split
      · rfl
      · split <;> rfl
  | handle n now =>
      unfold Grid.next
      dsimp only
      split
      · rfl
      · split <;> rfl
  | turn n now own output stats => rfl
  | speak n body payload =>
      unfold Grid.next
      dsimp only
      split <;> rfl

-- What a step is on both sides.
inductive Moves (cfg : Setup F) (g : Grid F) (e : Event F) (g' : Grid F) : Prop
  | unseen (h : g.seen e = none) (hserver : g'.server = g.server)
  | seen (e' : Coordinator.Event F) (h : g.seen e = some e')
      (hstep : Server.Step cfg.coordinator g.server e' g'.server)

-- The workers and the lines are as one function leaves them.
structure Sides (cfg : Setup F) (g : Grid F) (e : Event F) (g' : Grid F) : Prop where
  stations : g'.stations = (g.next cfg e).stations
  up : g'.up = (g.next cfg e).up
  down : g'.down = (g.next cfg e).down

theorem Step.sides (h : Step cfg g e g') : Sides cfg g e g' := by
  cases h with
  | unseen h => exact ⟨rfl, rfl, rfl⟩
  | seen e' v' h hstep => exact ⟨rfl, rfl, rfl⟩

theorem Step.moves (h : Step cfg g e g') : Moves cfg g e g' := by
  cases h with
  | unseen h =>
      refine .unseen h ?_
      rw [server_next, h]
      rfl
  | seen e' v' h hstep => exact .seen e' h hstep

-- The coordinator of a run is in a run of its own.
theorem server_run {guard : Grid F → Event F → Prop} (h : Reach (Step cfg) guard g₀ g) :
    Reach (Server.Step cfg.coordinator) (fun _ _ => True) g₀.server g.server := by
  induction h with
  | refl => exact Reach.refl g₀.server
  | tail hrun hlast ih =>
      obtain ⟨e, -, hstep⟩ := hlast
      cases hstep.moves with
      | unseen h hserver => rwa [hserver]
      | seen e' h hseen => exact ih.tail trivial hseen

-- What holds of a grid between two events.
structure Accounts (cfg : Setup F) (g : Grid F) : Prop where
  apart : g.Apart
  warned : g.server.Warned
  -- a worker is told to stop only with what is over
  told : ∀ id, g.Told id → g.server.jobs.Ended id
  carried : ∀ id x, id ∈ g.server.jobs.heldBy x →
    ∃ k, g.server.Speaks k x ∧ g.Carried cfg.coordinator k id

theorem Apart.step (h : g.Apart) (hstep : Step cfg g e g') : g'.Apart where
  alone hi hj := by
    rw [hstep.sides.stations] at hi hj
    exact alone_next h hi hj
  below {n k} hn := by
    rw [hstep.sides.stations] at hn
    have hgrows : g.server.nextConnId ≤ g'.server.nextConnId := by
      cases hstep.moves with
      | unseen _ hserver => rw [hserver]
      | seen e' _ hseen =>
          rw [hseen.rest]
          exact Server.nextConnId_le cfg.coordinator g.server e'
    rcases conn_next hn with hold | ⟨rfl, rfl⟩
    · exact Nat.lt_of_lt_of_le (h.below hold) hgrows
    · cases hstep.moves with
      | unseen hunseen _ => cases hunseen
      | seen e' hsees hseen =>
          cases hsees
          rw [hseen.rest]
          exact Nat.lt_succ_self _

theorem replies_open {connId : Nat} {conn : Conn} {body : Body F} {payload : Payload}
    {nowMs : UInt64} {token : Token} (v : Server F) (hconn : v.conns.lookup connId = some conn) :
    replies cfg.coordinator v connId body payload nowMs token =
      (conn.session.onMessage cfg.coordinator v.shared body payload nowMs
        token).reaction.replies := by
  unfold replies Server.turn
  rw [hconn]
  rfl

-- Whom the coordinator tells to stop, it tells of what is over.
theorem tells_ended {good : JobId → Prop} (hn : g.server.Named)
    (hs : g.server.jobs.Sound cfg.coordinator.kernels good) (hw : g.server.Warned)
    (h : .revoke id ∈ g.tells cfg.coordinator e k) :
    ∃ e', g.seen e = some e' ∧ (g.server.next cfg.coordinator e').jobs.Ended id := by
  cases e with
  | sweep nowMs flushed =>
      obtain ⟨id', hid, hended⟩ := Server.pushed_ended hn hs hw flushed h
      cases hid
      exact ⟨_, rfl, hended⟩
  | deliver j nowMs token =>
      unfold tells at h
      unfold seen
      dsimp only at h ⊢
      cases hup : g.up j with
      | nil =>
          rw [hup] at h
          cases h
      | cons frame rest =>
          obtain ⟨body, payload⟩ := frame
          rw [hup] at h
          dsimp only at h ⊢
          split at h
          · refine ⟨_, rfl, ?_⟩
            cases hconn : g.server.conns.lookup j with
            | none =>
                unfold replies Server.turn at h
                rw [hconn] at h
                cases h
            | some conn =>
                rw [replies_open g.server hconn] at h
                exact Server.told_ended hn hs hw hconn h
          · cases h
  | _ => cases h

theorem Told.step {good : JobId → Prop} (hn : g.server.Named)
    (hs : g.server.jobs.Sound cfg.coordinator.kernels good) (hw : g.server.Warned)
    (hstep : Step cfg g e g') (h : g'.Told id) : g.Told id ∨ g'.server.jobs.Ended id := by
  rcases h with ⟨k, hdown⟩ | ⟨n, hinbox⟩
  · rw [hstep.sides.down] at hdown
    rcases down_next hdown with hold | hnew
    · exact .inl (.inl ⟨k, hold⟩)
    · obtain ⟨e', hsees, t, hf, hfinal⟩ := tells_ended hn hs hw hnew
      right
      cases hstep.moves with
      | unseen hunseen _ => cases hunseen.symm.trans hsees
      | seen e'' hsees' hseen =>
          cases hsees'.symm.trans hsees
          exact ⟨t, (hseen.rows.find_eq id).trans hf, hfinal⟩
  · rw [hstep.sides.stations] at hinbox
    rcases inbox_next hinbox with hold | ⟨k, hdown⟩
    · exact .inl (.inr ⟨n, hold⟩)
    · exact .inl (.inl ⟨k, hdown⟩)

-- Whoever is told to stop, or is going to be, is told of what is over.
structure Warns (g : Grid F) : Prop where
  warned : g.server.Warned
  told : ∀ id, g.Told id → g.server.jobs.Ended id

theorem ended_step {good : JobId → Prop} (hn : g.server.Named)
    (hs : g.server.jobs.Sound cfg.coordinator.kernels good) (hstep : Step cfg g e g')
    (h : g.server.jobs.Ended id) : g'.server.jobs.Ended id := by
  cases hstep.moves with
  | unseen _ hserver =>
      rw [hserver]
      exact h
  | seen e' _ hseen => exact Server.ended_stays hn hs hseen h

theorem Warns.step {good : JobId → Prop} (h : Warns g) (hn : g.server.Named)
    (hs : g.server.jobs.Sound cfg.coordinator.kernels good) (hstep : Step cfg g e g') :
    Warns g' where
  warned := by
    cases hstep.moves with
    | unseen _ hserver =>
        rw [hserver]
        exact h.warned
    | seen e' _ hseen => exact h.warned.step hn hs hseen
  told id htold := by
    rcases htold.step hn hs h.warned hstep with hold | hended
    · exact ended_step hn hs hstep (h.told id hold)
    · exact hended

theorem heldBy_rehashed {v v' : Server F} (h : v.Rehashed v') :
    id ∈ v'.jobs.heldBy x ↔ id ∈ v.jobs.heldBy x := by
  rw [JobManager.mem_heldBy, JobManager.mem_heldBy, h.rows.find_eq]

theorem speaks_rehashed {v v' : Server F} (h : v.Rehashed v') (hspeaks : v.Speaks k x) :
    v'.Speaks k x := by
  have hconns : v'.conns = v.conns := by rw [h.rest]
  unfold Server.Speaks
  rw [hconns]
  exact hspeaks

theorem Carried.sides (hsides : Sides cfg g e g')
    (h : (g.next cfg e).Carried cfg.coordinator k id) : g'.Carried cfg.coordinator k id := by
  unfold Carried
  rw [hsides.stations, hsides.up, hsides.down]
  exact h

-- A last word of a task frees it where it comes from its holder.
theorem Settles.frees {good : JobId → Prop}
    (h : g.Settles cfg.coordinator k id e) (hsees : g.seen e = some e')
    (hs : g.server.jobs.Sound cfg.coordinator.kernels good)
    (hrecollects : ∀ k conn, g.server.conns.lookup k = some conn →
      conn.session.Recollects g.server.jobs)
    (hspeaks : g.server.Speaks k x) :
    id ∉ (g.server.next cfg.coordinator e').jobs.heldBy x := by
  cases h with
  | deliver frame rest nowMs token hup hends =>
      unfold seen at hsees
      dsimp only at hsees
      rw [hup] at hsees
      cases hends with
      | release payload =>
          cases hsees
          exact Server.release_frees hs.minted hspeaks
      | result header payload hdelivers =>
          cases hsees
          exact Server.result_frees hs (fun conn => hrecollects k conn) hspeaks hdelivers

-- A lease that an event gives is on the line of its worker.
theorem lease_carried {good : JobId → Prop}
    (hs : g.server.jobs.Sound cfg.coordinator.kernels good)
    (hsees : g.seen e = some e') (hpossible : g.possible e = true)
    (hheld : id ∈ (g.server.next cfg.coordinator e').jobs.heldBy x) :
    id ∈ g.server.jobs.heldBy x ∨ ∃ k, g.server.Speaks k x ∧
      (g.next cfg e).Carried cfg.coordinator k id := by
  refine (Server.lease_granted hs.minted hs.partition hheld).imp_right ?_
  rintro ⟨k, conn, body, payload, nowMs, token, rfl, hconn, hknown, hworker, envelope, hid, hreply⟩
  refine ⟨k, ⟨conn, hconn, hknown, hworker⟩, fun n hn hopen => .sent envelope hid ?_⟩
  cases e with
  | coordinator e =>
      cases hsees
      cases hpossible
  | sweep nowMs flushed => cases hsees
  | deliver j nowMs' token' =>
      unfold seen at hsees
      unfold Grid.next
      dsimp only at hsees ⊢
      cases hup : g.up j with
      | nil =>
          rw [hup] at hsees
          cases hsees
      | cons frame rest =>
          rw [hup] at hsees
          cases hsees
          dsimp only
          rw [Function.update_self, replies_open g.server hconn]
          exact List.mem_append_right _ hreply
  | connect n => cases hsees
  | _ => cases hsees

theorem Accounts.warns (h : Accounts cfg g) : Warns g := ⟨h.warned, h.told⟩

theorem Accounts.step {good : JobId → Prop} (h : Accounts cfg g) (hn : g.server.Named)
    (hs : g.server.jobs.Sound cfg.coordinator.kernels good)
    (hrecollects : ∀ k conn, g.server.conns.lookup k = some conn →
      conn.session.Recollects g.server.jobs)
    (hpossible : g.possible e = true) (hspares : g.spares e = true) (hstep : Step cfg g e g') :
    Accounts cfg g' where
  apart := h.apart.step hstep
  warned := (h.warns.step hn hs hstep).warned
  told := (h.warns.step hn hs hstep).told
  carried id x hheld := by
    have hgoes : ∀ k, g.server.Speaks k x → g.Carried cfg.coordinator k id →
        id ∈ g.server.jobs.heldBy x →
        (g.next cfg e).Carried cfg.coordinator k id ∨ g.Settles cfg.coordinator k id e := by
      intro k hspeaks hcarried hold
      obtain ⟨conn, hconn, -, -⟩ := hspeaks
      exact hcarried.next h.apart (hn.connId hconn).2.2
        (fun htold => (h.told id htold).unheld x hold) hpossible hspares
    cases hstep.moves with
    | unseen hunseen hserver =>
        rw [hserver] at hheld ⊢
        obtain ⟨k, hspeaks, hcarried⟩ := h.carried id x hheld
        rcases hgoes k hspeaks hcarried hheld with hnext | hsettles
        · exact ⟨k, hspeaks, hnext.sides hstep.sides⟩
        · cases hsettles with
          | deliver frame rest nowMs token hup hends =>
              unfold seen at hunseen
              dsimp only at hunseen
              rw [hup] at hunseen
              cases hunseen
    | seen e' hsees hseen =>
        rw [heldBy_rehashed hseen] at hheld
        have hspeaks' : ∀ k, g.server.Speaks k x → g'.server.Speaks k x := by
          intro k hspeaks
          rcases Server.speaks_or_frees hn hspeaks cfg.coordinator e' with hstill | hfree
          · exact speaks_rehashed hseen hstill
          · exact absurd hheld (hfree id)
        rcases lease_carried hs hsees hpossible hheld with hold | ⟨k, hspeaks, hnext⟩
        · obtain ⟨k, hspeaks, hcarried⟩ := h.carried id x hold
          rcases hgoes k hspeaks hcarried hold with hnext | hsettles
          · exact ⟨k, hspeaks' k hspeaks, hnext.sides hstep.sides⟩
          · exact absurd hheld (hsettles.frees hsees hs hrecollects hspeaks)
        · exact ⟨k, hspeaks' k hspeaks, hnext.sides hstep.sides⟩

-- A coordinator that has just come up, before anybody has a connection to it.
structure Started (g : Grid F) : Prop where
  server : g.server.Started
  conn : ∀ n, (g.stations n).conn = none
  inbox : ∀ n, (g.stations n).inbox = []
  down : ∀ k, g.down k = []

theorem Warns.started (h : g.Started) : Warns g where
  warned worker r hr := by
    rw [h.server.fleet] at hr
    cases hr
  told id htold := by
    rcases htold with ⟨k, hdown⟩ | ⟨n, hinbox⟩
    · rw [h.down k] at hdown
      cases hdown
    · rw [h.inbox n] at hinbox
      cases hinbox

theorem Accounts.started (h : g.Started) : Accounts cfg g where
  apart := by
    refine ⟨fun {i j k} hi _ => ?_, fun {n k} hn => ?_⟩
    · rw [h.conn i] at hi
      cases hi
    · rw [h.conn n] at hn
      cases hn
  warned := (Warns.started h).warned
  told := (Warns.started h).told
  carried id x hheld := by
    obtain ⟨t, hf, -⟩ := JobManager.mem_heldBy.mp hheld
    unfold Server.jobs at hf
    rw [h.server.jobs] at hf
    cases hf

theorem warns_of_run {guard : Grid F → Event F → Prop} (h₀ : g₀.Started)
    (h : Reach (Step cfg) guard g₀ g) : Warns g := by
  induction h with
  | refl => exact .started h₀
  | tail hrun hlast ih =>
      obtain ⟨e, -, hstep⟩ := hlast
      obtain ⟨hn, hs⟩ := Server.sound_of_run (fun _ => False) h₀.server (server_run hrun)
      exact ih.step hn hs hstep

theorem ended_of_run {guard : Grid F → Event F → Prop} (h₀ : g₀.Started)
    (h : Reach (Step cfg) guard g₀ g) (hended : g.server.jobs.Ended id)
    (hlater : Reach (Step cfg) guard g g') : g'.server.jobs.Ended id := by
  induction hlater with
  | refl => exact hended
  | tail hrun hlast ih =>
      obtain ⟨e, -, hstep⟩ := hlast
      have hserver := server_run (h.trans hrun)
      obtain ⟨hn, hs⟩ := Server.sound_of_run (fun _ => False) h₀.server hserver
      exact ended_step hn hs hstep ih

-- A word to stop with the task waits at the coordinator, is on its way or has arrived.
inductive Revoked (g : Grid F) (id : TaskId) : Prop
  | pending (worker : WorkerId) (r : Coordinator.WorkerRecord F)
      (h : g.server.shared.fleet.find worker = some r) (hid : id ∈ r.pendingRevokes)
  | told (h : g.Told id)

theorem Warns.over (h : Warns g) (hrevoked : g.Revoked id) : g.server.jobs.Ended id := by
  cases hrevoked with
  | pending worker r hr hid => exact h.warned worker r hr id hid
  | told htold => exact h.told id htold

-- Only what is over is revoked, and nobody is handed it again.
theorem revoked_over {guard : Grid F → Event F → Prop} (h₀ : g₀.Started)
    (h : Reach (Step cfg) guard g₀ g) (hrevoked : g.Revoked id)
    (hlater : Reach (Step cfg) guard g g') :
    g'.server.jobs.Ended id ∧ ∀ x, id ∉ g'.server.jobs.heldBy x := by
  have hended := ended_of_run h₀ h ((warns_of_run h₀ h).over hrevoked) hlater
  exact ⟨hended, fun x => hended.unheld x⟩

-- What can happen, with every loss of a device as `spares` has it.
def goes (g : Grid F) (e : Event F) : Bool := g.possible e && g.spares e

theorem accounts_of_run (h₀ : g₀.Started)
    (h : Reach (Step cfg) (fun g e => g.goes e = true) g₀ g) : Accounts cfg g := by
  induction h with
  | refl => exact .started h₀
  | tail hrun hlast ih =>
      obtain ⟨e, hgoes, hstep⟩ := hlast
      obtain ⟨hpossible, hspares⟩ := Bool.and_eq_true_iff.mp hgoes
      have hserver := server_run hrun
      obtain ⟨hn, hs⟩ := Server.sound_of_run (fun _ => False) h₀.server hserver
      have hrecollects := Server.recollects_of_run h₀.server hserver
      exact ih.step hn hs hrecollects hpossible hspares hstep

-- Every task has come to its end, or it is in the queue, or somebody has it.
inductive Kept (cfg : Coordinator.Config F) (g : Grid F) (id : TaskId) (t : Task) : Prop
  | ended (h : isTerminal t.state = true)
  | queued (h : t.state = .queued) (hqueue : id ∈ g.server.jobs.queue)
  | leased (k : Nat) (h : t.state = .leased) (hspeaks : g.server.Speaks k t.holder)
      (hcarried : g.Carried cfg k id)

-- No order of what happens loses a task between the coordinator and its workers.
theorem nothing_lost {t : Task} (h₀ : g₀.Started)
    (h : Reach (Step cfg) (fun g e => g.goes e = true) g₀ g)
    (hf : g.server.jobs.find id = some t) : Kept cfg.coordinator g id t := by
  obtain ⟨-, hs⟩ := Server.sound_of_run (fun _ => False) h₀.server (server_run h)
  have hrests := hs.settled id t hf
  cases hstate : t.state with
  | queued => exact .queued hstate ((hs.queue.queued id).mpr ⟨t, hf, hstate⟩)
  | leased =>
      have hheld : id ∈ g.server.jobs.heldBy t.holder :=
        JobManager.mem_heldBy.mpr ⟨t, hf, JobManager.isLeasedTo_iff.mpr ⟨hstate, rfl⟩⟩
      obtain ⟨k, hspeaks, hcarried⟩ := (accounts_of_run h₀ h).carried id t.holder hheld
      exact .leased k hstate hspeaks hcarried
  | validating => exact absurd hstate hrests.validating
  | needsReplica => exact absurd hstate hrests.needsReplica
  | accepted => exact .ended (by rw [hstate]; rfl)
  | rejected => exact .ended (by rw [hstate]; rfl)
  | cancelled => exact .ended (by rw [hstate]; rfl)

theorem step_next (cfg : Setup F) (g : Grid F) (e : Event F) : Step cfg g e (g.next cfg e) := by
  cases hsees : g.seen e with
  | none => exact .unseen hsees
  | some e' =>
      refine .seen e' (g.next cfg e).server hsees ?_
      rw [server_next, hsees]
      exact Server.step_next cfg.coordinator g.server e'

-- A list of events whose guards hold one after another is a run.
theorem reach_foldl {guard : Grid F → Event F → Bool} (cfg : Setup F) (g : Grid F)
    (events : List (Event F))
    (h : Recalling.passes (next cfg) (fun _ g e => guard g e) [] g events = true) :
    Reach (Step cfg) (fun g e => guard g e = true) g (events.foldl (next cfg) g) := by
  have hrun : Reach (Recalling (Step cfg)) (fun x e => guard x.1 e = true) (g, [])
      (events.foldl (next cfg) g, [] ++ Recalling.history (next cfg) g events) :=
    Recalling.foldl_passes (step_next cfg) (fun _ _ _ hcheck => hcheck) events [] g h
  exact Recalling.forget_guarded hrun fun _ _ hguard => hguard

end

-- A worker that joins, is granted the one task there is, and answers it.
section

def searchGrid : Setup Rat where
  coordinator := Server.searches {}
  worker := Worker.TaskLoop.shortConfig

def gridStart : Grid Rat := { server := Server.searchStart }

def gridRun : List (Event Rat) :=
  [.coordinator (.createJob "brute_search_v1" 1000000 7 0), .turn 0 0 .start [] none, .connect 0,
    .speak 0 (Server.greeting none) [], .deliver 1 10 [1], .speak 0 (.benchmarkResult 1e9) [],
    .deliver 1 11 [], .arrive 0, .handle 0 0, .speak 0 Server.asking [], .deliver 1 20 [],
    .arrive 0, .handle 0 0, .arrive 0, .handle 0 0, .turn 0 0 (.poll .able) [] none,
    .turn 0 0 (.executed true true) [1] none]

-- Up to where it runs its task.
def gridBusy : Grid Rat := (gridRun.take 16).foldl (next searchGrid) gridStart

def gridDone : Grid Rat := gridRun.foldl (next searchGrid) gridStart

theorem gridStart_started : gridStart.Started :=
  ⟨Server.searchStart_started, fun _ => rfl, fun _ => rfl, fun _ => rfl⟩

theorem gridDone_run :
    Reach (Step searchGrid) (fun g e => g.goes e = true) gridStart gridDone := by
  have hgoes : Recalling.passes (next searchGrid) (fun _ g e => g.goes e) [] gridStart gridRun =
      true := by decide +kernel
  exact reach_foldl searchGrid gridStart gridRun hgoes

theorem gridBusy_run :
    Reach (Step searchGrid) (fun g e => g.possible e = true) gridStart gridBusy := by
  have hpossible : Recalling.passes (next searchGrid) (fun _ g e => g.possible e) [] gridStart
      (gridRun.take 16) = true := by decide +kernel
  exact reach_foldl searchGrid gridStart (gridRun.take 16) hpossible

-- Its answer is on the way.
theorem nothing_lost_answer : ∃ t, gridDone.server.jobs.find ⟨0, 2⟩ = some t ∧
    t.state = .leased ∧ Kept searchGrid.coordinator gridDone ⟨0, 2⟩ t := by
  have hleased : (gridDone.server.jobs.find ⟨0, 2⟩).map Task.state = some .leased := by
    decide +kernel
  obtain ⟨t, hf, hstate⟩ := Option.map_eq_some_iff.mp hleased
  exact ⟨t, hf, hstate, nothing_lost gridStart_started gridDone_run hf⟩

-- A worker that gets to its first poll, on the connection that is its own.
def enters (n k : Nat) (score : Rat) : List (Event Rat) :=
  [.turn n 0 .start [] none, .connect n, .speak n (Server.greeting none) [],
    .deliver k 10 [UInt8.ofNat k], .speak n (.benchmarkResult score) [], .deliver k 11 [],
    .arrive n, .handle n 0]

-- The last task of a search is raced, and the third worker is ahead of the second.
def raceRun : List (Event Rat) :=
  .coordinator (.createJob "brute_search_v1" 10000000 7 0) :: enters 0 1 3072000000 ++
    enters 1 2 80 ++ enters 2 3 80 ++
    [.speak 0 Server.asking [], .deliver 1 20 [], .speak 0 (Server.answering ⟨0, 2⟩ [1]) [1],
      .deliver 1 30 [], .speak 1 Server.asking [], .deliver 2 40 [], .speak 2 Server.asking [],
      .deliver 3 100 [], .speak 2 (Server.answering ⟨0, 4⟩ [1]) [1], .deliver 3 110 []]

def gridRaced : Grid Rat := raceRun.foldl (next searchGrid) gridStart

theorem revoked_over_raced : gridRaced.Revoked ⟨0, 3⟩ ∧
    (gridRaced.next searchGrid (.sweep 120 false)).server.jobs.Ended ⟨0, 3⟩ := by
  have hpossible : Recalling.passes (next searchGrid) (fun _ g e => g.possible e) [] gridStart
      raceRun = true := by decide +kernel
  have hrun : Reach (Step searchGrid) (fun g e => g.possible e = true) gridStart gridRaced :=
    reach_foldl searchGrid gridStart raceRun hpossible
  have hpending : (gridRaced.server.shared.fleet.find ⟨2, 0⟩).map
      Coordinator.WorkerRecord.pendingRevokes = some [⟨0, 3⟩] := by decide +kernel
  obtain ⟨r, hr, hids⟩ := Option.map_eq_some_iff.mp hpending
  have hrevoked : gridRaced.Revoked ⟨0, 3⟩ :=
    .pending ⟨2, 0⟩ r hr (by rw [hids]; exact List.mem_singleton_self _)
  have hsweep : Reach (Step searchGrid) (fun g e => g.possible e = true) gridRaced
      (gridRaced.next searchGrid (.sweep 120 false)) :=
    (Reach.refl gridRaced).tail rfl (step_next searchGrid gridRaced (.sweep 120 false))
  obtain ⟨hended, -⟩ := revoked_over gridStart_started hrun hrevoked hsweep
  exact ⟨hrevoked, hended⟩

end

end Grid

end P2pGpu
