import P2pGpu.Coordinator.Server.Published
import P2pGpu.Coordinator.Store.Flush
import P2pGpu.Coordinator.Store.Mirror

namespace P2pGpu.Coordinator

open P2pGpu.Protocol

-- One coordinator process after another, over one file.
structure Lifetime (F : Type) [Double F] where
  cfg : Config F
  server : Server F
  store : Store := {}
  -- The rows of the reputation table. The coordinator reads them, and writes none.
  reputation : List (RecoveredReputation F) := []
  -- What this process read when it came up.
  recovered : RecoveredState := ⟨[], [], 1⟩
  recoveredReputation : List (RecoveredReputation F) := []

inductive Lifetime.Event (F : Type) [Double F] where
  | serve (e : Coordinator.Event F)
  -- However the process before it ended.
  | restart (cfg : Config F) (server : Server F)

namespace Lifetime

section

variable {F : Type} [Double F] {l l' : Lifetime F} {past : List (Lifetime F × Event F)}
  {e : Event F} {id : WorkerId} {tid : TaskId}

-- The jobs and the tasks that a step writes to the file: the marked ones, at the end
-- of a sweep.
def wrote (l : Lifetime F) : Event F → List Job × List Task
  | .serve (.sweep nowMs true) =>
      let v := l.server.next l.cfg (.sweep nowMs false)
      (v.jobs.dirtyJobRows, v.jobs.dirtyTaskRows)
  | _ => ([], [])

-- Nothing is recovered from a file that holds no job.
def readBack (s : Store) : JobManager :=
  if s.loadAll.jobs = [] then {} else recoverInto {} s.loadAll

def next (l : Lifetime F) : Event F → Lifetime F
  | .serve e =>
      { l with
        server := l.server.next l.cfg e
        store := l.store.flush (l.wrote (.serve e)).1 (l.wrote (.serve e)).2 }
  | .restart cfg server =>
      { cfg
        server := { server with
          shared := { server.shared with jobs := readBack l.store }
          nextConnId := 1 }
        store := l.store
        reputation := l.reputation
        recovered := l.store.loadAll
        recoveredReputation := l.reputation }

-- A server that is put up is a new one.
def Event.Boots : Event F → Prop
  | .serve _ => True
  | .restart _ server => server.Up

-- The order of iteration of a table means nothing, in memory and in the file.
structure Step (l : Lifetime F) (e : Event F) (l' : Lifetime F) : Prop where
  server : (l.next e).server.Rehashed l'.server
  store : (l.next e).store.Reordered l'.store
  rest : l' = { l.next e with server := l'.server, store := l'.store }

-- A new server over an empty file.
structure First (l : Lifetime F) : Prop where
  server : l.server.Started
  store : l.store = {}
  reputation : l.reputation = []
  recovered : l.recovered.tasks = []
  recoveredReputation : l.recoveredReputation = []

-- An answer of the worker stands in a task that was written to the file.
def Written (past : List (Lifetime F × Event F)) (id : WorkerId) : Prop :=
  ∃ e ∈ past, ∃ t ∈ (e.1.wrote e.2).2, id ∈ t.priorWorkers

-- And it was written by a process that is over.
def Inherited (past : List (Lifetime F × Event F)) (id : WorkerId) : Prop :=
  ∃ before l cfg server after, past = before ++ (l, .restart cfg server) :: after ∧
    Written before id

theorem written_append {e : Lifetime F × Event F} : Written (past ++ [e]) id ↔
    Written past id ∨ ∃ t ∈ (e.1.wrote e.2).2, id ∈ t.priorWorkers := by
  simp only [Written, List.mem_append, List.mem_singleton]
  constructor
  · rintro ⟨f, hf | rfl, h⟩
    · exact .inl ⟨f, hf, h⟩
    · exact .inr h
  · rintro (⟨f, hf, h⟩ | h)
    · exact ⟨f, .inl hf, h⟩
    · exact ⟨e, .inr rfl, h⟩

theorem Inherited.written (h : Inherited past id) : Written past id := by
  obtain ⟨before, l, cfg, server, after, rfl, e, he, h⟩ := h
  exact ⟨e, List.mem_append_left _ he, h⟩

-- What is inherited is settled when a process comes up.
theorem inherited_serve (e : Coordinator.Event F) :
    Inherited (past ++ [(l, .serve e)]) id ↔ Inherited past id := by
  constructor
  · rintro ⟨before, n, cfg, server, after, hsplit, hwritten⟩
    cases after using List.reverseRec with
    | nil =>
        have hlast := (List.append_inj' hsplit rfl).2
        cases hlast
    | append_singleton after f =>
        have hshift : past ++ [(l, .serve e)] =
            (before ++ (n, .restart cfg server) :: after) ++ [f] := by
          rw [hsplit]
          simp
        exact ⟨before, n, cfg, server, after, (List.append_inj' hshift rfl).1, hwritten⟩
  · rintro ⟨before, n, cfg, server, after, rfl, hwritten⟩
    exact ⟨before, n, cfg, server, after ++ [(l, .serve e)], by simp, hwritten⟩

theorem inherited_restart (cfg : Config F) (server : Server F) :
    Inherited (past ++ [(l, .restart cfg server)]) id ↔ Written past id := by
  constructor
  · intro h
    rcases written_append.mp h.written with hold | ⟨t, ht, -⟩
    · exact hold
    · cases ht
  · intro h
    exact ⟨past, l, cfg, server, [], rfl, h⟩

end

end Lifetime

namespace Store

variable {s s' : Store} {id : WorkerId} {tid : TaskId}

theorem mem_upsertTasks (tasks : List Task) (s : Store) :
    (tid, id) ∈ (tasks.foldl Store.upsertTask s).taskPriorWorkers ↔
      (tid, id) ∈ s.taskPriorWorkers ∨ ∃ t ∈ tasks, tid = t.id ∧ id ∈ t.priorWorkers := by
  induction tasks generalizing s with
  | nil => simp
  | cons t tasks ih =>
      rw [List.foldl_cons, ih, mem_upsertTask, or_assoc]
      simp

theorem Owned.upsertTasks (tasks : List Task) (h : s.Owned) :
    (tasks.foldl Store.upsertTask s).Owned := by
  induction tasks generalizing s with
  | nil => exact h
  | cons t tasks ih => exact ih h.upsertTask

theorem mem_flush {jobs : List Job} {tasks : List Task} :
    (tid, id) ∈ (s.flush jobs tasks).taskPriorWorkers ↔
      (tid, id) ∈ s.taskPriorWorkers ∨ ∃ t ∈ tasks, tid = t.id ∧ id ∈ t.priorWorkers := by
  unfold flush
  rw [mem_upsertTasks, upsertJobs_taskPriorWorkers]

theorem Owned.flush (jobs : List Job) (tasks : List Task) (h : s.Owned) :
    (s.flush jobs tasks).Owned := by
  refine Owned.upsertTasks tasks fun i w hmem => ?_
  rw [upsertJobs_taskPriorWorkers] at hmem
  obtain ⟨row, hrow⟩ := h i w hmem
  exact ⟨row, by rw [upsertJobs_tasks]; exact hrow⟩

theorem Owned.reordered (h : s.Owned) (hs : s.Reordered s') : s'.Owned := by
  intro i w hmem
  obtain ⟨row, hrow⟩ := h i w (hs.taskPriorWorkers.mem_iff.mpr hmem)
  exact ⟨row, (Table.lookup_of_perm hs.tasks i).symm.trans hrow⟩

-- Every worker of which the file speaks is read back with its task.
theorem Owned.mem_loadAll (h : s.Owned) :
    (∃ t ∈ s.loadAll.tasks, id ∈ t.priorWorkers) ↔ ∃ tid, (tid, id) ∈ s.taskPriorWorkers := by
  have hworkers : ∀ i row, id ∈ (s.taskOf i row).priorWorkers ↔ (i, id) ∈ s.taskPriorWorkers := by
    intro i row
    simp [taskOf, TaskRow.toTask, priorWorkersOf]
  constructor
  · rintro ⟨t, ht, hid⟩
    obtain ⟨i, row, -, rfl⟩ := Store.mem_loadAll.mp ht
    exact ⟨i, (hworkers i row).mp hid⟩
  · rintro ⟨i, hid⟩
    obtain ⟨row, hrow⟩ := h i id hid
    exact ⟨s.taskOf i row, Store.mem_loadAll.mpr ⟨i, row, hrow, rfl⟩, (hworkers i row).mpr hid⟩

end Store

namespace Lifetime

section

variable {F : Type} [Double F] {l l₀ l' : Lifetime F} {past : List (Lifetime F × Event F)}
  {e : Event F} {id : WorkerId}

-- The file speaks of those whose answers were written, and what was read back, of
-- those whose answers an earlier process wrote.
structure Recounts (l : Lifetime F) (past : List (Lifetime F × Event F)) : Prop where
  named : l.server.Named
  owned : l.store.Owned
  written : ∀ id, (∃ tid, (tid, id) ∈ l.store.taskPriorWorkers) ↔ Written past id
  inherited : ∀ id, (∃ t ∈ l.recovered.tasks, id ∈ t.priorWorkers) ↔ Inherited past id
  unrated : l.reputation = [] ∧ l.recoveredReputation = []

namespace Recounts

theorem first (h : l.First) : l.Recounts [] where
  named := .up h.server.toUp
  owned := by
    rw [h.store]
    intro i w hmem
    cases hmem
  written := by
    intro id
    rw [h.store]
    constructor
    · rintro ⟨tid, hmem⟩
      cases hmem
    · rintro ⟨e, he, -⟩
      cases he
  inherited := by
    intro id
    rw [h.recovered]
    constructor
    · rintro ⟨t, ht, -⟩
      cases ht
    · rintro ⟨before, n, cfg, server, after, hsplit, -⟩
      cases before <;> cases hsplit
  unrated := ⟨h.reputation, h.recoveredReputation⟩

theorem next (h : l.Recounts past) (hboots : e.Boots) : (l.next e).Recounts (past ++ [(l, e)]) := by
  cases e with
  | serve e =>
      refine ⟨h.named.next l.cfg e, h.owned.flush _ _, fun id => ?_, fun id => ?_, h.unrated⟩
      · rw [written_append, ← h.written id]
        constructor
        · rintro ⟨tid, hmem⟩
          rcases Store.mem_flush.mp hmem with hold | ⟨t, ht, -, hid⟩
          · exact .inl ⟨tid, hold⟩
          · exact .inr ⟨t, ht, hid⟩
        · rintro (⟨tid, hold⟩ | ⟨t, ht, hid⟩)
          · exact ⟨tid, Store.mem_flush.mpr (.inl hold)⟩
          · exact ⟨t.id, Store.mem_flush.mpr (.inr ⟨t, ht, rfl, hid⟩)⟩
      · rw [inherited_serve]
        exact h.inherited id
  | restart cfg server =>
      have hup : (l.next (.restart cfg server)).server.Up :=
        ⟨hboots.fleet, hboots.tokens, hboots.spotChecks, hboots.compositor, hboots.conns,
          hboots.live, Nat.one_pos⟩
      refine ⟨.up hup, h.owned, fun id => ?_, fun id => ?_, h.unrated.1, h.unrated.1⟩
      · rw [written_append, ← h.written id]
        refine (or_iff_left ?_).symm
        rintro ⟨t, ht, -⟩
        cases ht
      · rw [inherited_restart, ← h.written id]
        exact h.owned.mem_loadAll

theorem step (h : l.Recounts past) (hboots : e.Boots) (hstep : l.Step e l') :
    l'.Recounts (past ++ [(l, e)]) := by
  have hnext := h.next hboots
  have hnamed : l'.server.Named := by
    have hrest := hstep.server.rest
    refine hnext.named.shared ?_ ?_ ?_
    · rw [hrest]
    · rw [hrest]
    · rw [hrest]
  rw [hstep.rest]
  refine ⟨hnamed, hnext.owned.reordered hstep.store, fun id => ?_, hnext.inherited, hnext.unrated⟩
  rw [← hnext.written id]
  simp only [hstep.store.taskPriorWorkers.mem_iff]

end Recounts

-- A connection that may still greet, and has no token that is known.
structure Newcomer (l : Lifetime F) (connId : Nat) (conn : Conn) (hello : Hello) : Prop where
  opened : l.server.conns.lookup connId = some conn
  silent : conn.session.handshaked = false
  version : hello.protocolVersion = kProtocolVersion
  unknown : ∀ rep token, l.server.shared.reputation = some rep → hello.resumeToken = some token →
    rep.resolveToken token = none

theorem Newcomer.workerId {connId : Nat} {conn : Conn} {hello : Hello}
    (h : l.Newcomer connId conn hello) (hn : l.server.Named) (token : Token) :
    (conn.session.onHello l.cfg l.server.shared hello token).session.workerId = ⟨connId, 0⟩ := by
  have hid := (hn.connId h.opened).1
  have hown : conn.session.identify l.server.shared hello = ⟨connId, 0⟩ := by
    unfold Session.identify
    rw [hid]
    dsimp only
    split
    · rename_i rep tok hrep htok
      rw [h.unknown rep tok hrep htok]
      rfl
    · rfl
  unfold Session.onHello
  rw [if_neg (by simp [h.silent]), if_neg (by simp [h.version])]
  exact hown

end

open Server

theorem Step.next {F : Type} [Double F] (l : Lifetime F) (e : Event F) : l.Step e (l.next e) where
  server := ⟨JobManager.Rehashed.refl _, .refl _, .refl _, rfl⟩
  store := .refl _
  rest := rfl

end Lifetime

end P2pGpu.Coordinator
