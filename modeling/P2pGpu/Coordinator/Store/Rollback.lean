import P2pGpu.Coordinator.Double
import P2pGpu.Coordinator.Store.Flush

namespace P2pGpu.Coordinator

open P2pGpu.Protocol

section

variable {F : Type} [Double F]

namespace File

-- A batch of rows goes in if each of them can be stored.
theorem foldlM_upsertReputation_iff (rows : List (RecoveredReputation F)) (file : File F) :
    (∃ file', rows.foldlM File.upsertReputation file = .ok file') ↔
      rows.all RecoveredReputation.storable = true := by
  induction rows generalizing file with
  | nil => simp [pure, Except.pure]
  | cons r rows ih =>
      by_cases hr : r.storable = true
      · have hstep : file.upsertReputation r = .ok { file with
            reputation := file.reputation.upsert r.id r.toRow fun row =>
              { r.toRow with token := row.token } } := by
          simp [upsertReputation, hr]
        rw [List.foldlM_cons, hstep]
        simp only [List.all_cons, hr, Bool.true_and]
        exact ih _
      · have hstep : file.upsertReputation r = .error "NOT NULL constraint failed" := by
          simp [upsertReputation, hr]
        rw [List.foldlM_cons, hstep]
        simp [hr, bind, Except.bind]

end File

namespace Call

theorem rows_iff (call : Call F) (file : File F) :
    (∃ file', call.rows file = .ok file') ↔ call.storable = true := by
  cases call with
  | flush jobs tasks => simp [rows, storable]
  | flushReputation rows => exact File.foldlM_upsertReputation_iff rows file

-- Nothing to write: the database is not touched.
theorem run_empty {call : Call F} (h : call.isEmpty = true) (db : Database F) :
    call.run db = (.ok (), db) := by
  cases call with
  | flush jobs tasks =>
      simp only [isEmpty] at h
      simp [run, Database.flush, h]
  | flushReputation rows =>
      simp only [isEmpty] at h
      simp [run, Database.flushReputation, h]

theorem rows_empty {call : Call F} (h : call.isEmpty = true) (file : File F) :
    call.rows file = .ok file := by
  cases call with
  | flush jobs tasks =>
      simp only [isEmpty, Bool.and_eq_true, List.isEmpty_iff] at h
      rw [h.1, h.2]
      rfl
  | flushReputation rows =>
      simp only [isEmpty, List.isEmpty_iff] at h
      rw [h]
      rfl

-- Everything else is one block of statements between BEGIN and COMMIT.
theorem run_block {call : Call F} (h : call.isEmpty = false) :
    ∃ body : Database F → Status × Database F, Link.Block call.rows call.statements body ∧
      call.run = Link.transacted (Database.failed "sqlite exec failed: ") body := by
  cases call with
  | flush jobs tasks =>
      refine ⟨Link.andThen (Database.writeJobs jobs) (Database.writeTasks tasks), ?_, ?_⟩
      · exact (Database.writeJobs_block jobs).seq (Database.writeTasks_block tasks)
      · funext db
        simp only [isEmpty] at h
        simp [run, Database.flush, h]
  | flushReputation rows =>
      refine ⟨Database.writeReputation rows, Database.writeReputation_block rows, ?_⟩
      funext db
      simp only [isEmpty] at h
      simp [run, Database.flushReputation, h]

end Call

-- What a call that failed leaves: no transaction, none of its rows, and a database on
-- which any other call goes through as soon as nothing fails.
structure Restored (before after : Database F) : Prop where
  closed : after.pending = none
  unseen : after.visible = before.visible
  free : ∀ call : Call F, call.storable = true →
    (call.run { after with ahead := [] }).1 = .ok ()

-- All of the rows with a success, none of them with an error.
structure AllOrNothing (call : Call F) (before : Database F) (result : Status × Database F) :
    Prop where
  all : result.1 = .ok () → result.2.pending = none ∧
    call.rows before.visible = .ok result.2.committed
  nothing : result.1 ≠ .ok () → Restored before result.2

namespace Database

-- A call, and what its statements come to.
def next (db : Database F) (x : Call F × List Outcome) : Status × Database F :=
  x.1.run { db with ahead := x.2 }

def afterCalls (file : File F) (calls : List (Call F × List Outcome)) : Database F :=
  calls.foldl (fun db x => (db.next x).2) { committed := file }

-- On a sound database with no transaction open a call can only succeed.
theorem run_sound {call : Call F} (h : call.storable = true) {db : Database F}
    (hp : db.pending = none) (ha : db.ahead = []) : (call.run db).1 = .ok () := by
  cases he : call.isEmpty with
  | true => rw [Call.run_empty he]
  | false =>
      obtain ⟨body, hbody, hrun⟩ := Call.run_block he
      obtain ⟨file', hrows⟩ := (call.rows_iff db.committed).mpr h
      rw [hrun]
      obtain ⟨-, -, -, hok, -⟩ | ⟨-, hkeeps, -⟩ | ⟨-, -, ⟨⟨-, detail, rest, hlast⟩, -⟩, -⟩ :=
        Link.transacted_cases hbody (failed "sqlite exec failed: ") hp
      · exact hok
      · exact absurd ⟨Link.keeps_of_nil ha _, file', hrows⟩ hkeeps
      · rw [ha] at hlast
        simp at hlast

theorem restored_of_pending {before after : Database F} (hp : after.pending = none)
    (hv : after.visible = before.visible) : Restored before after where
  closed := hp
  unseen := hv
  free _ h := run_sound h hp rfl

omit [Double F] in
theorem visible_of_pending {db : Database F} (hp : db.pending = none) :
    db.visible = db.committed := by simp [Link.visible, hp]

-- A call that does not hang at its end leaves no transaction behind.
theorem next_whole {db : Database F} (hp : db.pending = none) {x : Call F × List Outcome}
    (hx : ¬ x.1.Hangs x.2) :
    AllOrNothing x.1 db (db.next x) ∧ (db.next x).2.pending = none := by
  obtain ⟨call, faults⟩ := x
  have hseen : ({ db with ahead := faults } : Database F).visible = db.committed := by
    simp [Link.visible, hp]
  cases he : call.isEmpty with
  | true =>
      have hnext : db.next (call, faults) = (.ok (), { db with ahead := faults }) :=
        Call.run_empty he _
      rw [hnext]
      refine ⟨⟨fun _ => ⟨hp, ?_⟩, fun h => absurd rfl h⟩, hp⟩
      rw [visible_of_pending hp]
      exact Call.rows_empty he db.committed
  | false =>
      obtain ⟨body, hbody, hrun⟩ := Call.run_block he
      have hnext : db.next (call, faults) = Link.transacted (failed "sqlite exec failed: ") body
          { db with ahead := faults } := by
        unfold next
        rw [hrun]
      rw [hnext]
      obtain ⟨s, -, hrows, hok, hcommitted, hpending⟩ | ⟨e, -, herror, hcommitted, hpending⟩ |
        ⟨e, s, ⟨hhangs, hrows⟩, -⟩ :=
        Link.transacted_cases hbody (failed "sqlite exec failed: ")
          (c := { db with ahead := faults }) hp
      · refine ⟨⟨fun _ => ⟨hpending, ?_⟩, fun h => absurd hok h⟩, hpending⟩
        rw [visible_of_pending hp, hcommitted]
        exact hrows
      · refine ⟨⟨fun h => ?_, fun _ => restored_of_pending hpending ?_⟩, hpending⟩
        · rw [herror] at h
          cases h
        · rw [visible_of_pending hpending, visible_of_pending hp]
          exact hcommitted
      · have hstorable := (call.rows_iff db.committed).mp ⟨s, hrows⟩
        exact absurd ⟨he, hstorable, hhangs⟩ hx

-- One that does hang reports an error and leaves its transaction open.
theorem next_hangs {db : Database F} (hp : db.pending = none) {x : Call F × List Outcome}
    (hx : x.1.Hangs x.2) : (db.next x).1 ≠ .ok () ∧ (db.next x).2.pending ≠ none := by
  obtain ⟨call, faults⟩ := x
  obtain ⟨he, hstorable, hhangs⟩ := hx
  obtain ⟨body, hbody, hrun⟩ := Call.run_block he
  obtain ⟨file', hrows⟩ := (call.rows_iff db.committed).mpr hstorable
  have hkeeps : ({ db with ahead := faults } : Database F).Keeps (1 + call.statements) :=
    Link.HangsAt.keeps hhangs
  have hnext : db.next (call, faults) = Link.transacted (failed "sqlite exec failed: ") body
      { db with ahead := faults } := by
    unfold next
    rw [hrun]
  rw [hnext]
  obtain ⟨s, hends, -⟩ | ⟨e, hlost, -⟩ | ⟨e, s, -, herror, -, hpending⟩ :=
    Link.transacted_cases hbody (failed "sqlite exec failed: ")
      (c := { db with ahead := faults }) hp
  · exact absurd hhangs hends
  · exact absurd ⟨hkeeps, file', hrows⟩ hlost
  · rw [herror, hpending]
    simp

theorem afterCalls_concat (file : File F) (calls : List (Call F × List Outcome))
    (x : Call F × List Outcome) :
    afterCalls file (calls ++ [x]) = ((afterCalls file calls).next x).2 := by
  simp [afterCalls, List.foldl_append]

-- Until a call has hung none leaves a transaction open.
theorem afterCalls_pending (file : File F) (calls : List (Call F × List Outcome))
    (h : ∀ x ∈ calls, ¬ x.1.Hangs x.2) : (afterCalls file calls).pending = none := by
  induction calls using List.reverseRecOn with
  | nil => rfl
  | append_singleton calls x ih =>
      rw [afterCalls_concat]
      have hpending := ih fun y hy => h y (by simp [hy])
      exact (next_whole hpending (h x (by simp))).2

-- Calls that all succeed have written all of their rows.
theorem afterCalls_rows (file : File F) (calls : List (Call F × List Outcome))
    (h : ∀ done x rest, calls = done ++ x :: rest → ((afterCalls file done).next x).1 = .ok ()) :
    (afterCalls file calls).pending = none ∧
      calls.foldlM (fun file x => x.1.rows file) file = .ok (afterCalls file calls).committed := by
  induction calls using List.reverseRecOn with
  | nil => exact ⟨rfl, rfl⟩
  | append_singleton calls x ih =>
      obtain ⟨hpending, hrows⟩ := ih fun done y rest hy => h done y (rest ++ [x]) (by simp [hy])
      have hok := h calls x [] rfl
      have hends : ¬ x.1.Hangs x.2 := fun hhangs => (next_hangs hpending hhangs).1 hok
      obtain ⟨hwhole, hclosed⟩ := next_whole hpending hends
      rw [afterCalls_concat, List.foldlM_append, hrows]
      refine ⟨hclosed, ?_⟩
      have hcall := (hwhole.all hok).2
      rw [visible_of_pending hpending] at hcall
      simp [hcall, bind, Except.bind, pure, Except.pure]

-- A COMMIT that fails and keeps its transaction open is not followed by a ROLLBACK.
theorem flushes_all_or_nothing (file : File F) (calls : List (Call F × List Outcome)) :
    (∀ done x rest, calls = done ++ x :: rest →
        AllOrNothing x.1 (afterCalls file done) ((afterCalls file done).next x)) ↔
      ∀ x ∈ calls, ¬ x.1.Hangs x.2 := by
  constructor
  · intro h
    induction calls using List.reverseRecOn with
    | nil => simp
    | append_singleton calls x ih =>
        have hbefore : ∀ y ∈ calls, ¬ y.1.Hangs y.2 := by
          apply ih
          rintro done y rest rfl
          exact h done y (rest ++ [x]) (by simp)
        intro y hy
        rw [List.mem_append, List.mem_singleton] at hy
        obtain hy | rfl := hy
        · exact hbefore y hy
        · intro hhangs
          have hpending := afterCalls_pending file calls hbefore
          obtain ⟨herror, hopen⟩ := next_hangs hpending hhangs
          exact hopen ((h calls y [] rfl).nothing herror).closed
  · rintro h done x rest rfl
    have hpending := afterCalls_pending file done fun y hy => h y (by simp [hy])
    exact (next_whole hpending (h x (by simp))).1

end Database

end

-- One job is written, and the disk is full when it is committed.
def oneJob : Call Rat :=
  .flush [{ id := ⟨0, 1⟩, kernelId := "julia_tile", seed := 0, totalUnits := 4,
            unitsPerGroup := 1 }] []

def diskFull : List Outcome := [.done, .done, .fails "database or disk is full" false]

-- Nothing is wrong with the database after that, and still nothing is written to it.
theorem commit_left_open :
    ¬ (∀ done x rest, [(oneJob, diskFull)] = done ++ x :: rest →
        AllOrNothing x.1 (Database.afterCalls {} done) ((Database.afterCalls {} done).next x)) ∧
      ((Database.afterCalls {} [(oneJob, diskFull)]).next (oneJob, [])).1 =
        .error (Database.failed "sqlite exec failed: "
          "cannot start a transaction within a transaction") := by
  constructor
  · intro h
    have hhangs : oneJob.Hangs diskFull := by
      refine ⟨rfl, rfl, ?_, "database or disk is full", [], rfl⟩
      show ∀ outcome ∈ [Outcome.done, Outcome.done], outcome = .done
      simp
    obtain ⟨herror, hopen⟩ :=
      @Database.next_hangs Rat _ (Database.afterCalls {} []) rfl (oneJob, diskFull) hhangs
    exact hopen ((h [] (oneJob, diskFull) [] rfl).nothing herror).closed
  · rfl

end P2pGpu.Coordinator
