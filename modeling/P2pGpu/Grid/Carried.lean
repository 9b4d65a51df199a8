import P2pGpu.Grid
import P2pGpu.Worker.Loop.Revoked

namespace P2pGpu

open P2pGpu.Protocol
open P2pGpu.Coordinator (Body Double JobManager Payload Reply ResultHeader Server TaskEnvelope
  TaskStats Token)
open P2pGpu.Worker (KernelInfo LoopEvent Said TaskGrant WorkerLoop)

section

variable {F : Type}

-- A frame after which the coordinator waits for the task no more.
inductive Ends (cfg : Coordinator.Config F) (id : TaskId) : Body F × Payload → Prop
  | release (payload : Payload) : Ends cfg id (.release (some id), payload)
  | result (header : ResultHeader) (payload : Payload) (h : header.Delivers cfg payload id) :
      Ends cfg id (.resultHeader header, payload)

-- Where a task is that was granted on a connection.
inductive Whereabouts (cfg : Coordinator.Config F) (s : Station) (up : List (Body F × Payload))
    (down : List Reply) (id : TaskId) : Prop
  | sent (envelope : TaskEnvelope) (hid : envelope.taskId = id) (h : .taskGrant envelope ∈ down)
  | waits (envelope : TaskEnvelope) (hid : envelope.taskId = id)
      (h : .taskGrant envelope ∈ s.inbox)
  | has (t : Worker.PendingTask) (hid : t.id = id) (h : t ∈ s.worker.tasks)
  | answered (frame : Body F × Payload) (hends : Ends cfg id frame) (h : frame ∈ up)

namespace Station

-- What a frame can have the loop do.
structure Reads (reply : Reply) (e : LoopEvent) : Prop where
  opened : e ≠ .opened
  deviceLost : e ≠ .deviceLost
  revoke : ∀ id, e = .revoke (some id) → reply = .revoke id

theorem read_some {reply : Reply} {e : LoopEvent} (h : read reply = some e) : Reads reply e := by
  cases reply with
  | benchmarkRequest _ _ => cases h
  | error err =>
      unfold read at h
      dsimp only at h
      split at h
      · cases h
        exact ⟨by simp, by simp, by simp⟩
      · cases h
  | _ =>
      cases h
      exact ⟨by simp, by simp, by simp⟩

end Station

section

variable {cfg : Coordinator.Config F} {s s' : Station} {up up' : List (Body F × Payload)}
  {down down' : List Reply} {id : TaskId} {e : WorkerLoop.Event} {wcfg : Worker.Config}
  {output : Payload} {stats : Option TaskStats}

theorem Whereabouts.mono (h : Whereabouts cfg s up down id) (hup : ∀ frame ∈ up, frame ∈ up')
    (hdown : ∀ reply ∈ down, reply ∈ down') : Whereabouts cfg s up' down' id := by
  cases h with
  | sent envelope hid h => exact .sent envelope hid (hdown _ h)
  | waits envelope hid h => exact .waits envelope hid h
  | has t hid h => exact .has t hid h
  | answered frame hends h => exact .answered frame hends (hup _ h)

-- What a loop says last of a task is such a frame.
theorem frame_ends {said : Said} (hlength : output.length < 2 ^ 32) (h : said.ends = some id) :
    Ends cfg id (Grid.frame cfg output stats said) := by
  cases said with
  | release task reason =>
      cases h
      exact .release []
  | result task =>
      cases h
      refine .result _ output ⟨rfl, ?_, rfl, rfl⟩
      exact Nat.mod_eq_of_lt hlength
  | goodbye reason => cases h

theorem said_ends (cfg : Coordinator.Config F) (up : List (Body F × Payload)) {w : WorkerLoop}
    (hopen : w.isOpen = true) (hlength : output.length < 2 ^ 32)
    (h : id ∈ (w.handsOver wcfg e).filterMap Said.ends) :
    ∃ frame ∈ up ++ (w.sends wcfg e).map (Grid.frame cfg output stats), Ends cfg id frame := by
  obtain ⟨said, hsaid, hends⟩ := List.mem_filterMap.mp h
  have hsent : said ∈ w.sends wcfg e := by
    unfold WorkerLoop.sends
    rw [if_pos hopen]
    exact hsaid
  refine ⟨Grid.frame cfg output stats said, ?_, frame_ends hlength hends⟩
  exact List.mem_append_right _ (List.mem_map_of_mem hsent)

-- A loop whose transport is open after the step knows of no task that is over by itself.
theorem ends_of_over {w : WorkerLoop} (hopen' : (w.moved wcfg e).isOpen = true)
    (hrevoke : e.2 ≠ .revoke (some id)) (h : WorkerLoop.Over wcfg w e id) :
    id ∈ (w.handsOver wcfg e).filterMap Said.ends := by
  obtain ⟨now, e⟩ := e
  rcases h with hends | hrevoked | hclosed | ⟨hstop, hrunning⟩
  · exact hends
  · exact absurd hrevoked hrevoke
  · dsimp only at hclosed
    rw [hclosed] at hopen'
    cases hopen'
  · dsimp only at hstop
    rw [hstop] at hopen'
    simp [WorkerLoop.moved, WorkerLoop.next, WorkerLoop.stop, hrunning] at hopen'

-- The device is gone: what runs and what waits for its input stays, and the rest of what
-- the walk comes to is given back.
theorem deviceLost_tasks {w : WorkerLoop} {now : Nat} {t : Worker.PendingTask} (ht : t ∈ w.tasks)
    (hwalked : ∀ t ∈ w.loop.queue, t.id ∈ Cells.walked w.loop.held) :
    t ∈ (w.moved wcfg (now, .deviceLost)).tasks ∨
      t.id ∈ (w.handsOver wcfg (now, .deviceLost)).filterMap Said.ends := by
  have hstays : (w.moved wcfg (now, .deviceLost)).tasks =
      w.loop.waitingOnAsset ++ [] ++ w.executing.toList := rfl
  have hsaid : w.handsOver wcfg (now, .deviceLost) =
      (Cells.walked w.loop.held).map fun task => .release task .deviceLost := rfl
  have hends : ∀ task, Said.ends (.release task .deviceLost) = some task := fun _ => rfl
  unfold WorkerLoop.tasks at ht
  rw [hstays, hsaid, List.filterMap_map]
  rcases List.mem_append.mp ht with hpending | hruns
  · rcases List.mem_append.mp hpending with hwaits | hqueued
    · exact .inl (List.mem_append_left _ (List.mem_append_left _ hwaits))
    · exact .inr (List.mem_filterMap.mpr ⟨t.id, hwalked t hqueued, hends t.id⟩)
  · exact .inl (List.mem_append_right _ hruns)

-- An event of the loop but a word to stop with the task.
theorem Whereabouts.act (h : Whereabouts cfg s up down id) (hopen : s.worker.isOpen = true)
    (hopen' : (s.worker.moved wcfg e).isOpen = true) (hpossible : s.worker.Possible e)
    (hwalked : e.2 = .deviceLost →
      ∀ t ∈ s.worker.loop.queue, t.id ∈ Cells.walked s.worker.loop.held)
    (hrevoke : e.2 ≠ .revoke (some id)) (hlength : output.length < 2 ^ 32) :
    Whereabouts cfg { s with worker := s.worker.moved wcfg e }
      (up ++ (s.worker.sends wcfg e).map (Grid.frame cfg output stats)) down id := by
  have hsaid : id ∈ (s.worker.handsOver wcfg e).filterMap Said.ends →
      Whereabouts cfg { s with worker := s.worker.moved wcfg e }
        (up ++ (s.worker.sends wcfg e).map (Grid.frame cfg output stats)) down id := by
    intro hends
    obtain ⟨frame, hmem, hframe⟩ := said_ends cfg up hopen hlength hends
    exact .answered frame hframe hmem
  cases h with
  | sent envelope hid h => exact .sent envelope hid h
  | waits envelope hid h => exact .waits envelope hid h
  | answered frame hends h => exact .answered frame hends (List.mem_append_left _ h)
  | has t hid h =>
      subst hid
      by_cases hlost : e.2 = .deviceLost
      · obtain ⟨now, e⟩ := e
        dsimp only at hlost
        subst hlost
        rcases deviceLost_tasks h (hwalked rfl) with hstays | hends
        · exact .has t rfl hstays
        · exact hsaid hends
      · rcases WorkerLoop.next_cases wcfg s.worker e hlost hpossible with
          ⟨hkeeps, -⟩ | ⟨task, -, -, haccepts⟩
        · rcases hkeeps.tasks_rest t h with hstays | hover
          · exact .has t rfl hstays
          · exact hsaid (ends_of_over hopen' hrevoke hover)
        · exact .has t rfl (haccepts.tasks_rest t h)

-- A poll takes a frame up.
theorem Whereabouts.polled {reply : Reply} {rest : List Reply} (h : Whereabouts cfg s up down id)
    (hinbox : s.inbox = reply :: rest) :
    (∃ envelope : TaskEnvelope, reply = .taskGrant envelope ∧ envelope.taskId = id) ∨
      Whereabouts cfg { s with inbox := rest } up down id := by
  cases h with
  | sent envelope hid h => exact .inr (.sent envelope hid h)
  | waits envelope hid h =>
      rw [hinbox] at h
      rcases List.mem_cons.mp h with hhead | hrest
      · exact .inl ⟨envelope, hhead.symm, hid⟩
      · exact .inr (.waits envelope hid hrest)
  | has t hid h => exact .inr (.has t hid h)
  | answered frame hends h => exact .inr (.answered frame hends h)

-- A frame gets to its worker.
theorem Whereabouts.arrived {reply : Reply} {rest : List Reply}
    (h : Whereabouts cfg s up (reply :: rest) id) :
    Whereabouts cfg { s with inbox := s.inbox ++ [reply] } up rest id := by
  cases h with
  | sent envelope hid h =>
      rcases List.mem_cons.mp h with hhead | hrest
      · exact .waits envelope hid (List.mem_append_right _ (List.mem_singleton.mpr hhead))
      · exact .sent envelope hid hrest
  | waits envelope hid h => exact .waits envelope hid (List.mem_append_left _ h)
  | has t hid h => exact .has t hid h
  | answered frame hends h => exact .answered frame hends h

-- A grant is taken, or it goes straight back.
theorem Whereabouts.taken {envelope : TaskEnvelope} {now : Nat} (hopen : s.worker.isOpen = true)
    (hopen' : (s.worker.moved wcfg (now, .taskGrant (Station.grant envelope))).isOpen = true)
    (hpossible : s.worker.Possible (now, .taskGrant (Station.grant envelope)))
    (hlength : output.length < 2 ^ 32) :
    Whereabouts cfg
      { s with worker := s.worker.moved wcfg (now, .taskGrant (Station.grant envelope)) }
      (up ++ (s.worker.sends wcfg (now, .taskGrant (Station.grant envelope))).map
        (Grid.frame cfg output stats)) down envelope.taskId := by
  have hgrants : WorkerLoop.Grants (now, .taskGrant (Station.grant envelope)) envelope.taskId :=
    ⟨_, rfl, rfl, rfl⟩
  have hcalm : LoopEvent.taskGrant (Station.grant envelope) ≠ .deviceLost := fun h => by cases h
  rcases WorkerLoop.next_cases wcfg s.worker (now, .taskGrant (Station.grant envelope)) hcalm
    hpossible with ⟨-, hstarts⟩ | ⟨task, ⟨grant, hgrant, htask, -⟩, -, haccepts⟩
  · have hover : WorkerLoop.Over wcfg s.worker (now, .taskGrant (Station.grant envelope))
        envelope.taskId := by
      by_contra hnot
      exact hstarts envelope.taskId ⟨hgrants, hnot⟩
    have hends := ends_of_over hopen' (fun h => by cases h) hover
    obtain ⟨frame, hmem, hframe⟩ := said_ends cfg up hopen hlength hends
    exact .answered frame hframe hmem
  · cases hgrant
    exact .has task (Option.some.inj htask).symm haccepts.there

end

variable [Double F]

namespace Grid

-- It is nowhere lost between the coordinator and an open worker.
def Carried (cfg : Coordinator.Config F) (g : Grid F) (k : Nat) (id : TaskId) : Prop :=
  ∀ n, (g.stations n).conn = some k → (g.stations n).worker.isOpen = true →
    Whereabouts cfg (g.stations n) (g.up k) (g.down k) id

-- A worker is told, or is going to be, to stop with the task.
def Told (g : Grid F) (id : TaskId) : Prop :=
  (∃ k, .revoke id ∈ g.down k) ∨ ∃ n, .revoke id ∈ (g.stations n).inbox

-- What an event has the coordinator send on a connection.
def tells (cfg : Coordinator.Config F) (g : Grid F) (e : Event F) (k : Nat) : List Reply :=
  match e with
  | .sweep nowMs _ => g.server.pushed cfg nowMs k
  | .deliver j nowMs token =>
      match g.up j with
      | [] => []
      | (body, payload) :: _ =>
          if k = j then replies cfg g.server j body payload nowMs token else []
  | _ => []

-- When the device is lost, the walk over what is held comes to every task in the queue.
def spares (g : Grid F) : Event F → Bool
  | .turn n _ .deviceLost _ _ =>
      (g.stations n).worker.loop.queue.all fun t =>
        decide (t.id ∈ Cells.walked (g.stations n).worker.loop.held)
  | _ => true

-- No two workers speak on one connection, and none on one that is still to come.
structure Apart (g : Grid F) : Prop where
  alone : ∀ {i j k}, (g.stations i).conn = some k → (g.stations j).conn = some k → i = j
  below : ∀ {n k}, (g.stations n).conn = some k → k < g.server.nextConnId

-- With this frame the coordinator is done with the task.
inductive Settles (cfg : Coordinator.Config F) (g : Grid F) (k : Nat) (id : TaskId) :
    Event F → Prop
  | deliver (frame : Body F × Payload) (rest : List (Body F × Payload)) (nowMs : UInt64)
      (token : Token) (hup : g.up k = frame :: rest) (hends : Ends cfg id frame) :
      Settles cfg g k id (.deliver k nowMs token)

section

variable {cfg : Setup F} {g : Grid F} {n k : Nat} {id : TaskId} {s : Station}
  {output : Payload} {stats : Option TaskStats}

variable {e : WorkerLoop.Event}

theorem stations_act (cfg : Setup F) (g : Grid F) (n : Nat) (s : Station) (e : WorkerLoop.Event)
    (output : Payload) (stats : Option TaskStats) (m : Nat) :
    (g.act cfg n s e output stats).stations m =
      if m = n then { s with worker := s.worker.moved cfg.worker e } else g.stations m :=
  Function.update_apply g.stations n _ m

-- What is sent goes up the one connection.
theorem up_act (hconn : s.conn = some k) : (g.act cfg n s e output stats).up k =
    g.up k ++ (s.worker.sends cfg.worker e).map (frame cfg.coordinator output stats) := by
  unfold Grid.act
  dsimp only
  rw [hconn]
  dsimp only
  rw [Function.update_self]

theorem mem_up_act {frame : Body F × Payload} (h : frame ∈ g.up k) :
    frame ∈ (g.act cfg n s e output stats).up k := by
  by_cases hconn : s.conn = some k
  · rw [up_act hconn]
    exact List.mem_append_left _ h
  · have hsame : (g.act cfg n s e output stats).up k = g.up k := by
      unfold Grid.act
      dsimp only
      cases hj : s.conn with
      | none => rfl
      | some j =>
          have hne : k ≠ j := fun heq => hconn (heq ▸ hj)
          exact Function.update_of_ne hne _ _
    rwa [hsame]

-- What one worker does is about the tasks of its own connection.
theorem Carried.act (h : g.Carried cfg.coordinator k id)
    (hown : s.conn = some k → (s.worker.moved cfg.worker e).isOpen = true →
      Whereabouts cfg.coordinator { s with worker := s.worker.moved cfg.worker e }
        (g.up k ++ (s.worker.sends cfg.worker e).map (frame cfg.coordinator output stats))
        (g.down k) id) :
    (g.act cfg n s e output stats).Carried cfg.coordinator k id := by
  intro m hm hopen
  rw [stations_act] at hm hopen ⊢
  by_cases hmn : m = n
  · rw [if_pos hmn] at hm hopen ⊢
    dsimp only at hm hopen
    rw [up_act hm]
    exact hown hm hopen
  · rw [if_neg hmn] at hm hopen ⊢
    exact (h m hm hopen).mono (fun _ hframe => mem_up_act hframe) fun _ hreply => hreply

theorem Carried.deliver {j : Nat} {nowMs : UInt64} {token : Token}
    (h : g.Carried cfg.coordinator k id) :
    (g.next cfg (.deliver j nowMs token)).Carried cfg.coordinator k id ∨
      g.Settles cfg.coordinator k id (.deliver j nowMs token) := by
  unfold Grid.next
  dsimp only
  cases hup : g.up j with
  | nil => exact .inl h
  | cons frame rest =>
      obtain ⟨body, payload⟩ := frame
      dsimp only
      by_cases hjk : k = j
      · subst hjk
        by_cases hends : Ends cfg.coordinator id (body, payload)
        · exact .inr (.deliver (body, payload) rest nowMs token hup hends)
        · left
          intro n hn hopen
          have hold := h n hn hopen
          dsimp only
          rw [Function.update_self, Function.update_self]
          cases hold with
          | sent envelope hid h => exact .sent envelope hid (List.mem_append_left _ h)
          | waits envelope hid h => exact .waits envelope hid h
          | has t hid h => exact .has t hid h
          | answered frame hframe h =>
              rw [hup] at h
              rcases List.mem_cons.mp h with hhead | hrest
              · exact absurd (hhead ▸ hframe) hends
              · exact .answered frame hframe hrest
      · left
        intro n hn hopen
        dsimp only
        rw [Function.update_of_ne hjk, Function.update_of_ne hjk]
        exact h n hn hopen

theorem next_arrive {reply : Reply} {rest : List Reply} (hconn : (g.stations n).conn = some k)
    (hdown : g.down k = reply :: rest) : g.next cfg (.arrive n) =
      { g with
        stations := Function.update g.stations n
          { g.stations n with inbox := (g.stations n).inbox ++ [reply] }
        down := Function.update g.down k rest } := by
  simp only [Grid.next, hconn, hdown]

theorem Carried.arrive (h : g.Carried cfg.coordinator k id) (hapart : g.Apart) :
    (g.next cfg (.arrive n)).Carried cfg.coordinator k id := by
  cases hconn : (g.stations n).conn with
  | none =>
      have hsame : g.next cfg (.arrive n) = g := by simp only [Grid.next, hconn]
      rwa [hsame]
  | some j =>
      cases hdown : g.down j with
      | nil =>
          have hsame : g.next cfg (.arrive n) = g := by simp only [Grid.next, hconn, hdown]
          rwa [hsame]
      | cons reply rest =>
          rw [next_arrive hconn hdown]
          intro m hm hopen
          dsimp only at hm hopen ⊢
          by_cases hmn : m = n
          · subst hmn
            rw [Function.update_self] at hm hopen ⊢
            obtain rfl : j = k := Option.some.inj (hconn.symm.trans hm)
            rw [Function.update_self]
            have hold := h m hconn hopen
            rw [hdown] at hold
            exact hold.arrived
          · rw [Function.update_of_ne hmn] at hm hopen ⊢
            have hne : k ≠ j := by
              intro heq
              rw [heq] at hm
              exact hmn (hapart.alone hm hconn)
            rw [Function.update_of_ne hne]
            exact h m hm hopen

theorem Carried.handle {now : Nat} (h : g.Carried cfg.coordinator k id) (hlive : ¬ g.Told id)
    (hpossible : g.possible (.handle n now) = true) :
    (g.next cfg (.handle n now)).Carried cfg.coordinator k id := by
  have hidle : (g.stations n).worker.executing = none := Option.isNone_iff_eq_none.mp hpossible
  unfold Grid.next
  dsimp only
  cases hinbox : (g.stations n).inbox with
  | nil => exact h
  | cons reply rest =>
      dsimp only
      cases hread : Station.read reply with
      | none =>
          intro m hm hopen
          dsimp only at hm hopen ⊢
          by_cases hmn : m = n
          · subst hmn
            rw [Function.update_self] at hm hopen ⊢
            rcases (h m hm hopen).polled hinbox with ⟨envelope, rfl, -⟩ | hrest
            · cases hread
            · exact hrest
          · rw [Function.update_of_ne hmn] at hm hopen ⊢
            exact h m hm hopen
      | some e =>
          have hreads := Station.read_some hread
          refine h.act fun hm hopen' => ?_
          have hnone : ([] : Payload).length < 2 ^ 32 := by simp
          have hopen : (g.stations n).worker.isOpen = true := by
            rcases WorkerLoop.moved_isOpen hopen' with hopen | hopened
            · exact hopen
            · exact absurd hopened hreads.opened
          rcases (h n hm hopen).polled hinbox with ⟨envelope, rfl, rfl⟩ | hrest
          · cases hread
            exact .taken (s := { g.stations n with inbox := rest }) hopen hopen'
              (WorkerLoop.possible_of_idle hidle) hnone
          · refine hrest.act hopen hopen' (WorkerLoop.possible_of_idle hidle)
              (fun hlost => absurd hlost hreads.deviceLost) (fun hrevoke => ?_) hnone
            obtain rfl := hreads.revoke id hrevoke
            refine hlive (.inr ⟨n, ?_⟩)
            rw [hinbox]
            exact List.mem_cons_self

-- What comes to a loop by itself, or from its device or a peer.
theorem Carried.turn {now : Nat} {own : LoopEvent} (h : g.Carried cfg.coordinator k id)
    (hpossible : g.possible (.turn n now own output stats) = true)
    (hspares : g.spares (.turn n now own output stats) = true) :
    (g.next cfg (.turn n now own output stats)).Carried cfg.coordinator k id := by
  simp only [possible, Bool.and_eq_true, decide_eq_true_eq] at hpossible
  obtain ⟨⟨hown, hturn⟩, hfits⟩ := hpossible
  have hlength : output.length < 2 ^ 32 := Nat.lt_of_le_of_lt hfits (by decide)
  refine h.act fun hm hopen' => ?_
  have hopen : (g.stations n).worker.isOpen = true := by
    rcases WorkerLoop.moved_isOpen hopen' with hopen | hopened
    · exact hopen
    · dsimp only at hopened
      rw [hopened] at hown
      cases hown
  refine (h n hm hopen).act hopen hopen' hturn (fun hlost => ?_) (fun hrevoke => ?_) hlength
  · dsimp only at hlost
    subst hlost
    simpa [spares] using hspares
  · dsimp only at hrevoke
    rw [hrevoke] at hown
    cases hown

theorem Carried.connect (h : g.Carried cfg.coordinator k id) (hk : k < g.server.nextConnId) :
    (g.next cfg (.connect n)).Carried cfg.coordinator k id := by
  intro m hm hopen
  simp only [Grid.next] at hm hopen ⊢
  by_cases hmn : m = n
  · subst hmn
    rw [Function.update_self] at hm
    cases hm
    exact absurd hk (Nat.lt_irrefl _)
  · rw [Function.update_of_ne hmn] at hm hopen ⊢
    exact h m hm hopen

theorem Carried.lose (h : g.Carried cfg.coordinator k id) :
    (g.next cfg (.lose n)).Carried cfg.coordinator k id := by
  intro m hm hopen
  simp only [Grid.next] at hm hopen ⊢
  by_cases hmn : m = n
  · subst hmn
    rw [Function.update_self] at hm
    cases hm
  · rw [Function.update_of_ne hmn] at hm hopen ⊢
    exact h m hm hopen

theorem Carried.speak {body : Body F} {payload : Payload} (h : g.Carried cfg.coordinator k id) :
    (g.next cfg (.speak n body payload)).Carried cfg.coordinator k id := by
  unfold Grid.next
  dsimp only
  cases (g.stations n).conn with
  | none => exact h
  | some j =>
      intro m hm hopen
      refine (h m hm hopen).mono (fun frame hframe => ?_) fun _ hreply => hreply
      dsimp only
      by_cases hjk : k = j
      · subst hjk
        rw [Function.update_self]
        exact List.mem_append_left _ hframe
      · rwa [Function.update_of_ne hjk]

-- Whatever happens, the task stays where it can be found, until its last word gets to the
-- coordinator.
theorem Carried.next {e : Event F} (h : g.Carried cfg.coordinator k id) (hapart : g.Apart)
    (hk : k < g.server.nextConnId) (hlive : ¬ g.Told id) (hpossible : g.possible e = true)
    (hspares : g.spares e = true) :
    (g.next cfg e).Carried cfg.coordinator k id ∨ g.Settles cfg.coordinator k id e := by
  cases e with
  | coordinator e => exact .inl h
  | sweep nowMs flushed =>
      left
      intro m hm hopen
      exact (h m hm hopen).mono (fun _ hframe => hframe) fun _ hreply =>
        List.mem_append_left _ hreply
  | deliver j nowMs token => exact h.deliver
  | connect n => exact .inl (h.connect hk)
  | lose n => exact .inl h.lose
  | arrive n => exact .inl (h.arrive hapart)
  | handle n now => exact .inl (h.handle hlive hpossible)
  | turn n now own output stats => exact .inl (h.turn hpossible hspares)
  | speak n body payload => exact .inl h.speak

-- Only who looks for a connection gets another one.
theorem conn_next {e : Event F} {m : Nat} (h : ((g.next cfg e).stations m).conn = some k) :
    (g.stations m).conn = some k ∨ e = .connect m ∧ k = g.server.nextConnId := by
  have hsame : ∀ n (s : Station), (Function.update g.stations n s m).conn = some k →
      s.conn = (g.stations n).conn → (g.stations m).conn = some k := by
    intro n s hconn hs
    by_cases hmn : m = n
    · subst hmn
      rw [Function.update_self, hs] at hconn
      exact hconn
    · rwa [Function.update_of_ne hmn] at hconn
  cases e with
  | coordinator e => exact .inl h
  | sweep nowMs flushed => exact .inl h
  | deliver j nowMs token =>
      unfold Grid.next at h
      dsimp only at h
      split at h
      · exact .inl h
      · exact .inl h
  | connect n =>
      unfold Grid.next at h
      dsimp only at h
      by_cases hmn : m = n
      · subst hmn
        rw [Function.update_self] at h
        exact .inr ⟨rfl, (Option.some.inj h).symm⟩
      · rw [Function.update_of_ne hmn] at h
        exact .inl h
  | lose n =>
      unfold Grid.next at h
      dsimp only at h
      by_cases hmn : m = n
      · subst hmn
        rw [Function.update_self] at h
        cases h
      · rw [Function.update_of_ne hmn] at h
        exact .inl h
  | arrive n =>
      unfold Grid.next at h
      dsimp only at h
      split at h
      · exact .inl h
      · split at h
        · exact .inl h
        · exact .inl (hsame n _ h rfl)
  | handle n now =>
      unfold Grid.next at h
      dsimp only at h
      split at h
      · exact .inl h
      · split at h
        · exact .inl (hsame n _ h rfl)
        · exact .inl (hsame n _ h rfl)
  | turn n now own output stats => exact .inl (hsame n _ h rfl)
  | speak n body payload =>
      unfold Grid.next at h
      dsimp only at h
      split at h
      · exact .inl h
      · exact .inl h

-- What waits for a worker came down to it.
theorem inbox_next {e : Event F} {m : Nat} {reply : Reply}
    (h : reply ∈ ((g.next cfg e).stations m).inbox) :
    reply ∈ (g.stations m).inbox ∨ ∃ k, reply ∈ g.down k := by
  have hsame : ∀ n (s : Station), reply ∈ (Function.update g.stations n s m).inbox →
      (∀ reply ∈ s.inbox, reply ∈ (g.stations n).inbox) → reply ∈ (g.stations m).inbox := by
    intro n s hmem hs
    by_cases hmn : m = n
    · subst hmn
      rw [Function.update_self] at hmem
      exact hs reply hmem
    · rwa [Function.update_of_ne hmn] at hmem
  cases e with
  | coordinator e => exact .inl h
  | sweep nowMs flushed => exact .inl h
  | deliver j nowMs token =>
      unfold Grid.next at h
      dsimp only at h
      split at h
      · exact .inl h
      · exact .inl h
  | connect n => exact .inl (hsame n _ h fun _ hmem => hmem)
  | lose n => exact .inl (hsame n _ h fun _ hmem => hmem)
  | arrive n =>
      cases hconn : (g.stations n).conn with
      | none =>
          simp only [Grid.next, hconn] at h
          exact .inl h
      | some k =>
          cases hdown : g.down k with
          | nil =>
              simp only [Grid.next, hconn, hdown] at h
              exact .inl h
          | cons head rest =>
              rw [next_arrive hconn hdown] at h
              dsimp only at h
              by_cases hmn : m = n
              · subst hmn
                rw [Function.update_self] at h
                rcases List.mem_append.mp h with hold | hnew
                · exact .inl hold
                · rw [List.mem_singleton.mp hnew]
                  exact .inr ⟨k, hdown ▸ List.mem_cons_self⟩
              · rw [Function.update_of_ne hmn] at h
                exact .inl h
  | handle n now =>
      unfold Grid.next at h
      dsimp only at h
      split at h
      · exact .inl h
      · rename_i head rest hinbox
        have hrest : ∀ reply ∈ rest, reply ∈ (g.stations n).inbox := fun reply hmem =>
          hinbox ▸ List.mem_cons_of_mem head hmem
        split at h
        · exact .inl (hsame n _ h hrest)
        · exact .inl (hsame n _ h hrest)
  | turn n now own output stats => exact .inl (hsame n _ h fun _ hmem => hmem)
  | speak n body payload =>
      unfold Grid.next at h
      dsimp only at h
      split at h
      · exact .inl h
      · exact .inl h

-- And that was said by the coordinator.
theorem down_next {e : Event F} {reply : Reply} (h : reply ∈ (g.next cfg e).down k) :
    reply ∈ g.down k ∨ reply ∈ g.tells cfg.coordinator e k := by
  cases e with
  | coordinator e => exact .inl h
  | sweep nowMs flushed => exact List.mem_append.mp h
  | deliver j nowMs token =>
      unfold Grid.next at h
      unfold tells
      dsimp only at h ⊢
      cases hup : g.up j with
      | nil =>
          rw [hup] at h
          exact .inl h
      | cons frame rest =>
          obtain ⟨body, payload⟩ := frame
          rw [hup] at h
          dsimp only at h ⊢
          by_cases hjk : k = j
          · subst hjk
            rw [Function.update_self] at h
            rw [if_pos rfl]
            exact List.mem_append.mp h
          · rw [Function.update_of_ne hjk] at h
            exact .inl h
  | connect n => exact .inl h
  | lose n => exact .inl h
  | arrive n =>
      cases hconn : (g.stations n).conn with
      | none =>
          simp only [Grid.next, hconn] at h
          exact .inl h
      | some j =>
          cases hdown : g.down j with
          | nil =>
              simp only [Grid.next, hconn, hdown] at h
              exact .inl h
          | cons head rest =>
              rw [next_arrive hconn hdown] at h
              dsimp only at h
              by_cases hjk : k = j
              · subst hjk
                rw [Function.update_self] at h
                exact .inl (hdown ▸ List.mem_cons_of_mem head h)
              · rw [Function.update_of_ne hjk] at h
                exact .inl h
  | handle n now =>
      unfold Grid.next at h
      dsimp only at h
      split at h
      · exact .inl h
      · split at h
        · exact .inl h
        · exact .inl h
  | turn n now own output stats => exact .inl h
  | speak n body payload =>
      unfold Grid.next at h
      dsimp only at h
      split at h
      · exact .inl h
      · exact .inl h

theorem alone_next {e : Event F} {i j : Nat} (h : g.Apart)
    (hi : ((g.next cfg e).stations i).conn = some k)
    (hj : ((g.next cfg e).stations j).conn = some k) : i = j := by
  rcases conn_next hi with hold | ⟨hei, hk⟩
  · rcases conn_next hj with hold' | ⟨-, hk⟩
    · exact h.alone hold hold'
    · exact absurd (hk ▸ h.below hold) (Nat.lt_irrefl _)
  · rcases conn_next hj with hold | ⟨hej, -⟩
    · exact absurd (hk ▸ h.below hold) (Nat.lt_irrefl _)
    · injection hei.symm.trans hej

end

end Grid

end

end P2pGpu
