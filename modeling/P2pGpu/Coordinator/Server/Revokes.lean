import P2pGpu.Coordinator.Server.Corrections
import P2pGpu.Coordinator.Server.Refusals

namespace P2pGpu.Coordinator

open P2pGpu.Protocol

namespace JobManager

variable {m m' : JobManager} {id : TaskId} {guard : JobManager → Label → Prop}

-- The task is over.
def Ended (m : JobManager) (id : TaskId) : Prop :=
  ∃ t, m.find id = some t ∧ isTerminal t.state = true

theorem Ended.moves (h : m.Ended id) (hm : m.Minted) (hmoves : Moves guard m m') : m'.Ended id := by
  have hinv := hmoves.invariant (fun n => n.Minted ∧ n.Ended id) ⟨hm, h⟩ ?_
  · exact hinv.2
  · rintro n l n' ⟨hn, t, hf, hfinal⟩ - hmove
    obtain ⟨u, hu, hsame, -⟩ := hmove.terminal_stays hn hf hfinal
    exact ⟨hmove.minted hn, u, hu, by rw [hsame]; exact hfinal⟩

theorem Ended.unheld (h : m.Ended id) (worker : WorkerId) : id ∉ m.heldBy worker := by
  obtain ⟨t, hf, hfinal⟩ := h
  intro hheld
  obtain ⟨u, hu, hleased⟩ := mem_heldBy.mp hheld
  rw [unheld_of_final hf hfinal u hu] at hleased
  cases hleased

-- Whoever is told that it lost holds a task that was cancelled.
theorem cancelFrom_ended (winner root : TaskId) (ids : List TaskId) (hm : m.Minted) :
    ∀ rev ∈ (cancelFrom winner root ids m).1, (cancelFrom winner root ids m).2.Ended rev.task := by
  induction ids generalizing m with
  | nil =>
      intro rev hrev
      cases hrev
  | cons id ids ih =>
      unfold cancelFrom
      split
      · exact ih hm
      · rename_i hne
        split
        · exact ih hm
        · rename_i sibling hfind
          split
          · exact ih hm
          · rename_i hfamily
            rw [not_or, not_not] at hfamily
            cases happly : m.apply id sibling .cancel with
            | error e => exact ih hm
            | ok r =>
                obtain ⟨next, hnext, rfl⟩ := apply_ok.mp happly
                obtain ⟨hstate, rfl⟩ := advance_cancel.mp hnext
                -- One more was cancelled, and the rest follows.
                have hmore : ∀ (n : JobManager) (holder : WorkerId) (units : UInt64),
                    Moves (Cancels winner root) m n → n.Ended id →
                    ∀ rev ∈ (⟨id, holder, units⟩ : Revocation) :: (cancelFrom winner root ids n).1,
                      (cancelFrom winner root ids n).2.Ended rev.task := by
                  intro n holder units hmoves hhere rev hrev
                  have hn := hmoves.minted hm
                  rcases List.mem_cons.mp hrev with rfl | hrest
                  · exact hhere.moves hn (cancelFrom_moves winner root ids n)
                  · exact ih hn rev hrest
                refine hmore _ _ _ ?_ ?_
                · refine Reach.head (.inr ⟨id, sibling, rfl, hne, hfind, hfamily.1⟩)
                    (Move.act m id .cancel sibling _ hfind (if_pos hstate) trivial) ?_
                  refine Reach.single (.inl rfl) (Move.aux _ _ ?_)
                  simp only [perform, put, markTaskDirty, Table.modify_modify_const, Act.queue]
                  exact ⟨.refl _, .refl _, .refl _, .refl _, rfl, rfl⟩
                · refine ⟨{ sibling with
                    state := .cancelled, holder := Id.nil, leaseExpiresAtMs := 0 }, ?_, rfl⟩
                  show ((m.put id _).put id _).find id = _
                  rw [find_put, if_pos rfl, find_put, if_pos rfl, hfind]
                  rfl

end JobManager

section

variable {F : Type} [Double F]

-- A worker is told to stop what is over, beside what it was to be told already.
def Fleet.Tells (gone : TaskId → Prop) (f f' : Fleet F) : Prop :=
  ∀ id r', f'.find id = some r' → ∀ task ∈ r'.pendingRevokes,
    gone task ∨ ∃ r, f.find id = some r ∧ task ∈ r.pendingRevokes

namespace Fleet.Tells

variable {gone : TaskId → Prop} {f f' f'' : Fleet F}

theorem refl (f : Fleet F) : f.Tells gone f := fun _ r' hr _ htask => .inr ⟨r', hr, htask⟩

theorem trans (h : f.Tells gone f') (h' : f'.Tells gone f'') : f.Tells gone f'' := by
  intro id r'' hr'' task htask
  rcases h' id r'' hr'' task htask with hover | ⟨r', hr', hearlier⟩
  · exact .inl hover
  · exact h id r' hr' task hearlier

theorem «mutable» (f : Fleet F) (id : WorkerId) {edit : WorkerRecord F → WorkerRecord F}
    (h : ∀ r, ∀ task ∈ (edit r).pendingRevokes, gone task ∨ task ∈ r.pendingRevokes) :
    f.Tells gone (f.mutable id edit) := by
  intro i r' hr' task htask
  rw [find_mutable] at hr'
  by_cases hi : i = id
  · rw [if_pos hi] at hr'
    obtain ⟨r, hr, rfl⟩ := Option.map_eq_some_iff.mp hr'
    rcases h r task htask with hover | hold
    · exact .inl hover
    · exact .inr ⟨r, hr, hold⟩
  · rw [if_neg hi] at hr'
    exact .inr ⟨r', hr', htask⟩

-- An edit of anything else.
theorem edit (f : Fleet F) (id : WorkerId) {edit : WorkerRecord F → WorkerRecord F}
    (h : ∀ r, (edit r).pendingRevokes = r.pendingRevokes) : f.Tells gone (f.mutable id edit) :=
  .mutable f id fun r _ htask => .inr (h r ▸ htask)

theorem clear (f : Fleet F) (id : WorkerId) :
    f.Tells gone (f.mutable id fun r => { r with pendingRevokes := [] }) :=
  .mutable f id fun _ _ htask => absurd htask List.not_mem_nil

theorem join (f : Fleet F) (id : WorkerId) (connId : Nat) (nowMs : UInt64) :
    f.Tells gone (f.join id connId nowMs) := by
  intro i r' hr' task htask
  by_cases hi : i = id
  · have hfresh := Table.lookup_insert_eq f.workers id i
      { id := id, connId := connId, lastSeenMs := nowMs, joinedMs := nowMs }
    rw [if_pos hi] at hfresh
    obtain rfl := Option.some.inj (hr'.symm.trans hfresh)
    cases htask
  · rw [Fleet.find_join_ne _ _ _ _ _ hi] at hr'
    exact .inr ⟨r', hr', htask⟩

theorem leave (f : Fleet F) (id : WorkerId) : f.Tells gone (f.leave id) := by
  intro i r' hr' task htask
  by_cases hi : i = id
  · rw [hi] at hr'
    have hgone : (f.leave id).find id = none := AList.lookup_erase _ _
    rw [hgone] at hr'
    cases hr'
  · rw [find_leave_ne f id i hi] at hr'
    exact .inr ⟨r', hr', htask⟩

theorem foldl {α : Type} {step : Fleet F → α → Fleet F} (as : List α)
    (h : ∀ (f : Fleet F), ∀ a ∈ as, f.Tells gone (step f a)) (f : Fleet F) :
    f.Tells gone (as.foldl step f) := by
  induction as generalizing f with
  | nil => exact refl f
  | cons a as ih =>
      have hrest := ih fun f b hb => h f b (List.mem_cons_of_mem a hb)
      exact (h f a List.mem_cons_self).trans (hrest (step f a))

end Fleet.Tells

namespace Session

open JobManager

variable {cfg : Config F} {s : Session} {w : Shared F} {body : Body F} {payload : Payload}
  {nowMs : UInt64} {token : Token} {gone : TaskId → Prop}

theorem drainRevokes_tells (s : Session) (w : Shared F) :
    w.fleet.Tells gone (s.drainRevokes w).2.fleet := by
  unfold drainRevokes
  split
  · exact .refl w.fleet
  · exact .clear w.fleet s.workerId

theorem onHello_tells (cfg : Config F) (s : Session) (w : Shared F) (hello : Hello)
    (token : Token) : w.fleet.Tells gone (s.onHello cfg w hello token).shared.fleet := by
  unfold onHello
  split
  · exact .refl w.fleet
  · split
    · exact .refl w.fleet
    · have hcached : w.fleet.Tells gone
          ((w.fleet.join (s.identify w hello) s.connId s.nowMs).mutable (s.identify w hello)
            fun r => { r with cachedAssets := adoptCachedAssets hello.cachedAssets }) :=
        (Fleet.Tells.join _ _ _ _).trans (.edit _ _ fun _ => rfl)
      dsimp only
      split
      · exact hcached
      · exact hcached.trans (.edit _ _ fun _ => rfl)

theorem sendTask_tells (s : Session) (rec : WorkerRecord F) (task : Task) (w : Shared F) :
    w.fleet.Tells gone (s.sendTask cfg nowMs rec w task).2.fleet := by
  unfold sendTask
  split
  · exact .refl w.fleet
  · split
    · exact .refl w.fleet
    · exact .edit w.fleet s.workerId fun _ => rfl

theorem grantLoop_tells (cfg : Config F) (s : Session) (nowMs : UInt64) (rec : WorkerRecord F)
    (n : Nat) (w : Shared F) :
    w.fleet.Tells gone (s.grantLoop cfg nowMs rec n w).2.fleet := by
  have hone : ∀ w : Shared F, w.fleet.Tells gone (s.grantOne cfg nowMs rec w).2.fleet := by
    intro w
    have haside := drawTask_aside cfg s nowMs rec w
    unfold grantOne
    split
    · rename_i w' hdraw
      rw [hdraw] at haside
      rw [haside.fleet]
      exact .refl w.fleet
    · rename_i task w' hdraw
      rw [hdraw] at haside
      rw [← haside.fleet]
      exact sendTask_tells s rec task w'
  induction n generalizing w with
  | zero => exact .refl w.fleet
  | succ n ih =>
      have hfirst := hone w
      unfold grantLoop
      split
      · rename_i w' hgrant
        rw [hgrant] at hfirst
        exact hfirst
      · rename_i replies w' hgrant
        rw [hgrant] at hfirst
        exact hfirst.trans (ih w')

theorem onLeaseRequest_tells (cfg : Config F) (s : Session) (w : Shared F) (req : LeaseRequest)
    (nowMs : UInt64) : w.fleet.Tells gone (s.onLeaseRequest cfg w req nowMs).shared.fleet := by
  have hcached : w.fleet.Tells gone (s.editRecord w fun r =>
      { r with cachedAssets := adoptCachedAssets req.cachedAssets }).fleet :=
    .edit w.fleet s.workerId fun _ => rfl
  unfold onLeaseRequest
  dsimp only
  split
  · exact hcached
  · split
    · exact hcached
    · split
      · exact hcached
      · split
        · exact hcached
        · exact hcached.trans (grantLoop_tells cfg s nowMs _ _ _)

theorem readied_tells (s : Session) (w : Shared F) (header : ResultHeader) (taskId : TaskId)
    (n : JobManager) : w.fleet.Tells gone (readied s w header taskId n).fleet := by
  have hstats : w.fleet.Tells gone (s.recordStats { w with jobs := n } header.stats).fleet := by
    unfold recordStats
    split
    · exact .refl w.fleet
    · exact .edit w.fleet s.workerId fun _ => rfl
  have hasset : ∀ w : Shared F, w.fleet.Tells gone (s.creditAsset w taskId).fleet := by
    intro w
    unfold creditAsset
    split
    · exact .refl w.fleet
    · split
      · exact .refl w.fleet
      · exact .edit w.fleet s.workerId fun _ => rfl
  have hprobe : ∀ w : Shared F, (s.checkProbe w taskId header.checksum).fleet = w.fleet := by
    intro w
    unfold checkProbe
    split
    · rfl
    · split <;> rfl
  unfold readied prepare
  rw [hprobe]
  exact hstats.trans (hasset _)

theorem observeCompletion_revokes (nowMs : UInt64) (done : Option Task) (r : WorkerRecord F) :
    (observeCompletion nowMs done r).pendingRevokes = r.pendingRevokes := by
  unfold observeCompletion
  dsimp only
  split
  · cases done <;> rfl
  · rfl

-- Of those who lost, each is told of its own task, which was cancelled.
theorem complete_tells (hm : w.jobs.Minted) (s : Session) (taskId : TaskId) :
    w.fleet.Tells (s.complete w taskId).shared.jobs.Ended (s.complete w taskId).shared.fleet := by
  have hended : ∀ rev ∈ (w.jobs.cancelSiblingsOf taskId).1,
      (w.jobs.cancelSiblingsOf taskId).2.Ended rev.task := by
    unfold cancelSiblingsOf
    split
    · exact fun rev hrev => absurd hrev List.not_mem_nil
    · dsimp only
      split
      · exact fun rev hrev => absurd hrev List.not_mem_nil
      · exact cancelFrom_ended _ _ _ hm
  have hlosers : w.fleet.Tells (w.jobs.cancelSiblingsOf taskId).2.Ended
      (notifyLosers w.fleet (w.jobs.cancelSiblingsOf taskId).1) := by
    unfold notifyLosers
    refine .foldl _ (fun f rev hrev => ?_) _
    refine .mutable f rev.holder fun r task htask => ?_
    rcases List.mem_append.mp htask with hold | hnew
    · exact .inr hold
    · rw [List.mem_singleton.mp hnew]
      exact .inl (hended rev hrev)
  have hcounted : w.fleet.Tells (w.jobs.cancelSiblingsOf taskId).2.Ended
      ((notifyLosers w.fleet (w.jobs.cancelSiblingsOf taskId).1).recordCompletion s.workerId) :=
    hlosers.trans (.edit _ s.workerId fun _ => rfl)
  exact hcounted.trans (.edit _ s.workerId (observeCompletion_revokes _ _))

-- An answer that is accepted is the only word on which anybody is told to stop.
theorem onResultHeader_tells (hm : w.jobs.Minted) (s : Session) (header : ResultHeader)
    (payload : Payload) :
    w.fleet.Tells (s.onResultHeader cfg w header payload).shared.jobs.Ended
      (s.onResultHeader cfg w header payload).shared.fleet := by
  by_cases hlands : ∃ taskId n, Landed cfg s w header payload taskId n
  · obtain ⟨taskId, n, hlanded⟩ := hlands
    cases hspec : kernelFor cfg (readied s w header taskId n).jobs taskId with
    | none =>
        rw [onResultHeader_landed hlanded, weigh, hspec]
        exact readied_tells s w header taskId n
    | some spec =>
        obtain ⟨t, hf, -, -⟩ := hlanded.readied_find
        rw [hlanded.rules hf hspec]
        unfold rule
        split
        · exact readied_tells s w header taskId n
        · exact readied_tells s w header taskId n
        · refine .trans ?_ (complete_tells ?_ s taskId)
          · unfold settled
            rw [(publish_rest _ _ _ _ _).1]
            exact readied_tells s w header taskId n
          · have hrecorded := (hlanded.receives spec).moves.minted hm
            have hfinish := finish_performs
              (recorded (readied s w header taskId n) taskId (answerOf s spec header payload))
              taskId true
            exact (hfinish.moves fun _ => trivial).minted hrecorded
  · rw [(onResultHeader_unlanded fun taskId n hlanded => hlands ⟨taskId, n, hlanded⟩).2]
    exact .refl w.fleet

theorem dispatch_tells (hm : w.jobs.Minted) :
    w.fleet.Tells (s.dispatch cfg w body payload token).shared.jobs.Ended
      (s.dispatch cfg w body payload token).shared.fleet := by
  cases body with
  | hello m => exact onHello_tells cfg s w m token
  | leaseRequest m => exact onLeaseRequest_tells cfg s w m s.nowMs
  | resultHeader m => exact onResultHeader_tells hm s m payload
  | release taskId =>
      unfold dispatch onRelease
      dsimp only
      repeat' split
      all_goals exact .refl w.fleet
  | progress m =>
      unfold dispatch onProgress
      dsimp only
      repeat' split
      all_goals exact .refl w.fleet
  | goodbye => exact .leave w.fleet s.workerId
  | assetRequest m =>
      unfold dispatch onAssetRequest
      dsimp only
      repeat' split
      all_goals exact .refl w.fleet
  | assetData => exact .refl w.fleet
  | benchmarkResult score =>
      unfold dispatch onBenchmarkResult
      dsimp only
      split
      · exact .refl w.fleet
      · split
        · exact .refl w.fleet
        · exact .edit w.fleet s.workerId fun _ => rfl
  | throttle level => exact .edit w.fleet s.workerId fun _ => rfl
  | signal m =>
      unfold dispatch onSignal
      dsimp only
      repeat' split
      all_goals exact .refl w.fleet
  | coordinatorOnly => exact .refl w.fleet

theorem receive_tells (hm : w.jobs.Minted) :
    w.fleet.Tells (s.receive cfg w body payload nowMs token).shared.jobs.Ended
      (s.receive cfg w body payload nowMs token).shared.fleet := by
  cases hs : s.handshaked with
  | true =>
      rw [receive_known cfg w body payload nowMs token hs]
      have hheard : ∀ gone, w.fleet.Tells gone (s.heardFrom w nowMs).fleet :=
        fun _ => .edit w.fleet s.workerId fun _ => rfl
      exact (hheard _).trans (dispatch_tells hm)
  | false =>
      cases hbody : isHello body with
      | false =>
          rw [receive_silent cfg w nowMs token payload hs hbody]
          exact .refl w.fleet
      | true =>
          have hreceive : s.receive cfg w body payload nowMs token =
              ({ s with nowMs } : Session).dispatch cfg w body payload token := by
            unfold receive
            simp [hs, hbody]
          rw [hreceive]
          exact dispatch_tells hm

theorem onMessage_tells (hm : w.jobs.Minted) :
    w.fleet.Tells (s.onMessage cfg w body payload nowMs token).shared.jobs.Ended
      (s.onMessage cfg w body payload nowMs token).shared.fleet := by
  have hreceive : w.fleet.Tells (s.receive cfg w body payload nowMs token).shared.jobs.Ended
      (s.receive cfg w body payload nowMs token).shared.fleet := receive_tells hm
  unfold onMessage
  dsimp only
  split
  · obtain ⟨fleet, -, hdrain⟩ := drainRevokes_fleet
      (s.receive cfg w body payload nowMs token).session
      (s.receive cfg w body payload nowMs token).shared
    have hjobs : ((s.receive cfg w body payload nowMs token).session.drainRevokes
        (s.receive cfg w body payload nowMs token).shared).2.jobs =
        (s.receive cfg w body payload nowMs token).shared.jobs := by
      rw [hdrain]
    rw [hjobs]
    exact hreceive.trans (drainRevokes_tells _ _)
  · exact hreceive

-- Nothing of it is a revoke.
def Plain (turn : Turn F) : Prop := ∀ id, .revoke id ∉ turn.reaction.replies

theorem Plain.quiet (s : Session) (w : Shared F) : Plain (s.quiet w) := by
  simp [Plain, Session.quiet]

theorem Plain.fatal (s : Session) (w : Shared F) (code : ErrorCode) (message : String) :
    Plain (s.fatal w code message) := by
  simp [Plain, Session.fatal]

theorem Plain.nonFatal (s : Session) (w : Shared F) (code : ErrorCode) (message : String) :
    Plain (s.nonFatal w code message) := by
  simp [Plain, Session.nonFatal]

theorem judge_plain (cfg : Config F) (s : Session) (w : Shared F) (taskId : TaskId)
    (spec : KernelSpec) (checksum : UInt64) (payload : Payload) :
    Plain (s.judge cfg w taskId spec checksum payload) := by
  unfold judge
  dsimp only
  split
  · split
    · exact .nonFatal _ _ _ _
    · exact .quiet _ _
  · split
    · exact .nonFatal _ _ _ _
    · exact .quiet _ _
  · unfold acceptResult
    dsimp only
    split
    · exact .nonFatal _ _ _ _
    · exact .quiet _ _

theorem onResultHeader_plain (cfg : Config F) (s : Session) (w : Shared F)
    (header : ResultHeader) (payload : Payload) :
    Plain (s.onResultHeader cfg w header payload) := by
  have hreadable : ∀ taskId, Plain (s.onReadable cfg w taskId header payload) := by
    intro taskId
    unfold onReadable
    split
    · exact .quiet _ _
    · split
      · exact .nonFatal _ _ _ _
      · unfold weigh
        split
        · exact .nonFatal _ _ _ _
        · exact judge_plain _ _ _ _ _ _ _
  unfold onResultHeader
  split
  · exact .nonFatal _ _ _ _
  · repeat' split
    all_goals first | exact .quiet _ _ | exact .nonFatal _ _ _ _ | exact hreadable _

theorem onLeaseRequest_plain (cfg : Config F) (s : Session) (w : Shared F) (req : LeaseRequest)
    (nowMs : UInt64) : Plain (s.onLeaseRequest cfg w req nowMs) := by
  have hpeers : ∀ (rec : WorkerRecord F) (w : Shared F) (job : Job) (id : TaskId),
      .revoke id ∉ peersFor cfg s rec w job := by
    intro rec w job id
    unfold peersFor
    repeat' split
    all_goals simp
  have hone : ∀ (rec : WorkerRecord F) (w w' : Shared F) (replies : List Reply),
      s.grantOne cfg nowMs rec w = (some replies, w') → ∀ id, .revoke id ∉ replies := by
    intro rec w w' replies hgrant id
    unfold grantOne at hgrant
    split at hgrant
    · cases hgrant
    · unfold sendTask at hgrant
      split at hgrant
      · cases hgrant
      · split at hgrant
        · cases hgrant
        · cases hgrant
          simp [hpeers]
  have hloop : ∀ (rec : WorkerRecord F) (n : Nat) (w : Shared F) (id : TaskId),
      .revoke id ∉ (s.grantLoop cfg nowMs rec n w).1 := by
    intro rec n
    induction n with
    | zero => exact fun _ _ => List.not_mem_nil
    | succ n ih =>
        intro w id
        unfold grantLoop
        split
        · exact List.not_mem_nil
        · rename_i replies w' hgrant
          intro hmem
          rcases List.mem_append.mp hmem with hfirst | hrest
          · exact hone rec w w' replies hgrant id hfirst
          · exact ih w' id hrest
  unfold onLeaseRequest
  dsimp only
  split
  · exact .quiet _ _
  · split
    · exact .quiet _ _
    · split
      · exact .quiet _ _
      · split
        · exact .quiet _ _
        · exact fun id => hloop _ _ _ id

-- Only the revokes that wait are told, whatever the message is.
theorem receive_plain (cfg : Config F) (s : Session) (w : Shared F) (body : Body F)
    (payload : Payload) (nowMs : UInt64) (token : Token) :
    Plain (s.receive cfg w body payload nowMs token) := by
  unfold receive
  dsimp only
  split
  · exact .fatal _ _ _ _
  · unfold dispatch
    split
    · unfold onHello
      split
      · exact .nonFatal _ _ _ _
      · split
        · exact .fatal _ _ _ _
        · simp [Plain]
    · exact onLeaseRequest_plain _ _ _ _ _
    · exact onResultHeader_plain _ _ _ _ _
    · unfold onRelease
      repeat' split
      all_goals first | exact .quiet _ _ | exact .nonFatal _ _ _ _
    · unfold onProgress
      repeat' split
      all_goals first | exact .quiet _ _ | exact .nonFatal _ _ _ _
    · exact .quiet _ _
    · unfold onAssetRequest
      dsimp only
      repeat' split
      all_goals first | exact .nonFatal _ _ _ _ | simp [Plain, chunks, chunkAt]
    · exact .nonFatal _ _ _ _
    · unfold onBenchmarkResult
      repeat' split
      all_goals first | exact .quiet _ _ | exact .nonFatal _ _ _ _
    · exact .quiet _ _
    · unfold onSignal
      dsimp only
      repeat' split
      all_goals first | exact .nonFatal _ _ _ _ | simp [Plain]
    · exact .nonFatal _ _ _ _

end Session

namespace Server

open JobManager Session

variable {cfg : Config F} {v₀ v v' : Server F} {e : Event F} {k : Nat} {conn : Conn}
  {body : Body F} {payload : Payload} {nowMs : UInt64} {token : Token} {good : JobId → Prop}
  {gone : TaskId → Prop} {id : TaskId}

-- A task that a worker is still to be told to stop is over.
def Warned (v : Server F) : Prop :=
  ∀ worker r, v.shared.fleet.find worker = some r → ∀ task ∈ r.pendingRevokes, v.jobs.Ended task

theorem ended_stays (hn : v.Named) (hs : v.jobs.Sound cfg.kernels good) (h : Step cfg v e v')
    (hended : v.jobs.Ended id) : v'.jobs.Ended id := by
  obtain ⟨t, hf, hfinal⟩ := hended
  obtain ⟨t', hf', hstate⟩ := final_stays hn hs h hf hfinal
  exact ⟨t', hf', by rw [hstate]; exact hfinal⟩

theorem closeConn_tells (v : Server F) (connId : Nat) :
    v.shared.fleet.Tells gone (v.closeConn connId).shared.fleet := by
  unfold closeConn
  split
  · exact .refl v.shared.fleet
  · unfold onDisconnect
    dsimp only
    split
    · exact .leave v.shared.fleet _
    · exact .refl v.shared.fleet

-- What is left of the records once the workers that are gone are dropped.
theorem dropLost_tells (cfg : Config F) (v : Server F) (nowMs : UInt64) :
    v.shared.fleet.Tells gone ((v.expireLeases cfg nowMs).dropLost cfg nowMs).shared.fleet := by
  have hexpired : v.shared.fleet.Tells gone (v.expireLeases cfg nowMs).shared.fleet := by
    refine .foldl _ (fun f expiry _ => ?_) _
    refine .edit f expiry.holder fun r => ?_
    unfold observeExpiry
    split <;> rfl
  have hdropped : ∀ (lost : List WorkerId) (v : Server F),
      v.shared.fleet.Tells gone (lost.foldl dropWorker v).shared.fleet := by
    intro lost
    induction lost with
    | nil => exact fun v => .refl v.shared.fleet
    | cons worker lost ih =>
        exact fun v => (Fleet.Tells.leave _ worker).trans (ih (v.dropWorker worker))
  exact hexpired.trans (hdropped _ _)

theorem next_tells (hm : v.jobs.Minted) (e : Event F) :
    v.shared.fleet.Tells (v.next cfg e).jobs.Ended (v.next cfg e).shared.fleet := by
  have hself : ∀ gone, v.shared.fleet.Tells gone v.shared.fleet := fun _ => .refl _
  cases e with
  | createJob kernelId totalUnits seed unitsPerGroup => exact hself _
  | seedRender render inputRef => exact hself _
  | «open» => exact hself _
  | text connId => exact hself _
  | close connId => exact closeConn_tells v connId
  | malformed connId =>
      show v.shared.fleet.Tells _ (v.rejectFrame connId).shared.fleet
      obtain ⟨edit, -, heq | heq⟩ := rejectFrame_cases v connId
      · rw [← heq]
        exact closeConn_tells (v.editConn connId edit) connId
      · rw [← heq]
        exact hself _
  | sweep nowMs flushed =>
      have hpushed : ∀ (gone : TaskId → Prop) (v : Server F),
          v.shared.fleet.Tells gone v.pushRevokes.shared.fleet := by
        intro gone v
        exact .foldl _ (fun f worker _ => .clear f worker) _
      show v.shared.fleet.Tells _ (v.sweep cfg nowMs flushed).shared.fleet
      rw [sweep_eq]
      exact (dropLost_tells cfg v nowMs).trans (hpushed _ _)
  | message connId body payload nowMs token =>
      cases hconn : v.conns.lookup connId with
      | none =>
          have hsame : v.next cfg (.message connId body payload nowMs token) = v :=
            onFrame_closed hconn
          rw [hsame]
          exact hself _
      | some conn =>
          unfold jobs
          rw [next_open cfg payload nowMs token hconn]
          exact onMessage_tells hm

theorem Warned.step (hn : v.Named) (hs : v.jobs.Sound cfg.kernels good) (hw : v.Warned)
    (h : Step cfg v e v') : v'.Warned := by
  intro worker r' hr' task htask
  have hfind : (v.next cfg e).shared.fleet.find worker = some r' :=
    (Table.lookup_of_perm h.workers worker).trans hr'
  rcases next_tells hs.minted e worker r' hfind task htask with hover | ⟨r, hr, hold⟩
  · obtain ⟨t, hf, hfinal⟩ := hover
    exact ⟨t, (h.rows.find_eq task).trans hf, hfinal⟩
  · exact ended_stays hn hs h (hw worker r hr task hold)

-- A worker is told to stop only what is over.
theorem told_ended (hn : v.Named) (hs : v.jobs.Sound cfg.kernels good) (hw : v.Warned)
    (hconn : v.conns.lookup k = some conn)
    (hmem : .revoke id ∈
      (conn.session.onMessage cfg v.shared body payload nowMs token).reaction.replies) :
    (v.next cfg (.message k body payload nowMs token)).jobs.Ended id := by
  rw [onMessage_replies] at hmem
  rcases List.mem_append.mp hmem with hplain | htold
  · exact absurd hplain (receive_plain _ _ _ _ _ _ _ id)
  · have hjobs : (v.next cfg (.message k body payload nowMs token)).jobs =
        (conn.session.receive cfg v.shared body payload nowMs token).shared.jobs := by
      obtain ⟨-, -, fleet, -, hshared⟩ :=
        onMessage_receive cfg conn.session v.shared body payload nowMs token
      unfold jobs
      rw [next_open cfg payload nowMs token hconn, hshared]
    split at htold
    · unfold drainRevokes at htold
      split at htold
      · cases htold
      · rename_i r hr
        obtain ⟨task, htask, heq⟩ := List.mem_map.mp htold
        cases heq
        rcases receive_tells hs.minted _ r hr id htask with hover | ⟨r₀, hr₀, hold⟩
        · rw [hjobs]
          exact hover
        · exact ended_stays hn hs (step_next cfg v _) (hw _ r₀ hr₀ id hold)
    · cases htold

-- What a sweep pushes on a connection, to whoever is reached on it.
def pushed (cfg : Config F) (v : Server F) (nowMs : UInt64) (k : Nat) : List Reply :=
  let v := (v.expireLeases cfg nowMs).dropLost cfg nowMs
  (v.live.entries.filter fun entry => entry.2 = k).flatMap fun entry =>
    owed v.shared.fleet entry.1

theorem pushed_ended (hn : v.Named) (hs : v.jobs.Sound cfg.kernels good) (hw : v.Warned)
    (flushed : Bool) {reply : Reply} (hmem : reply ∈ v.pushed cfg nowMs k) :
    ∃ id, reply = .revoke id ∧ (v.next cfg (.sweep nowMs flushed)).jobs.Ended id := by
  obtain ⟨entry, -, howed⟩ := List.mem_flatMap.mp hmem
  unfold owed at howed
  split at howed
  · cases howed
  · rename_i r hr
    obtain ⟨id, htask, rfl⟩ := List.mem_map.mp howed
    refine ⟨id, rfl, ended_stays hn hs (step_next cfg v _) ?_⟩
    have htells : v.shared.fleet.Tells (fun _ => False)
        ((v.expireLeases cfg nowMs).dropLost cfg nowMs).shared.fleet := dropLost_tells cfg v nowMs
    rcases htells _ r hr id htask with hnever | ⟨r₀, hr₀, hold⟩
    · exact hnever.elim
    · exact hw _ r₀ hr₀ id hold

end Server

end

end P2pGpu.Coordinator
