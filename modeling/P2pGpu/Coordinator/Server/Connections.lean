import P2pGpu.Coordinator.Server.Leases

namespace P2pGpu.Coordinator

open P2pGpu.Protocol

namespace Server

open JobManager

section

variable {F : Type} [Double F] {cfg : Config F} {v v₀ v' : Server F} {e : Event F}
  {connId k : Nat} {conn : Conn} {id w : WorkerId} {nowMs : UInt64}

-- A connection on which the worker has said who it is.
def Speaks (v : Server F) (k : Nat) (id : WorkerId) : Prop :=
  ∃ conn, v.conns.lookup k = some conn ∧ conn.session.handshaked = true ∧
    conn.session.workerId = id

def SpeaksElsewhere (v : Server F) (k : Nat) (id : WorkerId) : Prop := ∃ i, i ≠ k ∧ v.Speaks i id

def SpeaksTwice (v : Server F) (id : WorkerId) : Prop := ∃ k, v.Speaks k id ∧ v.SpeaksElsewhere k id

-- What a worker has at the coordinator is still there.
structure Undisturbed (v v' : Server F) (id : WorkerId) : Prop where
  leases : ∀ i t, v.jobs.find i = some t → t.isLeasedTo id →
    ∃ t', v'.jobs.find i = some t' ∧ t'.isLeasedTo id
  record : (v.shared.fleet.find id).isSome → (v'.shared.fleet.find id).isSome
  live : (v.live.lookup id).isSome → (v'.live.lookup id).isSome

-- And there was nothing to begin with.
structure Vacant (v : Server F) (id : WorkerId) : Prop where
  leases : ∀ i t, v.jobs.find i = some t → ¬ t.isLeasedTo id
  record : v.shared.fleet.find id = none
  live : v.live.lookup id = none

theorem Undisturbed.refl (v : Server F) (id : WorkerId) : v.Undisturbed v id :=
  ⟨fun _ t hf ht => ⟨t, hf, ht⟩, fun h => h, fun h => h⟩

theorem Undisturbed.trans {v'' : Server F} (h : v.Undisturbed v' id) (h' : v'.Undisturbed v'' id) :
    v.Undisturbed v'' id where
  leases i t hf ht := by
    obtain ⟨t', hf', ht'⟩ := h.leases i t hf ht
    exact h'.leases i t' hf' ht'
  record hr := h'.record (h.record hr)
  live hl := h'.live (h.live hl)

theorem Vacant.undisturbed (h : v.Vacant id) : v.Undisturbed v' id where
  leases i t hf ht := absurd ht (h.leases i t hf)
  record hr := by
    rw [h.record] at hr
    cases hr
  live hl := by
    rw [h.live] at hl
    cases hl

theorem Vacant.back (h : v'.Vacant id) (hkept : v.Undisturbed v' id) : v.Vacant id where
  leases i t hf ht := by
    obtain ⟨t', hf', ht'⟩ := hkept.leases i t hf ht
    exact h.leases i t' hf' ht'
  record := by
    by_contra hne
    have hsome := hkept.record (Option.isSome_iff_ne_none.mpr hne)
    rw [h.record] at hsome
    cases hsome
  live := by
    by_contra hne
    have hsome := hkept.live (Option.isSome_iff_ne_none.mpr hne)
    rw [h.live] at hsome
    cases hsome

-- Giving up one worker leaves nothing of it, and all of the others.
theorem dropWorker_vacant (v : Server F) (w : WorkerId) : (v.dropWorker w).Vacant w where
  leases i t hf ht := by
    have hfind := find_releaseAllHeldBy v.jobs w i
    change (v.jobs.releaseAllHeldBy w).2.find i = some t at hf
    rw [hf] at hfind
    obtain ⟨s, -, hs⟩ := Option.map_eq_some_iff.mp hfind.symm
    rw [← hs] at ht
    split at ht
    · cases ht
    · rename_i hother
      exact hother ht
  record := AList.lookup_erase _ _
  live := AList.lookup_erase _ _

theorem dropWorker_others (v : Server F) (hne : id ≠ w) : v.Undisturbed (v.dropWorker w) id where
  leases i t hf ht := by
    have hfind := find_releaseAllHeldBy v.jobs w i
    rw [hf, Option.map_some] at hfind
    refine ⟨t, hfind.trans ?_, ht⟩
    rw [if_neg]
    intro hw
    exact hne ((isLeasedTo_iff.mp ht).2.symm.trans (isLeasedTo_iff.mp hw).2)
  record hr := by
    have hsame := Fleet.find_leave_ne v.shared.fleet w id hne
    rw [← hsame] at hr
    exact hr
  live hl := by
    have hsame : (v.dropWorker w).live.lookup id = v.live.lookup id := AList.lookup_erase_ne hne
    rw [hsame]
    exact hl

theorem dropLost_others (lost : List WorkerId) (v : Server F) (hid : id ∉ lost) :
    v.Undisturbed (lost.foldl dropWorker v) id := by
  induction lost generalizing v with
  | nil => exact .refl v id
  | cons w lost ih =>
      obtain ⟨hne, hrest⟩ := not_or.mp (mt List.mem_cons.mpr hid)
      exact (dropWorker_others v hne).trans (ih (v.dropWorker w) hrest)

-- Nothing comes back of a worker that has nothing.
theorem dropWorker_keeps_vacant (h : v.Vacant id) (w : WorkerId) : (v.dropWorker w).Vacant id := by
  by_cases hid : id = w
  · rw [hid]
    exact dropWorker_vacant v w
  · refine ⟨fun i t hf ht => ?_, ?_, ?_⟩
    · have hfind := find_releaseAllHeldBy v.jobs w i
      change (v.jobs.releaseAllHeldBy w).2.find i = some t at hf
      rw [hf] at hfind
      obtain ⟨s, hs, hst⟩ := Option.map_eq_some_iff.mp hfind.symm
      rw [← hst] at ht
      split at ht
      · cases ht
      · exact h.leases i s hs ht
    · exact (Fleet.find_leave_ne v.shared.fleet w id hid).trans h.record
    · exact (AList.lookup_erase_ne hid).trans h.live

theorem dropLost_vacant (lost : List WorkerId) (v : Server F) (hid : id ∈ lost) :
    (lost.foldl dropWorker v).Vacant id := by
  have hkept : ∀ (lost : List WorkerId) (v : Server F), v.Vacant id →
      (lost.foldl dropWorker v).Vacant id := by
    intro lost
    induction lost with
    | nil => exact fun _ h => h
    | cons w lost ih => exact fun v h => ih _ (dropWorker_keeps_vacant h w)
  induction lost generalizing v with
  | nil => cases hid
  | cons w lost ih =>
      rcases List.mem_cons.mp hid with rfl | hrest
      · exact hkept lost _ (dropWorker_vacant v id)
      · exact ih (v.dropWorker w) hrest

-- The same tasks, and the same workers with other words in their records.
structure SameHoldings (v v' : Server F) : Prop where
  tasks : ∀ i, v'.jobs.find i = v.jobs.find i
  record : ∀ id, (v'.shared.fleet.find id).isSome = (v.shared.fleet.find id).isSome
  live : ∀ id, v'.live.lookup id = v.live.lookup id

theorem SameHoldings.undisturbed (h : v.SameHoldings v') (id : WorkerId) :
    v.Undisturbed v' id where
  leases i t hf ht := ⟨t, (h.tasks i).trans hf, ht⟩
  record hr := (h.record id).trans hr
  live hl := by
    rw [h.live]
    exact hl

theorem SameHoldings.vacant (h : v.SameHoldings v') (hv : v.Vacant id) : v'.Vacant id where
  leases i t hf := hv.leases i t ((h.tasks i).symm.trans hf)
  record := by
    have hsame := h.record id
    rw [hv.record] at hsame
    exact Option.isSome_eq_false_iff.mp hsame |> Option.isNone_iff_eq_none.mp
  live := (h.live id).trans hv.live

theorem SameHoldings.step (h : Step cfg v e v') : (v.next cfg e).SameHoldings v' where
  tasks := h.rows.find_eq
  record id := by
    have hsame := Table.lookup_of_perm h.workers id
    exact congrArg Option.isSome hsame.symm
  live id := (Table.lookup_of_perm h.live id).symm

-- What a sweep leaves, once the lost workers are given up.
variable (cfg) in
theorem sweep_windows (v : Server F) (nowMs : UInt64) (flushed : Bool) :
    ∃ w : Server F, w.shared = ((v.expireLeases cfg nowMs).dropLost cfg nowMs).pushRevokes.shared ∧
      w.live = ((v.expireLeases cfg nowMs).dropLost cfg nowMs).live ∧
      (∀ k, (w.conns.lookup k).isSome = (v.conns.lookup k).isSome) ∧
      v.sweep cfg nowMs flushed = if flushed then w.withJobs w.jobs.clearDirty else w := by
  obtain ⟨hconns, -⟩ := dropLost_rest (v.lostAt cfg nowMs) (v.expireLeases cfg nowMs)
  obtain ⟨hshared, hlive, hopen, -⟩ := resetSignalWindows_conns
    ((v.expireLeases cfg nowMs).dropLost cfg nowMs).pushRevokes.live.entries
    ((v.expireLeases cfg nowMs).dropLost cfg nowMs).pushRevokes _ rfl
  refine ⟨_, hshared, hlive, fun k => (hopen k).trans ?_, rfl⟩
  have hsame : ((v.expireLeases cfg nowMs).dropLost cfg nowMs).pushRevokes.conns = v.conns :=
    hconns
  rw [hsame]

-- A sweep closes no connection.
theorem sweep_conns {flushed : Bool} (hconn : v.conns.lookup k = some conn) :
    (v.sweep cfg nowMs flushed).conns.lookup k ≠ none := by
  obtain ⟨w, -, -, hopen, hsweep⟩ := sweep_windows cfg v nowMs flushed
  have hconns : (v.sweep cfg nowMs flushed).conns = w.conns := by
    rw [hsweep]
    split <;> rfl
  rw [hconns, ← Option.isSome_iff_ne_none, hopen, hconn]
  rfl

-- Only somebody who has not said who it is is closed by what it says.
theorem closed_by_frame {body : Body F} {payload : Payload} {token : Token} {turn : Turn F}
    (hframe : v.Framed cfg k conn turn v')
    (hheard : conn.session.Heard cfg v.shared nowMs token body payload turn)
    (hgone : v'.conns.lookup k = none) :
    v'.shared = conn.session.onDisconnect v.shared ∧
      v'.live = v.live.erase conn.session.workerId := by
  rcases hframe.own with ⟨-, hown, -⟩ | ⟨hclose, -, -, hlive⟩
  · rw [hown] at hgone
    cases hgone
  · obtain ⟨hsilent, hworker⟩ := heard_close hheard hclose
    rw [hframe.shared, hlive, hworker]
    refine ⟨?_, rfl⟩
    cases hheard with
    | silent hs hsession hshared =>
        rw [hshared, Session.onDisconnect, if_neg (by rw [hs]; exact Bool.false_ne_true)]
    | greets hello h =>
        rw [h.stays] at hclose
        cases hclose
    | routine hs hstays h =>
        rw [hstays] at hclose
        cases hclose
    | judged header taskId n hs hstays =>
        rw [hstays] at hclose
        cases hclose

-- How a connection ends: as its own disconnect says.
theorem closed_leaves (hconn : v.conns.lookup k = some conn)
    (hgone : (v.next cfg e).conns.lookup k = none) :
    (v.next cfg e).shared = conn.session.onDisconnect v.shared ∧
      (v.next cfg e).live = v.live.erase conn.session.workerId := by
  have hclose : ∀ {connId : Nat} {edit : Conn → Conn},
      (∀ conn : Conn, conn.session.SameParty (edit conn).session) →
      ((v.editConn connId edit).closeConn connId).conns.lookup k = none →
      ((v.editConn connId edit).closeConn connId).shared = conn.session.onDisconnect v.shared ∧
        ((v.editConn connId edit).closeConn connId).live =
          v.live.erase conn.session.workerId := by
    intro connId edit hedit hnone
    have hk : (v.editConn connId edit).conns.lookup k =
        if k = connId then some (edit conn) else some conn := by
      rw [lookup_editConn, hconn]
      rfl
    by_cases he : k = connId
    · rw [if_pos he] at hk
      rw [← he] at hk ⊢
      have hparty := hedit conn
      rw [closeConn_open hk]
      dsimp only [Session.onDisconnect]
      rw [hparty.handshaked, hparty.workerId]
      exact ⟨rfl, rfl⟩
    · rw [if_neg he] at hk
      cases hother : (v.editConn connId edit).conns.lookup connId with
      | none =>
          rw [closeConn_closed hother, hk] at hnone
          cases hnone
      | some other =>
          rw [closeConn_open hother] at hnone
          rw [(AList.lookup_erase_ne he).trans hk] at hnone
          cases hnone
  have hedited : ∀ {connId : Nat} {edit : Conn → Conn},
      (v.editConn connId edit).conns.lookup k ≠ none := by
    intro connId edit hnone
    rw [lookup_editConn, hconn] at hnone
    split at hnone <;> cases hnone
  cases e with
  | createJob =>
      rw [show (v.next cfg _).conns = v.conns from rfl, hconn] at hgone
      cases hgone
  | seedRender =>
      rw [show (v.next cfg _).conns = v.conns from rfl, hconn] at hgone
      cases hgone
  | «open» =>
      change (AList.insert v.nextConnId _ v.conns).lookup k = none at hgone
      rw [Table.lookup_insert_eq, hconn] at hgone
      split at hgone <;> cases hgone
  | text connId => exact absurd hgone hedited
  | malformed connId =>
      obtain ⟨edit, hedit, hreject⟩ := rejectFrame_cases v connId
      change (v.rejectFrame connId).conns.lookup k = none at hgone
      change (v.rejectFrame connId).shared = _ ∧ (v.rejectFrame connId).live = _
      rcases hreject with heq | heq
      · rw [← heq] at hgone ⊢
        exact hclose hedit hgone
      · rw [← heq] at hgone
        exact absurd hgone hedited
  | close connId =>
      have hplain := @hclose connId id fun _ => .refl _
      rw [editConn_id] at hplain
      exact hplain hgone
  | sweep nowMs flushed => exact absurd hgone (sweep_conns hconn)
  | message connId body payload nowMs token =>
      change (v.onFrame cfg connId body payload nowMs token).conns.lookup k = none at hgone
      cases hopen : v.conns.lookup connId with
      | none =>
          rw [onFrame_closed hopen, hconn] at hgone
          cases hgone
      | some other =>
          have hframe := onFrame_framed cfg body payload nowMs token hopen
          have hheard := Session.onMessage_heard cfg other.session v.shared body payload nowMs token
          by_cases he : k = connId
          · rw [he] at hconn hgone
            rw [hopen] at hconn
            cases hconn
            exact closed_by_frame hframe hheard hgone
          · rw [hframe.others k he, hconn] at hgone
            cases hgone

-- Closing a connection spares the others of the same worker just where there are
-- none, or where the worker has nothing to lose.
theorem close_isolated (hn : v.Named) (h : Step cfg v e v')
    (hconn : v.conns.lookup k = some conn) (hgone : v'.conns.lookup k = none) :
    (∀ id, v.SpeaksElsewhere k id → v.Undisturbed v' id) ↔
      (v.SpeaksElsewhere k conn.session.workerId → v.Vacant conn.session.workerId) := by
  have hnext : (v.next cfg e).conns.lookup k = none := by
    rw [h.rest] at hgone
    exact hgone
  obtain ⟨hshared, hlive⟩ := closed_leaves hconn hnext
  have hsame := SameHoldings.step h
  cases hs : conn.session.handshaked with
  | false =>
      have hnobody := hn.nobody hconn hs
      have hjobs : (v.next cfg e).shared = v.shared := by
        rw [hshared, Session.onDisconnect, if_neg (by rw [hs]; exact Bool.false_ne_true)]
      have hsomeone : ∀ id, v.SpeaksElsewhere k id → id ≠ Id.nil := by
        rintro id ⟨i, -, other, hother, hspoke, rfl⟩
        exact hn.worker hother hspoke
      refine ⟨fun _ helse => absurd hnobody (hsomeone _ helse), fun _ id helse => ?_⟩
      have hkept : v.Undisturbed (v.next cfg e) id := by
        refine ⟨fun i t hf ht => ⟨t, ?_, ht⟩, fun hr => ?_, fun hl => ?_⟩
        · rw [jobs, hjobs]
          exact hf
        · rw [hjobs]
          exact hr
        · rw [hlive, hnobody, AList.lookup_erase_ne (hsomeone id helse)]
          exact hl
      exact hkept.trans (hsame.undisturbed id)
  | true =>
      have hdropped : (v.dropWorker conn.session.workerId).SameHoldings (v.next cfg e) := by
        have hleft : (v.next cfg e).shared = (v.dropWorker conn.session.workerId).shared := by
          rw [hshared, Session.onDisconnect, if_pos hs]
          rfl
        refine ⟨fun i => ?_, fun id => ?_, fun id => ?_⟩
        · rw [jobs, hleft]
          rfl
        · rw [hleft]
        · rw [hlive]
          rfl
      have hvacant := dropWorker_vacant v conn.session.workerId
      refine ⟨fun hall helse => ?_, fun hlone id helse => ?_⟩
      · exact (hsame.vacant (hdropped.vacant hvacant)).back (hall _ helse)
      · by_cases hid : id = conn.session.workerId
        · rw [hid] at helse ⊢
          exact (hlone helse).undisturbed
        · have hothers := dropWorker_others v hid
          exact (hothers.trans (hdropped.undisturbed id)).trans (hsame.undisturbed id)

theorem mem_findLost {f : Fleet F} {timeoutMs : UInt32} :
    id ∈ f.findLost nowMs timeoutMs ↔
      ∃ r, f.find id = some r ∧ r.lastSeenMs + timeoutMs.toUInt64 < nowMs := by
  unfold Fleet.findLost
  constructor
  · intro h
    obtain ⟨entry, hmem, rfl⟩ := List.mem_map.mp h
    obtain ⟨hentry, hlate⟩ := List.mem_filter.mp hmem
    exact ⟨entry.2, Table.mem_entries_iff.mp hentry, of_decide_eq_true hlate⟩
  · rintro ⟨r, hr, hlate⟩
    refine List.mem_map.mpr ⟨⟨id, r⟩, ?_, rfl⟩
    exact List.mem_filter.mpr ⟨Table.mem_entries_iff.mpr hr, decide_eq_true hlate⟩

-- An expiry does not change when a worker was heard last.
theorem mem_lostAt :
    id ∈ v.lostAt cfg nowMs ↔ id ∈ v.shared.fleet.findLost nowMs cfg.workerTimeoutMs := by
  have hseen : ∀ (expired : List Expiry) (f : Fleet F),
      ((expired.foldl (fun fleet e => fleet.mutable e.holder (observeExpiry cfg.leaseMs))
        f).find id).map WorkerRecord.lastSeenMs = (f.find id).map WorkerRecord.lastSeenMs := by
    intro expired
    induction expired with
    | nil => exact fun _ => rfl
    | cons entry expired ih =>
        intro f
        refine (ih _).trans ?_
        rw [Fleet.find_mutable]
        split
        · rw [Option.map_map]
          congr 1
          funext r
          dsimp only [Function.comp, observeExpiry]
          split <;> rfl
        · rfl
  have hsame := hseen (v.jobs.sweepExpiredLeases nowMs).1 v.shared.fleet
  unfold lostAt
  rw [mem_findLost, mem_findLost]
  change ((v.expireLeases cfg nowMs).shared.fleet.find id).map WorkerRecord.lastSeenMs = _ at hsame
  constructor
  · rintro ⟨r, hr, hlate⟩
    rw [hr, Option.map_some] at hsame
    obtain ⟨r', hr', heq⟩ := Option.map_eq_some_iff.mp hsame.symm
    exact ⟨r', hr', by rw [heq]; exact hlate⟩
  · rintro ⟨r, hr, hlate⟩
    rw [hr, Option.map_some] at hsame
    obtain ⟨r', hr', heq⟩ := Option.map_eq_some_iff.mp hsame
    exact ⟨r', hr', by rw [heq]; exact hlate⟩

-- Once the lost workers are given up, a sweep takes nothing from anybody.
variable (cfg) in
theorem sweep_holdings (v : Server F) (nowMs : UInt64) (flushed : Bool) :
    ((v.expireLeases cfg nowMs).dropLost cfg nowMs).SameHoldings (v.sweep cfg nowMs flushed) := by
  have hpushed : ∀ (i : WorkerId) (ids : List WorkerId) (f : Fleet F), ((ids.foldl
      (fun fleet id => fleet.mutable id fun r => { r with pendingRevokes := [] }) f).find
        i).isSome = (f.find i).isSome := by
    intro i ids
    induction ids with
    | nil => exact fun _ => rfl
    | cons w ids ih =>
        intro f
        refine (ih _).trans ?_
        rw [Fleet.find_mutable]
        split
        · rw [Option.isSome_map]
        · rfl
  obtain ⟨w, hshared, hlive, -, hsweep⟩ := sweep_windows cfg v nowMs flushed
  have hkept : ((v.expireLeases cfg nowMs).dropLost cfg nowMs).SameHoldings w := by
    refine ⟨fun i => ?_, fun id => ?_, fun id => ?_⟩
    · rw [jobs, hshared]
      rfl
    · rw [hshared]
      exact hpushed id _ _
    · rw [hlive]
  rw [hsweep]
  split
  · exact ⟨hkept.tasks, hkept.record, hkept.live⟩
  · exact hkept

-- The leases that a sweep takes back are those of the workers that it gives up,
-- and it spares everybody who is heard on two connections just where it gives up none.
theorem sweep_isolated {flushed : Bool} (h : Step cfg v (.sweep nowMs flushed) v') :
    (∀ id, v.SpeaksTwice id → (v.expireLeases cfg nowMs).Undisturbed v' id) ↔
      ∀ id ∈ v.shared.fleet.findLost nowMs cfg.workerTimeoutMs, ¬ v.SpeaksTwice id := by
  have hheld := sweep_holdings cfg v nowMs flushed
  have hsame := SameHoldings.step h
  refine ⟨fun hall id hlost htwice => ?_, fun hnone id htwice => ?_⟩
  · have hlostAt : id ∈ v.lostAt cfg nowMs := mem_lostAt.mpr hlost
    have hvacant : ((v.expireLeases cfg nowMs).dropLost cfg nowMs).Vacant id :=
      dropLost_vacant _ _ hlostAt
    have hbefore := (hsame.vacant (hheld.vacant hvacant)).back (hall id htwice)
    obtain ⟨r, hr, -⟩ := mem_findLost.mp hlostAt
    rw [hbefore.record] at hr
    cases hr
  · have hspared : id ∉ v.lostAt cfg nowMs := fun hlost => hnone id (mem_lostAt.mp hlost) htwice
    have hothers : (v.expireLeases cfg nowMs).Undisturbed
        ((v.expireLeases cfg nowMs).dropLost cfg nowMs) id := dropLost_others _ _ hspared
    exact (hothers.trans (hheld.undisturbed id)).trans (hsame.undisturbed id)

-- What happens to one connection is no business of the others.
theorem connection_isolation (h₀ : v₀.Started) (hrun : Reach (Step cfg) (fun _ _ => True) v₀ v)
    (h : Step cfg v e v') :
    (∀ k conn, v.conns.lookup k = some conn → v'.conns.lookup k = none →
      ((∀ id, v.SpeaksElsewhere k id → v.Undisturbed v' id) ↔
        (v.SpeaksElsewhere k conn.session.workerId → v.Vacant conn.session.workerId))) ∧
    ∀ nowMs flushed, e = .sweep nowMs flushed →
      ((∀ id, v.SpeaksTwice id → (v.expireLeases cfg nowMs).Undisturbed v' id) ↔
        ∀ id ∈ v.shared.fleet.findLost nowMs cfg.workerTimeoutMs, ¬ v.SpeaksTwice id) := by
  have hn := named_of_run h₀.toUp hrun
  refine ⟨fun k conn hconn hgone => close_isolated hn h hconn hgone, fun nowMs flushed he => ?_⟩
  subst he
  exact sweep_isolated h

end

-- The worker of the first connection comes back on a second one, and works there.
def resumedRun : List (Event Rat) :=
  .createJob "brute_search_v1" 1000 7 0 :: joins 1 10 80 ++
    [.open, .message 2 (greeting (some [1])) [] 20 [2],
      .message 2 (.benchmarkResult 80) [] 20 [], asks 2 30]

theorem connection_isolation_search :
    ((searchStart.runAll (searches {}) resumedRun).conns.lookup 1).isSome ∧
      ∀ k conn, (searchStart.runAll (searches {}) resumedRun).conns.lookup k = some conn →
        ((searchStart.runAll (searches {}) resumedRun).next (searches {}) (.close 2)).conns.lookup
          k = none →
        ((∀ id, (searchStart.runAll (searches {}) resumedRun).SpeaksElsewhere k id →
            (searchStart.runAll (searches {}) resumedRun).Undisturbed
              ((searchStart.runAll (searches {}) resumedRun).next (searches {}) (.close 2)) id) ↔
          ((searchStart.runAll (searches {}) resumedRun).SpeaksElsewhere k conn.session.workerId →
            (searchStart.runAll (searches {}) resumedRun).Vacant conn.session.workerId)) :=
  ⟨by decide +kernel,
    (connection_isolation searchStart_started (reach_runAll _ resumedRun _) (step_next _ _ _)).1⟩

-- The old connection takes the record and the lease of the new one with it.
theorem old_connection_releases :
    ¬ ∀ v e v' k, Reach (Step (searches {})) (fun _ _ => True) searchStart v →
      Step (searches {}) v e v' → (v.conns.lookup k).isSome → v'.conns.lookup k = none →
      ∀ id, v.SpeaksElsewhere k id → v.Undisturbed v' id := by
  intro hall
  have hspoke : ∃ conn, (searchStart.runAll (searches {}) resumedRun).conns.lookup 2 = some conn ∧
      (conn.session.handshaked, conn.session.workerId) = (true, ⟨1, 0⟩) :=
    Option.map_eq_some_iff.mp (by decide +kernel)
  obtain ⟨conn, hconn, hwho⟩ := hspoke
  obtain ⟨hs, hid⟩ := Prod.mk.inj hwho
  have hkept := hall _ (.close 1) _ 1 (reach_runAll _ resumedRun _) (step_next _ _ _)
    (by decide +kernel) (by decide +kernel) ⟨1, 0⟩ ⟨2, by decide, conn, hconn, hs, hid⟩
  have hrecord := hkept.record (by decide +kernel)
  exact absurd hrecord (by decide +kernel)

end Server

end P2pGpu.Coordinator
