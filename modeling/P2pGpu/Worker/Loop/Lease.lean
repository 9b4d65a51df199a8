import P2pGpu.Worker.Loop.GivesBack

namespace P2pGpu.Worker

open P2pGpu.Protocol

-- Milliseconds, as all times here.
def kLeaseTimeout : Nat := 1500
def kMaxBackoff : Nat := 5000

-- What becomes of the requests for a lease: one is sent, one is taken for unanswered, or all
-- are settled, by a grant or with the connection.
inductive Mark where
  | requested (time : Nat)
  | expired (time : Nat)
  | settled
deriving DecidableEq, Repr

-- What the loop keeps for its requests. Nothing assigns the time point that it declares.
structure Lease where
  leaseOutstanding : Bool := false
  leaseRequestedAt : Nat := 0
  emptyReplies : UInt32 := 0
  nextAction : Nat := 0
  -- A record of the run.
  timeline : List Mark := []
deriving DecidableEq, Repr

-- The readings of the clock in one turn: at the timeout, for the fetch, and for a request.
structure Readings where
  checked : Nat
  now : Nat
  asked : Nat
  inOrder : checked ≤ now ∧ now ≤ asked

structure Leasing where
  worker : WorkerLoop := {}
  lease : Lease := {}
  -- The throttle is not above zero.
  paused : Bool := false
  -- The last reading.
  clock : Nat := 0

inductive LeaseEvent where
  | setThrottle (paused : Bool)
  -- `sent` is the answer of the transport to a request, if there is one.
  | turn (r : Readings) (e : LoopEvent) (sent : Bool)

namespace Lease

def expire (l : Lease) (now : Nat) : Lease :=
  if l.leaseOutstanding = true ∧ kLeaseTimeout < now - l.leaseRequestedAt then
    { l with
      leaseOutstanding := false
      emptyReplies := l.emptyReplies + 1
      timeline := l.timeline ++ [.expired now] }
  else l

def send (l : Lease) (now : Nat) (sent : Bool) : Lease :=
  if sent then
    { l with leaseOutstanding := true, timeline := l.timeline ++ [.requested now] }
  else l

def backoff (emptyReplies : UInt32) : Nat :=
  let step := min emptyReplies 6
  let base : UInt32 := 100 <<< (step - 1)
  min base.toNat kMaxBackoff

-- The jitter is made of the address of the worker.
def requestLease (self : Nat) (l : Lease) (now : Nat) (sent : Bool) : Lease :=
  if 0 < l.emptyReplies then
    if now < l.nextAction then l
    else { l with nextAction := now + backoff l.emptyReplies + self % 250 }.send now sent
  else l.send now sent

def granted (l : Lease) : Lease :=
  { l with leaseOutstanding := false, emptyReplies := 0, timeline := l.timeline ++ [.settled] }

def dropped (l : Lease) : Lease :=
  { l with leaseOutstanding := false, timeline := l.timeline ++ [.settled] }

-- What the other turns do to it.
def after (l : Lease) : LoopEvent → Lease
  | .taskGrant _ => l.granted
  | .closed | .deviceUnrecoverable => l.dropped
  | _ => l

end Lease

namespace Leasing

def move (cfg : Config) (s : Leasing) (r : Readings) (e : LoopEvent) : Leasing :=
  { s with worker := s.worker.moved cfg (r.now, e) }

def poll (cfg : Config) (self : Nat) (s : Leasing) (r : Readings) (ability : Ability)
    (sent : Bool) : Leasing :=
  if !s.worker.running || !s.worker.handshaked then s
  else if !s.worker.loop.queue.isEmpty then s.move cfg r (.poll ability)
  else if s.paused then s
  else
    let s := { s with lease := s.lease.expire r.checked }.move cfg r (.poll ability)
    if !s.lease.leaseOutstanding && s.worker.loop.held.isEmpty &&
        s.worker.loop.waitingOnAsset.isEmpty then
      { s with lease := s.lease.requestLease self r.asked sent }
    else s

def next (cfg : Config) (self : Nat) (s : Leasing) : LeaseEvent → Leasing
  | .setThrottle paused => { s with paused }
  | .turn r e sent =>
      let s := { s with clock := r.asked }
      match e with
      | .poll ability => s.poll cfg self r ability sent
      | e => { s with lease := s.lease.after e }.move cfg r e

def Step (cfg : Config) (self : Nat) (s : Leasing) (e : LeaseEvent) (s' : Leasing) : Prop :=
  s' = s.next cfg self e

-- The clock does not go back.
def Happens (s : Leasing) : LeaseEvent → Prop
  | .setThrottle _ => True
  | .turn r e _ => s.clock ≤ r.checked ∧ s.worker.Possible (r.now, e)

instance (s : Leasing) : (e : LeaseEvent) → Decidable (s.Happens e)
  | .setThrottle _ => inferInstanceAs (Decidable True)
  | .turn r e _ => inferInstanceAs (Decidable (s.clock ≤ r.checked ∧ s.worker.Possible (r.now, e)))

-- A poll comes to the timeout.
def ReachesCheck (s : Leasing) : Prop :=
  s.worker.running = true ∧ s.worker.handshaked = true ∧ s.worker.loop.queue = [] ∧
    s.paused = false

-- No poll looks at a request that is young with a clock that is not.
def Timely (s : Leasing) : LeaseEvent → Prop
  | .turn r (.poll _) _ => s.ReachesCheck →
      ∀ t, s.lease.timeline.getLast? = some (.requested t) →
        r.checked ≤ kLeaseTimeout ∨ t + kLeaseTimeout < r.checked
  | _ => True

end Leasing

-- It was sent, and neither a grant nor the end of the connection came since.
def Unanswered (timeline : List Mark) (t : Nat) : Prop :=
  Since (fun _ m => m = .requested t) (fun _ m => m = .settled) timeline

-- A request is sent where none is outstanding. One that is unanswered is taken for lost, or is
-- followed by another, when the timeout is over.
structure Fits (before : List Mark) (m : Mark) : Prop where
  alone : ∀ now, m = .requested now → ∀ t, before.getLast? ≠ some (.requested t)
  apart : ∀ now, m = .requested now ∨ m = .expired now → ∀ t, Unanswered before t →
    t + kLeaseTimeout < now

def Paced (timeline : List Mark) : Prop := Throughout Fits timeline

-- No mark is of later than the clock.
def Dated (timeline : List Mark) (clock : Nat) : Prop :=
  ∀ t, timeline.getLast? = some (.requested t) ∨ timeline.getLast? = some (.expired t) → t ≤ clock

section

variable {timeline : List Mark} {clock now t : Nat} {m : Mark}

theorem unanswered_concat : Unanswered (timeline ++ [m]) t ↔
    m = .requested t ∨ (Unanswered timeline t ∧ m ≠ .settled) := Since.concat

theorem unanswered_last (h : timeline.getLast? = some (.requested t)) :
    Unanswered timeline t := by
  obtain ⟨before, rfl⟩ := List.getLast?_eq_some_iff.mp h
  exact Since.start rfl

theorem paced_concat : Paced (timeline ++ [m]) ↔ Paced timeline ∧ Fits timeline m :=
  Throughout.concat_iff

-- Of the unanswered requests, all but the one that is outstanding are of long before.
theorem Paced.gap (h : Paced timeline) (hdated : Dated timeline clock)
    (ht : Unanswered timeline t) :
    timeline.getLast? = some (.requested t) ∨ t + kLeaseTimeout < clock := by
  rcases List.eq_nil_or_concat timeline with rfl | ⟨before, m, rfl⟩
  · exact absurd ht Since.nil
  · rw [List.concat_eq_append] at h hdated ht ⊢
    rw [List.getLast?_concat]
    rcases unanswered_concat.mp ht with rfl | ⟨hbefore, hnot⟩
    · exact .inl rfl
    · right
      have hfits := (paced_concat.mp h).2
      cases m with
      | requested now =>
          have hapart := hfits.apart now (.inl rfl) t hbefore
          have hclock := hdated now (.inl List.getLast?_concat)
          omega
      | expired now =>
          have hapart := hfits.apart now (.inr rfl) t hbefore
          have hclock := hdated now (.inr List.getLast?_concat)
          omega
      | settled => exact absurd rfl hnot

theorem paced_settled : Paced (timeline ++ [.settled]) ↔ Paced timeline := by
  rw [paced_concat]
  refine and_iff_left ⟨fun now h => ?_, fun now h => ?_⟩
  · cases h
  · rcases h with h | h <;> cases h

-- A request that is sent with none outstanding is late enough.
theorem paced_requested (hdated : Dated timeline clock) (hclock : clock ≤ now)
    (hfree : ∀ t, timeline.getLast? ≠ some (.requested t)) :
    Paced (timeline ++ [.requested now]) ↔ Paced timeline := by
  rw [paced_concat]
  refine and_iff_left_of_imp fun h => ⟨fun _ _ => hfree, fun now' hnow t ht => ?_⟩
  rcases hnow with hnow | hnow
  · cases hnow
    rcases h.gap hdated ht with hlast | hgap
    · exact absurd hlast (hfree t)
    · omega
  · cases hnow

-- The one that is outstanding decides.
theorem paced_expired (hdated : Dated timeline clock) (hclock : clock ≤ now)
    (hlast : timeline.getLast? = some (.requested t)) :
    Paced (timeline ++ [.expired now]) ↔ Paced timeline ∧ t + kLeaseTimeout < now := by
  rw [paced_concat]
  refine and_congr_right fun h => ⟨fun hfits => ?_, fun hlate => ⟨fun now' hnow => ?_, ?_⟩⟩
  · exact hfits.apart now (.inr rfl) t (unanswered_last hlast)
  · cases hnow
  · intro now' hnow t' ht'
    rcases hnow with hnow | hnow
    · cases hnow
    · cases hnow
      rcases h.gap hdated ht' with hlast' | hgap
      · rw [hlast] at hlast'
        cases hlast'
        exact hlate
      · omega

end

-- What holds of the requests in any run.
structure Lease.Recorded (l : Lease) (clock : Nat) : Prop where
  unset : l.leaseRequestedAt = 0
  outstanding : l.leaseOutstanding = true ↔ ∃ t, l.timeline.getLast? = some (.requested t)
  dated : Dated l.timeline clock

namespace Lease

variable {l : Lease} {clock now self : Nat} {sent : Bool}

theorem Recorded.mono (h : l.Recorded clock) (hclock : clock ≤ now) : l.Recorded now :=
  ⟨h.unset, h.outstanding, fun t ht => (h.dated t ht).trans hclock⟩

theorem Recorded.free (h : l.Recorded clock) (hfree : l.leaseOutstanding = false) (t : Nat) :
    l.timeline.getLast? ≠ some (.requested t) := by
  intro hlast
  rw [h.outstanding.mpr ⟨t, hlast⟩] at hfree
  cases hfree

theorem Recorded.expire (h : l.Recorded clock) (hclock : clock ≤ now) :
    (l.expire now).Recorded now := by
  unfold Lease.expire
  split
  · refine ⟨h.unset, ⟨fun hout => ?_, ?_⟩, fun t ht => ?_⟩
    · cases hout
    · rintro ⟨t, hlast⟩
      rw [List.getLast?_concat] at hlast
      cases hlast
    · rw [List.getLast?_concat] at ht
      rcases ht with ht | ht
      · cases ht
      · cases ht
        exact Nat.le_refl now
  · exact h.mono hclock

theorem Recorded.send (h : l.Recorded clock) (hclock : clock ≤ now) :
    (l.send now sent).Recorded now := by
  unfold Lease.send
  split
  · refine ⟨h.unset, ⟨fun _ => ⟨now, List.getLast?_concat⟩, fun _ => rfl⟩, fun t ht => ?_⟩
    rw [List.getLast?_concat] at ht
    rcases ht with ht | ht
    · cases ht
      exact Nat.le_refl now
    · cases ht
  · exact h.mono hclock

theorem Recorded.requestLease (h : l.Recorded clock) (hclock : clock ≤ now) :
    (l.requestLease self now sent).Recorded now := by
  unfold Lease.requestLease
  split
  · split
    · exact h.mono hclock
    · exact Recorded.send ⟨h.unset, h.outstanding, h.dated⟩ hclock
  · exact h.send hclock

theorem Recorded.settle (h : l.Recorded clock) {l' : Lease}
    (hunset : l'.leaseRequestedAt = l.leaseRequestedAt) (hout : l'.leaseOutstanding = false)
    (htimeline : l'.timeline = l.timeline ++ [.settled]) : l'.Recorded clock := by
  refine ⟨hunset.trans h.unset, ⟨fun h' => ?_, ?_⟩, fun t ht => ?_⟩
  · rw [hout] at h'
    cases h'
  · rintro ⟨t, hlast⟩
    rw [htimeline, List.getLast?_concat] at hlast
    cases hlast
  · rw [htimeline, List.getLast?_concat] at ht
    rcases ht with ht | ht <;> cases ht

theorem Recorded.after (h : l.Recorded clock) (e : LoopEvent) : (l.after e).Recorded clock := by
  cases e with
  | taskGrant grant => exact h.settle rfl rfl rfl
  | closed => exact h.settle rfl rfl rfl
  | deviceUnrecoverable => exact h.settle rfl rfl rfl
  | start | stop | opened | peerBytes | peerOpen | deviceLost | welcome | revoke | peerList
  | assetChunk | assetMiss | poll | executed => exact h

theorem after_paced (l : Lease) (e : LoopEvent) :
    Paced (l.after e).timeline ↔ Paced l.timeline := by
  cases e with
  | taskGrant grant => exact paced_settled
  | closed => exact paced_settled
  | deviceUnrecoverable => exact paced_settled
  | start | stop | opened | peerBytes | peerOpen | deviceLost | welcome | revoke | peerList
  | assetChunk | assetMiss | poll | executed => exact Iff.rfl

-- The time point of the request is that of the epoch, so the age of the clock is taken for that
-- of the request.
theorem Recorded.expire_paced (h : l.Recorded clock) (hclock : clock ≤ now) :
    Paced (l.expire now).timeline ↔ Paced l.timeline ∧
      ∀ t, l.timeline.getLast? = some (.requested t) →
        now ≤ kLeaseTimeout ∨ t + kLeaseTimeout < now := by
  unfold Lease.expire
  rw [h.unset, Nat.sub_zero]
  split
  · rename_i hexpires
    obtain ⟨t, hlast⟩ := h.outstanding.mp hexpires.1
    rw [paced_expired h.dated hclock hlast]
    refine and_congr_right fun _ => ⟨fun hlate t' hlast' => ?_, fun hlate => ?_⟩
    · rw [hlast] at hlast'
      cases hlast'
      exact .inr hlate
    · exact (hlate t hlast).resolve_left (Nat.not_le.mpr hexpires.2)
  · rename_i hstays
    refine (and_iff_left fun t hlast => .inl ?_).symm
    exact Nat.not_lt.mp fun hlate => hstays ⟨h.outstanding.mpr ⟨t, hlast⟩, hlate⟩

theorem Recorded.send_paced (h : l.Recorded clock) (hclock : clock ≤ now)
    (hfree : l.leaseOutstanding = false) :
    Paced (l.send now sent).timeline ↔ Paced l.timeline := by
  unfold Lease.send
  split
  · exact paced_requested h.dated hclock (h.free hfree)
  · exact Iff.rfl

theorem Recorded.requestLease_paced (h : l.Recorded clock) (hclock : clock ≤ now)
    (hfree : l.leaseOutstanding = false) :
    Paced (l.requestLease self now sent).timeline ↔ Paced l.timeline := by
  unfold Lease.requestLease
  split
  · split
    · exact Iff.rfl
    · have hwaited : ({ l with nextAction := now + backoff l.emptyReplies + self % 250 } :
          Lease).Recorded clock := ⟨h.unset, h.outstanding, h.dated⟩
      exact hwaited.send_paced hclock hfree
  · exact h.send_paced hclock hfree

end Lease

namespace Leasing

section

variable {cfg : Config} {self : Nat} {s : Leasing} {e : LeaseEvent} {r : Readings} {sent : Bool}

-- What a poll does to the requests: nothing, or it looks at the timeout and may ask then.
theorem poll_cases (cfg : Config) (self : Nat) (s : Leasing) (r : Readings) (ability : Ability)
    (sent : Bool) : (s.poll cfg self r ability sent).clock = s.clock ∧
      ((¬ s.ReachesCheck ∧ (s.poll cfg self r ability sent).lease = s.lease) ∨
      (s.ReachesCheck ∧
        ((s.poll cfg self r ability sent).lease = s.lease.expire r.checked ∨
          ((s.lease.expire r.checked).leaseOutstanding = false ∧
            (s.poll cfg self r ability sent).lease =
              (s.lease.expire r.checked).requestLease self r.asked sent)))) := by
  unfold poll
  by_cases hup : s.worker.running = true ∧ s.worker.handshaked = true
  · rw [if_neg (by simp [hup])]
    cases hqueue : s.worker.loop.queue with
    | cons task rest =>
        have hqueued : (!(task :: rest).isEmpty) = true := rfl
        rw [if_pos hqueued]
        refine ⟨rfl, .inl ⟨fun hcheck => ?_, rfl⟩⟩
        rw [hcheck.2.2.1] at hqueue
        cases hqueue
    | nil =>
        rw [if_neg (by simp)]
        cases hpaused : s.paused with
        | true =>
            rw [if_pos rfl]
            refine ⟨rfl, .inl ⟨fun hcheck => ?_, rfl⟩⟩
            rw [hcheck.2.2.2] at hpaused
            cases hpaused
        | false =>
            rw [if_neg (by simp)]
            have hcheck : s.ReachesCheck := ⟨hup.1, hup.2, hqueue, hpaused⟩
            dsimp only
            split
            · rename_i hasks
              rw [Bool.and_eq_true, Bool.and_eq_true, Bool.not_eq_true'] at hasks
              exact ⟨rfl, .inr ⟨hcheck, .inr ⟨hasks.1.1, rfl⟩⟩⟩
            · exact ⟨rfl, .inr ⟨hcheck, .inl rfl⟩⟩
  · rw [if_pos (by
      rw [← Bool.not_and, Bool.not_eq_true', Bool.eq_false_iff, ne_eq, Bool.and_eq_true]
      exact hup)]
    exact ⟨rfl, .inl ⟨fun hcheck => hup ⟨hcheck.1, hcheck.2.1⟩, rfl⟩⟩

theorem next_turn {e : LoopEvent} (h : ∀ ability, e ≠ .poll ability) :
    s.next cfg self (.turn r e sent) =
      { s with clock := r.asked, lease := s.lease.after e }.move cfg r e := by
  cases e with
  | poll ability => exact absurd rfl (h ability)
  | start | stop | opened | closed | peerBytes | peerOpen | deviceLost | deviceUnrecoverable
  | welcome | taskGrant | revoke | peerList | assetChunk | assetMiss | executed => rfl

theorem timely_turn {e : LoopEvent} (h : ∀ ability, e ≠ .poll ability) :
    s.Timely (.turn r e sent) := by
  cases e with
  | poll ability => exact absurd rfl (h ability)
  | start | stop | opened | closed | peerBytes | peerOpen | deviceLost | deviceUnrecoverable
  | welcome | taskGrant | revoke | peerList | assetChunk | assetMiss | executed => trivial

def Recorded (s : Leasing) : Prop := s.lease.Recorded s.clock

-- The timeout decides on the pace. A request that follows is late enough by then.
theorem Recorded.poll (h : s.Recorded) (hclock : s.clock ≤ r.checked) (ability : Ability) :
    (({ s with clock := r.asked } : Leasing).poll cfg self r ability sent).Recorded ∧
      (Paced (({ s with clock := r.asked } : Leasing).poll cfg self r ability sent).lease.timeline ↔
        Paced s.lease.timeline ∧ s.Timely (.turn r (.poll ability) sent)) := by
  have hlate : r.checked ≤ r.asked := r.inOrder.1.trans r.inOrder.2
  obtain ⟨hnow, hcases⟩ := poll_cases cfg self { s with clock := r.asked } r ability sent
  unfold Recorded
  rw [hnow]
  rcases hcases with ⟨hnot, hlease⟩ | ⟨hcheck, hlease⟩
  · rw [hlease]
    exact ⟨h.mono (hclock.trans hlate), (and_iff_left fun hcheck => absurd hcheck hnot).symm⟩
  · have hexpired := Lease.Recorded.expire h hclock
    have hpaced := Lease.Recorded.expire_paced h hclock
    have htimely : s.Timely (.turn r (.poll ability) sent) ↔
        ∀ t, s.lease.timeline.getLast? = some (.requested t) →
          r.checked ≤ kLeaseTimeout ∨ t + kLeaseTimeout < r.checked :=
      ⟨fun htimely => htimely hcheck, fun htimely _ => htimely⟩
    rw [htimely]
    rcases hlease with hlease | ⟨hfree, hlease⟩
    · rw [hlease]
      exact ⟨hexpired.mono hlate, hpaced⟩
    · rw [hlease, hexpired.requestLease_paced hlate hfree]
      exact ⟨hexpired.requestLease hlate, hpaced⟩

-- A step keeps the record, and the pace just where it is timely.
theorem Recorded.next (h : s.Recorded) (hhappens : s.Happens e) :
    (s.next cfg self e).Recorded ∧ (Paced (s.next cfg self e).lease.timeline ↔
      Paced s.lease.timeline ∧ s.Timely e) := by
  cases e with
  | setThrottle paused => exact ⟨h, (and_iff_left trivial).symm⟩
  | turn r e sent =>
      by_cases hpoll : ∃ ability, e = .poll ability
      · obtain ⟨ability, rfl⟩ := hpoll
        exact h.poll hhappens.1 ability
      · have hother : ∀ ability, e ≠ .poll ability := fun ability he => hpoll ⟨ability, he⟩
        have hasked : s.clock ≤ r.asked :=
          hhappens.1.trans (r.inOrder.1.trans r.inOrder.2)
        rw [next_turn hother]
        refine ⟨(h.mono hasked).after e, ?_⟩
        rw [and_iff_left (timely_turn hother)]
        exact s.lease.after_paced e

theorem recorded_of_run {x : Leasing × List (Leasing × LeaseEvent)}
    (h : Reach (Recalling (Step cfg self)) (fun x e => x.1.Happens e) ({}, []) x) :
    x.1.Recorded := by
  refine Recalling.invariant h (fun s _ => s.Recorded) ⟨rfl, ⟨fun hout => ?_, ?_⟩, ?_⟩ ?_
  · cases hout
  · rintro ⟨t, hlast⟩
    cases hlast
  · intro t ht
    rcases ht with ht | ht <;> cases ht
  · intro s past e s' _ hhappens hold hstep
    rw [hstep]
    exact (hold.next hhappens).1

-- In a run the requests are paced throughout just where every poll is timely.
theorem requests_paced_iff (cfg : Config) (self : Nat) (x : Leasing × List (Leasing × LeaseEvent))
    (h : Reach (Recalling (Step cfg self)) (fun x e => x.1.Happens e) ({}, []) x) :
    Recalling.Along (fun s _ => Paced s.lease.timeline) x ↔
      ∀ before e after, x.2 = before ++ e :: after → e.1.Timely e.2 := by
  refine Recalling.along_iff h (fun s _ => Paced s.lease.timeline) (fun _ s e => s.Timely e)
    Throughout.nil ?_
  intro s past e s' hrun hpaced hhappens hstep
  rw [hstep, ((recorded_of_run hrun).next hhappens).2]
  exact and_iff_right hpaced

end

-- All readings of a turn are the same.
def turnAt (t : Nat) (e : LoopEvent) : LeaseEvent :=
  .turn ⟨t, t, t, Nat.le_refl t, Nat.le_refl t⟩ e true

def connectsAt (t : Nat) : List LeaseEvent :=
  [turnAt t .start, turnAt t .opened, turnAt t (.welcome [WorkerLoop.pathtraceTile])]

def leasesAfter (es : List LeaseEvent) : Leasing × List (Leasing × LeaseEvent) :=
  (es.foldl (next TaskLoop.shortConfig 0) {},
    Recalling.history (next TaskLoop.shortConfig 0) {} es)

theorem leasesAfter_run (es : List LeaseEvent)
    (h : Recalling.passes (next TaskLoop.shortConfig 0) (fun _ s e => decide (s.Happens e)) []
      ({} : Leasing) es = true) :
    Reach (Recalling (Step TaskLoop.shortConfig 0)) (fun x e => x.1.Happens e) ({}, [])
      (leasesAfter es) := by
  have hnext : ∀ s e, Step TaskLoop.shortConfig 0 s e (s.next TaskLoop.shortConfig 0 e) :=
    fun _ _ => rfl
  exact Recalling.foldl_passes hnext (fun _ _ _ hcheck => of_decide_eq_true hcheck) es
    [] ({} : Leasing) h

-- The clock has just begun, as in a page that is new.
def asksEarly : List LeaseEvent :=
  connectsAt 10 ++ [turnAt 100 (.poll .able), turnAt 1000 (.poll .able), turnAt 1700 (.poll .able)]

def asksTwice : List LeaseEvent :=
  connectsAt 9000 ++ [turnAt 10000 (.poll .able), turnAt 10010 (.poll .able)]

theorem requests_paced_early :
    (leasesAfter asksEarly).1.lease.timeline =
        [.requested 100, .expired 1700, .requested 1700] ∧
      (Recalling.Along (fun s _ => Paced s.lease.timeline) (leasesAfter asksEarly) ↔
        ∀ before e after, (leasesAfter asksEarly).2 = before ++ e :: after → e.1.Timely e.2) :=
  ⟨by decide +kernel, requests_paced_iff TaskLoop.shortConfig 0 (leasesAfter asksEarly)
    (leasesAfter_run asksEarly (by decide +kernel))⟩

-- The next poll takes the request for unanswered, and sends another.
theorem requests_not_paced :
    (leasesAfter asksTwice).1.lease.timeline =
        [.requested 10000, .expired 10010, .requested 10010] ∧
      ¬ ∀ x, Reach (Recalling (Step TaskLoop.shortConfig 0)) (fun x e => x.1.Happens e) ({}, []) x →
        Recalling.Along (fun s _ => Paced s.lease.timeline) x := by
  have hmarks : (leasesAfter asksTwice).1.lease.timeline =
      [.requested 10000, .expired 10010, .requested 10010] := by decide +kernel
  refine ⟨hmarks, fun h => ?_⟩
  have hrun := leasesAfter_run asksTwice (by decide +kernel)
  have hpaced : Paced (leasesAfter asksTwice).1.lease.timeline := (h _ hrun).2
  rw [hmarks] at hpaced
  have hfits := hpaced [.requested 10000] (.expired 10010) [.requested 10010] rfl
  have hlate := hfits.apart 10010 (.inr rfl) 10000 (unanswered_last rfl)
  exact absurd hlate (by decide)

end Leasing

end P2pGpu.Worker
