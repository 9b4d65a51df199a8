import Mathlib.Data.List.Perm.Basic
import P2pGpu.Data.Reach
import P2pGpu.Protocol.Frame

namespace P2pGpu.Worker

open P2pGpu.Protocol

-- What an envelope carries.
inductive Body where
  | none
  | hello
  | welcome
  | benchmarkRequest
  | benchmarkResult
  | leaseRequest
  | taskGrant
  | leaseAck
  | progress
  | resultHeader
  | release
  | revoke
  | throttle
  | peerList
  | signal
  | goodbye
  | shutdown
  | error
  | assetRequest
  | assetChunk
  | assetMiss
deriving DecidableEq, Repr

-- `readEnvelope` is the verifier and the reader that are made from the schema: nothing for
-- a buffer that is refused, then the root, if there is one.
def verifyFrame (readEnvelope : List UInt8 → Option (Option Body)) (frame : List UInt8) :
    Except Error Body :=
  match Frame.splitFrame 0 frame with
  | .error e => .error e
  | .ok regions =>
      match readEnvelope regions.fb with
      | none => .error (makeError .malformedMessage "flatbuffers verification failed")
      | some none => .error (makeError .malformedMessage "verified buffer has no root")
      | some (some .none) => .error (makeError .malformedMessage "envelope has no body")
      | some (some body) => .ok body

def isSignal (readEnvelope : List UInt8 → Option (Option Body)) (frame : List UInt8) : Bool :=
  match verifyFrame readEnvelope frame with
  | .ok .signal => true
  | _ => false

-- A frame, with its number in the order of arrival.
abbrev Arrival : Type := Nat × List UInt8

-- Where the one thread that polls stands.
inductive Doing where
  | outside
  -- At the lock of the loop in `Poll`, and with the frame that was taken there.
  | draining
  | holding (frame : Arrival)
  | drained
  -- In `RunTask`, and in `PumpSignalling` with the frames that were swapped out.
  | executing
  | pumping (pending keep : List Arrival)
deriving DecidableEq, Repr

def Doing.isExecution : Doing → Bool
  | .executing => true
  | .pumping _ _ => true
  | _ => false

-- `arrived` and `handled` record the run: all that came, and what was handled, each with
-- whether a task was executed meanwhile.
structure Inbox where
  inbox : List Arrival := []
  doing : Doing := .outside
  arrived : List Arrival := []
  handled : List (Arrival × Bool) := []
deriving DecidableEq, Repr

-- `enqueue` is the transport's, which can come at any time. Between two others the lock is
-- free.
inductive InboxEvent where
  | enqueue (frame : List UInt8)
  | poll
  | take
  | onFrame
  | finishDrain
  | execute
  | startPump
  | sift
  | putBack
  | finishExecution
  | leave
deriving DecidableEq, Repr

namespace Inbox

def handle (s : Inbox) (frame : Arrival) : Inbox :=
  { s with handled := s.handled ++ [(frame, s.doing.isExecution)] }

section

variable (signals : List UInt8 → Bool)

def next (s : Inbox) : InboxEvent → Option Inbox
  | .enqueue frame =>
      let arrival := (s.arrived.length, frame)
      some { s with inbox := s.inbox ++ [arrival], arrived := s.arrived ++ [arrival] }
  | .poll =>
      match s.doing with
      | .outside => some { s with doing := .draining }
      | _ => none
  | .take =>
      match s.doing, s.inbox with
      | .draining, frame :: rest => some { s with inbox := rest, doing := .holding frame }
      | _, _ => none
  | .onFrame =>
      match s.doing with
      | .holding frame => some { s.handle frame with doing := .draining }
      | _ => none
  | .finishDrain =>
      match s.doing, s.inbox with
      | .draining, [] => some { s with doing := .drained }
      | _, _ => none
  | .execute =>
      match s.doing with
      | .drained => some { s with doing := .executing }
      | _ => none
  | .startPump =>
      match s.doing with
      | .executing => some { s with inbox := [], doing := .pumping s.inbox [] }
      | _ => none
  | .sift =>
      match s.doing with
      | .pumping (frame :: pending) keep =>
          if signals frame.2 then some { s.handle frame with doing := .pumping pending keep }
          else some { s with doing := .pumping pending (keep ++ [frame]) }
      | _ => none
  | .putBack =>
      match s.doing with
      | .pumping [] keep => some { s with inbox := keep ++ s.inbox, doing := .executing }
      | _ => none
  | .finishExecution =>
      match s.doing with
      | .executing => some { s with doing := .outside }
      | _ => none
  | .leave =>
      match s.doing with
      | .drained => some { s with doing := .outside }
      | _ => none

def Step (s : Inbox) (e : InboxEvent) (s' : Inbox) : Prop := s.next signals e = some s'

end

-- What was not handled yet, from the first on.
def waiting (s : Inbox) : List Arrival :=
  (match s.doing with
    | .holding frame => [frame]
    | .pumping pending keep => keep ++ pending
    | _ => []) ++ s.inbox

-- In the order of arrival, and what is left comes after what was handled.
def InOrder (s : Inbox) (which : Arrival → Bool) : Prop :=
  (s.handled.map Prod.fst).filter which ++ s.waiting.filter which = s.arrived.filter which

structure Kept (signals : List UInt8 → Bool) (s : Inbox) : Prop where
  picked : s.InOrder fun a => signals a.2
  others : s.InOrder fun a => !signals a.2
  sifted : ∀ pending keep, s.doing = .pumping pending keep → ∀ a ∈ keep, signals a.2 = false
  during : ∀ e ∈ s.handled, e.2 = true → signals e.1.2 = true
  numbered : s.arrived.map Prod.fst = List.range s.arrived.length

-- What a step of the thread or of the transport does to the frames.
inductive Moves (signals : List UInt8 → Bool) (s s' : Inbox) : Prop where
  | arrives (frame : List UInt8)
      (waiting : s'.waiting = s.waiting ++ [(s.arrived.length, frame)])
      (arrived : s'.arrived = s.arrived ++ [(s.arrived.length, frame)])
      (handled : s'.handled = s.handled) (doing : s'.doing = s.doing)
  | stays (waiting : s'.waiting = s.waiting) (arrived : s'.arrived = s.arrived)
      (handled : s'.handled = s.handled)
      (sifted : ∀ pending keep, s'.doing = .pumping pending keep → keep = [] ∨
        ∃ frame before, s.doing = .pumping (frame :: pending) before ∧
          keep = before ++ [frame] ∧ signals frame.2 = false)
  | takes (frame : Arrival) (waiting : s.waiting = frame :: s'.waiting)
      (arrived : s'.arrived = s.arrived) (handled : s'.handled = s.handled ++ [(frame, false)])
      (doing : s'.doing = .draining)
  | picks (frame : Arrival) (pending keep : List Arrival)
      (before : s.doing = .pumping (frame :: pending) keep)
      (doing : s'.doing = .pumping pending keep)
      (signal : signals frame.2 = true) (inbox : s'.inbox = s.inbox)
      (arrived : s'.arrived = s.arrived) (handled : s'.handled = s.handled ++ [(frame, true)])

section

variable {signals : List UInt8 → Bool} {s s' : Inbox} {e : InboxEvent} {which : Arrival → Bool}

theorem waiting_pumping {pending keep : List Arrival} (h : s.doing = .pumping pending keep) :
    s.waiting = keep ++ pending ++ s.inbox := by
  rw [waiting, h]

theorem step_moves (h : Step signals s e s') : Moves signals s s' := by
  obtain ⟨inbox, doing, arrived, handled⟩ := s
  cases e with
  | enqueue frame =>
      obtain rfl := Option.some.inj h
      refine .arrives frame ?_ rfl rfl rfl
      exact (List.append_assoc _ _ _).symm
  | poll =>
      cases doing with
      | outside =>
          obtain rfl := Option.some.inj h
          exact .stays rfl rfl rfl fun _ _ hdoing => by cases hdoing
      | draining | holding | drained | executing | pumping => cases h
  | take =>
      cases doing with
      | draining =>
          cases inbox with
          | nil => cases h
          | cons frame rest =>
              obtain rfl := Option.some.inj h
              exact .stays rfl rfl rfl fun _ _ hdoing => by cases hdoing
      | outside | holding | drained | executing | pumping => cases h
  | onFrame =>
      cases doing with
      | holding frame =>
          obtain rfl := Option.some.inj h
          exact .takes frame rfl rfl rfl rfl
      | outside | draining | drained | executing | pumping => cases h
  | finishDrain =>
      cases doing with
      | draining =>
          cases inbox with
          | nil =>
              obtain rfl := Option.some.inj h
              exact .stays rfl rfl rfl fun _ _ hdoing => by cases hdoing
          | cons => cases h
      | outside | holding | drained | executing | pumping => cases h
  | execute =>
      cases doing with
      | drained =>
          obtain rfl := Option.some.inj h
          exact .stays rfl rfl rfl fun _ _ hdoing => by cases hdoing
      | outside | draining | holding | executing | pumping => cases h
  | startPump =>
      cases doing with
      | executing =>
          obtain rfl := Option.some.inj h
          refine .stays ?_ rfl rfl fun pending keep hdoing => ?_
          · exact List.append_nil inbox
          · cases hdoing
            exact .inl rfl
      | outside | draining | holding | drained | pumping => cases h
  | sift =>
      cases doing with
      | pumping pending keep =>
          cases pending with
          | nil => cases h
          | cons frame pending =>
              by_cases hsignal : signals frame.2 = true
              · have hnext := (if_pos hsignal).symm.trans h
                obtain rfl := Option.some.inj hnext
                exact .picks frame pending keep rfl rfl hsignal rfl rfl rfl
              · have hnext := (if_neg hsignal).symm.trans h
                obtain rfl := Option.some.inj hnext
                refine .stays ?_ rfl rfl fun pending' keep' hdoing => ?_
                · simp [waiting]
                · cases hdoing
                  exact .inr ⟨frame, keep, rfl, rfl, Bool.eq_false_of_not_eq_true hsignal⟩
      | outside | draining | holding | drained | executing => cases h
  | putBack =>
      cases doing with
      | pumping pending keep =>
          cases pending with
          | nil =>
              obtain rfl := Option.some.inj h
              refine .stays ?_ rfl rfl fun _ _ hdoing => by cases hdoing
              simp [waiting]
          | cons => cases h
      | outside | draining | holding | drained | executing => cases h
  | finishExecution =>
      cases doing with
      | executing =>
          obtain rfl := Option.some.inj h
          exact .stays rfl rfl rfl fun _ _ hdoing => by cases hdoing
      | outside | draining | holding | drained | pumping => cases h
  | leave =>
      cases doing with
      | drained =>
          obtain rfl := Option.some.inj h
          exact .stays rfl rfl rfl fun _ _ hdoing => by cases hdoing
      | outside | draining | holding | executing | pumping => cases h

theorem InOrder.take {frame : Arrival} {b : Bool} (h : s.InOrder which)
    (hwaiting : s.waiting = frame :: s'.waiting) (harrived : s'.arrived = s.arrived)
    (hhandled : s'.handled = s.handled ++ [(frame, b)]) : s'.InOrder which := by
  unfold InOrder at h ⊢
  rw [hwaiting] at h
  rw [hhandled, harrived, ← h, List.map_append, List.filter_append, List.append_assoc]
  congr 1
  exact (List.filter_append [frame] s'.waiting).symm

theorem InOrder.arrive {frame : Arrival} (h : s.InOrder which)
    (hwaiting : s'.waiting = s.waiting ++ [frame]) (harrived : s'.arrived = s.arrived ++ [frame])
    (hhandled : s'.handled = s.handled) : s'.InOrder which := by
  unfold InOrder at h ⊢
  rw [hwaiting, harrived, hhandled, List.filter_append, List.filter_append, ← List.append_assoc, h]

theorem InOrder.stay (h : s.InOrder which) (hwaiting : s'.waiting = s.waiting)
    (harrived : s'.arrived = s.arrived) (hhandled : s'.handled = s.handled) :
    s'.InOrder which := by
  unfold InOrder at h ⊢
  rw [hwaiting, harrived, hhandled, h]

-- A frame that is picked is the first of its kind, and not of the other kind.
theorem InOrder.pick {frame : Arrival} {pending keep : List Arrival} (h : s.InOrder which)
    (hbefore : s.doing = .pumping (frame :: pending) keep)
    (hdoing : s'.doing = .pumping pending keep)
    (hinbox : s'.inbox = s.inbox) (harrived : s'.arrived = s.arrived)
    (hhandled : s'.handled = s.handled ++ [(frame, true)])
    (hfirst : which frame = true → ∀ a ∈ keep, which a = false) : s'.InOrder which := by
  unfold InOrder at h ⊢
  rw [waiting_pumping hbefore, List.filter_append, List.filter_append] at h
  rw [waiting_pumping hdoing, hinbox, harrived, hhandled, ← h, List.map_append, List.filter_append,
    List.filter_append, List.filter_append, List.map_cons, List.map_nil]
  by_cases hwhich : which frame = true
  · have hnone : keep.filter which = [] :=
      List.filter_eq_nil_iff.mpr fun a ha => by rw [hfirst hwhich a ha]; decide
    rw [hnone, List.filter_cons_of_pos hwhich, List.filter_cons_of_pos hwhich]
    simp
  · rw [List.filter_cons_of_neg hwhich, List.filter_cons_of_neg hwhich]
    simp

theorem Kept.start : Kept signals {} where
  picked := rfl
  others := rfl
  sifted _ _ h := by cases h
  during _ h := by cases h
  numbered := rfl

theorem Kept.step (h : Kept signals s) (hs : Step signals s e s') : Kept signals s' := by
  cases step_moves hs with
  | arrives frame hwaiting harrived hhandled hdoing =>
      refine ⟨h.picked.arrive hwaiting harrived hhandled,
        h.others.arrive hwaiting harrived hhandled, ?_, ?_, ?_⟩
      · rw [hdoing]
        exact h.sifted
      · rw [hhandled]
        exact h.during
      · rw [harrived, List.map_append, h.numbered, List.length_append]
        exact List.range_succ.symm
  | stays hwaiting harrived hhandled hsifted =>
      refine ⟨h.picked.stay hwaiting harrived hhandled, h.others.stay hwaiting harrived hhandled,
        fun pending keep hdoing a ha => ?_, ?_, ?_⟩
      · rcases hsifted pending keep hdoing with rfl | ⟨frame, before, hbefore, rfl, hother⟩
        · cases ha
        · rcases List.mem_append.mp ha with hold | hnew
          · exact h.sifted _ _ hbefore a hold
          · rw [List.mem_singleton.mp hnew]
            exact hother
      · rw [hhandled]
        exact h.during
      · rw [harrived]
        exact h.numbered
  | takes frame hwaiting harrived hhandled hdoing =>
      refine ⟨h.picked.take hwaiting harrived hhandled, h.others.take hwaiting harrived hhandled,
        fun pending keep hpumping => ?_, fun e he hduring => ?_, ?_⟩
      · rw [hdoing] at hpumping
        cases hpumping
      · rw [hhandled] at he
        rcases List.mem_append.mp he with hold | hnew
        · exact h.during e hold hduring
        · rw [List.mem_singleton.mp hnew] at hduring
          cases hduring
      · rw [harrived]
        exact h.numbered
  | picks frame pending keep hbefore hdoing hsignal hinbox harrived hhandled =>
      have hsifted := h.sifted _ _ hbefore
      refine ⟨h.picked.pick hbefore hdoing hinbox harrived hhandled fun _ => hsifted,
        h.others.pick hbefore hdoing hinbox harrived hhandled fun hother => ?_,
        fun pending' keep' hpumping => ?_, fun e he hduring => ?_, ?_⟩
      · rw [hsignal] at hother
        cases hother
      · rw [hdoing] at hpumping
        cases hpumping
        exact hsifted
      · rw [hhandled] at he
        rcases List.mem_append.mp he with hold | hnew
        · exact h.during e hold hduring
        · rw [List.mem_singleton.mp hnew]
          exact hsignal
      · rw [harrived]
        exact h.numbered

theorem kept_of_reach {guard : Inbox → InboxEvent → Prop} (h : Reach (Step signals) guard {} s) :
    Kept signals s :=
  h.invariant (Kept signals) .start fun _ _ _ hkept _ hstep => hkept.step hstep

-- What was handled and what waits is all that came.
theorem Kept.perm (h : Kept signals s) : (s.handled.map Prod.fst ++ s.waiting).Perm s.arrived := by
  have hkinds : ∀ l : List Arrival,
      (l.filter (fun a => signals a.2) ++ l.filter fun a => !signals a.2).Perm l :=
    fun l => List.filter_append_perm _ l
  refine (hkinds _).symm.trans (List.Perm.trans ?_ (hkinds _))
  rw [← h.picked, ← h.others, List.filter_append, List.filter_append]

-- The transport rests.
def Resting (_ : Inbox) (e : InboxEvent) : Prop := ∀ frame, e ≠ .enqueue frame

-- The loop in `Poll` handles all that is there.
theorem drain_ends (signals : List UInt8 → Bool) (inbox : List Arrival) (arrived : List Arrival)
    (handled : List (Arrival × Bool)) :
    ∃ handled', Reach (Step signals) Resting ⟨inbox, .draining, arrived, handled⟩
      ⟨[], .draining, arrived, handled'⟩ := by
  induction inbox generalizing handled with
  | nil => exact ⟨handled, .refl _⟩
  | cons frame rest ih =>
      obtain ⟨handled', hrun⟩ := ih (handled ++ [(frame, false)])
      have htake : Step signals ⟨frame :: rest, .draining, arrived, handled⟩ .take
        ⟨rest, .holding frame, arrived, handled⟩ := rfl
      have hframe : Step signals ⟨rest, .holding frame, arrived, handled⟩ .onFrame
        ⟨rest, .draining, arrived, handled ++ [(frame, false)]⟩ := rfl
      exact ⟨handled', Reach.head (fun _ h => by cases h) htake
        (Reach.head (fun _ h => by cases h) hframe hrun)⟩

-- A pump ends, and leaves the execution where it was.
theorem pump_ends (signals : List UInt8 → Bool) (inbox pending keep : List Arrival)
    (arrived : List Arrival) (handled : List (Arrival × Bool)) :
    ∃ inbox' handled', Reach (Step signals) Resting
      ⟨inbox, .pumping pending keep, arrived, handled⟩
      ⟨inbox', .executing, arrived, handled'⟩ := by
  induction pending generalizing keep handled with
  | nil =>
      have hback : Step signals ⟨inbox, .pumping [] keep, arrived, handled⟩ .putBack
        ⟨keep ++ inbox, .executing, arrived, handled⟩ := rfl
      exact ⟨_, _, Reach.head (fun _ h => by cases h) hback (.refl _)⟩
  | cons frame pending ih =>
      by_cases hsignal : signals frame.2 = true
      · obtain ⟨inbox', handled', hrun⟩ := ih keep (handled ++ [(frame, true)])
        have hsift : Step signals ⟨inbox, .pumping (frame :: pending) keep, arrived, handled⟩ .sift
          ⟨inbox, .pumping pending keep, arrived, handled ++ [(frame, true)]⟩ := if_pos hsignal
        exact ⟨_, _, Reach.head (fun _ h => by cases h) hsift hrun⟩
      · obtain ⟨inbox', handled', hrun⟩ := ih (keep ++ [frame]) handled
        have hsift : Step signals ⟨inbox, .pumping (frame :: pending) keep, arrived, handled⟩ .sift
          ⟨inbox, .pumping pending (keep ++ [frame]), arrived, handled⟩ := if_neg hsignal
        exact ⟨_, _, Reach.head (fun _ h => by cases h) hsift hrun⟩

-- From wherever it stands, the thread comes to its drain again.
theorem returns_to_drain (signals : List UInt8 → Bool) (s : Inbox) :
    ∃ inbox' handled', Reach (Step signals) Resting s ⟨inbox', .draining, s.arrived, handled'⟩ := by
  obtain ⟨inbox, doing, arrived, handled⟩ := s
  have hpoll : ∀ inbox handled, Step signals ⟨inbox, .outside, arrived, handled⟩ .poll
    ⟨inbox, .draining, arrived, handled⟩ := fun _ _ => rfl
  have hfinish : ∀ inbox handled, Step signals ⟨inbox, .executing, arrived, handled⟩
    .finishExecution ⟨inbox, .outside, arrived, handled⟩ := fun _ _ => rfl
  cases doing with
  | outside => exact ⟨_, _, Reach.head (fun _ h => by cases h) (hpoll _ _) (.refl _)⟩
  | draining => exact ⟨_, _, .refl _⟩
  | holding frame =>
      have hframe : Step signals ⟨inbox, .holding frame, arrived, handled⟩ .onFrame
        ⟨inbox, .draining, arrived, handled ++ [(frame, false)]⟩ := rfl
      exact ⟨_, _, Reach.head (fun _ h => by cases h) hframe (.refl _)⟩
  | drained =>
      have hleave : Step signals ⟨inbox, .drained, arrived, handled⟩ .leave
        ⟨inbox, .outside, arrived, handled⟩ := rfl
      exact ⟨_, _, Reach.head (fun _ h => by cases h) hleave
        (Reach.head (fun _ h => by cases h) (hpoll _ _) (.refl _))⟩
  | executing =>
      exact ⟨_, _, Reach.head (fun _ h => by cases h) (hfinish _ _)
        (Reach.head (fun _ h => by cases h) (hpoll _ _) (.refl _))⟩
  | pumping pending keep =>
      obtain ⟨inbox', handled', hrun⟩ := pump_ends signals inbox pending keep arrived handled
      exact ⟨_, _, hrun.trans (Reach.head (fun _ h => by cases h) (hfinish _ _)
        (Reach.head (fun _ h => by cases h) (hpoll _ _) (.refl _)))⟩

-- All that came can be handled without any more coming.
theorem all_handled (signals : List UInt8 → Bool) (s : Inbox) :
    ∃ s', Reach (Step signals) Resting s s' ∧ s'.arrived = s.arrived ∧ s'.waiting = [] := by
  obtain ⟨inbox, handled, hback⟩ := returns_to_drain signals s
  obtain ⟨handled', hdrain⟩ := drain_ends signals inbox s.arrived handled
  exact ⟨_, hback.trans hdrain, rfl, rfl⟩

theorem pumping_loses_nothing (readEnvelope : List UInt8 → Option (Option Body))
    (h : Reach (Step (isSignal readEnvelope)) (fun _ _ => True) {} s) :
    (s.arrived.map Prod.fst).Nodup ∧ (s.handled.map Prod.fst ++ s.waiting).Perm s.arrived ∧
      (s.InOrder fun a => !isSignal readEnvelope a.2) ∧
      (s.InOrder fun a => isSignal readEnvelope a.2) ∧
      (∀ e ∈ s.handled, e.2 = true → isSignal readEnvelope e.1.2 = true) ∧
      (∀ s', Step (isSignal readEnvelope) s .finishDrain s' →
        (s'.handled.map Prod.fst).Perm s'.arrived) ∧
      ∃ s', Reach (Step (isSignal readEnvelope)) Resting s s' ∧ s'.arrived = s.arrived ∧
        s'.waiting = [] := by
  have hkept := kept_of_reach h
  refine ⟨?_, hkept.perm, hkept.others, hkept.picked, hkept.during, fun s' hs => ?_,
    all_handled _ s⟩
  · rw [hkept.numbered]
    exact List.nodup_range
  · have hperm := (hkept.step hs).perm
    obtain ⟨inbox, doing, arrived, handled⟩ := s
    cases doing with
    | draining =>
        cases inbox with
        | nil =>
            obtain rfl := Option.some.inj hs
            rw [← List.append_nil (List.map _ _)]
            exact hperm
        | cons => cases hs
    | outside | holding | drained | executing | pumping => cases hs

theorem reach_of_run (es : List InboxEvent) (h : es.foldlM (next signals) s = some s') :
    Reach (Step signals) (fun _ _ => True) s s' := by
  induction es generalizing s with
  | nil =>
      obtain rfl := Option.some.inj h
      exact .refl _
  | cons e es ih =>
      rw [List.foldlM_cons] at h
      obtain ⟨mid, hstep, hrest⟩ := Option.bind_eq_some_iff.mp h
      exact Reach.head trivial hstep (ih hrest)

end

-- The smallest envelope with a body of the given kind, as the schema lays it out.
def bareEnvelope (kind : UInt8) : List UInt8 :=
  [0x0C, 0, 0, 0, 0x08, 0, 0x0C, 0, 0x08, 0, 0x04, 0, 0x08, 0, 0, 0,
    0x0C, 0, 0, 0, kind, 0, 0, 0, 0x04, 0, 0x04, 0, 0x04, 0, 0, 0]

def readBare (fb : List UInt8) : Option (Option Body) :=
  if fb = bareEnvelope 14 then some (some .signal)
  else if fb = bareEnvelope 16 then some (some .shutdown)
  else none

def bareFrame (kind : UInt8) : List UInt8 := Frame.encodeFrame (bareEnvelope kind) []

-- A signal overtakes what came before it, and another one comes while the pump is running.
def pumpedRun : List InboxEvent :=
  [.enqueue (bareFrame 16), .poll, .take, .onFrame, .finishDrain, .execute,
    .enqueue (bareFrame 16), .enqueue (bareFrame 14), .startPump, .enqueue (bareFrame 14), .sift,
    .sift, .putBack, .finishExecution, .poll, .take, .onFrame, .take, .onFrame]

theorem pumping_loses_nothing_run : ∃ s,
    pumpedRun.foldlM (next (isSignal readBare)) {} = some s ∧
      s.handled.map (fun e => (e.1.1, e.2)) = [(0, false), (2, true), (1, false), (3, false)] ∧
      (s.handled.map Prod.fst ++ s.waiting).Perm s.arrived ∧
      s.InOrder fun a => !isSignal readBare a.2 := by
  cases hrun : pumpedRun.foldlM (next (isSignal readBare)) {} with
  | none =>
      have hsome : (pumpedRun.foldlM (next (isSignal readBare)) {}).isSome = true := by
        decide +kernel
      rw [hrun] at hsome
      cases hsome
  | some s =>
      have hhandled : (pumpedRun.foldlM (next (isSignal readBare)) {}).map
          (fun s => s.handled.map fun e => (e.1.1, e.2)) =
          some [(0, false), (2, true), (1, false), (3, false)] := by decide +kernel
      rw [hrun] at hhandled
      obtain ⟨-, hperm, hothers, -⟩ := pumping_loses_nothing readBare (reach_of_run _ hrun)
      exact ⟨s, rfl, Option.some.inj hhandled, hperm, hothers⟩

end Inbox

end P2pGpu.Worker
