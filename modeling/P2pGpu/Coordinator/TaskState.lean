import P2pGpu.Protocol.Error

namespace P2pGpu.Coordinator

open P2pGpu.Protocol

inductive TaskState where
  | queued
  | leased
  | validating
  | needsReplica
  | accepted
  | rejected
  | cancelled
deriving DecidableEq, Repr

inductive TaskEvent where
  | grant
  | renew
  | submit
  | leaseExpired
  | release
  | accept
  | disagreement
  | issueReplica
  | reject
  | cancel
deriving DecidableEq, Repr

def isTerminal : TaskState → Bool
  | .accepted | .rejected | .cancelled => true
  | .queued | .leased | .validating | .needsReplica => false

-- A worker selects no transition directly, so an illegal one is ours.
def illegal : Error := makeError .internal "illegal task state transition"

def advance (fr : TaskState) (ev : TaskEvent) : Except Error TaskState :=
  match fr with
  | .queued =>
      match ev with
      | .grant => .ok .leased
      | .renew | .submit | .leaseExpired | .release | .accept | .disagreement
      | .issueReplica | .reject | .cancel => .error illegal
  | .leased =>
      match ev with
      | .renew => .ok .leased
      | .submit => .ok .validating
      | .leaseExpired | .release => .ok .queued
      | .cancel => .ok .cancelled
      | .grant | .accept | .disagreement | .issueReplica | .reject => .error illegal
  | .validating =>
      match ev with
      | .accept => .ok .accepted
      | .reject => .ok .rejected
      | .disagreement => .ok .needsReplica
      | .cancel => .ok .cancelled
      | .grant | .renew | .submit | .leaseExpired | .release | .issueReplica =>
          .error illegal
  | .needsReplica =>
      match ev with
      | .issueReplica => .ok .queued
      | .cancel => .ok .cancelled
      | .grant | .renew | .submit | .leaseExpired | .release | .accept | .disagreement
      | .reject => .error illegal
  | .accepted | .rejected | .cancelled =>
      match ev with
      | .grant | .renew | .submit | .leaseExpired | .release | .accept | .disagreement
      | .issueReplica | .reject | .cancel => .error illegal

def edges : List (TaskState × TaskEvent × TaskState) :=
  [(.queued, .grant, .leased), (.leased, .renew, .leased), (.leased, .submit, .validating),
    (.leased, .leaseExpired, .queued), (.leased, .release, .queued),
    (.leased, .cancel, .cancelled), (.validating, .accept, .accepted),
    (.validating, .reject, .rejected), (.validating, .disagreement, .needsReplica),
    (.validating, .cancel, .cancelled), (.needsReplica, .issueReplica, .queued),
    (.needsReplica, .cancel, .cancelled)]

theorem advance_ok {fr next : TaskState} {ev : TaskEvent} :
    advance fr ev = .ok next ↔ (fr, ev, next) ∈ edges := by
  cases fr <;> cases ev <;> simp [advance, edges, eq_comm]

-- The edges, read from their event.
theorem advance_grant {fr next : TaskState} :
    advance fr .grant = .ok next ↔ fr = .queued ∧ next = .leased := by
  simp [advance_ok, edges]

theorem advance_renew {fr next : TaskState} :
    advance fr .renew = .ok next ↔ fr = .leased ∧ next = .leased := by
  simp [advance_ok, edges]

theorem advance_submit {fr next : TaskState} :
    advance fr .submit = .ok next ↔ fr = .leased ∧ next = .validating := by
  simp [advance_ok, edges]

theorem advance_leaseExpired {fr next : TaskState} :
    advance fr .leaseExpired = .ok next ↔ fr = .leased ∧ next = .queued := by
  simp [advance_ok, edges]

theorem advance_release {fr next : TaskState} :
    advance fr .release = .ok next ↔ fr = .leased ∧ next = .queued := by
  simp [advance_ok, edges]

theorem advance_accept {fr next : TaskState} :
    advance fr .accept = .ok next ↔ fr = .validating ∧ next = .accepted := by
  simp [advance_ok, edges]

theorem advance_reject {fr next : TaskState} :
    advance fr .reject = .ok next ↔ fr = .validating ∧ next = .rejected := by
  simp [advance_ok, edges]

theorem advance_disagreement {fr next : TaskState} :
    advance fr .disagreement = .ok next ↔ fr = .validating ∧ next = .needsReplica := by
  simp [advance_ok, edges]

theorem advance_issueReplica {fr next : TaskState} :
    advance fr .issueReplica = .ok next ↔ fr = .needsReplica ∧ next = .queued := by
  simp [advance_ok, edges]

theorem advance_cancel {fr next : TaskState} :
    advance fr .cancel = .ok next ↔
      (fr = .leased ∨ fr = .validating ∨ fr = .needsReplica) ∧ next = .cancelled := by
  simp [advance_ok, edges, or_and_right]

-- Terminal states are left by no event.
theorem advance_terminal {fr : TaskState} (h : isTerminal fr = true) (ev : TaskEvent) :
    advance fr ev = .error illegal := by
  cases fr <;> cases ev <;> first | rfl | exact absurd h (by decide)

end P2pGpu.Coordinator
