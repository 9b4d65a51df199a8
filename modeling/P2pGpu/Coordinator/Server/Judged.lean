import P2pGpu.Coordinator.Server.Pool
import P2pGpu.Coordinator.Server.Published

namespace P2pGpu.Coordinator

open P2pGpu.Protocol

-- What is entered in the table of reputations.
inductive Entry (F : Type) where
  | accepted (worker : WorkerId)
  | rejected (worker : WorkerId) (severity : F) (spotCheck : Bool)

section

variable {F : Type} [Double F]

namespace Entry

def worker : Entry F → WorkerId
  | .accepted worker => worker
  | .rejected worker _ _ => worker

-- Whoever is rejected may be barred for it.
def enter (nowMs : UInt64) (rep : ReputationTable F) : Entry F → ReputationTable F
  | .accepted worker => rep.recordAccepted worker
  | .rejected worker severity spotCheck =>
      ((rep.recordRejected worker severity spotCheck).maybeBlacklist worker nowMs).2

end Entry

namespace Hearing

open Session

-- The answer that is known, where the task is a probe.
def expected (c : Hearing) (v : Server F) : Option UInt64 :=
  v.shared.spotChecks.bind fun pool => pool.expectedFor c.taskId

def Fails (c : Hearing) (v : Server F) : Prop :=
  ∃ checksum, c.expected v = some checksum ∧ c.header.checksum ≠ checksum

-- What is entered on account of the spot check, and then of the quorum.
def probeEntries (c : Hearing) (v : Server F) : List (Entry F) :=
  match c.expected v with
  | none => []
  | some checksum =>
      if c.header.checksum = checksum then [.accepted c.session.workerId]
      else [.rejected c.session.workerId kSpotCheckSeverity true]

def quorumEntries (q : QuorumResult F) : List (Entry F) :=
  q.agreeing.map Entry.accepted ++ q.dissenting.map fun worker =>
    .rejected worker (severityFromDeviation q.dissentMaxUlp q.dissentMaxRel) false

def entries (cfg : Config F) (v : Server F) (c : Hearing) : List (Entry F) :=
  if v.shared.reputation.isSome then
    c.probeEntries v ++
      if (c.verdict cfg v).action = .accept then quorumEntries (c.verdict cfg v) else []
  else []

end Hearing

namespace Server

open JobManager Session Quorum

variable {cfg : Config F} {v₀ v v' : Server F} {e : Event F} {c : Hearing} {good : JobId → Prop}
  {past : List (Server F × Event F)}

theorem settleReputation_entries (q : QuorumResult F) (nowMs : UInt64) (rep : ReputationTable F) :
    settleReputation q nowMs rep = (Hearing.quorumEntries q).foldl (Entry.enter nowMs) rep := by
  unfold settleReputation Hearing.quorumEntries
  rw [List.foldl_append, List.foldl_map, List.foldl_map]
  rfl

theorem opened_entries (c : Hearing) (v : Server F) :
    (c.opened v).reputation = v.shared.reputation.map fun rep =>
      (c.probeEntries v).foldl (Entry.enter c.session.nowMs) rep := by
  have hstats : ∀ w : Shared F, (c.session.recordStats w c.header.stats).spotChecks =
        w.spotChecks ∧ (c.session.recordStats w c.header.stats).reputation = w.reputation := by
    intro w
    unfold recordStats
    split
    · exact ⟨rfl, rfl⟩
    · exact ⟨rfl, rfl⟩
  have hasset : ∀ w : Shared F, (c.session.creditAsset w c.taskId).spotChecks = w.spotChecks ∧
      (c.session.creditAsset w c.taskId).reputation = w.reputation := by
    intro w
    unfold creditAsset
    split
    · exact ⟨rfl, rfl⟩
    · split <;> exact ⟨rfl, rfl⟩
  have hprobe : ∀ w : Shared F, w.spotChecks = v.shared.spotChecks →
      (c.session.checkProbe w c.taskId c.header.checksum).reputation = w.reputation.map fun rep =>
        (c.probeEntries v).foldl (Entry.enter c.session.nowMs) rep := by
    intro w hw
    unfold checkProbe Hearing.probeEntries Hearing.expected
    rw [← hw]
    cases hpool : w.spotChecks with
    | none => simp
    | some pool =>
        cases hexpected : pool.expectedFor c.taskId with
        | none => simp [hexpected]
        | some checksum =>
            by_cases hright : c.header.checksum = checksum
            · simp [hexpected, hright, Entry.enter]
            · simp [hexpected, hright, Entry.enter]
  unfold Hearing.opened readied prepare
  rw [hprobe]
  · rw [(hasset _).2, (hstats _).2]
    rfl
  · rw [(hasset _).1, (hstats _).1]
    rfl

-- The entries are what becomes of the table.
theorem Hears.enters (h : v.Hears cfg e c) :
    (v.next cfg e).shared.reputation = v.shared.reputation.map fun rep =>
      (c.entries cfg v).foldl (Entry.enter c.session.nowMs) rep := by
  cases hrep : v.shared.reputation with
  | none =>
      have hsome := h.reputation
      rw [hrep] at hsome
      exact Option.isNone_iff_eq_none.mp (by simpa using hsome)
  | some rep =>
      have hopened := opened_entries c v
      unfold Hearing.entries
      rw [hrep] at hopened ⊢
      rw [Option.isSome_some, if_pos rfl]
      by_cases haccept : (c.verdict cfg v).action = .accept
      · rw [if_pos haccept, (h.publishes haccept).settled, hopened]
        simp only [Option.map_some, List.foldl_append, settleReputation_entries]
      · rw [if_neg haccept, (h.waits haccept).2.2, hopened, List.append_nil]

theorem Vetted.expected (hv : v.Vetted cfg) (h : (c.expected v).isSome) :
    cfg.quorum.policy ≠ .none ∧ v.shared.reputation.isSome := by
  obtain ⟨x, hx⟩ := Option.isSome_iff_exists.mp h
  obtain ⟨pool, hpool, hexpected⟩ := Option.bind_eq_some_iff.mp hx
  exact hv.probed hpool hexpected

end Server

end

namespace Server

-- A coordinator with a pool. Its sixth task makes way for a probe.
def probeStart : Server Rat := { shared := { reputation := some {}, spotChecks := some {} } }

def probeRun : List (Event Rat) :=
  crew ++ (List.range' 2 5).flatMap agreeing ++ [asks 2 1000]

end Server

end P2pGpu.Coordinator
