import P2pGpu.Coordinator.Double
import P2pGpu.Data.Table
import P2pGpu.Protocol.Ids

namespace P2pGpu.Coordinator

open P2pGpu.Protocol

-- A resume token, by its bytes.
abbrev Token : Type := List UInt8

structure ReputationConfig (F : Type) [Double F] where
  alpha0 : F := 2.0
  beta0 : F := 2.0
  blacklistBelow : F := 0.30
  cooldownMs : UInt64 := 300000
  trustedAt : F := 0.90
  maxPenalty : F := 4.0

-- The score is a mean with its own weight: one lucky answer does not move it far.
structure Reputation (F : Type) where
  alpha : F
  beta : F
  accepted : UInt32 := 0
  rejected : UInt32 := 0
  spotCheckFailures : UInt32 := 0
  blacklistedUntilMs : UInt64 := 0
  onProbation : Bool := false

structure ReputationTable (F : Type) [Double F] where
  cfg : ReputationConfig F := {}
  workers : Table WorkerId (Reputation F) := ∅
  byToken : Table Token WorkerId := ∅
  tokens : Table WorkerId Token := ∅

section

variable {F : Type} [Double F]

def Reputation.score (r : Reputation F) : F :=
  let n := r.alpha + r.beta
  if 0.0 < n then r.alpha / n else 0.0

-- A near miss stays at the floor, and what is not finite at the ceiling.
def severityFromDeviation (maxUlp : UInt32) (maxRel : F) : F :=
  if maxUlp ≤ 16 then 0.25
  else if !Double.isFinite maxRel then 4.0
  else
    let rel := Double.max maxRel 1e-9
    let decades := Double.log10 rel + 9.0
    Double.clamp (0.5 + decades * 0.4) 0.5 4.0

namespace ReputationTable

-- The random draw is the caller's.
def mintToken (t : ReputationTable F) (id : WorkerId) (token : Token) : ReputationTable F :=
  let byToken :=
    match t.tokens.lookup id with
    | none => t.byToken
    | some previous => t.byToken.erase previous
  { t with byToken := byToken.insert token id, tokens := t.tokens.insert id token }

def resolveToken (t : ReputationTable F) (token : Token) : Option WorkerId :=
  if token = [] then none else t.byToken.lookup token

def find (t : ReputationTable F) (id : WorkerId) : Option (Reputation F) := t.workers.lookup id

def prior (t : ReputationTable F) : Reputation F := { alpha := t.cfg.alpha0, beta := t.cfg.beta0 }

-- Asking about a worker that is not known creates it at the prior.
def «mutable» (t : ReputationTable F) (id : WorkerId) : Reputation F :=
  (t.find id).getD t.prior

def put (t : ReputationTable F) (id : WorkerId) (r : Reputation F) : ReputationTable F :=
  { t with workers := t.workers.upsert id r fun _ => r }

theorem find_put (t : ReputationTable F) (id i : WorkerId) (r : Reputation F) :
    (t.put id r).find i = if i = id then some r else t.find i := by
  have hlookup := Table.lookup_upsert t.workers id i r fun _ => r
  by_cases hi : i = id
  · rw [if_pos hi] at hlookup ⊢
    refine hlookup.trans ?_
    cases t.workers.lookup i with
    | none => rfl
    | some old => rfl
  · rw [if_neg hi] at hlookup ⊢
    exact hlookup

def scoreOf (t : ReputationTable F) (id : WorkerId) : F :=
  match t.find id with
  | some r => r.score
  | none => t.cfg.alpha0 / (t.cfg.alpha0 + t.cfg.beta0)

def recordAccepted (t : ReputationTable F) (id : WorkerId) : ReputationTable F :=
  let r := t.mutable id
  let r := { r with accepted := r.accepted + 1, alpha := r.alpha + 1.0 }
  -- Probation ends by being right.
  t.put id
    (if r.onProbation ∧ t.cfg.trustedAt ≤ r.score then { r with onProbation := false } else r)

def recordRejected (t : ReputationTable F) (id : WorkerId) (severity : F) (spotCheck : Bool) :
    ReputationTable F :=
  let r := t.mutable id
  let r := { r with rejected := r.rejected + 1 }
  let (r, severity) :=
    if spotCheck then
      ({ r with spotCheckFailures := r.spotCheckFailures + 1 }, severity * 2.0)
    else (r, severity)
  t.put id { r with beta := r.beta + Double.clamp severity 0.0 t.cfg.maxPenalty }

def maybeBlacklist (t : ReputationTable F) (id : WorkerId) (nowMs : UInt64) :
    Bool × ReputationTable F :=
  let r := t.mutable id
  let known := t.put id r
  if nowMs < r.blacklistedUntilMs then (false, known)
  else if t.cfg.blacklistBelow ≤ r.score then (false, known)
  else (true, t.put id { r with blacklistedUntilMs := nowMs + t.cfg.cooldownMs })

def isBlacklisted (t : ReputationTable F) (id : WorkerId) (nowMs : UInt64) :
    Bool × ReputationTable F :=
  let r := t.mutable id
  let known := t.put id r
  if r.blacklistedUntilMs = 0 then (false, known)
  else if nowMs < r.blacklistedUntilMs then (true, known)
  else
    -- The record stands, and the worker is on probation.
    (false, t.put id { r with blacklistedUntilMs := 0, onProbation := true })

end ReputationTable

end

end P2pGpu.Coordinator
