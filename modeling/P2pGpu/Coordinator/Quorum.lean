import P2pGpu.Coordinator.Job
import P2pGpu.Coordinator.Reputation
import P2pGpu.Coordinator.Validator
import P2pGpu.Data.FirstFit

namespace P2pGpu.Coordinator

open P2pGpu.Protocol

inductive ReplicationPolicy where
  | none
  | fixed2x
  | adaptive
deriving DecidableEq, Repr

structure QuorumConfig where
  policy : ReplicationPolicy := .none
  requiredAgreement : UInt32 := 2
  maxReplicas : UInt32 := 4
deriving DecidableEq, Repr

inductive QuorumAction where
  | accept
  | needMoreReplicas
  | inconclusive
deriving DecidableEq, Repr

structure QuorumResult (F : Type) where
  action : QuorumAction
  agreeing : List WorkerId
  dissenting : List WorkerId
  agreeingMaxUlp : UInt32
  dissentMaxUlp : UInt32
  dissentMaxRel : F
  detail : String

structure Agreement where
  agree : Bool
  maxUlp : UInt32

-- Submissions that say the same thing, and how far apart they are at most.
structure Cluster where
  members : List Submission
  ulp : UInt32
deriving DecidableEq

def Cluster.size (c : Cluster) : Nat := c.members.length

section

variable (F : Type) [Double F]

namespace Quorum

-- An answer that cannot be compared is no agreement.
def agrees (spec : KernelSpec) (a b : Submission) : Agreement :=
  if spec.determinism = .exact then ⟨a.checksum == b.checksum, 0⟩
  else
    let c : Comparison F := compare spec a.payload b.payload
    ⟨c.verdict == .matched, c.maxUlpDiff⟩

-- Against every member, because a tolerance is not transitive.
def agreesWithAll (spec : KernelSpec) (s : Submission) : List Submission → UInt32 → Option UInt32
  | [], worst => some worst
  | member :: rest, worst =>
      let ag := agrees F spec s member
      if ag.agree then agreesWithAll spec s rest (max worst ag.maxUlp) else none

def placeSubmission (spec : KernelSpec) (s : Submission) : List Cluster → List Cluster
  | [] => [⟨[s], 0⟩]
  | c :: cs =>
      match agreesWithAll F spec s c.members c.ulp with
      | some worst => ⟨c.members ++ [s], worst⟩ :: cs
      | none => c :: placeSubmission spec s cs

def clusters (spec : KernelSpec) (submissions : List Submission) : List Cluster :=
  submissions.foldl (fun cs s => placeSubmission F spec s cs) []

-- The largest cluster, and the first one of those.
def best (cs : List Cluster) : Nat := FirstFit.firstMax Cluster.size cs

def largest (cs : List Cluster) : Cluster := cs.getD (best cs) ⟨[], 0⟩

def worstUlp : UInt32 := 0xFFFFFFFF

variable {F}

-- How far the others are from what was accepted.
def measureDissent (spec : KernelSpec) (winner : Submission) (losers : List Submission) :
    UInt32 × F :=
  losers.foldl (fun (ulp, rel) s =>
    if spec.determinism = .exact then (worstUlp, 1.0)
    else
      let c : Comparison F := compare spec s.payload winner.payload
      (max ulp c.maxUlpDiff, Double.max rel c.maxRelDiff)) (0, 0.0)

def acceptCluster (spec : KernelSpec) (cs : List Cluster) (won : Cluster)
    (detail : Nat → String) : QuorumResult F :=
  let losers := (cs.eraseIdx (best cs)).flatMap Cluster.members
  let dissent : UInt32 × F :=
    match won.members with
    | [] => (0, 0.0)
    | winner :: _ => measureDissent spec winner losers
  { action := .accept
    agreeing := won.members.map Submission.worker
    dissenting := losers.map Submission.worker
    agreeingMaxUlp := won.ulp
    dissentMaxUlp := dissent.1
    dissentMaxRel := dissent.2
    detail := detail losers.length }

def undecided (action : QuorumAction) (detail : String) : QuorumResult F :=
  ⟨action, [], [], 0, 0, 0.0, detail⟩

def decide (spec : KernelSpec) (cfg : QuorumConfig) (submissions : List Submission) :
    QuorumResult F :=
  match submissions with
  | [] => undecided .needMoreReplicas ""
  | first :: _ =>
      if cfg.policy = .none then { undecided .accept "" with agreeing := [first.worker] }
      else
        let cs := clusters F spec submissions
        let won := largest cs
        let n : UInt32 := UInt32.ofNat submissions.length
        if cfg.requiredAgreement.toNat ≤ won.size then
          acceptCluster spec cs won fun dissenting =>
            if dissenting = 0 then ""
            else "accepted " ++ toString won.size ++ "/" ++ toString n ++ " with " ++
              toString dissenting ++ " dissenting"
        else if n < cfg.maxReplicas then
          undecided .needMoreReplicas
            (if 1 < cs.length then
              "disagreement: " ++ toString cs.length ++ " distinct answers from " ++
                toString n ++ " workers"
            else "")
        -- At the cap, only a strict majority decides.
        else if submissions.length < won.size * 2 then
          acceptCluster spec cs won fun _ =>
            "majority " ++ toString won.size ++ "/" ++ toString n ++ " at replica cap"
        else
          undecided .inconclusive
            ("no majority at cap: " ++ toString cs.length ++ " distinct answers from " ++
              toString n ++ " workers")

end Quorum

variable {F}

-- What this worker's answer needs. A long record is evidence by itself.
def requiredAgreementFor (cfg : QuorumConfig) (rep : ReputationTable F) (worker : WorkerId)
    (nowMs : UInt64) : UInt32 :=
  match cfg.policy with
  | .none => 1
  | .fixed2x => cfg.requiredAgreement
  | .adaptive =>
      let probation : Bool :=
        match rep.find worker with
        | none => false
        | some r => r.onProbation || nowMs < r.blacklistedUntilMs
      if probation then cfg.maxReplicas
      else if rep.cfg.trustedAt ≤ rep.scoreOf worker then 1
      else cfg.requiredAgreement

end

end P2pGpu.Coordinator
