import P2pGpu.Coordinator.Quorum
import P2pGpu.Data.Since
import Mathlib.Data.List.Induction

namespace P2pGpu.Coordinator

open P2pGpu.Protocol

-- The calls that probation hangs on.
inductive StandingCall (F : Type) where
  | recordAccepted (id : WorkerId)
  | recordRejected (id : WorkerId) (severity : F) (spotCheck : Bool)
  | maybeBlacklist (id : WorkerId) (nowMs : UInt64)
  | isBlacklisted (id : WorkerId) (nowMs : UInt64)
  | requiredAgreementFor (id : WorkerId) (nowMs : UInt64)

namespace StandingCall

variable {F : Type} [Double F]

def run (t : ReputationTable F) : StandingCall F → ReputationTable F
  | .recordAccepted id => t.recordAccepted id
  | .recordRejected id severity spotCheck => t.recordRejected id severity spotCheck
  | .maybeBlacklist id nowMs => (t.maybeBlacklist id nowMs).2
  | .isBlacklisted id nowMs => (t.isBlacklisted id nowMs).2
  | .requiredAgreementFor _ _ => t

def runAll (cfg : ReputationConfig F) (calls : List (StandingCall F)) : ReputationTable F :=
  calls.foldl run { cfg }

def time : StandingCall F → Option UInt64
  | .recordAccepted _ | .recordRejected _ _ _ => none
  | .maybeBlacklist _ nowMs | .isBlacklisted _ nowMs | .requiredAgreementFor _ nowMs => some nowMs

-- A call that blacklists the worker, one that finds its cooldown over, and one that
-- leaves it trusted.
def Bars (cfg : ReputationConfig F) (id : WorkerId) (before : List (StandingCall F))
    (call : StandingCall F) : Prop :=
  ∃ nowMs, call = .maybeBlacklist id nowMs ∧
    ((runAll cfg before).maybeBlacklist id nowMs).1 = true

def Frees (cfg : ReputationConfig F) (id : WorkerId) (before : List (StandingCall F))
    (call : StandingCall F) : Prop :=
  ∃ nowMs, call = .isBlacklisted id nowMs ∧
    ((runAll cfg before).mutable id).blacklistedUntilMs ≠ 0 ∧
    ((runAll cfg before).mutable id).blacklistedUntilMs ≤ nowMs

def Redeems (cfg : ReputationConfig F) (id : WorkerId) (before : List (StandingCall F))
    (call : StandingCall F) : Prop :=
  call = .recordAccepted id ∧ cfg.trustedAt ≤ (call.run (runAll cfg before)).scoreOf id

end StandingCall

section

open StandingCall

variable {F : Type} [Double F] {cfg : ReputationConfig F} {t : ReputationTable F}
  {id i : WorkerId} {calls : List (StandingCall F)} {call : StandingCall F}

-- Every answer about a worker that owes its score asks for the most there is.
def NoGap (quorum : QuorumConfig) (cfg : ReputationConfig F) (calls : List (StandingCall F)) :
    Prop :=
  ∀ before id nowMs after, calls = before ++ .requiredAgreementFor id nowMs :: after →
    Since (Bars cfg id) (Redeems cfg id) before →
      requiredAgreementFor quorum (runAll cfg before) id nowMs = quorum.maxReplicas

-- The cooldown runs, or somebody has asked since it ran out.
def Watched (cfg : ReputationConfig F) (before : List (StandingCall F)) (id : WorkerId)
    (nowMs : UInt64) : Prop :=
  nowMs < ((runAll cfg before).mutable id).blacklistedUntilMs ∨
    Since (Frees cfg id) (Redeems cfg id) before

-- What is asked of a worker that is not on probation is the most as well.
def Coincides (quorum : QuorumConfig) (t : ReputationTable F) (id : WorkerId) : Prop :=
  (if t.cfg.trustedAt ≤ t.scoreOf id then 1 else quorum.requiredAgreement) = quorum.maxReplicas

theorem mutable_put (t : ReputationTable F) (id i : WorkerId) (r : Reputation F) :
    (t.put id r).mutable i = if i = id then r else t.mutable i := by
  unfold ReputationTable.mutable
  rw [ReputationTable.find_put]
  by_cases h : i = id
  · rw [if_pos h, if_pos h, Option.getD_some]
  · rw [if_neg h, if_neg h]
    rfl

theorem scoreOf_put (t : ReputationTable F) (id : WorkerId) (r : Reputation F) :
    (t.put id r).scoreOf id = r.score := by
  unfold ReputationTable.scoreOf
  rw [ReputationTable.find_put, if_pos rfl]

theorem cfg_run (t : ReputationTable F) (call : StandingCall F) : (call.run t).cfg = t.cfg := by
  cases call with
  | recordAccepted w => rfl
  | recordRejected w severity spotCheck => cases spotCheck <;> rfl
  | maybeBlacklist w nowMs =>
      simp only [StandingCall.run, ReputationTable.maybeBlacklist]
      split
      · rfl
      · split <;> rfl
  | isBlacklisted w nowMs =>
      simp only [StandingCall.run, ReputationTable.isBlacklisted]
      split
      · rfl
      · split <;> rfl
  | requiredAgreementFor w nowMs => rfl

theorem runAll_snoc (cfg : ReputationConfig F) (calls : List (StandingCall F))
    (call : StandingCall F) : runAll cfg (calls ++ [call]) = call.run (runAll cfg calls) := by
  simp only [runAll, List.foldl_append, List.foldl_cons, List.foldl_nil]

theorem cfg_runAll (cfg : ReputationConfig F) (calls : List (StandingCall F)) :
    (runAll cfg calls).cfg = cfg := by
  induction calls using List.reverseRecOn with
  | nil => rfl
  | append_singleton calls call ih => rw [runAll_snoc, cfg_run, ih]

-- Only asking puts a worker on probation, and only a good answer takes it off.
theorem onProbation_run (t : ReputationTable F) (call : StandingCall F) (id : WorkerId) :
    ((call.run t).mutable id).onProbation = true ↔
      (∃ nowMs, call = .isBlacklisted id nowMs ∧ (t.mutable id).blacklistedUntilMs ≠ 0 ∧
          (t.mutable id).blacklistedUntilMs ≤ nowMs) ∨
        ((t.mutable id).onProbation = true ∧
          ¬ (call = .recordAccepted id ∧ t.cfg.trustedAt ≤ (call.run t).scoreOf id)) := by
  -- What a call writes of one worker is all that it does to the records.
  have hframe : ∀ (w : WorkerId) (r : Reputation F), id ≠ w → (t.put w r).mutable id =
      t.mutable id := fun w r hid => by rw [mutable_put, if_neg hid]
  cases call with
  | recordAccepted w =>
      simp only [StandingCall.run, ReputationTable.recordAccepted]
      by_cases hid : id = w
      · subst hid
        rw [mutable_put, if_pos rfl, scoreOf_put]
        simp only [reduceCtorEq, false_and, exists_false, false_or, true_and]
        split
        · rename_i hgood
          have hscore := hgood.2
          simp only [Reputation.score] at hscore ⊢
          simp [hscore]
        · rename_i hgood
          rw [not_and] at hgood
          constructor
          · intro hflag
            exact ⟨hflag, hgood hflag⟩
          · exact fun h => h.1
      · rw [hframe w _ hid]
        have hother : (StandingCall.recordAccepted w : StandingCall F) ≠ .recordAccepted id := by
          intro he
          injection he with he
          exact hid he.symm
        simp [hother]
  | recordRejected w severity spotCheck =>
      have hflag : (((StandingCall.recordRejected w severity spotCheck).run t).mutable
          id).onProbation = (t.mutable id).onProbation := by
        by_cases hid : id = w
        · subst hid
          cases spotCheck <;> simp [StandingCall.run, ReputationTable.recordRejected, mutable_put]
        · simp only [StandingCall.run, ReputationTable.recordRejected]
          rw [hframe w _ hid]
      rw [hflag]
      simp
  | maybeBlacklist w nowMs =>
      have hflag : (((StandingCall.maybeBlacklist w nowMs).run t).mutable id).onProbation =
          (t.mutable id).onProbation := by
        by_cases hid : id = w
        · subst hid
          simp only [StandingCall.run, ReputationTable.maybeBlacklist]
          split
          · rw [mutable_put, if_pos rfl]
          · split
            · rw [mutable_put, if_pos rfl]
            · rw [mutable_put, if_pos rfl]
        · simp only [StandingCall.run, ReputationTable.maybeBlacklist]
          split
          · rw [hframe w _ hid]
          · split
            · rw [hframe w _ hid]
            · rw [hframe w _ hid]
      rw [hflag]
      simp
  | isBlacklisted w nowMs =>
      simp only [StandingCall.run, ReputationTable.isBlacklisted]
      by_cases hid : id = w
      · subst hid
        by_cases hzero : (t.mutable id).blacklistedUntilMs = 0
        · rw [if_pos hzero]
          simp [mutable_put, hzero]
        · rw [if_neg hzero]
          by_cases hlate : nowMs < (t.mutable id).blacklistedUntilMs
          · rw [if_pos hlate]
            have hnot : ¬ (t.mutable id).blacklistedUntilMs ≤ nowMs := UInt64.not_le.mpr hlate
            simp [mutable_put, hnot]
          · rw [if_neg hlate]
            have hover : (t.mutable id).blacklistedUntilMs ≤ nowMs := UInt64.not_lt.mp hlate
            simp [mutable_put, hzero, hover]
      · have hsame : ((if (t.mutable w).blacklistedUntilMs = 0 then (false, t.put w (t.mutable w))
            else if nowMs < (t.mutable w).blacklistedUntilMs then (true, t.put w (t.mutable w))
            else (false, t.put w { t.mutable w with
              blacklistedUntilMs := 0, onProbation := true })).2.mutable id) = t.mutable id := by
          split
          · exact hframe w _ hid
          · split
            · exact hframe w _ hid
            · exact hframe w _ hid
        rw [hsame]
        have hother : ∀ n, (StandingCall.isBlacklisted w nowMs : StandingCall F) ≠
            .isBlacklisted id n := by
          intro n he
          injection he with he
          exact hid he.symm
        simp [hother]
  | requiredAgreementFor w nowMs => simp [StandingCall.run]

theorem onProbation_iff (cfg : ReputationConfig F) (calls : List (StandingCall F))
    (id : WorkerId) : ((runAll cfg calls).mutable id).onProbation = true ↔
      Since (Frees cfg id) (Redeems cfg id) calls := by
  induction calls using List.reverseRecOn with
  | nil =>
      have hnew : ((runAll cfg []).mutable id).onProbation = false := rfl
      rw [hnew]
      exact iff_of_false Bool.false_ne_true Since.nil
  | append_singleton calls call ih =>
      rw [runAll_snoc, onProbation_run, Since.concat, ih, cfg_runAll]
      rfl

theorem requiredAgreementFor_adaptive {quorum : QuorumConfig} (h : quorum.policy = .adaptive)
    (t : ReputationTable F) (id : WorkerId) (nowMs : UInt64) :
    requiredAgreementFor quorum t id nowMs =
      if (t.mutable id).onProbation = true ∨ nowMs < (t.mutable id).blacklistedUntilMs then
        quorum.maxReplicas
      else if t.cfg.trustedAt ≤ t.scoreOf id then 1 else quorum.requiredAgreement := by
  unfold requiredAgreementFor ReputationTable.mutable
  rw [h]
  dsimp only
  cases hfind : t.find id with
  | none =>
      have hnever : ¬ nowMs < 0 := UInt64.not_lt.mpr UInt64.zero_le
      simp [ReputationTable.prior, hnever]
  | some r => simp

-- Probation has no gap just where nobody trusts the clock alone: each answer is given
-- while the cooldown runs or after somebody has seen it end.
theorem no_gap_iff (quorum : QuorumConfig) (hpolicy : quorum.policy = .adaptive)
    (cfg : ReputationConfig F) (calls : List (StandingCall F)) :
    NoGap quorum cfg calls ↔
      ∀ before id nowMs after, calls = before ++ .requiredAgreementFor id nowMs :: after →
        Since (Bars cfg id) (Redeems cfg id) before →
          Watched cfg before id nowMs ∨ Coincides quorum (runAll cfg before) id := by
  have hanswer : ∀ before id nowMs,
      requiredAgreementFor quorum (runAll cfg before) id nowMs = quorum.maxReplicas ↔
        Watched cfg before id nowMs ∨ Coincides quorum (runAll cfg before) id := by
    intro before id nowMs
    have hasked := onProbation_iff cfg before id
    rw [requiredAgreementFor_adaptive hpolicy]
    unfold Watched Coincides
    split
    · rename_i hprobation
      rw [hasked] at hprobation
      exact iff_of_true rfl (.inl hprobation.symm)
    · rename_i hprobation
      rw [hasked] at hprobation
      constructor
      · exact fun h => .inr h
      · rintro (hwatched | hsame)
        · exact absurd hwatched.symm hprobation
        · exact hsame
  constructor
  · intro hgap before id nowMs after heq howes
    exact (hanswer before id nowMs).mp (hgap before id nowMs after heq howes)
  · intro hall before id nowMs after heq howes
    exact (hanswer before id nowMs).mpr (hall before id nowMs after heq howes)

end

-- A worker that failed a check is barred, and its answer comes in once the cooldown is over.
def lapsed : List (StandingCall Rat) :=
  [.recordRejected ⟨1, 0⟩ 4 true, .maybeBlacklist ⟨1, 0⟩ 1000,
    .requiredAgreementFor ⟨1, 0⟩ 301000]

-- Nobody has asked since, so it is checked like anybody else.
theorem probation_gap : ¬ ∀ calls : List (StandingCall Rat),
    (calls.filterMap StandingCall.time).Pairwise (· ≤ ·) →
      NoGap { policy := .adaptive } {} calls := by
  intro hall
  have hgap := hall lapsed (by decide) [.recordRejected ⟨1, 0⟩ 4 true, .maybeBlacklist ⟨1, 0⟩ 1000]
    ⟨1, 0⟩ 301000 [] rfl
  have hbars : StandingCall.Bars {} ⟨1, 0⟩ [.recordRejected ⟨1, 0⟩ (4 : Rat) true]
      (.maybeBlacklist ⟨1, 0⟩ 1000) := ⟨1000, rfl, by decide +kernel⟩
  have hrequired := hgap (Since.start hbars)
  have htwo : requiredAgreementFor { policy := .adaptive }
      (StandingCall.runAll {} [.recordRejected ⟨1, 0⟩ (4 : Rat) true,
        .maybeBlacklist ⟨1, 0⟩ 1000]) ⟨1, 0⟩ 301000 = 2 := by decide +kernel
  rw [htwo] at hrequired
  exact absurd hrequired (by decide)

theorem no_gap_iff_lapsed : ({ policy := .adaptive } : QuorumConfig).policy = .adaptive ∧
    (NoGap { policy := .adaptive } {} lapsed ↔
      ∀ before id nowMs after, lapsed = before ++ .requiredAgreementFor id nowMs :: after →
        Since (StandingCall.Bars {} id) (StandingCall.Redeems {} id) before →
          Watched {} before id nowMs ∨
            Coincides { policy := .adaptive } (StandingCall.runAll {} before) id) :=
  ⟨rfl, no_gap_iff { policy := .adaptive } rfl {} lapsed⟩

end P2pGpu.Coordinator
