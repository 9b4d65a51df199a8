import P2pGpu.Coordinator.Quorum.Ties

namespace P2pGpu.Coordinator.Quorum

open P2pGpu.Protocol

section

variable {F : Type} [Double F] {spec : KernelSpec} {cfg : QuorumConfig}
  {submissions : List Submission}

-- What a decision says of those who voted. The count that is held against the cap is
-- one of 32 bits.
structure Partitions (F : Type) [Double F] (spec : KernelSpec) (cfg : QuorumConfig)
    (submissions : List Submission) : Prop where
  accept : (Quorum.decide spec cfg submissions : QuorumResult F).action = .accept →
    ((Quorum.decide spec cfg submissions : QuorumResult F).agreeing ++
        (Quorum.decide spec cfg submissions : QuorumResult F).dissenting).Perm
      (submissions.map Submission.worker) ∧
    ((Quorum.decide spec cfg submissions : QuorumResult F).agreeing ++
      (Quorum.decide spec cfg submissions : QuorumResult F).dissenting).Nodup ∧
    ∃ won : List Submission, won.Sublist submissions ∧
      (Quorum.decide spec cfg submissions : QuorumResult F).agreeing =
        won.map Submission.worker ∧
      (won.Pairwise fun earlier later => sameAnswer F spec later earlier = true) ∧
      (cfg.requiredAgreement.toNat ≤ won.length ∨
        (cfg.maxReplicas.toNat ≤ submissions.length ∧ submissions.length < won.length * 2))
  needMoreReplicas :
    (Quorum.decide spec cfg submissions : QuorumResult F).action = .needMoreReplicas →
      submissions = [] ∨ submissions.length % 2 ^ 32 < cfg.maxReplicas.toNat
  inconclusive : (Quorum.decide spec cfg submissions : QuorumResult F).action = .inconclusive →
    cfg.maxReplicas.toNat ≤ submissions.length ∧ ∀ g ∈ answers F spec submissions,
      g.length < cfg.requiredAgreement.toNat ∧ ¬ submissions.length < g.length * 2

theorem room_iff (n : Nat) (most : UInt32) : UInt32.ofNat n < most ↔ n % 2 ^ 32 < most.toNat := by
  rw [UInt32.lt_iff_toNat_lt, UInt32.toNat_ofNat']

-- Why more answers are asked for, and why they are not.
variable (F spec cfg) in
theorem decide_waits (hpolicy : cfg.policy ≠ .none) (h : submissions ≠ [])
    (haction : (Quorum.decide spec cfg submissions : QuorumResult F).action ≠ .accept) :
    (largest (clusters F spec submissions)).size < cfg.requiredAgreement.toNat ∧
      (((Quorum.decide spec cfg submissions : QuorumResult F).action = .needMoreReplicas ∧
          submissions.length % 2 ^ 32 < cfg.maxReplicas.toNat) ∨
        ((Quorum.decide spec cfg submissions : QuorumResult F).action = .inconclusive ∧
          ¬ submissions.length % 2 ^ 32 < cfg.maxReplicas.toNat ∧
          ¬ submissions.length < (largest (clusters F spec submissions)).size * 2)) := by
  have hnot := (decide_accept_iff F spec hpolicy h).not.mp haction
  rw [not_or, not_and] at hnot
  obtain ⟨hrequired, hmajority⟩ := hnot
  refine ⟨Nat.lt_of_not_le hrequired, ?_⟩
  cases submissions with
  | nil => exact absurd rfl h
  | cons first rest =>
      rw [← room_iff]
      simp only [Quorum.decide, hpolicy, if_false, if_neg hrequired]
      by_cases hroom : UInt32.ofNat (first :: rest).length < cfg.maxReplicas
      · rw [if_pos hroom]
        exact .inl ⟨rfl, hroom⟩
      · have hsplit := hmajority hroom
        rw [if_neg hroom, if_neg hsplit]
        exact .inr ⟨rfl, hroom, hsplit⟩

theorem decide_partitions (spec : KernelSpec) (cfg : QuorumConfig) (submissions : List Submission)
    (hpolicy : cfg.policy ≠ .none) (hdistinct : (submissions.map Submission.worker).Nodup) :
    Partitions F spec cfg submissions := by
  by_cases h : submissions = []
  · -- Without a vote there is nothing to decide.
    subst h
    exact ⟨nofun, fun _ => .inl rfl, nofun⟩
  obtain ⟨hwon, hmax⟩ := largest_clusters F spec h
  constructor
  · intro haccept
    have hvoters := decide_voters hpolicy h haccept
    have hwinner := List.mem_of_getElem? hwon
    obtain ⟨hsub, hpairs⟩ := FirstFit.groups_arrival (sameAnswer F spec) submissions _ hwinner
    refine ⟨hvoters, hvoters.nodup_iff.mpr hdistinct, _, hsub,
      (decide_accepted hpolicy h haccept).1, hpairs, ?_⟩
    rcases (decide_accept_iff F spec hpolicy h).mp haccept with hrequired | ⟨hcap, hmajority⟩
    · exact .inl hrequired
    · rw [room_iff] at hcap
      have hle := Nat.mod_le submissions.length (2 ^ 32)
      exact .inr ⟨by omega, hmajority⟩
  · intro hneed
    have haction : (Quorum.decide spec cfg submissions : QuorumResult F).action ≠ .accept := by
      rw [hneed]
      decide
    obtain ⟨-, ⟨-, hroom⟩ | ⟨hother, -⟩⟩ := decide_waits F spec cfg hpolicy h haction
    · exact .inr hroom
    · rw [hneed] at hother
      cases hother
  · intro hinconclusive
    have haction : (Quorum.decide spec cfg submissions : QuorumResult F).action ≠ .accept := by
      rw [hinconclusive]
      decide
    obtain ⟨hsmall, ⟨hother, -⟩ | ⟨-, hcap, hsplit⟩⟩ := decide_waits F spec cfg hpolicy h haction
    · rw [hinconclusive] at hother
      cases hother
    · have hle := Nat.mod_le submissions.length (2 ^ 32)
      refine ⟨by omega, fun g hg => ?_⟩
      have hg := hmax g hg
      exact ⟨by omega, by omega⟩

end

theorem decide_partitions_outvoted :
    ({ policy := .fixed2x } : QuorumConfig).policy ≠ .none ∧
      (outvoted.map Submission.worker).Nodup ∧
      Partitions Rat hashSpec { policy := .fixed2x } outvoted :=
  ⟨by decide, by decide, decide_partitions hashSpec { policy := .fixed2x } outvoted (by decide)
    (by decide)⟩

-- As many workers as 32 bits count to nothing, and no two answers the same.
def babel : List Submission := (List.range (2 ^ 32)).map fun i => ⟨⟨i, 0⟩, UInt64.ofNat i, []⟩

theorem length_babel : babel.length = 2 ^ 32 := by
  rw [babel, List.length_map, List.length_range]

theorem nodup_babel : (babel.map Submission.worker).Nodup := by
  rw [babel, List.map_map]
  apply List.Nodup.map _ List.nodup_range
  intro i j h
  exact congrArg Id.hi h

theorem checksums_babel : babel.Pairwise fun a b => b.checksum ≠ a.checksum := by
  rw [babel, List.pairwise_map]
  refine List.Pairwise.imp_of_mem ?_ (List.nodup_range : (List.range (2 ^ 32)).Nodup)
  intro i j hi hj hne he
  rw [List.mem_range] at hi hj
  have htoNat := congrArg UInt64.toNat he
  simp only [UInt64.toNat_ofNat'] at htoNat
  omega

-- Where no two checksums are the same, nobody agrees with anybody.
theorem largest_of_distinct {F : Type} [Double F] {submissions : List Submission}
    (hdistinct : submissions.Pairwise fun a b => b.checksum ≠ a.checksum) (h : submissions ≠ []) :
    (largest (clusters F hashSpec submissions)).size ≤ 1 := by
  have hwon := List.mem_of_getElem? (largest_clusters F hashSpec h).1
  obtain ⟨hsub, hpairs⟩ := FirstFit.groups_arrival (sameAnswer F hashSpec) submissions _ hwon
  have hboth := hpairs.and (hdistinct.sublist hsub)
  unfold Cluster.size
  match hmembers : (largest (clusters F hashSpec submissions)).members with
  | [] => simp
  | [_] => simp
  | first :: second :: rest =>
      rw [hmembers] at hboth
      obtain ⟨hsame, hother⟩ := List.rel_of_pairwise_cons hboth List.mem_cons_self
      rw [sameAnswer_exact rfl] at hsame
      exact absurd hsame hother

-- More answers are asked for where there is no room for any, and where there are far
-- more than the cap already.
theorem cap_overrun :
    ¬ (∀ (spec : KernelSpec) (cfg : QuorumConfig) (submissions : List Submission),
      cfg.policy ≠ .none → (submissions.map Submission.worker).Nodup →
      (Quorum.decide spec cfg submissions : QuorumResult Rat).action = .needMoreReplicas →
        submissions.length < cfg.maxReplicas.toNat) ∧
    ¬ (∀ (spec : KernelSpec) (cfg : QuorumConfig) (submissions : List Submission),
      cfg.policy ≠ .none → (submissions.map Submission.worker).Nodup → submissions ≠ [] →
      (Quorum.decide spec cfg submissions : QuorumResult Rat).action = .needMoreReplicas →
        submissions.length < cfg.maxReplicas.toNat) := by
  constructor
  · intro hall
    exact absurd (hall hashSpec { policy := .fixed2x, maxReplicas := 0 } [] (by decide) (by decide)
      rfl) (by decide)
  · intro hall
    have hne : babel ≠ [] := by
      intro hnil
      have hlength := length_babel
      rw [hnil] at hlength
      cases hlength
    have hsmall := largest_of_distinct (F := Rat) checksums_babel hne
    have hpolicy : ({ policy := .fixed2x } : QuorumConfig).policy ≠ .none := by decide
    have haction : (Quorum.decide hashSpec { policy := .fixed2x } babel : QuorumResult Rat).action ≠
        .accept := by
      intro haccept
      rcases (decide_accept_iff Rat hashSpec hpolicy hne).mp haccept with hrequired | ⟨hcap, -⟩
      · have htwo : ({ policy := .fixed2x } : QuorumConfig).requiredAgreement.toNat = 2 := rfl
        omega
      · rw [room_iff, length_babel] at hcap
        exact hcap (by decide)
    obtain ⟨-, ⟨hneed, -⟩ | ⟨-, hcap, -⟩⟩ := decide_waits Rat hashSpec _ hpolicy hne haction
    · have hlt := hall hashSpec _ babel hpolicy nodup_babel hne hneed
      rw [length_babel] at hlt
      exact absurd hlt (by decide)
    · rw [length_babel] at hcap
      exact hcap (by decide)

end P2pGpu.Coordinator.Quorum
