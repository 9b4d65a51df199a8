import P2pGpu.Coordinator.Quorum

namespace P2pGpu.Coordinator.Quorum

open P2pGpu.Protocol

section

variable (F : Type) [Double F]

-- Do two submissions agree, whatever the distance.
def sameAnswer (spec : KernelSpec) (a b : Submission) : Bool := (agrees F spec a b).agree

-- The different answers, each with the submissions that gave it.
def answers (spec : KernelSpec) (submissions : List Submission) : List (List Submission) :=
  FirstFit.groups (sameAnswer F spec) submissions

variable {F} {spec : KernelSpec} {cfg : QuorumConfig} {submissions : List Submission}

variable (F spec) in
theorem agreesWithAll_isSome (s : Submission) (members : List Submission) (worst : UInt32) :
    (agreesWithAll F spec s members worst).isSome = members.all (sameAnswer F spec s) := by
  induction members generalizing worst with
  | nil => rfl
  | cons member rest ih =>
      rw [agreesWithAll, List.all_cons]
      by_cases h : (agrees F spec s member).agree = true
      · have hsame : sameAnswer F spec s member = true := h
        simp only [h, if_true, ih, hsame, Bool.true_and]
      · have hsame : sameAnswer F spec s member = false := Bool.eq_false_of_not_eq_true h
        simp only [h, hsame, Bool.false_and]
        rfl

theorem members_placeSubmission (s : Submission) (cs : List Cluster) :
    (placeSubmission F spec s cs).map Cluster.members =
      FirstFit.place (sameAnswer F spec) s (cs.map Cluster.members) := by
  induction cs with
  | nil => rfl
  | cons c cs ih =>
      have hall := agreesWithAll_isSome F spec s c.members c.ulp
      rw [placeSubmission, List.map_cons, FirstFit.place]
      cases hfit : agreesWithAll F spec s c.members c.ulp with
      | none =>
          rw [hfit, Option.isSome_none] at hall
          simp only [← hall, List.map_cons, ih]
          rfl
      | some worst =>
          rw [hfit, Option.isSome_some] at hall
          simp only [← hall, List.map_cons, if_true]

theorem members_clusters (spec : KernelSpec) (submissions : List Submission) :
    (clusters F spec submissions).map Cluster.members = answers F spec submissions := by
  induction submissions using List.reverseRecOn with
  | nil => rfl
  | append_singleton submissions s ih =>
      have hlast : clusters F spec (submissions ++ [s]) =
          placeSubmission F spec s (clusters F spec submissions) := by
        simp only [clusters, List.foldl_append, List.foldl_cons, List.foldl_nil]
      rw [hlast, members_placeSubmission, ih, answers, answers, FirstFit.groups_concat]

theorem best_clusters (spec : KernelSpec) (submissions : List Submission) :
    best (clusters F spec submissions) =
      FirstFit.firstMax List.length (answers F spec submissions) := by
  have hsize : Cluster.size = List.length ∘ Cluster.members := rfl
  rw [best, hsize, ← FirstFit.firstMax_map, members_clusters]

-- The cluster that wins is an answer, and no answer has more submissions.
variable (F spec) in
theorem largest_clusters (h : submissions ≠ []) :
    (answers F spec submissions)[best (clusters F spec submissions)]? =
        some (largest (clusters F spec submissions)).members ∧
      ∀ g ∈ answers F spec submissions,
        g.length ≤ (largest (clusters F spec submissions)).size := by
  have hne : answers F spec submissions ≠ [] := FirstFit.groups_ne_nil _ h
  obtain ⟨g, hg, hmax⟩ := FirstFit.firstMax_spec List.length hne
  rw [← best_clusters] at hg
  have hcluster := hg
  rw [← members_clusters, List.getElem?_map] at hcluster
  obtain ⟨c, hc, rfl⟩ := Option.map_eq_some_iff.mp hcluster
  have hlargest : largest (clusters F spec submissions) = c := by
    rw [largest, List.getD_eq_getElem?_getD, hc, Option.getD_some]
  rw [hlargest]
  exact ⟨hg, hmax⟩

variable (F spec) in
theorem decide_accept_iff (hpolicy : cfg.policy ≠ .none) (h : submissions ≠ []) :
    (Quorum.decide spec cfg submissions : QuorumResult F).action = .accept ↔
      cfg.requiredAgreement.toNat ≤ (largest (clusters F spec submissions)).size ∨
        (¬ UInt32.ofNat submissions.length < cfg.maxReplicas ∧
          submissions.length < (largest (clusters F spec submissions)).size * 2) := by
  cases submissions with
  | nil => exact absurd rfl h
  | cons first rest =>
      simp only [Quorum.decide, hpolicy, if_false]
      have hother : ∀ action : QuorumAction, action ≠ .accept → ∀ detail,
          (undecided action detail : QuorumResult F).action ≠ .accept := fun _ ha _ => ha
      split
      · rename_i hrequired
        exact iff_of_true rfl (Or.inl hrequired)
      · rename_i hrequired
        split
        · rename_i hroom
          refine iff_of_false (hother _ (by simp) _) ?_
          rintro (hr | ⟨hcap, -⟩)
          · exact hrequired hr
          · exact hcap hroom
        · rename_i hroom
          split
          · rename_i hmajority
            exact iff_of_true rfl (Or.inr ⟨hroom, hmajority⟩)
          · rename_i hmajority
            refine iff_of_false (hother _ (by simp) _) ?_
            rintro (hr | ⟨-, hm⟩)
            · exact hrequired hr
            · exact hmajority hm

-- Who is credited and who is charged, where an answer is accepted.
theorem decide_accepted (hpolicy : cfg.policy ≠ .none) (h : submissions ≠ [])
    (haccept : (Quorum.decide spec cfg submissions : QuorumResult F).action = .accept) :
    (Quorum.decide spec cfg submissions : QuorumResult F).agreeing =
        (largest (clusters F spec submissions)).members.map Submission.worker ∧
      (Quorum.decide spec cfg submissions : QuorumResult F).dissenting =
        ((answers F spec submissions).eraseIdx
          (best (clusters F spec submissions))).flatten.map Submission.worker := by
  have hlosers : (answers F spec submissions).eraseIdx (best (clusters F spec submissions)) =
      ((clusters F spec submissions).eraseIdx (best (clusters F spec submissions))).map
        Cluster.members := by
    rw [← members_clusters, List.eraseIdx_map]
  rw [hlosers, ← List.flatMap_def]
  cases submissions with
  | nil => exact absurd rfl h
  | cons first rest =>
      simp only [Quorum.decide, hpolicy, if_false] at haccept ⊢
      split at haccept
      · rename_i hrequired
        rw [if_pos hrequired]
        exact ⟨rfl, rfl⟩
      · rename_i hrequired
        rw [if_neg hrequired]
        split at haccept
        · cases haccept
        · rename_i hroom
          rw [if_neg hroom]
          split at haccept
          · rename_i hmajority
            rw [if_pos hmajority]
            exact ⟨rfl, rfl⟩
          · cases haccept

-- Everybody who has answered is credited or charged, once for each answer.
theorem decide_voters (hpolicy : cfg.policy ≠ .none) (h : submissions ≠ [])
    (haccept : (Quorum.decide spec cfg submissions : QuorumResult F).action = .accept) :
    ((Quorum.decide spec cfg submissions : QuorumResult F).agreeing ++
      (Quorum.decide spec cfg submissions : QuorumResult F).dissenting).Perm
      (submissions.map Submission.worker) := by
  obtain ⟨hagreeing, hdissenting⟩ := decide_accepted hpolicy h haccept
  obtain ⟨hwon, -⟩ := largest_clusters F spec h
  obtain ⟨hi, hgroup⟩ := List.getElem?_eq_some_iff.mp hwon
  have hgroups := (List.getElem_cons_eraseIdx_perm hi).flatten
  rw [hgroup, List.flatten_cons] at hgroups
  have hall := hgroups.trans (FirstFit.groups_perm (sameAnswer F spec) submissions)
  rw [hagreeing, hdissenting, ← List.map_append]
  exact hall.map _

-- Two answers share the largest count, and the count is enough to be accepted.
def Contested (F : Type) [Double F] (spec : KernelSpec) (cfg : QuorumConfig)
    (submissions : List Submission) : Prop :=
  ∃ most, cfg.requiredAgreement.toNat ≤ most ∧
    (∀ g ∈ answers F spec submissions, g.length ≤ most) ∧
    FirstFit.Tied List.length (answers F spec submissions) most

-- The checksum of the answer that has the most submissions.
def winningChecksum (F : Type) [Double F] (spec : KernelSpec) (submissions : List Submission) :
    Option UInt64 :=
  (largest (clusters F spec submissions)).members.head?.map Submission.checksum

-- What is accepted is more frequent than anything else, and for an exact kernel
-- it does not depend on who came first.
structure Untied (F : Type) [Double F] (spec : KernelSpec) (cfg : QuorumConfig)
    (submissions : List Submission) : Prop where
  leads : (Quorum.decide spec cfg submissions : QuorumResult F).action = .accept →
    FirstFit.Leads List.length (answers F spec submissions) (best (clusters F spec submissions))
  settled : (Quorum.decide spec cfg submissions : QuorumResult F).action = .accept →
    spec.determinism = .exact → ∀ others, submissions.Perm others →
      (Quorum.decide spec cfg others : QuorumResult F).action = .accept ∧
      winningChecksum F spec others = winningChecksum F spec submissions ∧
      (∀ w, w ∈ (Quorum.decide spec cfg others : QuorumResult F).agreeing ↔
        w ∈ (Quorum.decide spec cfg submissions : QuorumResult F).agreeing) ∧
      ∀ w, w ∈ (Quorum.decide spec cfg others : QuorumResult F).dissenting ↔
        w ∈ (Quorum.decide spec cfg submissions : QuorumResult F).dissenting

theorem leads_iff (h : submissions ≠ []) :
    FirstFit.Leads List.length (answers F spec submissions)
        (best (clusters F spec submissions)) ↔
      ¬ FirstFit.Tied List.length (answers F spec submissions)
        (largest (clusters F spec submissions)).size := by
  obtain ⟨hwon, hmax⟩ := largest_clusters F spec h
  exact FirstFit.leads_iff hwon hmax

-- The sizes add up to the number of submissions.
theorem sum_answers (spec : KernelSpec) (submissions : List Submission) :
    ((answers F spec submissions).map List.length).sum = submissions.length := by
  have hperm := FirstFit.groups_perm (sameAnswer F spec) submissions
  rw [← List.length_flatten]
  exact hperm.length_eq

theorem leads_of_accept (hpolicy : cfg.policy ≠ .none) (h : submissions ≠ [])
    (hfree : ¬ Contested F spec cfg submissions)
    (haccept : (Quorum.decide spec cfg submissions : QuorumResult F).action = .accept) :
    FirstFit.Leads List.length (answers F spec submissions)
      (best (clusters F spec submissions)) := by
  obtain ⟨hwon, hmax⟩ := largest_clusters F spec h
  rcases (decide_accept_iff F spec hpolicy h).mp haccept with hrequired | ⟨-, hmajority⟩
  · apply (leads_iff h).mpr
    intro htied
    exact hfree ⟨_, hrequired, hmax, htied⟩
  · apply FirstFit.leads_of_majority hwon
    rw [sum_answers]
    exact hmajority

-- An exact kernel compares checksums.
theorem sameAnswer_exact (hexact : spec.determinism = .exact) (a b : Submission) :
    sameAnswer F spec a b = true ↔ a.checksum = b.checksum := by
  simp [sameAnswer, agrees, hexact]

abbrev Elects (F : Type) [Double F] (spec : KernelSpec) (submissions : List Submission)
    (checksum : UInt64) : Prop :=
  FirstFit.Elects (sameAnswer F spec) Submission.checksum submissions checksum

theorem elects_members {checksum : UInt64} (he : Elects F spec submissions checksum)
    (h : submissions ≠ []) :
    (largest (clusters F spec submissions)).members =
      FirstFit.members Submission.checksum submissions checksum := by
  obtain ⟨hwon, -⟩ := largest_clusters F spec h
  rw [best_clusters] at hwon
  exact Option.some.inj (hwon.symm.trans he.won)

theorem elects_checksum {checksum : UInt64} (he : Elects F spec submissions checksum)
    (h : submissions ≠ []) : winningChecksum F spec submissions = some checksum := by
  rw [winningChecksum, elects_members he h]
  cases hm : FirstFit.members Submission.checksum submissions checksum with
  | nil => exact absurd hm he.nonempty
  | cons s rest =>
      have hs : s ∈ FirstFit.members Submission.checksum submissions checksum :=
        hm ▸ List.mem_cons_self
      rw [List.head?_cons, Option.map_some, (FirstFit.mem_members.mp hs).2]

-- By their checksum, those who are credited and those who are charged.
theorem elects_workers {checksum : UInt64} (he : Elects F spec submissions checksum)
    (hpolicy : cfg.policy ≠ .none) (h : submissions ≠ [])
    (haccept : (Quorum.decide spec cfg submissions : QuorumResult F).action = .accept)
    (w : WorkerId) :
    (w ∈ (Quorum.decide spec cfg submissions : QuorumResult F).agreeing ↔
        ∃ s ∈ submissions, s.checksum = checksum ∧ s.worker = w) ∧
      (w ∈ (Quorum.decide spec cfg submissions : QuorumResult F).dissenting ↔
        ∃ s ∈ submissions, s.checksum ≠ checksum ∧ s.worker = w) := by
  obtain ⟨hagreeing, hdissenting⟩ := decide_accepted hpolicy h haccept
  have hmembers := elects_members he h
  have hothers : ∀ s, s ∈ ((answers F spec submissions).eraseIdx
      (best (clusters F spec submissions))).flatten ↔ s ∈ submissions ∧ s.checksum ≠ checksum := by
    rw [best_clusters]
    exact he.others
  rw [hagreeing, hdissenting, hmembers]
  simp only [List.mem_map, FirstFit.mem_members, hothers, and_assoc, and_self]

theorem settled_of_leads (hpolicy : cfg.policy ≠ .none) (h : submissions ≠ [])
    (hexact : spec.determinism = .exact)
    (haccept : (Quorum.decide spec cfg submissions : QuorumResult F).action = .accept)
    (hleads : FirstFit.Leads List.length (answers F spec submissions)
      (best (clusters F spec submissions)))
    {others : List Submission} (hperm : submissions.Perm others) :
    (Quorum.decide spec cfg others : QuorumResult F).action = .accept ∧
      winningChecksum F spec others = winningChecksum F spec submissions ∧
      (∀ w, w ∈ (Quorum.decide spec cfg others : QuorumResult F).agreeing ↔
        w ∈ (Quorum.decide spec cfg submissions : QuorumResult F).agreeing) ∧
      ∀ w, w ∈ (Quorum.decide spec cfg others : QuorumResult F).dissenting ↔
        w ∈ (Quorum.decide spec cfg submissions : QuorumResult F).dissenting := by
  have hothers : others ≠ [] := fun he => h (List.Perm.eq_nil (he ▸ hperm))
  obtain ⟨checksum, he⟩ := FirstFit.elects (sameAnswer_exact (F := F) hexact) h
  obtain ⟨other, ho⟩ := FirstFit.elects (sameAnswer_exact (F := F) hexact) hothers
  rw [best_clusters] at hleads
  obtain rfl := he.perm ho hperm hleads
  have hsize : (largest (clusters F spec others)).size =
      (largest (clusters F spec submissions)).size := by
    rw [Cluster.size, Cluster.size, elects_members he h, elects_members ho hothers]
    exact (hperm.symm.filter _).length_eq
  have haccept' : (Quorum.decide spec cfg others : QuorumResult F).action = .accept := by
    rw [decide_accept_iff F spec hpolicy hothers, hsize, ← hperm.length_eq]
    exact (decide_accept_iff F spec hpolicy h).mp haccept
  refine ⟨haccept', ?_, ?_, ?_⟩
  · rw [elects_checksum he h, elects_checksum ho hothers]
  · intro w
    rw [(elects_workers he hpolicy h haccept w).1, (elects_workers ho hpolicy hothers haccept' w).1]
    simp only [hperm.mem_iff]
  · intro w
    rw [(elects_workers he hpolicy h haccept w).2, (elects_workers ho hpolicy hothers haccept' w).2]
    simp only [hperm.mem_iff]

theorem untied_iff (spec : KernelSpec) (cfg : QuorumConfig) (submissions : List Submission)
    (hpolicy : cfg.policy ≠ .none) (h : submissions ≠ []) :
    Untied F spec cfg submissions ↔ ¬ Contested F spec cfg submissions := by
  constructor
  · rintro hu ⟨most, hrequired, hmost, htied⟩
    obtain ⟨hwon, hmax⟩ := largest_clusters F spec h
    -- the count that is shared is the winner's
    have hcount : most = (largest (clusters F spec submissions)).size := by
      obtain ⟨i, j, a, b, -, ha, -, hsize, -⟩ := htied
      have hle := hmost _ (List.mem_of_getElem? hwon)
      have hge := hmax _ (List.mem_of_getElem? ha)
      exact Nat.le_antisymm (hsize ▸ hge) hle
    have haccept := (decide_accept_iff F spec hpolicy h).mpr
      (Or.inl (hcount ▸ hrequired))
    exact (leads_iff h).mp (hu.leads haccept) (hcount ▸ htied)
  · intro hfree
    constructor
    · exact leads_of_accept hpolicy h hfree
    · intro haccept hexact others hperm
      exact settled_of_leads hpolicy h hexact haccept
        (leads_of_accept hpolicy h hfree haccept) hperm

-- A requirement that does not drop between two submissions leaves no tie.
theorem uncontested_next {later : QuorumConfig} (hpolicy : cfg.policy ≠ .none)
    (hwait : (Quorum.decide spec cfg submissions : QuorumResult F).action ≠ .accept)
    (hreq : cfg.requiredAgreement.toNat ≤ later.requiredAgreement.toNat) (s : Submission) :
    ¬ Contested F spec later (submissions ++ [s]) := by
  have hsmall : ∀ g ∈ answers F spec submissions, g.length < cfg.requiredAgreement.toNat := by
    intro g hg
    by_cases h : submissions = []
    · subst h
      cases hg
    · have hnot := (decide_accept_iff F spec hpolicy h).not.mp hwait
      have hle := (largest_clusters F spec h).2 g hg
      omega
  rintro ⟨most, hmost, -, htied⟩
  rw [answers, FirstFit.groups_concat] at htied
  refine FirstFit.tied_place ?_ htied
  intro g hg
  have := hsmall g hg
  omega

end

def hashSpec : KernelSpec := { id := "brute_search_v1", determinism := .exact }

-- Two of three agree.
def outvoted : List Submission := [⟨⟨1, 0⟩, 7, []⟩, ⟨⟨2, 0⟩, 8, []⟩, ⟨⟨3, 0⟩, 8, []⟩]

theorem untied_iff_outvoted :
    ({ policy := .fixed2x } : QuorumConfig).policy ≠ .none ∧ outvoted ≠ [] ∧
      (Untied Rat hashSpec { policy := .fixed2x } outvoted ↔
        ¬ Contested Rat hashSpec { policy := .fixed2x } outvoted) :=
  ⟨by decide, by decide, untied_iff hashSpec { policy := .fixed2x } outvoted (by decide) (by decide)⟩

-- A worker with a long record, and nobody else.
def oneTrusted : ReputationTable Rat :=
  { workers := AList.singleton ⟨2, 0⟩ { alpha := 20, beta := 2 } }

-- The second answer needs nobody's agreement, and the first one is accepted.
theorem trusted_answer_ties : ¬ ∀ (base : QuorumConfig) (rep : ReputationTable Rat)
    (spec : KernelSpec) (submissions : List Submission) (s : Submission) (nowMs : UInt64),
    base.policy ≠ .none → 1 ≤ base.requiredAgreement →
    base.requiredAgreement ≤ base.maxReplicas →
    Untied Rat spec
      { base with requiredAgreement := requiredAgreementFor base rep s.worker nowMs }
      (submissions ++ [s]) := by
  intro h
  have hu := h { policy := .adaptive } oneTrusted hashSpec [⟨⟨1, 0⟩, 7, []⟩] ⟨⟨2, 0⟩, 8, []⟩ 0
    (by decide) (by decide) (by decide)
  have hrequired : requiredAgreementFor { policy := .adaptive } oneTrusted ⟨2, 0⟩ 0 = 1 := by
    decide +kernel
  rw [hrequired] at hu
  have haccept : (Quorum.decide hashSpec
      { policy := .adaptive, requiredAgreement := 1 }
      [⟨⟨1, 0⟩, 7, []⟩, ⟨⟨2, 0⟩, 8, []⟩] : QuorumResult Rat).action = .accept := by decide +kernel
  have hleads := hu.leads haccept [⟨⟨1, 0⟩, 7, []⟩] (by decide +kernel)
    [⟨⟨2, 0⟩, 8, []⟩] (by decide +kernel)
  exact absurd hleads (by decide)

end P2pGpu.Coordinator.Quorum
