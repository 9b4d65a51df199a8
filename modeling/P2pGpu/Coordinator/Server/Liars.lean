import Mathlib.Data.Finset.Card
import P2pGpu.Coordinator.Server.Genuine
import P2pGpu.Coordinator.Server.Published

namespace P2pGpu.Coordinator

open P2pGpu.Protocol

-- The right output of a range of a job, where there is one. It follows from what a grant
-- tells of the job.
structure Truth where
  output : Job → Span → Option Payload
  setup : ∀ {job job' : Job} (span : Span), job.SameSetup job' → output job' span = output job span

def Truth.always (right : Payload) : Truth := ⟨fun _ _ => some right, fun _ _ => rfl⟩

-- Every answer needs as many others, and no majority is reached below that.
structure QuorumConfig.Strict (quorum : QuorumConfig) : Prop where
  policy : quorum.policy = .fixed2x
  cap : 2 * quorum.requiredAgreement.toNat ≤ quorum.maxReplicas.toNat + 2

theorem QuorumConfig.Strict.replicates {quorum : QuorumConfig} (h : quorum.Strict) :
    quorum.policy ≠ .none := by
  rw [h.policy]
  decide

-- Among more voters than there are liars there is one who does not lie.
theorem exists_candid {votes : List Submission} (hvoters : (votes.map Submission.worker).Nodup)
    {liars : Finset WorkerId} (hfew : liars.card < votes.length) :
    ∃ s ∈ votes, s.worker ∉ liars := by
  have hcount : liars.card < (votes.map Submission.worker).toFinset.card := by
    rw [List.toFinset_card_of_nodup hvoters, List.length_map]
    exact hfew
  obtain ⟨w, hw, hcandid⟩ := Finset.exists_mem_notMem_of_card_lt_card hcount
  obtain ⟨s, hs, rfl⟩ := List.mem_map.mp (List.mem_toFinset.mp hw)
  exact ⟨s, hs, hcandid⟩

section

variable {F : Type} [Double F] {cfg : Config F} {spec : KernelSpec} {votes : List Submission}
  {quorum : QuorumConfig} {liars : Finset WorkerId} {right : Payload}

namespace Quorum

-- With room for one more the count alone decides.
theorem strict_accept_iff (h : quorum.Strict) (hne : votes ≠ [])
    (hroom : votes.length ≤ max 1 quorum.maxReplicas.toNat) :
    (Quorum.decide spec quorum votes : QuorumResult F).action = .accept ↔
      quorum.requiredAgreement.toNat ≤ (largest (clusters F spec votes)).size := by
  rw [decide_accept_iff F spec h.replicates hne, or_iff_left_iff_imp]
  rintro ⟨hcap, hmajority⟩
  have hstrict := h.cap
  have hwide := quorum.maxReplicas.toNat_lt
  have hshort : votes.length < 2 ^ 32 := by omega
  rw [UInt32.lt_iff_toNat_lt, UInt32.toNat_ofNat', Nat.mod_eq_of_lt hshort] at hcap
  omega

theorem strict_quorumFor (h : cfg.quorum.Strict) (s : Session)
    (rep : Option (ReputationTable F)) : Session.quorumFor cfg s rep = cfg.quorum := by
  cases rep with
  | none => rfl
  | some rep =>
      have hsame : requiredAgreementFor cfg.quorum rep s.workerId s.nowMs =
          cfg.quorum.requiredAgreement := by
        unfold requiredAgreementFor
        rw [h.policy]
      unfold Session.quorumFor
      dsimp only
      rw [hsame]

-- The right answer, of whoever gives it.
def candidAnswer (cfg : Config F) (spec : KernelSpec) (right : Payload) (w : WorkerId) :
    Submission := ⟨w, cfg.blake3 right, Session.retained spec right⟩

-- The votes on a task that is open: nothing has enough of them, and whoever does not lie
-- is right.
structure Open (cfg : Config F) (liars : Finset WorkerId) (spec : KernelSpec) (right : Payload)
    (votes : List Submission) : Prop where
  short : ∀ g ∈ answers F spec votes, g.length < cfg.quorum.requiredAgreement.toNat
  candid : ∀ s ∈ votes, s.worker ∉ liars → s = candidAnswer cfg spec right s.worker

end Quorum

end

namespace Server

open JobManager Session Quorum

section

variable {F : Type} [Double F] {cfg : Config F} {v₀ v v' : Server F} {e : Event F} {c : Hearing}
  {truth : Truth} {liars : Finset WorkerId} {right : Payload} {m m' : JobManager} {t t' : Task}
  {id : TaskId} {good : JobId → Prop}

-- What is published is the answer of several workers who agree with one that does not lie.
structure Established (cfg : Config F) (v : Server F) (c : Hearing) (liars : Finset WorkerId)
    (right : Payload) : Prop where
  backed : Backed (c.verdict cfg v) c
  several : cfg.quorum.requiredAgreement.toNat ≤ (c.verdict cfg v).agreeing.length
  distinct : (c.verdict cfg v).agreeing.Nodup
  truthful : c.payload = right ∨ ∃ w ∈ (c.verdict cfg v).agreeing, w ∉ liars ∧
    sameAnswer F c.spec c.answer (candidAnswer cfg c.spec right w) = true
  checksum : c.spec.determinism = .exact → c.header.checksum = cfg.blake3 right

theorem Hears.checksum (h : v.Hears cfg e c) : c.header.checksum = cfg.blake3 c.payload := by
  have hchecked := h.landed.checksum
  unfold checkPayloadChecksum at hchecked
  split at hchecked
  · cases hchecked
  · rename_i hsame
    simpa using hsame

theorem Hears.room (hp : v.jobs.Polled cfg.quorum.maxReplicas) (h : v.Hears cfg e c) :
    c.submissions.length ≤ max 1 cfg.quorum.maxReplicas.toNat := by
  have hroom := (hp c.taskId c.task h.task).room
  rw [Hearing.submissions, List.length_append, List.length_singleton]
  exact hroom

theorem Hears.strict (hq : cfg.quorum.Strict) (hp : v.jobs.Polled cfg.quorum.maxReplicas)
    (h : v.Hears cfg e c) : (c.verdict cfg v).action = .accept ↔
      cfg.quorum.requiredAgreement.toNat ≤ (largest (clusters F c.spec c.submissions)).size := by
  have hquorum := strict_quorumFor hq c.session (c.opened v).reputation
  unfold Hearing.verdict Session.verdict
  rw [hquorum]
  exact strict_accept_iff hq (List.ne_nil_of_mem (answer_mem c)) (h.room hp)

-- With fewer liars than an answer needs voters, one of those who agree is right.
theorem Hears.established (hq : cfg.quorum.Strict) (hp : v.jobs.Polled cfg.quorum.maxReplicas)
    (h : v.Hears cfg e c) (hopen : Open cfg liars c.spec right c.task.submissions)
    (hhonest : c.session.workerId ∉ liars → c.payload = right)
    (hfew : liars.card < cfg.quorum.requiredAgreement.toNat)
    (haccept : (c.verdict cfg v).action = .accept) : Established cfg v c liars right := by
  have hne : c.submissions ≠ [] := List.ne_nil_of_mem (answer_mem c)
  have hvoters := h.voters hp
  have hfull := (h.strict hq hp).mp haccept
  obtain ⟨hwon, -⟩ := largest_clusters F c.spec hne
  have hgroup := List.mem_of_getElem? hwon
  obtain ⟨hsub, -⟩ := FirstFit.groups_arrival (sameAnswer F c.spec) c.submissions _ hgroup
  have hagrees := fun s hs => agrees_iff (s := s) hvoters hq.replicates haccept hs
  have hplaced := hgroup
  rw [Quorum.answers, Hearing.submissions, FirstFit.groups_concat] at hplaced
  obtain ⟨old, hsplit, hfits⟩ := FirstFit.full_place hopen.short hplaced hfull
  have hold : (largest (clusters F c.spec c.submissions)).members = old ++ [c.answer] := hsplit
  have hlast : c.answer ∈ (largest (clusters F c.spec c.submissions)).members := by
    rw [hold]
    exact List.mem_append_right _ (List.mem_singleton_self _)
  have hworker : c.session.workerId ∈ (c.verdict cfg v).agreeing :=
    (hagrees c.answer (answer_mem c)).mpr hlast
  have hsame := (quorumFor_policy cfg c.session (c.opened v).reputation).1
  obtain ⟨hagreeing, -⟩ := decide_accepted (hsame ▸ hq.replicates) hne haccept
  have hlist : (c.verdict cfg v).agreeing =
      (largest (clusters F c.spec c.submissions)).members.map Submission.worker := hagreeing
  have hdistinct : (c.verdict cfg v).agreeing.Nodup := by
    rw [hlist]
    exact (hsub.map Submission.worker).nodup hvoters
  obtain ⟨s, hs, hcandid⟩ := exists_candid (hlist ▸ hdistinct) (Nat.lt_of_lt_of_le hfew hfull)
  have hright : c.payload = right ∨ ∃ w ∈ (c.verdict cfg v).agreeing, w ∉ liars ∧
      sameAnswer F c.spec c.answer (candidAnswer cfg c.spec right w) = true := by
    have hmem := hs
    rw [hold] at hmem
    rcases List.mem_append.mp hmem with holder | hnewer
    · -- somebody else was right before, and the answer agrees with that
      have hvote := hsub.subset hs
      rcases List.mem_append.mp hvote with hearlier | hitself
      · right
        refine ⟨s.worker, (hagrees s hvote).mpr hs, hcandid, ?_⟩
        rw [← hopen.candid s hearlier hcandid]
        exact hfits s holder
      · rw [List.mem_singleton.mp hitself] at hcandid
        exact .inl (hhonest hcandid)
    · rw [List.mem_singleton.mp hnewer] at hcandid
      exact .inl (hhonest hcandid)
  refine ⟨⟨⟨c.answer, answer_mem c, hworker, rfl, rfl⟩, hworker⟩, ?_, hdistinct, hright,
    fun hexact => ?_⟩
  · rw [hlist, List.length_map]
    exact hfull
  · rcases hright with hpayload | ⟨w, -, -, hagree⟩
    · rw [h.checksum, hpayload]
    · exact (sameAnswer_exact hexact _ _).mp hagree

-- The votes on a task, with what they are about.
def Sworn (cfg : Config F) (truth : Truth) (liars : Finset WorkerId) (m : JobManager)
    (t : Task) : Prop :=
  t.submissions = [] ∨ ∃ job spec, m.findJob t.job = some job ∧
    cfg.kernels.find job.kernelId = some spec ∧
      ∀ right, truth.output job t.span = some right → Open cfg liars spec right t.submissions

-- Whoever does not lie sends the right output of the task.
def Sincere (cfg : Config F) (truth : Truth) (liars : Finset WorkerId) (v : Server F)
    (e : Event F) : Prop :=
  ∀ c, v.Hears cfg e c → c.session.workerId ∉ liars → ∀ job,
    v.jobs.findJob c.task.job = some job → ∀ right, truth.output job c.task.span = some right →
      c.payload = right

theorem Sworn.stays (h : Sworn cfg truth liars m t) (hstays : m.Stays m') (hlater : t.Later t')
    (hvotes : t'.submissions = t.submissions) : Sworn cfg truth liars m' t' := by
  have hspan : t'.span = t.span := by
    unfold Task.span
    rw [hlater.startUnit, hlater.unitCount]
  rcases h with hnone | ⟨job, spec, hjob, hspec, hopen⟩
  · exact .inl (hvotes.trans hnone)
  · obtain ⟨job', hjob', hsame⟩ := hstays.job hjob
    refine .inr ⟨job', spec, hlater.job ▸ hjob', hsame.kernelId ▸ hspec, ?_⟩
    rw [truth.setup t'.span hsame, hspan, hvotes]
    exact hopen

-- A task that nobody has answered is as it was, or it is new.
theorem Quiet.votes (h : Moves Quiet m m') (hm : m.Minted) (hf : m'.find id = some t') :
    t'.submissions = [] ∨ ∃ t, m.find id = some t ∧ t.Later t' ∧
      t'.submissions = t.submissions := by
  have hinv := h.invariant (fun n => n.Minted ∧ ∀ t', n.find id = some t' →
    t'.submissions = [] ∨ ∃ t, m.find id = some t ∧ t.Later t' ∧ t'.submissions = t.submissions)
    ⟨hm, fun t' hf' => .inr ⟨t', hf', .refl t', rfl⟩⟩ ?_
  · exact hinv.2 t' hf
  · rintro n l n' ⟨hn, hwas⟩ ⟨-, hspares, -⟩ hmove
    refine ⟨hmove.minted hn, fun t'' hf'' => ?_⟩
    rcases hmove.find_eq hn id with ⟨heq, -⟩ | ⟨a, s, u, rfl, hs, hr, -, hu⟩ |
      ⟨u, -, hborn, -, -, hu⟩
    · exact hwas t'' (heq ▸ hf'')
    · rw [hf''] at hu
      cases hu
      obtain ⟨hsame, -⟩ := result_spares hr (hspares id a rfl)
      have hone : Moves (fun _ _ => True) n n' := Reach.single trivial hmove
      obtain ⟨w, hw, hlater⟩ := Moves.later hone hs
      rw [hf''] at hw
      cases hw
      rcases hwas s hs with hnone | ⟨t, ht, hbefore, hvotes⟩
      · exact .inl (hsame.trans hnone)
      · exact .inr ⟨t, ht, hbefore.trans hlater, hsame.trans hvotes⟩
    · rw [hf''] at hu
      cases hu
      exact .inl hborn.submissions

-- The task of an answer, with its job.
theorem Hears.owner (h : v.Hears cfg e c) : ∃ job, v.jobs.findJob c.task.job = some job ∧
    cfg.kernels.find job.kernelId = some c.spec := by
  obtain ⟨t, ht, -, hready⟩ := h.landed.readied_find
  obtain rfl : t = c.task := Option.some.inj (ht.symm.trans h.task)
  have hkernel := h.kernel
  unfold kernelFor at hkernel
  obtain ⟨u, hu, hspec⟩ := Option.bind_eq_some_iff.mp hkernel
  obtain rfl := Option.some.inj (hready.symm.trans hu)
  obtain ⟨⟨job, spec⟩, hkernelOf, rfl⟩ := Option.map_eq_some_iff.mp hspec
  obtain ⟨hjob, hfind⟩ := kernelOf_some hkernelOf
  exact ⟨job, (h.landed.findJob c.task.job).symm.trans hjob, hfind⟩

theorem Hears.sworn (h : v.Hears cfg e c) (hsworn : Sworn cfg truth liars v.jobs c.task) {job : Job}
    (hjob : v.jobs.findJob c.task.job = some job)
    (hright : truth.output job c.task.span = some right) :
    Open cfg liars c.spec right c.task.submissions := by
  obtain ⟨job', hjob', hspec⟩ := h.owner
  obtain rfl := Option.some.inj (hjob.symm.trans hjob')
  rcases hsworn with hnone | ⟨job'', spec, hjob'', hspec', hopen⟩
  · rw [hnone]
    refine ⟨fun g hg => ?_, fun s hs => ?_⟩
    · cases hg
    · cases hs
  · obtain rfl := Option.some.inj (hjob.symm.trans hjob'')
    obtain rfl := Option.some.inj (hspec.symm.trans hspec')
    exact hopen right hright

-- A vote that decides nothing yet leaves the task open.
theorem Open.voted (hq : cfg.quorum.Strict) (hp : v.jobs.Polled cfg.quorum.maxReplicas)
    (h : v.Hears cfg e c) (hopen : Open cfg liars c.spec right c.task.submissions)
    (hhonest : c.session.workerId ∉ liars → c.payload = right)
    (hwaits : (c.verdict cfg v).action ≠ .accept) : Open cfg liars c.spec right c.submissions where
  short g hg := by
    have hne : c.submissions ≠ [] := List.ne_nil_of_mem (answer_mem c)
    obtain ⟨-, hmost⟩ := largest_clusters F c.spec hne
    have hfew := mt (h.strict hq hp).mpr hwaits
    have hsize := hmost g hg
    omega
  candid s hs hcandid := by
    rcases List.mem_append.mp hs with hold | hnew
    · exact hopen.candid s hold hcandid
    · obtain rfl := List.mem_singleton.mp hnew
      have hpayload := hhonest hcandid
      have hchecksum := h.checksum
      rw [hpayload] at hchecksum
      show (⟨c.session.workerId, c.header.checksum, retained c.spec c.payload⟩ : Submission) =
        ⟨c.session.workerId, cfg.blake3 right, retained c.spec right⟩
      rw [hchecksum, hpayload]

theorem Hears.keeps_sworn (hq : cfg.quorum.Strict) (hp : v.jobs.Polled cfg.quorum.maxReplicas)
    (hn : v.Named) (hs : v.jobs.Sound cfg.kernels good)
    (hsworn : ∀ id t, v.jobs.find id = some t → Sworn cfg truth liars v.jobs t)
    (hhonest : Sincere cfg truth liars v e) (h : v.Hears cfg e c)
    (hf : (v.next cfg e).jobs.find id = some t') :
    Sworn cfg truth liars (v.next cfg e).jobs t' := by
  have hstays := next_stays hn hs e
  obtain ⟨m, hanswers, hjobs⟩ := h.judges
  obtain ⟨t, ht, -, hjudged, -⟩ := hanswers.judged
  obtain rfl : t = c.task := Option.some.inj (ht.symm.trans h.task)
  have hkept : v.jobs.find id = some t' → Sworn cfg truth liars (v.next cfg e).jobs t' :=
    fun hold => (hsworn id t' hold).stays hstays (.refl t') rfl
  by_cases haction : (c.verdict cfg v).action = .accept
  · rw [haction] at hanswers
    rw [hjobs, if_pos haction] at hf
    obtain ⟨t, -, -, hwon, hrest⟩ := hanswers.cancel_find hs.minted hs.partition
    by_cases hid : id = c.taskId
    · rw [hid, hwon] at hf
      cases hf
      exact .inl rfl
    · rcases hrest id hid with hsame | ⟨s, hs', -, hlive, hcancelled⟩
      · exact hkept (hsame ▸ hf)
      · rw [hcancelled] at hf
        cases hf
        refine (hsworn id s hs').stays hstays ⟨rfl, rfl, rfl, rfl, fun hterminal => ?_⟩ rfl
        rcases hlive with hstate | hstate | hstate <;> rw [hstate] at hterminal <;> cases hterminal
  · rw [hjobs, if_neg haction] at hf
    by_cases hid : id = c.taskId
    · rw [hid, hjudged] at hf
      cases hf
      obtain ⟨job, hjob, hspec⟩ := h.owner
      have hvoted : ∀ right, truth.output job c.task.span = some right →
          Open cfg liars c.spec right c.submissions := by
        intro right hright
        have hopen := h.sworn (hsworn c.taskId c.task h.task) hjob hright
        exact Open.voted hq hp h hopen (fun hw => hhonest c h hw job hjob right hright) haction
      obtain ⟨job', hjob', hsame⟩ := hstays.job hjob
      generalize (c.verdict cfg v).action = action at haction
      cases action with
      | accept => exact absurd rfl haction
      | inconclusive => exact .inl rfl
      | needMoreReplicas =>
          refine .inr ⟨job', c.spec, hjob', hsame.kernelId ▸ hspec, ?_⟩
          rw [truth.setup _ hsame]
          exact hvoted
    · exact hkept (hanswers.others id hid ▸ hf)

theorem next_sworn (hq : cfg.quorum.Strict) (hp : v.jobs.Polled cfg.quorum.maxReplicas)
    (hn : v.Named) (hs : v.jobs.Sound cfg.kernels good)
    (hsworn : ∀ id t, v.jobs.find id = some t → Sworn cfg truth liars v.jobs t)
    (hhonest : Sincere cfg truth liars v e) (hf : (v.next cfg e).jobs.find id = some t') :
    Sworn cfg truth liars (v.next cfg e).jobs t' := by
  have hstays := next_stays hn hs e
  by_cases hheard : ∃ c, v.Hears cfg e c
  · obtain ⟨c, hc⟩ := hheard
    exact hc.keeps_sworn hq hp hn hs hsworn hhonest hf
  · by_cases hplants : e.Plants
    · have hold : v.jobs.find id = some t' := by
        rcases hplants with ⟨kernelId, totalUnits, seed, unitsPerGroup, rfl⟩ |
          ⟨render, inputRef, rfl⟩
        · exact hf
        · exact hf
      exact (hsworn id t' hold).stays hstays (.refl t') rfl
    · have hquiet := next_quiet hs (not_exists.mp hheard) hplants
      rcases Quiet.votes hquiet hs.minted hf with hnone | ⟨t, ht, hlater, hvotes⟩
      · exact .inl hnone
      · exact (hsworn id t ht).stays hstays hlater hvotes

theorem sworn_of_run (hq : cfg.quorum.Strict) (h₀ : v₀.Started)
    (h : Reach (Step cfg) (Sincere cfg truth liars) v₀ v) :
    ∀ id t, v.jobs.find id = some t → Sworn cfg truth liars v.jobs t := by
  induction h with
  | refl =>
      intro id t hf
      have hempty : v₀.jobs = {} := h₀.jobs
      rw [hempty] at hf
      cases hf
  | tail hrun hlast ih =>
      obtain ⟨e, hhonest, hstep⟩ := hlast
      obtain ⟨hn, hs⟩ := sound_of_run (fun _ => False) h₀ hrun
      intro id t hf
      rw [hstep.rows.find_eq] at hf
      have hnext := next_sworn hq (polled_of_run h₀ hrun) hn hs ih hhonest hf
      exact hnext.stays (.sameRows hstep.rows) (.refl t) rfl

-- While there are fewer liars than an answer needs voters, what is published is right.
theorem liars_outvoted {job : Job} (hq : cfg.quorum.Strict)
    (hfew : liars.card < cfg.quorum.requiredAgreement.toNat) (h₀ : v₀.Started)
    (hrun : Reach (Step cfg) (Sincere cfg truth liars) v₀ v) (hhonest : Sincere cfg truth liars v e)
    (h : v.Hears cfg e c) (hjob : v.jobs.findJob c.task.job = some job)
    (hright : truth.output job c.task.span = some right)
    (haccept : (c.verdict cfg v).action = .accept) (hstep : Step cfg v e v') :
    v.Publishes cfg v' c ∧ Established cfg v c liars right := by
  have hpolled := polled_of_run h₀ hrun
  have hsworn := sworn_of_run hq h₀ hrun c.taskId c.task h.task
  have hopen := h.sworn hsworn hjob hright
  refine ⟨(h.publishes haccept).step hstep, ?_⟩
  exact h.established hq hpolled hopen (fun hw => hhonest c h hw job hjob right hright) hfew haccept

end

section

variable {F : Type} [Double F] {cfg : Config F} {v : Server F} {e : Event F}
  {liars : Finset WorkerId} {right : Payload}

-- A run on fixed events, with its guard as a check.
theorem reach_passes {check : Server F → Event F → Bool} {guard : Server F → Event F → Prop}
    (hcheck : ∀ v e, check v e = true → guard v e) (events : List (Event F))
    (h : Recalling.passes (next cfg) (fun _ => check) [] v events = true) :
    Reach (Step cfg) guard v (v.runAll cfg events) := by
  have hrun : Reach (Recalling (Step cfg)) (fun x e => guard x.1 e) (v, [])
      (v.runAll cfg events, [] ++ v.history cfg events) :=
    Recalling.foldl_passes (step_next cfg) (fun _ v e => hcheck v e) events [] v h
  exact Recalling.forget_guarded hrun fun _ _ hguard => hguard

def heardRight (cfg : Config F) (liars : Finset WorkerId) (right : Payload) (v : Server F)
    (e : Event F) : Bool :=
  (v.hear cfg e).all fun c => c.session.workerId ∈ liars || c.payload = right

theorem sincere_of_heardRight (h : heardRight cfg liars right v e = true) :
    Sincere cfg (.always right) liars v e := by
  intro c hc hcandid job _ right' hsame
  cases hsame
  unfold heardRight at h
  rw [hear_of_hears hc] at h
  rcases Bool.or_eq_true_iff.mp h with hlies | hright
  · exact absurd (of_decide_eq_true hlies) hcandid
  · exact of_decide_eq_true hright

end

-- The first of three workers lies, and the second one is about to be confirmed.
def liedRun : List (Event Rat) :=
  crew ++ [asks 1 200, tells 1 ⟨0, 2⟩ [2] 210, asks 2 220, tells 2 ⟨0, 2⟩ [1] 230, asks 3 240]

theorem liars_outvoted_search :
    ∃ c, (searchStart.runAll doubled liedRun).Publishes doubled
        ((searchStart.runAll doubled liedRun).next doubled (tells 3 ⟨0, 2⟩ [1] 250)) c ∧
      Established doubled (searchStart.runAll doubled liedRun) c {⟨1, 0⟩} [1] := by
  have hear : ((searchStart.runAll doubled liedRun).hear doubled (tells 3 ⟨0, 2⟩ [1] 250)).map
      (fun c => ((c.verdict doubled (searchStart.runAll doubled liedRun)).action,
        ((searchStart.runAll doubled liedRun).jobs.findJob c.task.job).isSome)) =
      some (.accept, true) := by
    decide +kernel
  obtain ⟨c, hc, hruling⟩ := Option.map_eq_some_iff.mp hear
  obtain ⟨haction, howned⟩ := Prod.mk.inj hruling
  obtain ⟨job, hjob⟩ := Option.isSome_iff_exists.mp howned
  have hchecks : Recalling.passes (next doubled) (fun _ => heardRight doubled {⟨1, 0⟩} [1]) []
      searchStart liedRun = true := by decide +kernel
  have hrun : Reach (Step doubled) (Sincere doubled (.always [1]) {⟨1, 0⟩}) searchStart
      (searchStart.runAll doubled liedRun) :=
    reach_passes (fun _ _ => sincere_of_heardRight) liedRun hchecks
  have hlast : heardRight doubled {⟨1, 0⟩} [1] (searchStart.runAll doubled liedRun)
      (tells 3 ⟨0, 2⟩ [1] 250) = true := by decide +kernel
  have hstrict : doubled.quorum.Strict := ⟨rfl, by decide⟩
  exact ⟨c, liars_outvoted hstrict (by decide) searchStart_started hrun
    (sincere_of_heardRight hlast) (hears_of_hear hc) hjob rfl haction (step_next _ _ _)⟩

end Server

end P2pGpu.Coordinator
