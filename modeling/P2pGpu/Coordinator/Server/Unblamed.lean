import P2pGpu.Coordinator.Server.GroundTruth
import P2pGpu.Coordinator.Server.Liars
import P2pGpu.Coordinator.Server.Standing

namespace P2pGpu.Coordinator

open P2pGpu.Protocol

-- A range has one right output, whichever job it is of.
def Truth.ofSpan (right : Span → Payload) : Truth where
  output _ span := some (right span)
  setup _ _ := rfl

section

variable {F : Type} [Double F]

namespace ReputationTable

variable {rep rep' : ReputationTable F} {w : WorkerId}

-- No answer of the worker was rejected, and it failed no spot check.
def Spotless (rep : ReputationTable F) (w : WorkerId) : Prop :=
  ∀ r, rep.find w = some r → r.rejected = 0 ∧ r.spotCheckFailures = 0

theorem Spotless.mutable (h : rep.Spotless w) :
    (rep.mutable w).rejected = 0 ∧ (rep.mutable w).spotCheckFailures = 0 := by
  unfold ReputationTable.mutable
  cases hf : rep.find w with
  | none => exact ⟨rfl, rfl⟩
  | some r => exact h r hf

theorem SameCounts.spotless (hsame : rep.SameCounts rep') (h : rep.Spotless w) :
    rep'.Spotless w := by
  intro r' hr'
  have hcounts : ∃ r : Reputation F, r'.counts = r.counts ∧ r.rejected = 0 ∧
      r.spotCheckFailures = 0 := by
    cases hf : rep.find w with
    | none => exact ⟨rep.prior, hsame.created w r' hf hr', rfl, rfl⟩
    | some r =>
        obtain ⟨r'', hr'', hcounts⟩ := hsame.kept w r hf
        obtain rfl := Option.some.inj (hr''.symm.trans hr')
        exact ⟨r, hcounts, h r hf⟩
  obtain ⟨r, hcounts, hrejected, hfailures⟩ := hcounts
  simp only [Reputation.counts, Prod.mk.injEq] at hcounts
  obtain ⟨-, -, -, hsameRejected, hsameFailures⟩ := hcounts
  exact ⟨hsameRejected.trans hrejected, hsameFailures.trans hfailures⟩

theorem find_recordRejected_ne {id : WorkerId} (hne : w ≠ id) (severity : F) (spotCheck : Bool) :
    (rep.recordRejected id severity spotCheck).find w = rep.find w := by
  unfold recordRejected
  split
  · rw [find_put, if_neg hne]
  · rw [find_put, if_neg hne]

theorem find_maybeBlacklist_ne {id : WorkerId} (hne : w ≠ id) (nowMs : UInt64) :
    (rep.maybeBlacklist id nowMs).2.find w = rep.find w := by
  unfold maybeBlacklist
  dsimp only
  split
  · rw [find_put, if_neg hne]
  · split
    · rw [find_put, if_neg hne]
    · rw [find_put, if_neg hne]

theorem Spotless.recordAccepted (h : rep.Spotless w) (id : WorkerId) :
    (rep.recordAccepted id).Spotless w := by
  intro r hr
  unfold ReputationTable.recordAccepted at hr
  rw [find_put] at hr
  by_cases hid : w = id
  · subst hid
    rw [if_pos rfl] at hr
    obtain rfl := Option.some.inj hr
    split
    · exact h.mutable
    · exact h.mutable
  · rw [if_neg hid] at hr
    exact h r hr

-- What is entered about a worker leaves it spotless, unless it is rejected.
theorem Spotless.enter (h : rep.Spotless w) (nowMs : UInt64) {entry : Entry F}
    (hnone : ∀ severity spotCheck, entry ≠ .rejected w severity spotCheck) :
    (Entry.enter nowMs rep entry).Spotless w := by
  cases entry with
  | accepted id => exact h.recordAccepted id
  | rejected id severity spotCheck =>
      have hne : w ≠ id := fun hid => hnone severity spotCheck (by rw [hid])
      intro r hr
      refine h r ?_
      rw [← find_recordRejected_ne hne severity spotCheck, ← find_maybeBlacklist_ne hne nowMs]
      exact hr

theorem Spotless.entries (h : rep.Spotless w) (nowMs : UInt64) {entries : List (Entry F)}
    (hnone : ∀ severity spotCheck, .rejected w severity spotCheck ∉ entries) :
    (entries.foldl (Entry.enter nowMs) rep).Spotless w := by
  induction entries generalizing rep with
  | nil => exact h
  | cons entry entries ih =>
      have hfirst := h.enter nowMs fun severity spotCheck hentry =>
        hnone severity spotCheck (hentry ▸ List.mem_cons_self)
      exact ih hfirst fun severity spotCheck hmem =>
        hnone severity spotCheck (List.mem_cons_of_mem entry hmem)

end ReputationTable

namespace Server

open JobManager Session Quorum

variable {cfg : Config F} {v₀ v v' : Server F} {e : Event F} {c : Hearing}
  {liars : Finset WorkerId} {right : Payload} {outputs : Span → Payload} {good : JobId → Prop}
  {w : WorkerId}

-- Whoever is charged by a quorum that accepts is a liar.
theorem Hears.dissenting_lie (hq : cfg.quorum.Strict)
    (hp : v.jobs.Polled cfg.quorum.maxReplicas) (h : v.Hears cfg e c)
    (hopen : Open cfg liars c.spec right c.task.submissions)
    (hhonest : c.session.workerId ∉ liars → c.payload = right)
    (hfew : liars.card < cfg.quorum.requiredAgreement.toNat)
    (hexact : c.spec.determinism = .exact) (haccept : (c.verdict cfg v).action = .accept)
    (hw : w ∈ (c.verdict cfg v).dissenting) : w ∈ liars := by
  have hne : c.submissions ≠ [] := List.ne_nil_of_mem (answer_mem c)
  have hestablished := h.established hq hp hopen hhonest hfew haccept
  have hright : c.header.checksum = cfg.blake3 right := hestablished.checksum hexact
  have hsame := (quorumFor_policy cfg c.session (c.opened v).reputation).1
  obtain ⟨checksum, he⟩ := FirstFit.elects (sameAnswer_exact (F := F) hexact) hne
  have hworkers := elects_workers he (hsame ▸ hq.replicates) hne haccept
  -- the last answer is among the winners, so that they have its checksum
  have hchecksum : checksum = cfg.blake3 right := by
    obtain ⟨s, hs, hwon, hworker⟩ := (hworkers c.session.workerId).1.mp hestablished.backed.2
    have hlast := List.inj_on_of_nodup_map (h.voters hp) hs (answer_mem c) hworker
    rw [← hwon, hlast]
    exact hright
  obtain ⟨s, hs, hother, rfl⟩ := (hworkers w).2.mp hw
  by_contra hcandid
  refine hother (Eq.trans ?_ hchecksum.symm)
  rcases List.mem_append.mp hs with hearlier | hitself
  · rw [hopen.candid s hearlier hcandid]
    rfl
  · rw [List.mem_singleton.mp hitself]
    exact hright

-- The pool knows right answers only, and those are what its probes are checked against.
structure Certain (cfg : Config F) (outputs : Span → Payload) (v : Server F) : Prop where
  known : ∀ {pool k}, v.shared.spotChecks = some pool → k ∈ pool.known →
    k.checksum = cfg.blake3 (outputs k.span)
  probes : ∀ {pool id x}, v.shared.spotChecks = some pool → pool.expectedFor id = some x →
    ∃ job span, v.jobs.Ranges id job span ∧ x = cfg.blake3 (outputs span)

-- Every answer is one for an exact kernel, and it is right unless a liar sends it.
structure Exacting (cfg : Config F) (outputs : Span → Payload) (liars : Finset WorkerId)
    (v : Server F) (e : Event F) : Prop where
  sincere : Sincere cfg (.ofSpan outputs) liars v e
  exact : ∀ c, v.Hears cfg e c → c.spec.determinism = .exact

def Unblamed (v : Server F) (w : WorkerId) : Prop :=
  ∀ rep, v.shared.reputation = some rep → rep.Spotless w

theorem blamed_of_rejected {n : UInt32} (hn : n ≠ 0)
    (h : (v.shared.reputation.bind fun rep => rep.find w).map Reputation.rejected = some n) :
    ¬ v.Unblamed w := by
  intro hunblamed
  obtain ⟨r, hr, rfl⟩ := Option.map_eq_some_iff.mp h
  obtain ⟨rep, hrep, hf⟩ := Option.bind_eq_some_iff.mp hr
  exact hn (hunblamed rep hrep r hf).1

theorem Certain.started (h : v.Started) : Certain cfg outputs v where
  known hpool hk := by
    rw [(h.spotChecks _ hpool).1] at hk
    cases hk
  probes {pool id x} hpool hx := by
    rw [h.expectedFor hpool] at hx
    cases hx

-- An event of such a run, while there are fewer liars than an answer needs voters.
structure Outvotes (cfg : Config F) (outputs : Span → Payload) (liars : Finset WorkerId)
    (v : Server F) (e : Event F) : Prop where
  strict : cfg.quorum.Strict
  few : liars.card < cfg.quorum.requiredAgreement.toNat
  polled : v.jobs.Polled cfg.quorum.maxReplicas
  sworn : ∀ id t, v.jobs.find id = some t → Sworn cfg (.ofSpan outputs) liars v.jobs t
  exacting : Exacting cfg outputs liars v e

theorem Hears.opens (ho : Outvotes cfg outputs liars v e) (h : v.Hears cfg e c) :
    Open cfg liars c.spec (outputs c.task.span) c.task.submissions ∧
      (c.session.workerId ∉ liars → c.payload = outputs c.task.span) := by
  obtain ⟨job, hjob, -⟩ := h.owner
  refine ⟨h.sworn (ho.sworn c.taskId c.task h.task) hjob rfl, fun hcandid => ?_⟩
  exact ho.exacting.sincere c h hcandid job hjob _ rfl

theorem Certain.next (ho : Outvotes cfg outputs liars v e) (hn : v.Named)
    (hs : v.jobs.Sound cfg.kernels good) (hcertain : Certain cfg outputs v)
    (hstep : Step cfg v e v') : Certain cfg outputs v' := by
  have hmoves := step_moves hn hs hstep
  have hkept : ∀ {pool id x}, v.shared.spotChecks = some pool → pool.expectedFor id = some x →
      ∃ job span, v'.jobs.Ranges id job span ∧ x = cfg.blake3 (outputs span) := by
    intro pool id x hpool hx
    obtain ⟨job, span, hranges, hright⟩ := hcertain.probes hpool hx
    exact ⟨job, span, hranges.moves hs.minted hmoves, hright⟩
  by_cases hhears : ∃ c, v.Hears cfg e c
  · obtain ⟨c, hc⟩ := hhears
    obtain ⟨hopen, hhonest⟩ := hc.opens ho
    refine ⟨fun {pool' k} hpool' hk => ?_, fun {pool' id x} hpool' hx => ?_⟩
    · rw [hstep.rest] at hpool'
      obtain ⟨pool, hpool, -, hknown⟩ := hc.pool hpool'
      rcases hknown k hk with hold | ⟨rfl, haccept, -⟩
      · exact hcertain.known hpool hold
      · exact (hc.established ho.strict ho.polled hopen hhonest ho.few haccept).checksum
          (ho.exacting.exact c hc)
    · rw [hstep.rest] at hpool'
      obtain ⟨pool, hpool, hexpected, -⟩ := hc.pool hpool'
      rw [hexpected] at hx
      split at hx
      · cases hx
      · exact hkept hpool hx
  · have hissues := next_pool hs (not_exists.mp hhears)
    have hback : ∀ {pool'}, (v.next cfg e).shared.spotChecks = some pool' →
        ∃ pool, v.shared.spotChecks = some pool ∧ pool.known = pool'.known := by
      intro pool' hpool'
      have hknown := hissues.known
      rw [hpool'] at hknown
      exact Option.map_eq_some_iff.mp hknown.symm
    refine ⟨fun {pool' k} hpool' hk => ?_, fun {pool' id x} hpool' hx => ?_⟩
    · rw [hstep.rest] at hpool'
      obtain ⟨pool, hpool, hsame⟩ := hback hpool'
      exact hcertain.known hpool (hsame ▸ hk)
    · rw [hstep.rest] at hpool'
      obtain ⟨pool, hpool, -⟩ := hback hpool'
      rcases hissues.probes hpool hpool' hx with hold | ⟨-, k, hk, rfl, job, total, -, hranges⟩
      · exact hkept hpool hold
      · have hminted := ((next_deed cfg v e).sound hn hs).minted
        exact ⟨job, k.span, hranges.move hminted (Move.aux _ _ hstep.rows), hcertain.known hpool hk⟩

-- Of those who do not lie nobody fails a spot check or is outvoted.
theorem Hears.unblamed (ho : Outvotes cfg outputs liars v e) (h : v.Hears cfg e c)
    (hcertain : Certain cfg outputs v) (hw : w ∉ liars) (severity : F) (spotCheck : Bool) :
    .rejected w severity spotCheck ∉ c.entries cfg v := by
  obtain ⟨hopen, hhonest⟩ := h.opens ho
  intro hmem
  unfold Hearing.entries at hmem
  split at hmem
  · rcases List.mem_append.mp hmem with hprobe | hquorum
    · unfold Hearing.probeEntries at hprobe
      cases hexpected : c.expected v with
      | none =>
          rw [hexpected] at hprobe
          cases hprobe
      | some checksum =>
          rw [hexpected] at hprobe
          dsimp only at hprobe
          split at hprobe
          · cases List.mem_singleton.mp hprobe
          · rename_i hwrong
            injection List.mem_singleton.mp hprobe with hworker
            obtain ⟨pool, hpool, hx⟩ := Option.bind_eq_some_iff.mp hexpected
            obtain ⟨job, span, ⟨t, ht, -, hspan⟩, hright⟩ := hcertain.probes hpool hx
            obtain rfl := Option.some.inj (ht.symm.trans h.task)
            refine hwrong ?_
            rw [h.checksum, hhonest (hworker ▸ hw), hright, hspan]
    · split at hquorum
      · rename_i haccept
        rcases List.mem_append.mp hquorum with hagrees | hdissents
        · obtain ⟨id, -, hid⟩ := List.mem_map.mp hagrees
          cases hid
        · obtain ⟨id, hid, hentry⟩ := List.mem_map.mp hdissents
          injection hentry with hworker
          refine hw (h.dissenting_lie ho.strict ho.polled hopen hhonest ho.few
            (ho.exacting.exact c h) haccept ?_)
          rw [← hworker]
          exact hid
      · cases hquorum
  · cases hmem

theorem Unblamed.next (ho : Outvotes cfg outputs liars v e)
    (hs : v.jobs.Sound cfg.kernels good) (hcertain : Certain cfg outputs v) (hw : w ∉ liars)
    (h : v.Unblamed w) (hstep : Step cfg v e v') : v'.Unblamed w := by
  intro rep' hrep'
  rw [hstep.rest] at hrep'
  by_cases hhears : ∃ c, v.Hears cfg e c
  · obtain ⟨c, hc⟩ := hhears
    rw [hc.enters] at hrep'
    obtain ⟨rep, hrep, rfl⟩ := Option.map_eq_some_iff.mp hrep'
    exact (h rep hrep).entries c.session.nowMs (hc.unblamed ho hcertain hw)
  · have hstanding := (unlanded_of_unheard hs (not_exists.mp hhears)).standing
    cases hrep : v.shared.reputation with
    | none =>
        have hsome := (next_pool hs (not_exists.mp hhears)).reputation
        rw [hrep, hrep'] at hsome
        cases hsome
    | some rep =>
        obtain ⟨rep'', hrep'', hcounts⟩ := hstanding rep hrep
        obtain rfl := Option.some.inj (hrep''.symm.trans hrep')
        exact hcounts.spotless (h rep hrep)

theorem outvotes_of_run (hq : cfg.quorum.Strict)
    (hfew : liars.card < cfg.quorum.requiredAgreement.toNat) (h₀ : v₀.Started)
    (h : Reach (Step cfg) (Exacting cfg outputs liars) v₀ v)
    (hexacting : Exacting cfg outputs liars v e) : Outvotes cfg outputs liars v e where
  strict := hq
  few := hfew
  polled := polled_of_run h₀ h
  sworn := sworn_of_run hq h₀ (Reach.mono (fun _ _ hl => hl.sincere) h)
  exacting := hexacting

theorem certain_of_run (hq : cfg.quorum.Strict)
    (hfew : liars.card < cfg.quorum.requiredAgreement.toNat) (h₀ : v₀.Started)
    (h : Reach (Step cfg) (Exacting cfg outputs liars) v₀ v) : Certain cfg outputs v := by
  induction h with
  | refl => exact .started h₀
  | tail hrun hlast ih =>
      obtain ⟨e, hexacting, hstep⟩ := hlast
      obtain ⟨hn, hs⟩ := sound_of_run (fun _ => False) h₀ hrun
      exact ih.next (outvotes_of_run hq hfew h₀ hrun hexacting) hn hs hstep

theorem unblamed_of_run (hq : cfg.quorum.Strict)
    (hfew : liars.card < cfg.quorum.requiredAgreement.toNat) (h₀ : v₀.Started) (hw : w ∉ liars)
    (hclean : v₀.Unblamed w) (h : Reach (Step cfg) (Exacting cfg outputs liars) v₀ v) :
    v.Unblamed w := by
  induction h with
  | refl => exact hclean
  | tail hrun hlast ih =>
      obtain ⟨e, hexacting, hstep⟩ := hlast
      obtain ⟨-, hs⟩ := sound_of_run (fun _ => False) h₀ hrun
      have houtvotes := outvotes_of_run hq hfew h₀ hrun hexacting
      exact ih.next houtvotes hs (certain_of_run hq hfew h₀ hrun) hw hstep

-- While there are fewer liars than an answer needs voters, nobody else is ever blamed,
-- neither by a quorum nor by a spot check.
theorem honest_unblamed (hq : cfg.quorum.Strict)
    (hfew : liars.card < cfg.quorum.requiredAgreement.toNat) (h₀ : v₀.Started)
    (hclean : ∀ w, w ∉ liars → v₀.Unblamed w)
    (h : Reach (Step cfg) (Exacting cfg outputs liars) v₀ v) :
    Certain cfg outputs v ∧ ∀ w, w ∉ liars → v.Unblamed w := by
  refine ⟨certain_of_run hq hfew h₀ h, fun w hw => ?_⟩
  exact unblamed_of_run hq hfew h₀ hw (hclean w hw) h

-- The conditions as a check, for one output of every range.
def exacts (cfg : Config F) (liars : Finset WorkerId) (right : Payload) (v : Server F)
    (e : Event F) : Bool :=
  heardRight cfg liars right v e &&
    (v.hear cfg e).all fun c => decide (c.spec.determinism = .exact)

theorem exacting_of_exacts (h : exacts cfg liars right v e = true) :
    Exacting cfg (fun _ => right) liars v e := by
  obtain ⟨hright, hexact⟩ := Bool.and_eq_true_iff.mp h
  refine ⟨sincere_of_heardRight hright, fun c hc => ?_⟩
  rw [hear_of_hears hc] at hexact
  exact of_decide_eq_true hexact

end Server

end

namespace Server

-- One worker passes its probe, and another one lies at its own.
def foundOutRun : List (Event Rat) :=
  probeRun ++ [tells 2 ⟨0, 8⟩ [1] 1010, asks 1 1020, tells 1 ⟨0, 9⟩ [2] 1030]

theorem honest_unblamed_probed :
    (probeStart.runAll doubled foundOutRun).Unblamed ⟨2, 0⟩ ∧
      (probeStart.runAll doubled foundOutRun).Unblamed ⟨3, 0⟩ ∧
        ¬ (probeStart.runAll doubled foundOutRun).Unblamed ⟨1, 0⟩ := by
  have hexacts : Recalling.passes (next doubled) (fun _ => exacts doubled {⟨1, 0⟩} [1]) []
      probeStart foundOutRun = true := by decide +kernel
  have hclean : ∀ w, w ∉ ({⟨1, 0⟩} : Finset WorkerId) → probeStart.Unblamed w := by
    intro w _ rep hrep r hr
    cases hrep
    cases hr
  have hstrict : doubled.quorum.Strict := ⟨rfl, by decide⟩
  have hguarded : Reach (Step doubled) (Exacting doubled (fun _ => [1]) {⟨1, 0⟩}) probeStart
      (probeStart.runAll doubled foundOutRun) :=
    reach_passes (fun _ _ => exacting_of_exacts) foundOutRun hexacts
  obtain ⟨-, hall⟩ := honest_unblamed hstrict (by decide) probeStart_started hclean hguarded
  have hsecond : (⟨2, 0⟩ : WorkerId) ∉ ({⟨1, 0⟩} : Finset WorkerId) := by decide
  have hthird : (⟨3, 0⟩ : WorkerId) ∉ ({⟨1, 0⟩} : Finset WorkerId) := by decide
  refine ⟨hall _ hsecond, hall _ hthird, blamed_of_rejected (n := 1) (by decide) ?_⟩
  decide +kernel

end Server

end P2pGpu.Coordinator
