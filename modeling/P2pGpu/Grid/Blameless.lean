import P2pGpu.Coordinator.Server.Unblamed
import P2pGpu.Grid.Answers

namespace P2pGpu

open P2pGpu.Protocol
open P2pGpu.Coordinator (Double Job JobManager Payload Server Truth bruteSearch searchParams)
open P2pGpu.Kernels.BruteSearch (reference)

namespace Coordinator

-- What one thread finds in a range, whichever job with this seed it is of.
def searchOutput (seed : UInt64) (span : Span) : Payload :=
  (reference (searchParams
    { id := Id.nil, kernelId := bruteSearch.id, seed, totalUnits := 0, unitsPerGroup := 0 }
    span.task)).store

theorem search_output {job : Job} {seed : UInt64} (hkernel : job.kernelId = bruteSearch.id)
    (hseed : job.seed = seed) (span : Span) :
    Truth.search.output job span = some (searchOutput seed span) := by
  unfold Truth.search searchOutput
  dsimp only
  rw [if_pos hkernel]
  unfold searchParams
  rw [hseed]

-- Every job is the search with this seed.
def JobManager.Searches (m : JobManager) (seed : UInt64) : Prop :=
  ∀ jobId job, m.findJob jobId = some job → job.kernelId = bruteSearch.id ∧ job.seed = seed

-- No other job comes with the event.
def Event.searches {F : Type} (seed : UInt64) : Event F → Bool
  | .createJob kernelId _ seed' _ => kernelId = bruteSearch.id && seed' = seed
  | .seedRender _ _ => false
  | _ => true

namespace Server

open JobManager

variable {F : Type} [Double F] {cfg : Config F} {v : Server F} {e : Event F} {seed : UInt64}

theorem next_searches {good : JobId → Prop} (hn : v.Named) (hs : v.jobs.Sound cfg.kernels good)
    (h : v.jobs.Searches seed) (he : e.searches seed = true) :
    (v.next cfg e).jobs.Searches seed := by
  intro jobId job' hf
  by_cases hhears : ∃ c, v.Hears cfg e c
  · obtain ⟨c, hc⟩ := hhears
    exact h jobId job' ((hc.findJob jobId).symm.trans hf)
  · by_cases hplants : e.Plants
    · rcases hplants with ⟨kernelId, totalUnits, seed', unitsPerGroup, rfl⟩ |
        ⟨render, inputRef, rfl⟩
      · have hmove := createJob_move v.jobs kernelId totalUnits seed' unitsPerGroup
        rcases hmove.findJob_some hs.partition.fresh hf with hold | ⟨hcreate, -⟩ |
          ⟨_, _, hedit, -⟩ | ⟨_, _, _, _, hcarve, -⟩ | ⟨_, _, _, hreplica, -⟩
        · exact h jobId job' hold
        · cases hcreate
          obtain ⟨hkernel, hseed⟩ := Bool.and_eq_true_iff.mp he
          exact ⟨of_decide_eq_true hkernel, of_decide_eq_true hseed⟩
        · cases hedit
        · cases hcarve
        · cases hreplica
      · cases he
    · have hquiet := next_quiet hs (not_exists.mp hhears) hplants
      obtain ⟨job, hjob, -⟩ := Quiet.job_was hquiet hs.minted hs.partition hf
      obtain ⟨job'', hf'', hsame⟩ := (next_stays hn hs e).job hjob
      obtain rfl := Option.some.inj (hf''.symm.trans hf)
      obtain ⟨hkernel, hseed⟩ := h jobId job hjob
      exact ⟨hsame.kernelId.trans hkernel, hsame.seed.trans hseed⟩

end Server

end Coordinator

namespace Grid

section

variable {F : Type} [Double F] {cfg : Setup F} {g g₀ : Grid F} {e : Event F}
  {e' : Coordinator.Event F} {roster : Roster} {seed : UInt64}

structure FairSearch (roster : Roster) (seed : UInt64) (g : Grid F) (e : Event F) : Prop where
  fair : Fair roster g e
  searches : ∀ e', g.seen e = some e' → e'.searches seed = true

-- What is sent by whoever is honest is the one right output of its range.
theorem Candid.exacting (h : Candid roster .search g) (hfair : FairSearch roster seed g e)
    (hsearches : g.server.jobs.Searches seed)
    (hsearch : cfg.coordinator.kernels.find bruteSearch.id = some bruteSearch)
    (hsees : g.seen e = some e') :
    Server.Exacting cfg.coordinator (Coordinator.searchOutput seed) roster.liars g.server e' where
  sincere c hc hcandid job hjob right hright := by
    cases hright
    obtain ⟨hkernel, hseed⟩ := hsearches c.task.job job hjob
    have houtput := Coordinator.search_output hkernel hseed c.task.span
    exact h.sincere hfair.fair hsees c hc hcandid job hjob _ houtput
  exact c hc := by
    obtain ⟨job, hjob, hspec⟩ := hc.owner
    obtain ⟨hkernel, -⟩ := hsearches c.task.job job hjob
    rw [hkernel, hsearch] at hspec
    rw [← Option.some.inj hspec]
    rfl

theorem exacting_of_run (h₀ : g₀.Started) (hidle : ∀ n, (g₀.stations n).worker = {})
    (hup : ∀ k, g₀.up k = [])
    (hsearch : cfg.coordinator.kernels.find bruteSearch.id = some bruteSearch)
    (h : Reach (Step cfg) (FairSearch roster seed) g₀ g) : g.server.jobs.Searches seed ∧
      Reach (Server.Step cfg.coordinator)
        (Server.Exacting cfg.coordinator (Coordinator.searchOutput seed) roster.liars)
        g₀.server g.server := by
  induction h with
  | refl =>
      refine ⟨fun jobId job hf => ?_, Reach.refl _⟩
      unfold Server.jobs at hf
      rw [h₀.server.jobs] at hf
      cases hf
  | tail hrun hlast ih =>
      obtain ⟨e, hfair, hstep⟩ := hlast
      obtain ⟨hsearches, hserver⟩ := ih
      have hfairly := Reach.mono (fun _ _ hl => FairSearch.fair hl) hrun
      obtain ⟨hcandid, -⟩ := candid_of_run h₀ hidle hup hsearch hfairly
      obtain ⟨hn, hs⟩ := Server.sound_of_run (fun _ => True) h₀.server hserver
      cases hstep.moves with
      | unseen _ hsame =>
          rw [hsame]
          exact ⟨hsearches, hserver⟩
      | seen e' hsees hseen =>
          have hexacting := hcandid.exacting hfair hsearches hsearch hsees
          refine ⟨fun jobId job hf => ?_, hserver.tail hexacting hseen⟩
          rw [hseen.rows.findJob_eq] at hf
          exact Server.next_searches hn hs hsearches (hfair.searches e' hsees) jobId job hf

-- From the shader to the reputation: with fewer liars than an answer needs voters, who
-- sends what its device finds is never blamed for it.
theorem devices_unblamed (h₀ : g₀.Started) (hidle : ∀ n, (g₀.stations n).worker = {})
    (hup : ∀ k, g₀.up k = [])
    (hsearch : cfg.coordinator.kernels.find bruteSearch.id = some bruteSearch)
    (hq : cfg.coordinator.quorum.Strict)
    (hfew : roster.liars.card < cfg.coordinator.quorum.requiredAgreement.toNat)
    (hclean : ∀ w, w ∉ roster.liars → g₀.server.Unblamed w)
    (h : Reach (Step cfg) (FairSearch roster seed) g₀ g) :
    ∀ w, w ∉ roster.liars → g.server.Unblamed w := by
  obtain ⟨-, hserver⟩ := exacting_of_run h₀ hidle hup hsearch h
  intro w hw
  exact Server.unblamed_of_run hq hfew h₀.server hw (hclean w hw) hserver

end

-- The run above to its end, where the first worker is found out.
section

def isFairSearch (seed : UInt64) (g : Grid Rat) (e : Event Rat) : Bool :=
  isFair g e && (g.seen e).all fun e' => e'.searches seed

theorem fairSearch_of_isFairSearch {seed : UInt64} {g : Grid Rat} {e : Event Rat}
    (h : isFairSearch seed g e = true) : FairSearch oneLiar seed g e := by
  obtain ⟨hfair, hsearches⟩ := Bool.and_eq_true_iff.mp h
  refine ⟨fair_of_isFair hfair, fun e' hsees => ?_⟩
  rw [hsees] at hsearches
  exact hsearches

def foundOutRun : List (Event Rat) := outvotedRun ++ [.deliver 3 250 []]

def foundOut : Grid Rat := foundOutRun.foldl (next doubledGrid) gridStart

theorem devices_unblamed_search : foundOut.server.Unblamed ⟨2, 0⟩ ∧
    foundOut.server.Unblamed ⟨3, 0⟩ ∧ ¬ foundOut.server.Unblamed ⟨1, 0⟩ := by
  have hchecks : Recalling.passes (next doubledGrid) (fun _ g e => isFairSearch 7 g e) [] gridStart
      foundOutRun = true := by decide +kernel
  have hrun : Reach (Step doubledGrid) (FairSearch oneLiar 7) gridStart foundOut :=
    Reach.mono (fun _ _ h => fairSearch_of_isFairSearch h)
      (reach_foldl doubledGrid gridStart foundOutRun hchecks)
  have hclean : ∀ w, w ∉ oneLiar.liars → gridStart.server.Unblamed w := by
    intro w _ rep hrep r hr
    cases hrep
    cases hr
  have hstrict : doubledGrid.coordinator.quorum.Strict := ⟨rfl, by decide⟩
  have hall := devices_unblamed gridStart_started (fun _ => rfl) (fun _ => rfl)
    (by decide +kernel) hstrict (by decide) hclean hrun
  have hsecond : (⟨2, 0⟩ : WorkerId) ∉ oneLiar.liars := by decide
  have hthird : (⟨3, 0⟩ : WorkerId) ∉ oneLiar.liars := by decide
  refine ⟨hall _ hsecond, hall _ hthird, Server.blamed_of_rejected (n := 1) (by decide) ?_⟩
  decide +kernel

end

end Grid

end P2pGpu
