import P2pGpu.Grid.Work
import P2pGpu.Kernels.BruteSearch.Keyspace

namespace P2pGpu

open P2pGpu.Protocol
open P2pGpu.Coordinator (Double Host Job JobManager Server Task bruteSearch buildOutputInit
  buildParams searchParams)
open P2pGpu.Coordinator.JobManager (plainHost)
open P2pGpu.Kernels.BruteSearch (Asks Search dispatch load reference)
open P2pGpu.Worker (PendingTask runTask taskRequest)

namespace Coordinator

open JobManager

section

-- Parameters of a search that are built at all.
theorem buildParams_some {job : Job} {t : Task} {params : List UInt8}
    (h : buildParams bruteSearch job t = .ok params) :
    t.span.count < 2 ^ 32 ∧ params = toBytes (searchParams job t).words := by
  have hlt : t.span.count < 2 ^ 32 := by
    by_contra hge
    have hrefused : (0xFFFFFFFF : UInt64) < t.unitCount := by
      rw [UInt64.lt_iff_toNat_lt]
      show 4294967295 < t.span.count
      omega
    have hbuild : buildBruteSearch job t = .ok params := h
    unfold buildBruteSearch at hbuild
    rw [if_pos hrefused] at hbuild
    cases hbuild
  refine ⟨hlt, ?_⟩
  rw [buildParams_ok hlt] at h
  injection h with hsame
  exact hsame.symm

theorem startLo_searchParams (job : Job) (t : Task) :
    (searchParams job t).startLo = t.startUnit.toUInt32 := by
  show (t.startUnit &&& 0xFFFFFFFF).toUInt32 = t.startUnit.toUInt32
  rw [UInt64.toUInt32_and]
  exact UInt32.and_neg_one

variable {F : Type} [Double F] {cfg : Config F} {v : Server F} {e : Event F}

-- A render comes with its kernel, and no other job becomes one.
theorem Server.next_rendersOneKernel (hs : v.jobs.Sound cfg.kernels fun _ => True)
    (hr : v.jobs.RendersOneKernel) : (v.next cfg e).jobs.RendersOneKernel := by
  by_cases hhears : ∃ c, v.Hears cfg e c
  · obtain ⟨c, hc⟩ := hhears
    intro jobId job hf
    exact hr jobId job ((hc.findJob jobId).symm.trans hf)
  · by_cases hplants : e.Plants
    · rcases hplants with ⟨kernelId, totalUnits, seed, unitsPerGroup, rfl⟩ | ⟨render, inputRef, rfl⟩
      · have hshape : KeepsShape
            (.createJob kernelId totalUnits seed unitsPerGroup : Operation F) := trivial
        exact run_rendersOneKernel hshape hs.minted hs.partition hr
      · have hshape : KeepsShape (.seedRender render inputRef : Operation F) := trivial
        exact run_rendersOneKernel hshape hs.minted hs.partition hr
    · have hquiet := next_quiet hs (not_exists.mp hhears) hplants
      have hinv := hquiet.invariant
        (fun n => (n.Minted ∧ n.Partition fun _ => True) ∧ n.RendersOneKernel)
        ⟨⟨hs.minted, hs.partition⟩, hr⟩ ?_
      · exact hinv.2
      · rintro n l n' ⟨⟨hn, hpart⟩, hrenders⟩ ⟨hseeds, -, hnone⟩ hmove
        refine ⟨⟨hmove.minted hn, hpart.move hn hmove hseeds⟩, ?_⟩
        refine rendersOneKernel_move hmove hpart.fresh hrenders fun id edit job hl _ => ?_
        subst hl
        exact absurd trivial hnone

theorem Server.rendersOneKernel_of_run {guard : Server F → Event F → Prop} {v₀ : Server F}
    (h₀ : v₀.Started) (h : Reach (Step cfg) guard v₀ v) : v.jobs.RendersOneKernel := by
  induction h with
  | refl =>
      intro jobId job hf
      unfold jobs at hf
      rw [h₀.jobs] at hf
      cases hf
  | tail hrun hlast ih =>
      obtain ⟨e, -, hstep⟩ := hlast
      obtain ⟨-, hs⟩ := sound_of_run (fun _ => True) h₀ hrun
      intro jobId job hf
      rw [hstep.rows.findJob_eq] at hf
      exact next_rendersOneKernel hs ih jobId job hf

end

end Coordinator

section

variable {F : Type} {cfg : Coordinator.Config F} {m : JobManager} {p : PendingTask} {t : Task}
  {job : Job} {spec : Coordinator.KernelSpec} {good : JobId → Prop}

-- The task of a search is run as its job has it, on every host.
theorem Faithful.searches (h : Faithful cfg m p t job spec) (hp : m.Partition good)
    (hrenders : m.RendersOneKernel) (hkernel : p.kernelId = bruteSearch.id)
    (hsearch : cfg.kernels.find bruteSearch.id = some bruteSearch) (host : Host) :
    ∃ s, runTask host.limits (p.request (buildOutputInit bruteSearch)) host.unitsPerChunk
        (dispatch host.schedule) load = some s ∧
      s.evaluated = (Multiset.range t.span.count).map (fun i =>
        (UInt32.ofNat (t.span.start / 2 ^ 32), UInt32.ofNat (t.span.start + i))) ∧
      s.result = reference (searchParams job t) := by
  have hjobKernel : job.kernelId = bruteSearch.id := by
    have hname := Coordinator.KernelRegistry.find_id h.kernel
    rw [← hname, ← h.kernelId, hkernel]
  obtain rfl : spec = bruteSearch := by
    have hspec := h.kernel
    rw [hjobKernel, hsearch] at hspec
    exact (Option.some.inj hspec).symm
  have hplain : job.render = none := by
    by_contra hrender
    have hname := hrenders t.job job h.owner hrender
    rw [hjobKernel] at hname
    exact absurd hname (by decide)
  have hsize : p.outputBytes = bruteSearch.outputBytes := by
    have hnone : Coordinator.Session.outputBytes bruteSearch job t = bruteSearch.outputBytes := by
      unfold Coordinator.Session.outputBytes
      rw [hplain]
    rcases h.outputBytes with hsame | ⟨-, hsame⟩
    · exact hsame.trans hnone
    · exact hsame
  have hpos : 0 < t.span.count := hp.nonempty h.found
  obtain ⟨hlt, hparams⟩ := Coordinator.buildParams_some h.params
  have hrequest : p.request (buildOutputInit bruteSearch) =
      taskRequest bruteSearch (Coordinator.toBytes (searchParams job t).words)
        (buildOutputInit bruteSearch) t := by
    rw [h.request, hsize, hparams]
    rfl
  have hasks : Asks (taskRequest bruteSearch (Coordinator.toBytes (searchParams job t).words)
      (buildOutputInit bruteSearch) t) (searchParams job t) := Coordinator.asks hpos hlt
  have hsearched : runTask host.limits (p.request (buildOutputInit bruteSearch)) host.unitsPerChunk
      (dispatch host.schedule) load = Coordinator.searched host job t := by
    unfold Coordinator.searched
    rw [Coordinator.buildParams_ok hlt, hrequest]
  have hevaluated : (Coordinator.searched host job t).map Search.evaluated = _ :=
    Coordinator.searched_evaluated hpos hlt
  have hresult := hasks.result_eq rfl (Coordinator.startLo_searchParams job t) host.limits
    host.schedule host.unitsPerChunk
  rw [← hsearched] at hevaluated
  rw [← hrequest] at hresult
  obtain ⟨s, hs, hpairs⟩ := Option.map_eq_some_iff.mp hevaluated
  refine ⟨s, hs, hpairs, ?_⟩
  rw [hs] at hresult
  exact Option.some.inj hresult

end

namespace Grid

section

variable {F : Type} [Double F] {cfg : Setup F} {g g₀ : Grid F} {n : Nat} {p : PendingTask}

end

-- The worker of the run above, at its task.
section

end

end Grid

end P2pGpu
