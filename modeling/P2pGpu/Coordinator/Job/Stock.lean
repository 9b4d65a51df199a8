import Mathlib.Algebra.Order.BigOperators.Group.List
import P2pGpu.Coordinator.Job.Partition

namespace P2pGpu.Coordinator

open P2pGpu.Protocol

namespace Job

variable {job : Job} {units start count : UInt64} {tile : Option Nat}

-- The counters of a render add up to its cursor, and its tiles hold all of it, also
-- where the product that says how much that is has wrapped.
def Stocked (job : Job) : Prop :=
  ∀ render, job.render = some render →
    job.totalUnits.toNat ≤ job.tileGranted.length * render.samplesPerTile.toNat ∧
      job.nextUnit.toNat = (job.tileGranted.map UInt64.toNat).sum

-- Every tile that is passed over is at its budget, or no emptier than the best one.
theorem leastGranted_none {budget fewest : UInt64} {granted : List UInt64} {i : Nat}
    {best : Option Nat} (h : leastGranted budget granted i fewest best = none) :
    best = none ∧ ∀ g ∈ granted, budget ≤ g ∨ fewest ≤ g := by
  induction granted generalizing i fewest best with
  | nil =>
      refine ⟨h, fun g hg => ?_⟩
      cases hg
  | cons a granted ih =>
      unfold leastGranted at h
      by_cases hfull : budget ≤ a
      · rw [if_pos hfull] at h
        obtain ⟨hbest, hrest⟩ := ih h
        refine ⟨hbest, fun g hg => ?_⟩
        rcases List.mem_cons.mp hg with rfl | hg
        · exact .inl hfull
        · exact hrest g hg
      · rw [if_neg hfull] at h
        by_cases hfewer : a < fewest
        · rw [if_pos hfewer] at h
          cases (ih h).1
        · rw [if_neg hfewer] at h
          obtain ⟨hbest, hrest⟩ := ih h
          refine ⟨hbest, fun g hg => ?_⟩
          rcases List.mem_cons.mp hg with rfl | hg
          · exact .inr (UInt64.not_lt.mp hfewer)
          · exact hrest g hg

theorem byTile_some {samplesPerTile : UInt64} (h : job.byTile = some samplesPerTile) :
    ∃ render, job.render = some render ∧ render.samplesPerTile = samplesPerTile := by
  unfold byTile at h
  split at h
  · cases h
  · rename_i render hrender
    split at h
    · exact ⟨render, hrender, Option.some.inj h⟩
    · cases h

-- A render with something left has tiles, and samples on them.
theorem Stocked.byTile_ne_none {render : RenderConfig} (hs : job.Stocked)
    (hleft : job.keyspaceExhausted = false) (hrender : job.render = some render) :
    job.byTile = some render.samplesPerTile := by
  obtain ⟨hroom, -⟩ := hs render hrender
  have hlt := UInt64.lt_iff_toNat_lt.mp (keyspaceExhausted_false hleft)
  have hpos : 0 < job.tileGranted.length * render.samplesPerTile.toNat := by omega
  have hsamples : 0 < render.samplesPerTile :=
    UInt64.lt_iff_toNat_lt.mpr (Nat.pos_of_mul_pos_left hpos)
  have htiles : job.tileGranted ≠ [] := by
    intro hnil
    simp [hnil] at hpos
  simp [byTile, hrender, hsamples, htiles]

-- Some tile is below its budget as long as the cursor has not reached the end.
theorem Stocked.carveStart (hs : job.Stocked) (hleft : job.keyspaceExhausted = false) :
    ∃ tile start, job.carveStart = some (tile, start) := by
  cases hby : job.byTile with
  | none => exact ⟨none, job.nextUnit, by simp [Job.carveStart, hby]⟩
  | some samplesPerTile =>
      obtain ⟨render, hrender, rfl⟩ := byTile_some hby
      obtain ⟨hroom, hsum⟩ := hs render hrender
      cases hleast : leastGranted render.samplesPerTile job.tileGranted 0 0xFFFFFFFFFFFFFFFF
          none with
      | some i =>
          refine ⟨some i, UInt64.ofNat i * render.samplesPerTile + job.tileGranted.getD i 0, ?_⟩
          simp only [Job.carveStart, hby, hleast, Option.map_some]
      | none =>
          have hlt := UInt64.lt_iff_toNat_lt.mp (keyspaceExhausted_false hleft)
          have hfull : ∀ n ∈ job.tileGranted.map UInt64.toNat,
              render.samplesPerTile.toNat ≤ n := by
            intro n hn
            obtain ⟨g, hg, rfl⟩ := List.mem_map.mp hn
            have hmax : (0xFFFFFFFFFFFFFFFF : UInt64).toNat = 2 ^ 64 - 1 := rfl
            have hwidth := UInt64.toNat_lt render.samplesPerTile
            rcases (leastGranted_none hleast).2 g hg with h | h
            · exact UInt64.le_iff_toNat_le.mp h
            · have := UInt64.le_iff_toNat_le.mp h
              omega
          have hall := List.card_nsmul_le_sum _ _ hfull
          rw [List.length_map, Nat.nsmul_eq_mul, ← hsum] at hall
          omega

-- A carve moves the cursor and the counter of one tile by as much.
theorem Stocked.carved (hs : job.Stocked) (hleft : job.keyspaceExhausted = false)
    (hstart : job.carveStart = some (tile, start)) (hcount : job.carveCount units start = count)
    (id : TaskId) : (job.carved id tile count).Stocked := by
  intro render hrender
  have hold : job.render = some render := hrender
  obtain ⟨hroom, hsum⟩ := hs render hold
  have hnext := Carvable.next_toNat hleft hcount
  rcases carveStart_some hstart with ⟨-, -, hby⟩ | ⟨_, i, g, -, rfl, hg, -, -⟩
  · rw [hs.byTile_ne_none hleft hold] at hby
    cases hby
  · have hgmap : (job.tileGranted.map UInt64.toNat)[i]? = some g.toNat := by
      rw [List.getElem?_map, hg]
      rfl
    have hle : g.toNat ≤ job.nextUnit.toNat := by
      rw [hsum]
      exact List.le_sum_of_mem (List.mem_of_getElem? hgmap)
    have hfit : g.toNat + count.toNat < 2 ^ 64 := by
      have := UInt64.toNat_lt (job.nextUnit + count)
      omega
    constructor
    · simpa only [Job.carved, List.length_modify] using hroom
    · simp only [Job.carved, map_modify_toNat count hg hfit, prefixes.sum_modify hgmap]
      rw [hnext, hsum]

theorem Stocked.fresh (hrender : job.render = none) : job.Stocked := by
  intro render h
  rw [hrender] at h
  cases h

end Job

namespace JobManager

variable {m m' : JobManager} {l : Label} {good : JobId → Prop}

def Stocked (m : JobManager) : Prop := ∀ jobId job, m.findJob jobId = some job → job.Stocked

theorem Stocked.empty : Stocked {} := by
  intro jobId job h
  cases h

theorem Stocked.move (hs : m.Stocked) (hp : m.Partition good) (h : Move m l m')
    (hl : m.SeedsOnly l) : m'.Stocked := by
  intro jobId job' hf
  rcases h.findJob_some hp.fresh hf with hjob | ⟨-, -, -, -, -, -, hrender⟩ |
    ⟨job, edit, rfl, hjob, rfl⟩ |
    ⟨job, tile, t, units, rfl, rfl, hjob, rfl, hleft, -, -, hstart, hcount, -⟩ |
    ⟨job, t, original, rfl, rfl, hjob, rfl, -⟩
  · exact hs jobId job' hjob
  · exact Job.Stocked.fresh hrender
  · obtain ⟨render, inputRef, job₀, rfl, hjob₀, -, hnext, -, -, htotal⟩ := hl
    rw [hjob] at hjob₀
    cases hjob₀
    intro r hr
    cases hr
    constructor
    · simp only [Label.seedsRender, List.length_replicate, htotal, UInt64.toNat_mul,
        UInt32.toNat_toUInt64]
      exact Nat.mod_le _ _
    · simp [Label.seedsRender, hnext]
  · exact (hs t.job job hjob).carved hleft hstart hcount t.id
  · exact hs t.job job hjob

theorem Stocked.moves {guard : JobManager → Label → Prop}
    (hguard : ∀ m l, guard m l → m.SeedsOnly l) (h : Moves guard m m') (hm : m.Minted)
    (hp : m.Partition good) (hs : m.Stocked) : m'.Stocked := by
  have hinv := h.invariant (fun n => (n.Minted ∧ n.Partition good) ∧ n.Stocked) ⟨⟨hm, hp⟩, hs⟩ ?_
  · exact hinv.2
  · rintro n l n' ⟨⟨hn, hpart⟩, hstocked⟩ hl hmove
    have hseeds := hguard n l hl
    exact ⟨⟨hmove.minted hn, hpart.move hn hmove hseeds⟩, hstocked.move hpart hmove hseeds⟩

end JobManager

end P2pGpu.Coordinator
