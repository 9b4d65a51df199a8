import P2pGpu.Coordinator.Server.Pool
import P2pGpu.Coordinator.Server.Unheard

namespace P2pGpu.Coordinator

open P2pGpu.Protocol

section

variable {F : Type} [Double F]

-- The tile that a task of a render belongs to.
def RenderConfig.tileOf (render : RenderConfig) (startUnit : UInt64) : UInt32 :=
  (startUnit / render.samplesPerTile).toUInt32

namespace Session

variable {job : Job} {done : Task} {payload : Payload} {c : Compositor F} {render : RenderConfig}

theorem compositeTile_other (h : job.render = none ∨
      ∃ render, job.render = some render ∧ render.samplesPerTile = 0) :
    compositeTile (some job) done payload c = c := by
  unfold compositeTile
  rcases h with hnone | ⟨render, hrender, hzero⟩
  · rw [Option.bind_some, hnone]
  · rw [Option.bind_some, hrender]
    dsimp only
    rw [if_neg (by rw [hzero]; decide)]

theorem compositeTile_render (hrender : job.render = some render)
    (hpos : 0 < render.samplesPerTile) :
    compositeTile (some job) done payload c =
      (c.acceptTile (render.tileOf done.startUnit) payload).2 := by
  unfold compositeTile
  rw [Option.bind_some, hrender]
  dsimp only
  rw [if_pos hpos]
  rfl

end Session

namespace Server

open JobManager Session

variable {cfg : Config F} {v₀ v v' : Server F} {e : Event F} {image image' : Compositor F}
  {good : JobId → Prop} {m m' : JobManager}

-- A complete result carries in each pixel as many samples as its task has units.
def Honest (cfg : Config F) (v : Server F) (e : Event F) : Prop :=
  ∀ c : Hearing, v.Hears cfg e c → (c.verdict cfg v).action = .accept →
    ∀ job render tile, v.jobs.findJob c.task.job = some job → job.render = some render →
      render.grid.tileAt (render.tileOf c.task.startUnit) = some tile →
        c.payload.length = tile.pixels.toNat * kStride ∧
          ∀ p < tile.pixels.toNat, pixelSamples c.payload p = (Double.ofUInt64 c.task.unitCount : F)

-- A render is seeded as the image was set up for it, and there is only one.
def Seeds (v : Server F) (e : Event F) : Prop :=
  ∀ render inputRef, e = .seedRender render inputRef →
    (∀ j job, v.jobs.findJob j = some job → job.render = none) ∧
      (∀ image, v.shared.compositor = some image → image.grid = render.grid) ∧
        render.grid.tileW.toNat * render.grid.tileH.toNat < 2 ^ 32

-- Whatever is accepted for a render is the whole budget of a tile.
def Unsplit (cfg : Config F) (v : Server F) (e : Event F) : Prop :=
  ∀ c : Hearing, v.Hears cfg e c → (c.verdict cfg v).action = .accept →
    ∀ job render, v.jobs.findJob c.task.job = some job → job.render = some render →
      c.task.unitCount = render.samplesPerTile

-- What the image holds of the one render: a tile for which something was accepted
-- has all of its samples.
structure Imaged (image : Compositor F) (m : JobManager) : Prop where
  only : ∀ {j j' job job' render render'}, m.findJob j = some job → job.render = some render →
    m.findJob j' = some job' → job'.render = some render' → j = j'
  grid : ∀ {j job render}, m.findJob j = some job → job.render = some render →
    image.grid = render.grid
  area : ∀ {j job render}, m.findJob j = some job → job.render = some render →
    render.grid.tileW.toNat * render.grid.tileH.toNat < 2 ^ 32
  sampled : ∀ {j job render id t}, m.findJob j = some job → job.render = some render →
    0 < render.samplesPerTile → m.find id = some t → t.job = j → t.state = .accepted →
      render.tileOf t.startUnit < render.grid.tileCount →
        image.tileSamples (render.tileOf t.startUnit) = Double.ofUInt64 render.samplesPerTile
  blank : (∀ j job render, m.findJob j = some job → job.render = some render →
    render.samplesPerTile = 0) → ∀ i, image.tileSamples i = 0.0

namespace Imaged

theorem started (htiles : image.tiles = ∅) : Imaged image {} where
  only h := by cases h
  grid h := by cases h
  area h := by cases h
  sampled h := by cases h
  blank _ i := by
    unfold Compositor.tileSamples
    rw [htiles]
    rfl

-- Only the renders and what is accepted for them matter.
theorem of_was (hi : Imaged image m)
    (hjob : ∀ {j job' render}, m'.findJob j = some job' → job'.render = some render →
      ∃ job, m.findJob j = some job ∧ job.render = some render)
    (hback : ∀ {j job}, m.findJob j = some job → ∃ job', m'.findJob j = some job' ∧
      job'.render = job.render)
    (htask : ∀ {id t' job render}, m.findJob t'.job = some job → job.render = some render →
      0 < render.samplesPerTile → m'.find id = some t' → t'.state = .accepted →
        ∃ t, m.find id = some t ∧ t.state = .accepted ∧ t.job = t'.job ∧
          t.startUnit = t'.startUnit) : Imaged image m' where
  only hf hr hf' hr' := by
    obtain ⟨job, hold, hrender⟩ := hjob hf hr
    obtain ⟨job', hold', hrender'⟩ := hjob hf' hr'
    exact hi.only hold hrender hold' hrender'
  grid hf hr := by
    obtain ⟨job, hold, hrender⟩ := hjob hf hr
    exact hi.grid hold hrender
  area hf hr := by
    obtain ⟨job, hold, hrender⟩ := hjob hf hr
    exact hi.area hold hrender
  sampled hf hr hpos ht htjob hstate hin := by
    obtain ⟨job, hold, hrender⟩ := hjob hf hr
    obtain ⟨t, ht₀, hstate₀, hsame, hstart⟩ := htask (htjob ▸ hold) hrender hpos ht hstate
    rw [← hstart] at hin ⊢
    exact hi.sampled hold hrender hpos ht₀ (hsame.trans htjob) hstate₀ hin
  blank hzero := by
    refine hi.blank fun j job render hf hr => ?_
    obtain ⟨job', hf', hrender⟩ := hback hf
    exact hzero j job' render hf' (hrender.trans hr)

theorem sameRows (hi : Imaged image m) (h : m.SameRows m') : Imaged image m' := by
  refine hi.of_was (fun {j job' render} hf hr => ⟨job', ?_, hr⟩) (fun {j job} hf => ⟨job, ?_, rfl⟩)
    fun {id t' job render} _ _ _ hf hstate => ⟨t', ?_, hstate, rfl, rfl⟩
  · rw [← h.findJob_eq]
    exact hf
  · rw [h.findJob_eq]
    exact hf
  · rw [← h.find_eq]
    exact hf

theorem tileSamples_render {render : RenderConfig} {done : Task} {payload : Payload}
    (hgrid : image.grid = render.grid)
    (harea : render.grid.tileW.toNat * render.grid.tileH.toNat < 2 ^ 32)
    (hunits : done.unitCount = render.samplesPerTile)
    (hhonest : ∀ tile, render.grid.tileAt (render.tileOf done.startUnit) = some tile →
      payload.length = tile.pixels.toNat * kStride ∧
        ∀ p < tile.pixels.toNat, pixelSamples payload p = (Double.ofUInt64 done.unitCount : F))
    {i : UInt32} (hi : i < render.grid.tileCount) :
    (image.acceptTile (render.tileOf done.startUnit) payload).2.tileSamples i =
      if i = render.tileOf done.startUnit then Double.ofUInt64 render.samplesPerTile
      else image.tileSamples i := by
  cases htile : render.grid.tileAt (render.tileOf done.startUnit) with
  | none =>
      have hne : i ≠ render.tileOf done.startUnit := by
        rintro rfl
        obtain ⟨tile, hsome, -⟩ := TileGrid.tileAt_some render.grid harea hi
        rw [htile] at hsome
        cases hsome
      rw [if_neg hne, Compositor.acceptTile_none _ _ _ (hgrid ▸ htile)]
  | some tile =>
      obtain ⟨hlength, hsamples⟩ := hhonest tile htile
      obtain ⟨tile', hsame, hpixels⟩ :=
        TileGrid.tileAt_some render.grid harea (TileGrid.tileAt_lt htile)
      rw [htile] at hsame
      cases hsame
      have hfirst : 0 < tile.pixels.toNat :=
        LittleEndian.toNat_posU32 hpixels
      rw [Compositor.tileSamples_acceptTile image _ i payload (hgrid ▸ htile) hlength hpixels,
        hsamples 0 hfirst, hunits]

theorem unheard (hi : Imaged image v.jobs) (hs : v.jobs.Sound cfg.kernels good)
    (hunheard : ∀ c, ¬ v.Hears cfg e c) (hplants : ¬ e.Plants) :
    Imaged image (v.next cfg e).jobs := by
  have hquiet := next_quiet hs hunheard hplants
  refine hi.of_was (fun hf hr => ?_) (fun hf => ?_) fun _ _ _ hf hstate => ?_
  · obtain ⟨job, hold, hrender⟩ := Quiet.job_was hquiet hs.minted hs.partition hf
    exact ⟨job, hold, hrender ▸ hr⟩
  · exact Quiet.job_stays hquiet hs.minted hs.partition hf
  · have hold := Quiet.final_was hquiet hs.minted hf (by rw [hstate]; rfl)
    exact ⟨_, hold, hstate, rfl, rfl⟩

-- The tile of the task is replaced, and it had as many samples as it may have.
theorem heard {c : Hearing} (hi : Imaged image v.jobs) (hs : v.jobs.Sound cfg.kernels good)
    (hc : v.Hears cfg e c) (himage : v.shared.compositor = some image) (hhonest : Honest cfg v e)
    (hunsplit : Unsplit cfg v e) (himage' : (v.next cfg e).shared.compositor = some image') :
    Imaged image' (v.next cfg e).jobs := by
  obtain ⟨job, hjob⟩ := hs.partition.owner hc.task
  by_cases haccept : (c.verdict cfg v).action = .accept
  · have hcomposited := (hc.publishes haccept).composited
    rw [himage, himage', hjob] at hcomposited
    obtain rfl := Option.some.inj hcomposited
    by_cases hother : job.render = none ∨
        ∃ render, job.render = some render ∧ render.samplesPerTile = 0
    · -- The task belongs to no image.
      rw [compositeTile_other hother]
      refine hi.of_was (fun {j job' render} hf hr => ⟨job', (hc.findJob j).symm.trans hf, hr⟩)
        (fun {j job} hf => ⟨job, (hc.findJob j).trans hf, rfl⟩)
        fun {id t' own render} hown hrender hpos hf hstate => ?_
      rcases hc.accepted hs hf hstate with hold | ⟨-, -, hsame, -⟩
      · exact ⟨t', hold, hstate, rfl, rfl⟩
      · rw [hsame, hjob] at hown
        cases hown
        rcases hother with hnone | ⟨render', hrender', hzero⟩
        · rw [hnone] at hrender
          cases hrender
        · rw [hrender] at hrender'
          cases hrender'
          rw [hzero] at hpos
          exact absurd hpos (by decide)
    · obtain ⟨render, hrender⟩ := Option.ne_none_iff_exists'.mp fun hnone => hother (.inl hnone)
      have hpos : 0 < render.samplesPerTile := UInt64.pos_iff_ne_zero.mpr fun hzero =>
        hother (.inr ⟨render, hrender, hzero⟩)
      have hgrid := hi.grid hjob hrender
      have hunits := hunsplit c hc haccept job render hjob hrender
      have hsamples := hhonest c hc haccept job render
      rw [compositeTile_render hrender hpos]
      have htiles : ∀ {i}, i < render.grid.tileCount → _ := fun hin => tileSamples_render hgrid
        (hi.area hjob hrender) hunits (fun tile htile => hsamples tile hjob hrender htile) hin
      have hjobs : ∀ {j job'}, (v.next cfg e).jobs.findJob j = some job' →
          v.jobs.findJob j = some job' := fun hf => (hc.findJob _).symm.trans hf
      refine ⟨fun hf hr hf' hr' => hi.only (hjobs hf) hr (hjobs hf') hr', fun hf hr => ?_,
        fun hf hr => hi.area (hjobs hf) hr, fun {j job' render' id t} hf hr hlt ht htj hstate hin => ?_,
        fun hzero => ?_⟩
      · rw [Compositor.acceptTile_grid]
        exact hi.grid (hjobs hf) hr
      · obtain rfl := hi.only (hjobs hf) hr hjob hrender
        have hsame := (hjobs hf).symm.trans hjob
        cases hsame
        rw [hrender] at hr
        cases hr
        rw [htiles hin]
        by_cases hown : render.tileOf t.startUnit = render.tileOf c.task.startUnit
        · rw [if_pos hown]
        · rw [if_neg hown]
          rcases hc.accepted hs ht hstate with hold | ⟨-, -, -, hspan⟩
          · exact hi.sampled hjob hrender hpos hold htj hstate hin
          · rw [Task.startUnit_of_span hspan] at hown
            exact absurd rfl hown
      · have hnone := hzero c.task.job job render ((hc.findJob _).trans hjob) hrender
        rw [hnone] at hpos
        exact absurd hpos (by decide)
  · have hsame := (hc.waits haccept).2.1
    rw [himage, himage'] at hsame
    obtain rfl := Option.some.inj hsame
    refine hi.of_was (fun {j job' render} hf hr => ⟨job', (hc.findJob j).symm.trans hf, hr⟩)
      (fun {j job} hf => ⟨job, (hc.findJob j).trans hf, rfl⟩)
      fun {id t' own render} _ _ _ hf hstate => ?_
    rcases hc.accepted hs hf hstate with hold | ⟨-, hwon, -⟩
    · exact ⟨t', hold, hstate, rfl, rfl⟩
    · exact absurd hwon haccept

theorem created (hi : Imaged image m) (hp : m.Partition good) (kernelId : String)
    (totalUnits seed unitsPerGroup : UInt64) :
    Imaged image (m.createJob kernelId totalUnits seed unitsPerGroup).2 := by
  have hfind : ∀ j, (m.createJob kernelId totalUnits seed unitsPerGroup).2.findJob j =
      if j = ⟨0, m.nextId⟩ then
        some { id := ⟨0, m.nextId⟩, kernelId, seed, totalUnits, unitsPerGroup }
      else m.findJob j := fun j => Table.lookup_emplace m.jobs ⟨0, m.nextId⟩ j _ hp.fresh
  refine hi.of_was (fun {j job' render} hf hr => ⟨job', ?_, hr⟩) (fun {j job} hf => ⟨job, ?_, rfl⟩)
    fun {id t' job render} _ _ _ hf hstate => ⟨t', hf, hstate, rfl, rfl⟩
  · rw [hfind] at hf
    split at hf
    · cases hf
      cases hr
    · exact hf
  · have hne : j ≠ ⟨0, m.nextId⟩ := by
      rintro rfl
      rw [hp.fresh] at hf
      cases hf
    rw [hfind, if_neg hne]
    exact hf

theorem seeded (hi : Imaged image m) (hp : m.Partition good) {render : RenderConfig}
    {inputRef : AssetId} (halone : ∀ j job, m.findJob j = some job → job.render = none)
    (hgrid : image.grid = render.grid)
    (harea : render.grid.tileW.toNat * render.grid.tileH.toNat < 2 ^ 32) :
    Imaged image (m.seedRender render inputRef).2 := by
  have hfind : ∀ {j job r}, (m.seedRender render inputRef).2.findJob j = some job →
      job.render = some r → j = ⟨0, m.nextId⟩ ∧ r = render := by
    intro j job r hf hr
    have hcreated : ∀ j, (m.createJob kRenderKernel (render.grid.tileCount.toUInt64 *
        render.samplesPerTile) 42 render.samplesPerTile).2.findJob j = if j = ⟨0, m.nextId⟩ then _
        else m.findJob j := fun j => Table.lookup_emplace m.jobs ⟨0, m.nextId⟩ j _ hp.fresh
    have hmodified := Table.lookup_modify (m.createJob kRenderKernel
      (render.grid.tileCount.toUInt64 * render.samplesPerTile) 42 render.samplesPerTile).2.jobs
      ⟨0, m.nextId⟩ j (Label.seedsRender render inputRef)
    have hseeded := hmodified.symm.trans hf
    by_cases hj : j = ⟨0, m.nextId⟩
    · rw [if_pos hj] at hseeded
      obtain ⟨fresh, -, rfl⟩ := Option.map_eq_some_iff.mp hseeded
      cases hr
      exact ⟨hj, rfl⟩
    · rw [if_neg hj] at hseeded
      have hold := (hcreated j).symm.trans hseeded
      rw [if_neg hj] at hold
      rw [halone j job hold] at hr
      cases hr
  refine ⟨fun hf hr hf' hr' => ?_, fun hf hr => ?_, fun hf hr => ?_, fun hf hr hpos ht htj _ _ => ?_,
    fun _ => ?_⟩
  · exact (hfind hf hr).1.trans (hfind hf' hr').1.symm
  · rw [(hfind hf hr).2]
    exact hgrid
  · rw [(hfind hf hr).2]
    exact harea
  · -- The job is new, and no task is of it.
    obtain ⟨job, howner⟩ := hp.owner ht
    rw [htj, (hfind hf hr).1, hp.fresh] at howner
    cases howner
  · refine hi.blank fun j job r hf hr => ?_
    rw [halone j job hf] at hr
    cases hr

theorem step (hi : Imaged image v.jobs) (hs : v.jobs.Sound cfg.kernels good)
    (himage : v.shared.compositor = some image) (hseeds : Seeds v e) (hhonest : Honest cfg v e)
    (hunsplit : Unsplit cfg v e) (h : Step cfg v e v')
    (himage' : v'.shared.compositor = some image') : Imaged image' v'.jobs := by
  refine Imaged.sameRows ?_ h.rows
  rw [h.rest] at himage'
  by_cases hhears : ∃ c, v.Hears cfg e c
  · obtain ⟨c, hc⟩ := hhears
    exact hi.heard hs hc himage hhonest hunsplit himage'
  · have hunheard := not_exists.mp hhears
    have hsame := next_compositor hs hunheard
    rw [himage] at hsame
    obtain rfl := Option.some.inj (himage'.symm.trans hsame)
    by_cases hplants : e.Plants
    · rcases hplants with ⟨kernelId, totalUnits, seed, unitsPerGroup, rfl⟩ | ⟨render, inputRef, rfl⟩
      · exact hi.created hs.partition kernelId totalUnits seed unitsPerGroup
      · obtain ⟨halone, hgrid, harea⟩ := hseeds render inputRef rfl
        exact hi.seeded hs.partition halone (hgrid _ himage) harea
    · exact hi.unheard hs hunheard hplants

end Imaged

theorem compositor_step (hs : v.jobs.Sound cfg.kernels good) (h : Step cfg v e v')
    (himage' : v'.shared.compositor = some image') :
    ∃ image, v.shared.compositor = some image := by
  rw [h.rest] at himage'
  by_cases hhears : ∃ c, v.Hears cfg e c
  · obtain ⟨c, hc⟩ := hhears
    by_cases haccept : (c.verdict cfg v).action = .accept
    · have hcomposited := (hc.publishes haccept).composited
      rw [himage'] at hcomposited
      obtain ⟨image, himage, -⟩ := Option.map_eq_some_iff.mp hcomposited.symm
      exact ⟨image, himage⟩
    · exact ⟨image', (hc.waits haccept).2.1.symm.trans himage'⟩
  · exact ⟨image', (next_compositor hs (not_exists.mp hhears)).symm.trans himage'⟩

theorem imaged_of_run (h₀ : v₀.Started)
    (hrun : Reach (Step cfg) (fun v e => Seeds v e ∧ Honest cfg v e ∧ Unsplit cfg v e) v₀ v)
    (himage : v.shared.compositor = some image) : Imaged image v.jobs := by
  refine keeps_of_run h₀ hrun
    (fun v => ∀ image, v.shared.compositor = some image → Imaged image v.jobs) ?_ ?_ image himage
  · intro image himage
    have hempty : v₀.jobs = {} := h₀.jobs
    rw [hempty]
    exact Imaged.started (h₀.compositor image himage)
  · rintro v e v' - hs ⟨hseeds, hhonest, hunsplit⟩ hi hstep image' himage'
    obtain ⟨image, himage⟩ := compositor_step hs hstep himage'
    exact (hi image himage).step hs himage hseeds hhonest hunsplit hstep himage'

-- Where a task stays inside its tile, the tile is the one of any of its samples.
theorem tileOf_unit {render : RenderConfig} {t : Task} {i : UInt32}
    (hpos : 0 < render.samplesPerTile) (hwithin : t.span.Within render.samplesPerTile.toNat)
    (hunit : i.toNat * render.samplesPerTile.toNat ∈ t.span.units) :
    render.tileOf t.startUnit = i := by
  have hspp : render.samplesPerTile.toNat ≠ 0 := by
    have hlt := UInt64.lt_iff_toNat_lt.mp hpos
    exact Nat.ne_of_gt hlt
  have htile : t.startUnit.toNat / render.samplesPerTile.toNat = i.toNat := by
    have hsame := hwithin.div_eq hspp hunit
    rw [Nat.mul_div_cancel _ (Nat.pos_of_ne_zero hspp)] at hsame
    exact hsame.symm
  apply UInt32.toNat_inj.mp
  unfold RenderConfig.tileOf
  rw [UInt64.toNat_toUInt32, UInt64.toNat_div, htile]
  exact Nat.mod_eq_of_lt i.toNat_lt

-- A render that is complete has all samples of every tile, where the budget of no
-- tile was split.
theorem render_finished (hzero : (Double.ofUInt64 0 : F) = 0.0) (h₀ : v₀.Started)
    (hrun : Reach (Step cfg) (fun v e => Seeds v e ∧ Honest cfg v e ∧ Unsplit cfg v e) v₀ v)
    (himage : v.shared.compositor = some image) {jobId : JobId} {job : Job}
    {render : RenderConfig} (hjob : v.jobs.findJob jobId = some job)
    (hrender : job.render = some render) (hfits : job.Fits)
    (hcomplete : v.jobs.jobComplete jobId = true) :
    ∀ i < render.grid.tileCount,
      image.tileSamples i = Double.ofUInt64 render.samplesPerTile := by
  intro i hi
  have himaged := imaged_of_run h₀ hrun himage
  obtain ⟨-, hs⟩ := sound_of_run (fun _ => True) h₀ hrun
  obtain ⟨hcarvable, -⟩ := hs.partition.tiles trivial hjob hfits
  have htiled := hcarvable.tiled hrender
  by_cases hpos : 0 < render.samplesPerTile
  · have hu : i.toNat * render.samplesPerTile.toNat < job.totalUnits.toNat := by
      rw [htiled.total, htiled.length]
      have hlt := UInt32.lt_iff_toNat_lt.mp hi
      have hspp := UInt64.lt_iff_toNat_lt.mp hpos
      exact Nat.mul_lt_mul_of_pos_right hlt hspp
    have hreached := hrun.mono fun _ _ _ => trivial
    obtain ⟨id, t, ht, htjob, hlisted, haccepted, hunit⟩ :=
      complete_covers h₀ hreached hjob hfits hcomplete _ hu
    have hwithin : t.span.Within render.samplesPerTile.toNat := by
      rw [← htiled.group]
      rcases hlisted with hmem | hmem
      · exact (hs.partition.member hjob hmem ht).within
      · obtain ⟨original, horiginal, hlisted⟩ := hs.partition.listed hjob hmem
        have hreplica : t.replicaOf ≠ Id.nil := by
          intro hnil
          rw [hnil] at horiginal
          exact hs.minted.ne_nil horiginal rfl
        obtain ⟨o, ho, -, -, hspan⟩ := hs.partition.family ht hreplica
        rw [horiginal] at ho
        cases ho
        rw [← hspan]
        exact hlisted.within
    have htile := tileOf_unit hpos hwithin hunit
    rw [← htile] at hi ⊢
    exact himaged.sampled hjob hrender hpos ht htjob haccepted hi
  · have hspp : render.samplesPerTile = 0 := by
      by_contra hne
      exact hpos (UInt64.pos_iff_ne_zero.mpr hne)
    rw [hspp, hzero]
    refine himaged.blank (fun j job' render' hf hr => ?_) i
    obtain rfl := himaged.only hf hr hjob hrender
    rw [hjob] at hf
    cases hf
    rw [hrender] at hr
    cases hr
    exact hspp

end Server

end

namespace Server

open JobManager Session

-- The conditions as checks.
def seeding (v : Server Rat) : Event Rat → Bool
  | .seedRender render _ => v.jobs.jobs.entries.all (fun e => e.2.render = none) &&
      v.shared.compositor.all (fun image => image.grid = render.grid) &&
        render.grid.tileW.toNat * render.grid.tileH.toNat < 2 ^ 32
  | _ => true

-- What is said of an answer to a task of a render, if it is one.
def rendering (cfg : Config Rat) (say : Hearing → RenderConfig → Bool) (v : Server Rat)
    (e : Event Rat) : Bool :=
  (v.hear cfg e).all fun c =>
    ((v.jobs.findJob c.task.job).bind Job.render).all fun render => say c render

def counting (c : Hearing) (render : RenderConfig) : Bool :=
  (render.grid.tileAt (render.tileOf c.task.startUnit)).all fun tile =>
    c.payload.length = tile.pixels.toNat * kStride ∧ ∀ p < tile.pixels.toNat,
      pixelSamples c.payload p = (Double.ofUInt64 c.task.unitCount : Rat)

def whole (c : Hearing) (render : RenderConfig) : Bool := c.task.unitCount = render.samplesPerTile

section

variable {cfg : Config Rat} {v : Server Rat} {e : Event Rat}

theorem seeds_of_seeding (h : seeding v e = true) : Seeds v e := by
  rintro render inputRef rfl
  obtain ⟨hjobs, harea⟩ := Bool.and_eq_true_iff.mp h
  obtain ⟨hjobs, hgrid⟩ := Bool.and_eq_true_iff.mp hjobs
  refine ⟨fun j job hf => ?_, fun image himage => ?_, of_decide_eq_true harea⟩
  · exact of_decide_eq_true
      (List.all_eq_true.mp hjobs ⟨j, job⟩ (Table.mem_entries_iff.mpr hf))
  · rw [himage] at hgrid
    exact of_decide_eq_true hgrid

theorem says_of_rendering {say : Hearing → RenderConfig → Bool}
    (h : rendering cfg say v e = true) {c : Hearing} (hc : v.Hears cfg e c) {job : Job}
    {render : RenderConfig} (hjob : v.jobs.findJob c.task.job = some job)
    (hrender : job.render = some render) : say c render = true := by
  unfold rendering at h
  rw [hear_of_hears hc, Option.all_some, hjob, Option.bind_some, hrender, Option.all_some] at h
  exact h

theorem honest_of_counting (h : rendering cfg counting v e = true) : Honest cfg v e := by
  intro c hc _ job render tile hjob hrender htile
  have hcounts := says_of_rendering h hc hjob hrender
  unfold counting at hcounts
  rw [htile] at hcounts
  exact of_decide_eq_true hcounts

theorem unsplit_of_whole (h : rendering cfg whole v e = true) : Unsplit cfg v e := by
  intro c hc _ job render hjob hrender
  exact of_decide_eq_true (says_of_rendering h hc hjob hrender)

end

-- An image of one pixel.
def pixelRender (samplesPerTile : UInt64) : RenderConfig where
  grid := ⟨1, 1, 64, 64⟩
  samplesPerTile
  camera := ⟨(0, 0, 0), (0, 0, 0), (0, 0, 0), (0, 0, 0)⟩
  nodeCount := 1
  primCount := 1
  materialCount := 1

def imageStart : Server Rat :=
  { shared := { reputation := some {}, compositor := some { grid := ⟨1, 1, 64, 64⟩ } } }

-- A black pixel with so many samples, as the bits of a `float`.
def blackPixel (samples : List UInt8) : Payload := List.replicate 12 0 ++ samples

def pixelDigest (payload : Payload) : UInt64 :=
  if payload = blackPixel [0, 56, 223, 69] then 13585236698481037613
  else if payload = blackPixel [0, 144, 50, 69] then 9687277536821404308
  else 7084666613111535708

def renders : Config Rat where
  kernels := manifest
  quorum := {}
  blake3 := pixelDigest

def paints (connId : Nat) (taskId : TaskId) (payload : Payload) (nowMs : UInt64) : Event Rat :=
  .message connId (.resultHeader
    { taskId := some taskId
      payloadBytes := UInt32.ofNat payload.length
      checksum := pixelDigest payload
      stats := none
      sequence := 0
      unitsDone := 0 }) payload nowMs []

-- Two samples, which are one task.
def pixelRun : List (Event Rat) :=
  .seedRender (pixelRender 2) [] :: joins 1 10 80 ++
    [asks 1 20, paints 1 ⟨0, 2⟩ (blackPixel [0, 0, 0, 64]) 30]

-- So many that they are two tasks, of 7143 and of 2857.
def splitRun : List (Event Rat) :=
  .seedRender (pixelRender 10000) [] :: joins 1 10 80 ++
    [asks 1 20, paints 1 ⟨0, 2⟩ (blackPixel [0, 56, 223, 69]) 30,
      asks 1 40, paints 1 ⟨0, 3⟩ (blackPixel [0, 144, 50, 69]) 50]

theorem imageStart_started : imageStart.Started where
  fleet := rfl
  tokens rep h := by
    cases h
    exact ⟨rfl, rfl⟩
  spotChecks pool h := by cases h
  compositor c h := by
    cases h
    rfl
  conns := rfl
  live := rfl
  nextConnId := by decide
  jobs := rfl

theorem render_finished_pixel :
    ∃ image, (imageStart.runAll renders pixelRun).shared.compositor = some image ∧
      ∀ i < (1 : UInt32), image.tileSamples i = 2 := by
  have hchecks : Recalling.passes (next renders) (fun _ v e => seeding v e &&
      rendering renders counting v e && rendering renders whole v e) [] imageStart pixelRun =
        true := by decide +kernel
  have hrun : Reach (Recalling (Step renders))
      (fun x e => Seeds x.1 e ∧ Honest renders x.1 e ∧ Unsplit renders x.1 e) (imageStart, [])
      (imageStart.runAll renders pixelRun, [] ++ imageStart.history renders pixelRun) := by
    refine Recalling.foldl_passes (step_next renders) (fun _ v e h => ?_) pixelRun [] imageStart hchecks
    obtain ⟨h, hwhole⟩ := Bool.and_eq_true_iff.mp h
    obtain ⟨hseeds, hcounts⟩ := Bool.and_eq_true_iff.mp h
    exact ⟨seeds_of_seeding hseeds, honest_of_counting hcounts, unsplit_of_whole hwhole⟩
  have hstate : ((imageStart.runAll renders pixelRun).jobs.findJob ⟨0, 1⟩).map Job.render =
      some (some (pixelRender 2)) := by decide +kernel
  have himage : (imageStart.runAll renders pixelRun).shared.compositor.isSome = true := by
    decide +kernel
  obtain ⟨job, hjob, hrender⟩ := Option.map_eq_some_iff.mp hstate
  obtain ⟨image, himage⟩ := Option.isSome_iff_exists.mp himage
  have hfits : job.Fits := by
    intro render hr
    rw [hrender] at hr
    cases hr
    decide
  have hfinished := render_finished (by decide +kernel) imageStart_started
    (Recalling.forget_guarded hrun fun _ _ h => h) himage hjob hrender hfits (by decide +kernel)
  exact ⟨image, himage, hfinished⟩

-- The image is left with what the second task added.
theorem split_tile_short :
    ¬ ∀ (v : Server Rat) (image : Compositor Rat) (jobId : JobId) (job : Job)
        (render : RenderConfig),
      Reach (Step renders) (fun v e => Seeds v e ∧ Honest renders v e) imageStart v →
      v.shared.compositor = some image → v.jobs.findJob jobId = some job →
      job.render = some render → job.Fits → v.jobs.jobComplete jobId = true →
      ∀ i < render.grid.tileCount,
        image.tileSamples i = Double.ofUInt64 render.samplesPerTile := by
  intro h
  have hchecks : Recalling.passes (next renders) (fun _ v e => seeding v e &&
      rendering renders counting v e) [] imageStart splitRun = true := by decide +kernel
  have hrun : Reach (Recalling (Step renders)) (fun x e => Seeds x.1 e ∧ Honest renders x.1 e)
      (imageStart, [])
      (imageStart.runAll renders splitRun, [] ++ imageStart.history renders splitRun) := by
    refine Recalling.foldl_passes (step_next renders) (fun _ v e h => ?_) splitRun [] imageStart hchecks
    obtain ⟨hseeds, hcounts⟩ := Bool.and_eq_true_iff.mp h
    exact ⟨seeds_of_seeding hseeds, honest_of_counting hcounts⟩
  have hstate : ((imageStart.runAll renders splitRun).jobs.findJob ⟨0, 1⟩).map Job.render =
      some (some (pixelRender 10000)) := by decide +kernel
  have hsamples : (imageStart.runAll renders splitRun).shared.compositor.map
      (fun image => image.tileSamples 0) = some 2857 := by decide +kernel
  obtain ⟨job, hjob, hrender⟩ := Option.map_eq_some_iff.mp hstate
  obtain ⟨image, himage, hshort⟩ := Option.map_eq_some_iff.mp hsamples
  have hfits : job.Fits := by
    intro render hr
    rw [hrender] at hr
    cases hr
    decide
  have hall := h _ image ⟨0, 1⟩ job (pixelRender 10000)
    (Recalling.forget_guarded hrun fun _ _ h => h) himage hjob hrender hfits (by decide +kernel) 0
    (by decide)
  rw [hshort] at hall
  exact absurd hall (by decide +kernel)

end Server

end P2pGpu.Coordinator
