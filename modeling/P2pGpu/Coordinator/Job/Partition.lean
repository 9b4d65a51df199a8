import P2pGpu.Coordinator.Job.Carve

namespace P2pGpu.Coordinator

open P2pGpu.Protocol

namespace JobManager

-- The metadata of a job changes once, where a render is set up on a fresh job.
def SeedsOnly (m : JobManager) : Label → Prop
  | .edit jobId edit => ∃ render inputRef job, edit = Label.seedsRender render inputRef ∧
      m.findJob jobId = some job ∧ job.tasks = [] ∧ job.nextUnit = 0 ∧ job.render = none ∧
      job.unitsPerGroup = render.samplesPerTile ∧
      job.totalUnits = render.grid.tileCount.toUInt64 * render.samplesPerTile
  | .create _ | .mint | .act _ _ | .carve _ _ | .probe _ | .replica _ | .aux | .flush => True

-- A task in the list of its job.
structure Listed (jobId : JobId) (job : Job) (t : Task) : Prop where
  own : t.job = jobId
  within : t.span.Within job.unitsPerGroup.toNat

-- What ties the tasks of a job to its cursor and to its counters.
structure Partition (m : JobManager) (good : JobId → Prop) : Prop where
  jobId : ∀ {jobId job}, m.findJob jobId = some job → ∃ n, n < m.nextId ∧ jobId = ⟨0, n⟩
  owner : ∀ {id t}, m.find id = some t → ∃ job, m.findJob t.job = some job
  nonempty : ∀ {id t}, m.find id = some t → 0 < t.span.count
  -- A replica repeats the range of an original.
  family : ∀ {id t}, m.find id = some t → t.replicaOf ≠ Id.nil →
    ∃ o, m.find t.replicaOf = some o ∧ o.replicaOf = Id.nil ∧ o.job = t.job ∧ o.span = t.span
  nodup : ∀ {jobId job}, m.findJob jobId = some job → job.tasks.Nodup
  listed : ∀ {jobId job id}, m.findJob jobId = some job → id ∈ job.tasks →
    ∃ t, m.find id = some t ∧ Listed jobId job t
  tiles : ∀ {jobId job}, good jobId → m.findJob jobId = some job → job.Fits →
    job.Carvable ∧ Tiles Span.units (m.spans job) job.carvedUnits

section

variable {m m' : JobManager} {l : Label} {jobId : JobId} {job job' : Job} {id : TaskId} {t : Task}

theorem Move.findJob_mono (h : Move m l m') (hfresh : m.findJob ⟨0, m.nextId⟩ = none)
    (hf : m.findJob jobId = some job) : ∃ job', m'.findJob jobId = some job' := by
  cases h with
  | create new hid =>
      refine ⟨job, ?_⟩
      rw [findJob_addJob m new (by rw [hid]; exact hfresh), if_neg, hf]
      rintro rfl
      rw [hid, hfresh] at hf
      cases hf
  | edit j edit =>
      rw [findJob_mutableJob]
      split
      · exact ⟨edit job, by rw [hf]; rfl⟩
      · exact ⟨job, hf⟩
  | carve _ tile t =>
      change ∃ job', (m.mutableJob t.job fun job => job.carved t.id tile t.unitCount).findJob
        jobId = some job'
      rw [findJob_mutableJob]
      split
      · exact ⟨_, by rw [hf]; rfl⟩
      · exact ⟨job, hf⟩
  | replica _ _ t =>
      change ∃ job', (m.mutableJob t.job fun job =>
        { job with tasks := job.tasks ++ [t.id] }).findJob jobId = some job'
      rw [findJob_mutableJob]
      split
      · exact ⟨_, by rw [hf]; rfl⟩
      · exact ⟨job, hf⟩
  | aux _ h => exact ⟨job, by rw [h.findJob_eq]; exact hf⟩
  | mint => exact ⟨job, hf⟩
  | act => exact ⟨job, hf⟩
  | probe => exact ⟨job, hf⟩
  | flush => exact ⟨job, hf⟩

-- A task that a job is told of is in its list.
theorem Move.entered_listed (h : Move m l m') (hl : l.entered = some t) (hprobe : l ≠ .probe t) :
    ∃ job, m'.findJob t.job = some job ∧ t.id ∈ job.tasks := by
  cases h with
  | carve job tile _ units hjob =>
      cases hl
      refine ⟨job.carved t.id tile t.unitCount, ?_, by simp [Job.carved]⟩
      change (m.mutableJob t.job fun job => job.carved t.id tile t.unitCount).findJob t.job = _
      rw [findJob_mutableJob, if_pos rfl, hjob]
      rfl
  | replica job original _ hjob =>
      cases hl
      refine ⟨{ job with tasks := job.tasks ++ [t.id] }, ?_, by simp⟩
      change (m.mutableJob t.job fun job => { job with tasks := job.tasks ++ [t.id] }).findJob
        t.job = _
      rw [findJob_mutableJob, if_pos rfl, hjob]
      rfl
  | probe =>
      cases hl
      exact absurd rfl hprobe
  | create => cases hl
  | edit => cases hl
  | mint => cases hl
  | act => cases hl
  | aux => cases hl
  | flush => cases hl

namespace Partition

variable {good : JobId → Prop}

theorem empty : Partition {} good where
  jobId h := by cases h
  owner h := by cases h
  nonempty h := by cases h
  family h := by cases h
  nodup h := by cases h
  listed h := by cases h
  tiles _ h := by cases h

theorem member (hp : m.Partition good) (hjob : m.findJob jobId = some job) (hid : id ∈ job.tasks)
    (hf : m.find id = some t) : Listed jobId job t := by
  obtain ⟨s, hs, hlisted⟩ := hp.listed hjob hid
  rw [hf] at hs
  cases hs
  exact hlisted

theorem fresh (hp : m.Partition good) : m.findJob ⟨0, m.nextId⟩ = none := by
  cases h : m.findJob ⟨0, m.nextId⟩ with
  | none => rfl
  | some job =>
      obtain ⟨n, hlt, heq⟩ := hp.jobId h
      have := Id.mk_zero_inj.mp heq
      omega

-- The spans of tasks that were there before are read the same afterwards.
theorem spans_move (hp : m.Partition good) (hm : m.Minted) (h : Move m l m')
    (hjob : m.findJob jobId = some job) : m'.spans job = m.spans job := by
  unfold spans
  apply List.filterMap_congr
  intro id hid
  obtain ⟨t, hf, -⟩ := hp.listed hjob hid
  exact originalSpan_move h hm hf

-- Two originals of one job share no unit.
theorem disjoint (hp : m.Partition good) (hgood : good jobId) (hjob : m.findJob jobId = some job)
    (hfits : job.Fits) {i j : TaskId} {s t : Task} (hi : i ∈ job.tasks) (hj : j ∈ job.tasks)
    (hne : i ≠ j) (hs : m.find i = some s) (ht : m.find j = some t)
    (hsorig : s.replicaOf = Id.nil) (htorig : t.replicaOf = Id.nil) :
    Disjoint s.span.units t.span.units := by
  have hpair := (hp.tiles hgood hjob hfits).2.disjoint
  unfold spans at hpair
  rw [List.pairwise_filterMap] at hpair
  have hsymm : Std.Symm fun i j => ∀ a, m.originalSpan i = some a → ∀ b,
      m.originalSpan j = some b → Disjoint a.units b.units :=
    ⟨fun i j h a ha b hb => (h b hb a ha).symm⟩
  have hboth := hpair.forall hi hj hne
  refine hboth s.span ?_ t.span ?_
  · simp [originalSpan, hs, hsorig]
  · simp [originalSpan, ht, htorig]

theorem find_shape (hm : m.Minted) (h : Move m l m') (hf : m.find id = some t) :
    ∃ t', m'.find id = some t' ∧ t'.job = t.job ∧ t'.span = t.span ∧
      t'.replicaOf = t.replicaOf := by
  rcases h.find_some hm hf with hf' | ⟨a, t', -, hr, -, hf'⟩
  · exact ⟨t, hf', rfl, rfl, rfl⟩
  · exact ⟨t', hf', (Act.result_shape hr).2⟩

-- What a move keeps of the tasks that a job listed already.
theorem listed_move (hp : m.Partition good) (hm : m.Minted) (h : Move m l m')
    (hjob : m.findJob jobId = some job) (hid : id ∈ job.tasks)
    (hgroup : job'.unitsPerGroup = job.unitsPerGroup) :
    ∃ t', m'.find id = some t' ∧ Listed jobId job' t' := by
  obtain ⟨t, hf, hlisted⟩ := hp.listed hjob hid
  obtain ⟨t', hf', hown, hspan, -⟩ := find_shape hm h hf
  refine ⟨t', hf', hown.trans hlisted.own, ?_⟩
  rw [hspan, hgroup]
  exact hlisted.within

-- A task that is entered was not listed before.
theorem not_listed (hp : m.Partition good) (hm : m.Minted) (hborn : m.Born t)
    (hjob : m.findJob jobId = some job) : t.id ∉ job.tasks := by
  intro hid
  obtain ⟨s, hs, -⟩ := hp.listed hjob hid
  rw [hborn.id, hm.fresh] at hs
  cases hs

theorem find_entered (hm : m.Minted) (h : Move m l m') (hl : l.entered = some t) :
    m'.find t.id = some t := by
  rcases h.find_eq hm t.id with ⟨-, hne, -⟩ | ⟨a, u, u', rfl, -⟩ | ⟨u, he, -, -, -, hf⟩
  · exact absurd rfl (hne t hl)
  · cases hl
  · rw [hl] at he
    cases he
    exact hf

theorem nodup_concat {ids : List TaskId} (h : ids.Nodup) (hid : id ∉ ids) :
    (ids ++ [id]).Nodup := by
  refine List.nodup_append.mpr ⟨h, List.nodup_singleton id, ?_⟩
  intro j hj k hk he
  rw [he, List.mem_singleton.mp hk] at hj
  exact hid hj

-- What a job lists after one move, case by case of what touched it.
theorem listed_after (hp : m.Partition good) (hm : m.Minted) (h : Move m l m')
    (hl : m.SeedsOnly l) (hf : m'.findJob jobId = some job') :
    job'.tasks.Nodup ∧
      ∀ id ∈ job'.tasks, ∃ t, m'.find id = some t ∧ Listed jobId job' t := by
  rcases h.findJob_some hp.fresh hf with hjob | ⟨-, -, -, -, -, htasks, -⟩ |
    ⟨job, edit, rfl, hjob, rfl⟩ |
    ⟨job, tile, t, units, rfl, rfl, hjob, rfl, -, hborn, horig, -, hcount, -⟩ |
    ⟨job, t, original, rfl, rfl, hjob, rfl, hborn, hmem, hfind, horig, hspan⟩
  · exact ⟨hp.nodup hjob, fun id hid => listed_move hp hm h hjob hid rfl⟩
  · rw [htasks]
    exact ⟨List.nodup_nil, fun id hid => absurd hid List.not_mem_nil⟩
  · obtain ⟨render, inputRef, job₀, rfl, hjob₀, htasks, -⟩ := hl
    rw [hjob] at hjob₀
    cases hjob₀
    have hnil : (Label.seedsRender render inputRef job).tasks = [] := htasks
    rw [hnil]
    exact ⟨List.nodup_nil, fun id hid => absurd hid List.not_mem_nil⟩
  · have hnew := find_entered hm h rfl
    have hnot := not_listed hp hm hborn hjob
    refine ⟨nodup_concat (hp.nodup hjob) hnot, fun id hid => ?_⟩
    rcases List.mem_append.mp hid with hid | hid
    · exact listed_move hp hm h hjob hid rfl
    · have hwithin := Job.carveCount_within hcount
      rw [List.mem_singleton.mp hid]
      exact ⟨t, hnew, rfl, hwithin⟩
  · -- A replica repeats the range of an original that is listed already.
    have hnew := find_entered hm h rfl
    have hnot := not_listed hp hm hborn hjob
    refine ⟨nodup_concat (hp.nodup hjob) hnot, fun id hid => ?_⟩
    rcases List.mem_append.mp hid with hid | hid
    · exact listed_move hp hm h hjob hid rfl
    · have hold := hp.member hjob hmem hfind
      rw [List.mem_singleton.mp hid]
      refine ⟨t, hnew, rfl, ?_⟩
      rw [hspan]
      exact hold.within

-- How the cut of a job's keyspace grows. Only a carve adds to it.
theorem tiles_after (hp : m.Partition good) (hm : m.Minted) (h : Move m l m')
    (hl : m.SeedsOnly l) (hgood : good jobId) (hf : m'.findJob jobId = some job')
    (hfits : job'.Fits) :
    job'.Carvable ∧ Tiles Span.units (m'.spans job') job'.carvedUnits := by
  rcases h.findJob_some hp.fresh hf with hjob | ⟨-, -, -, -, hnext, htasks, hrender⟩ |
    ⟨job, edit, rfl, hjob, rfl⟩ |
    ⟨job, tile, t, units, rfl, rfl, hjob, rfl, hleft, hborn, horig, hstart, hcount, hpos⟩ |
    ⟨job, t, original, rfl, rfl, hjob, rfl, hborn, hmem, hfind, horig, hspan⟩
  · rw [spans_move hp hm h hjob]
    exact hp.tiles hgood hjob hfits
  · refine ⟨⟨?_, fun hr => by rw [hrender] at hr; cases hr⟩, ?_⟩
    · rw [hnext, UInt64.le_iff_toNat_le]
      exact Nat.zero_le _
    · simp only [spans, htasks, List.filterMap_nil, Job.carvedUnits, hrender, hnext]
      exact Tiles.nil.region_eq (by simp)
  · obtain ⟨render, inputRef, job₀, rfl, hjob₀, htasks, hnext, hrender, hgroup, htotal⟩ := hl
    rw [hjob] at hjob₀
    cases hjob₀
    have hcarvable := (hp.tiles hgood hjob fun r hr => by rw [hrender] at hr; cases hr).1
    have hroom : job.totalUnits.toNat =
        render.grid.tileCount.toNat * render.samplesPerTile.toNat := by
      rw [htotal, UInt64.toNat_mul, UInt32.toNat_toUInt64, Nat.mod_eq_of_lt (hfits render rfl)]
    refine ⟨⟨hcarvable.bound, fun hr => ?_⟩, ?_⟩
    · cases hr
      refine ⟨hgroup, by simp [Label.seedsRender], ?_, ?_, ?_⟩
      · simpa [Label.seedsRender] using hroom
      · simp [Label.seedsRender]
      · simp [Label.seedsRender, hnext]
    · simp only [spans, Label.seedsRender, htasks, List.filterMap_nil, Job.carvedUnits,
        List.map_replicate]
      exact Tiles.nil.region_eq (prefixes.replicate_zero _ _).symm
  · -- The new span is the last of the list, and it is disjoint from the others.
    obtain ⟨hcarvable, htiles⟩ := hp.tiles hgood hjob hfits
    obtain ⟨hcarvable', hdisjoint, hunits⟩ := hcarvable.carve hleft hstart hcount t.id
    have hpos' : 0 < t.unitCount.toNat :=
      LittleEndian.toNat_posU64 hpos
    have hnew := find_entered hm h rfl
    have hlast : m'.originalSpan t.id = some t.span := by
      simp [originalSpan, hnew, horig]
    have hspans : m'.spans (job.carved t.id tile t.unitCount) = m.spans job ++ [t.span] := by
      rw [← spans_move hp hm h hjob]
      simp only [spans, Job.carved, List.filterMap_append, List.filterMap_cons, hlast,
        List.filterMap_nil]
    rw [hspans, hunits]
    exact ⟨hcarvable', htiles.concat (Span.units_nonempty hpos') hdisjoint⟩
  · obtain ⟨hcarvable, htiles⟩ := hp.tiles hgood hjob hfits
    have hnew := find_entered hm h rfl
    have hreplica : t.replicaOf ≠ Id.nil := hm.ne_nil hfind
    have hlast : m'.originalSpan t.id = none := by
      simp [originalSpan, hnew, hreplica]
    have hspans : m'.spans { job with tasks := job.tasks ++ [t.id] } = m.spans job := by
      rw [← spans_move hp hm h hjob]
      simp only [spans, List.filterMap_append, List.filterMap_cons, hlast, List.filterMap_nil,
        List.append_nil]
    rw [hspans]
    refine ⟨⟨hcarvable.bound, fun hr => ?_⟩, htiles⟩
    have ht := hcarvable.tiled hr
    exact ⟨ht.group, ht.length, ht.total, ht.budget, ht.sum⟩

-- The job of a task that is entered, and that the task is not empty.
theorem entered_job (hp : m.Partition good) (h : Move m l m') (hl : l.entered = some t) :
    (∃ job, m.findJob t.job = some job) ∧ 0 < t.span.count := by
  have hpos : ∀ {count : UInt64}, count ≠ 0 → 0 < count.toNat := fun hne =>
    LittleEndian.toNat_posU64 hne
  cases h with
  | carve job _ _ _ hjob _ _ _ _ _ hcount =>
      cases hl
      exact ⟨⟨job, hjob⟩, hpos hcount⟩
  | probe job _ hjob _ _ hcount =>
      cases hl
      exact ⟨⟨job, knownRangeJob_find hjob⟩, hpos hcount⟩
  | replica job original _ hjob _ hfind _ _ _ hcount =>
      cases hl
      have hold : 0 < original.unitCount.toNat := hp.nonempty hfind
      rw [← hcount] at hold
      exact ⟨⟨job, hjob⟩, hold⟩
  | create => cases hl
  | edit => cases hl
  | mint => cases hl
  | act => cases hl
  | aux => cases hl
  | flush => cases hl

-- The family of a task that is entered.
theorem entered_family (hp : m.Partition good) (h : Move m l m') (hl : l.entered = some t)
    (hne : t.replicaOf ≠ Id.nil) : ∃ o, m.find t.replicaOf = some o ∧ o.replicaOf = Id.nil ∧
      o.job = t.job ∧ o.span = t.span := by
  cases h with
  | carve _ _ _ _ _ _ _ horig =>
      cases hl
      exact absurd horig hne
  | probe _ _ _ _ horig =>
      cases hl
      exact absurd horig hne
  | replica job original _ hjob hmem hfind horig _ hstart hcount =>
      cases hl
      have hspan : original.span = t.span := by
        simp only [Task.span, hstart, hcount]
      exact ⟨original, hfind, horig, (hp.member hjob hmem hfind).own, hspan⟩
  | create => cases hl
  | edit => cases hl
  | mint => cases hl
  | act => cases hl
  | aux => cases hl
  | flush => cases hl

theorem move (hp : m.Partition good) (hm : m.Minted) (h : Move m l m') (hl : m.SeedsOnly l) :
    m'.Partition good where
  jobId := by
    intro jobId job' hf
    have hnext := h.nextId_le
    have hold : ∀ {job}, m.findJob jobId = some job → ∃ n, n < m'.nextId ∧ jobId = ⟨0, n⟩ := by
      intro job hjob
      obtain ⟨n, hlt, heq⟩ := hp.jobId hjob
      exact ⟨n, Nat.lt_of_lt_of_le hlt hnext, heq⟩
    rcases h.findJob_some hp.fresh hf with hjob | ⟨rfl, heq, -⟩ | ⟨job, edit, -, hjob, -⟩ |
      ⟨job, tile, t, units, -, -, hjob, -⟩ | ⟨job, t, original, -, -, hjob, -⟩
    · exact hold hjob
    · refine ⟨m.nextId, ?_, heq⟩
      cases h
      exact Nat.lt_succ_self _
    · exact hold hjob
    · exact hold hjob
    · exact hold hjob
  owner := by
    intro id t' hf
    rcases h.find_eq hm id with ⟨heq, -⟩ | ⟨a, t, s, -, hs, hr, -, hf'⟩ | ⟨t, he, -, -, -, hf'⟩
    · obtain ⟨job, hjob⟩ := hp.owner (heq ▸ hf)
      exact h.findJob_mono hp.fresh hjob
    · rw [hf] at hf'
      cases hf'
      obtain ⟨job, hjob⟩ := hp.owner hs
      rw [(Act.result_shape hr).2.1]
      exact h.findJob_mono hp.fresh hjob
    · rw [hf] at hf'
      cases hf'
      obtain ⟨job, hjob⟩ := (entered_job hp h he).1
      exact h.findJob_mono hp.fresh hjob
  nonempty := by
    intro id t' hf
    rcases h.find_eq hm id with ⟨heq, -⟩ | ⟨a, t, s, -, hs, hr, -, hf'⟩ | ⟨t, he, -, -, -, hf'⟩
    · exact hp.nonempty (heq ▸ hf)
    · rw [hf] at hf'
      cases hf'
      rw [(Act.result_shape hr).2.2.1]
      exact hp.nonempty hs
    · rw [hf] at hf'
      cases hf'
      exact (entered_job hp h he).2
  family := by
    intro id t' hf hne
    have hkeep : ∀ {i o}, m.find i = some o → o.replicaOf = Id.nil → o.job = t'.job →
        o.span = t'.span → ∃ o', m'.find i = some o' ∧ o'.replicaOf = Id.nil ∧
          o'.job = t'.job ∧ o'.span = t'.span := by
      intro i o ho horig hjob hspan
      obtain ⟨o', ho', hjob', hspan', hreplica'⟩ := find_shape hm h ho
      exact ⟨o', ho', hreplica'.trans horig, hjob'.trans hjob, hspan'.trans hspan⟩
    rcases h.find_eq hm id with ⟨heq, -⟩ | ⟨a, t, s, -, hs, hr, -, hf'⟩ | ⟨t, he, -, -, -, hf'⟩
    · obtain ⟨o, ho, horig, hjob, hspan⟩ := hp.family (heq ▸ hf) hne
      exact hkeep ho horig hjob hspan
    · rw [hf] at hf'
      cases hf'
      obtain ⟨-, hown, hsame, hreplica⟩ := Act.result_shape hr
      rw [hreplica] at hne ⊢
      obtain ⟨o, ho, horig, hjob, hspan⟩ := hp.family hs hne
      exact hkeep ho horig (hjob.trans hown.symm) (hspan.trans hsame.symm)
    · rw [hf] at hf'
      cases hf'
      obtain ⟨o, ho, horig, hjob, hspan⟩ := entered_family hp h he hne
      exact hkeep ho horig hjob hspan
  nodup hf := (listed_after hp hm h hl hf).1
  listed hf := (listed_after hp hm h hl hf).2 _
  tiles hgood hf hfits := tiles_after hp hm h hl hgood hf hfits

theorem moves {guard : JobManager → Label → Prop} (hguard : ∀ m l, guard m l → m.SeedsOnly l)
    (h : Moves guard m m') (hm : m.Minted) (hp : m.Partition good) :
    m'.Minted ∧ m'.Partition good :=
  h.invariant (fun n => n.Minted ∧ n.Partition good) ⟨hm, hp⟩ fun s l _ hi hg hmove =>
    ⟨hmove.minted hi.1, hi.2.move hi.1 hmove (hguard s l hg)⟩

end Partition

end

section Runs

variable {F : Type} [Double F] {m m' : JobManager} {o : Operation F} {good : JobId → Prop}

-- Metadata is left alone but for the renders that are seeded, and only leased
-- work is requeued.
def KeepsShape : Operation F → Prop
  | .mutableJob _ _ => False
  | .requeue _ why => why = .release ∨ why = .leaseExpired
  | _ => True

-- A known range is only issued in a job that has no boundary inside it.
def ProbesInside (m : JobManager) : Operation F → Prop
  | .issueKnownRange _ _ _ startUnit unitCount =>
      ∀ e, m.knownRangeJob startUnit unitCount = some e →
        (Span.mk startUnit.toNat unitCount.toNat).Within e.2.unitsPerGroup.toNat
  | _ => True

omit [Double F] in
theorem takes_seedsOnly (ho : KeepsShape o) (m : JobManager) (l : Label) (h : Takes o m l) :
    m.SeedsOnly l := by
  have hgrants : ∀ {worker deadline issue}, l.grants worker deadline issue → m.SeedsOnly l := by
    intro worker deadline issue hl
    cases l <;> trivial
  have hsettles : l.Settles → m.SeedsOnly l := by
    intro hl
    cases l <;> trivial
  cases o with
  | createJob => exact h ▸ trivial
  | clearDirty => exact h ▸ trivial
  | seedRender => exact h.elim
  | mutableJob => exact ho.elim
  | grant => exact hgrants h
  | issueKnownRange => exact hgrants h
  | issueSpeculative => exact hgrants h
  | _ => exact hsettles h

-- What is seeded is a fresh job, and its keyspace is its tiles.
theorem seedRender_seeds {render : RenderConfig} {inputRef : AssetId}
    (hfresh : m.findJob ⟨0, m.nextId⟩ = none) :
    Moves (fun n l => n.SeedsOnly l ∧ l.Plants) m (m.seedRender render inputRef).2 := by
  obtain ⟨n, hcreate, hedit⟩ := seedRender_moves m render inputRef
  have hjob : n.findJob ⟨0, m.nextId⟩ = some
      { id := ⟨0, m.nextId⟩, kernelId := kRenderKernel, seed := 42
        totalUnits := render.grid.tileCount.toUInt64 * render.samplesPerTile
        unitsPerGroup := render.samplesPerTile } := by
    cases hcreate
    rw [findJob_addJob _ _ hfresh, if_pos rfl]
  refine Reach.head ?_ hcreate (Reach.single ?_ hedit)
  · exact ⟨trivial, trivial⟩
  · exact ⟨⟨render, inputRef, _, rfl, hjob, rfl, rfl, rfl, rfl, rfl⟩, trivial⟩

def Probes : Operation F → Prop
  | .issueKnownRange _ _ _ _ _ => True
  | _ => False

omit [Double F] in
theorem takes_no_probe (ho : ¬ Probes o) {l : Label} (h : Takes o m l) (t : Task) :
    l ≠ .probe t := by
  rintro rfl
  cases o with
  | issueKnownRange => exact ho trivial
  | createJob => cases h
  | mutableJob => cases h
  | grant => cases h.2
  | issueSpeculative => cases h.2
  | clearDirty => cases h
  | _ => exact h.elim

omit [Double F] in
theorem takes_no_flush (ho : o ≠ .clearDirty) {l : Label} (h : Takes o m l) : l ≠ .flush := by
  rintro rfl
  cases o with
  | clearDirty => exact ho rfl
  | createJob => cases h
  | mutableJob => cases h
  | _ => exact h.elim

-- An operation seeds renders only as they should be. Only one kind probes, and
-- only one clears the marks.
theorem run_seeds (ho : KeepsShape o) (hfresh : m.findJob ⟨0, m.nextId⟩ = none) :
    Moves (fun n l => n.SeedsOnly l ∧ (¬ Probes o → ∀ t, l ≠ .probe t) ∧
      (o ≠ .clearDirty → l ≠ .flush)) m (o.run m) := by
  by_cases hseed : ∃ render inputRef, o = .seedRender render inputRef
  · obtain ⟨render, inputRef, rfl⟩ := hseed
    refine Reach.mono ?_ (seedRender_seeds hfresh)
    rintro n l ⟨hl, hplants⟩
    refine ⟨hl, fun _ t he => ?_, fun _ he => ?_⟩
    · rw [he] at hplants
      exact hplants.elim
    · rw [he] at hplants
      exact hplants.elim
  · have hreq : o.requeuesLeased := by
      cases o <;> trivial
    refine Reach.mono ?_ (run_moves (m := m) o hreq fun render inputRef he =>
      hseed ⟨render, inputRef, he⟩)
    exact fun n l h => ⟨takes_seedsOnly ho n l h, fun hno => takes_no_probe hno h,
      fun hno => takes_no_flush hno h⟩

theorem step_partition (h : Step m o m') (ho : KeepsShape o) (hm : m.Minted)
    (hp : m.Partition good) : m'.Minted ∧ m'.Partition good := by
  have hrun := Partition.moves (fun _ _ h => h.1) (run_seeds ho hp.fresh) hm hp
  have hrows := Move.aux _ _ h.sameRows
  exact ⟨hrows.minted hrun.1, hrun.2.move hrun.1 hrows trivial⟩

theorem run_partition (h : Reach Step (fun _ (o : Operation F) => KeepsShape o) {} m) :
    m.Minted ∧ m.Partition good :=
  h.invariant (fun n => n.Minted ∧ n.Partition good) ⟨Minted.empty, Partition.empty⟩
    fun _ _ _ hi ho hstep => step_partition hstep ho hi.1 hi.2

-- No task of a job crosses one of its boundaries, a probe no more than a carved one.
def AllWithin (m : JobManager) : Prop :=
  ∀ {id t job}, m.find id = some t → m.findJob t.job = some job →
    t.span.Within job.unitsPerGroup.toNat

theorem allWithin_move {l : Label} (h : Move m l m') (hm : m.Minted) (hp : m.Partition good)
    (hl : m.SeedsOnly l) (hprobe : ∀ t, l = .probe t → ∀ {job}, m.findJob t.job = some job →
      t.span.Within job.unitsPerGroup.toNat) (hw : m.AllWithin) : m'.AllWithin := by
  intro id t job' hf hjob'
  have hgroup : ∀ {job}, m.findJob t.job = some job → job'.unitsPerGroup = job.unitsPerGroup := by
    intro job hjob
    rcases h.findJob_some hp.fresh hjob' with hsame | ⟨-, -, hnone, -⟩ |
      ⟨_, edit, rfl, hsame, rfl⟩ | ⟨_, tile, u, units, -, -, hsame, rfl, -⟩ |
      ⟨_, u, original, -, -, hsame, rfl, -⟩
    · rw [hjob] at hsame
      cases hsame
      rfl
    · rw [hnone] at hjob
      cases hjob
    · obtain ⟨render, inputRef, _, rfl, -⟩ := hl
      rw [hjob] at hsame
      cases hsame
      rfl
    · rw [hjob] at hsame
      cases hsame
      rfl
    · rw [hjob] at hsame
      cases hsame
      rfl
  by_cases hentered : ∃ j job, m'.findJob j = some job ∧ id ∈ job.tasks
  · obtain ⟨j, job, hj, hid⟩ := hentered
    have hpart := hp.move hm h hl
    have hlisted := hpart.member hj hid hf
    rw [hlisted.own, hj] at hjob'
    cases hjob'
    exact hlisted.within
  · rcases h.find_eq hm id with ⟨heq, -⟩ | ⟨a, s, s', -, hs, hr, -, hf'⟩ |
      ⟨u, he, -, hid, -, hf'⟩
    · rw [heq] at hf
      obtain ⟨job, hjob⟩ := hp.owner hf
      rw [hgroup hjob]
      exact hw hf hjob
    · rw [hf] at hf'
      cases hf'
      obtain ⟨-, hown, hspan, -⟩ := Act.result_shape hr
      obtain ⟨job, hjob⟩ := hp.owner hs
      rw [hgroup (hown ▸ hjob), hspan]
      exact hw hs hjob
    · rw [hf] at hf'
      cases hf'
      by_cases hknown : l = .probe t
      · obtain ⟨job, hjob⟩ := (Partition.entered_job hp h he).1
        rw [hgroup hjob]
        exact hprobe t hknown hjob
      · obtain ⟨job, hjob, hmem⟩ := h.entered_listed he hknown
        exact absurd ⟨t.job, job, hjob, hid ▸ hmem⟩ hentered

theorem step_allWithin (h : Step m o m') (ho : KeepsShape o) (hprobe : m.ProbesInside o)
    (hm : m.Minted) (hp : m.Partition good) (hw : m.AllWithin) : m'.AllWithin := by
  have hrun : (o.run m).AllWithin := by
    by_cases hknown : Probes o
    · cases o with
      | issueKnownRange worker nowMs leaseMs start count =>
          rcases issueKnownRange_cases m worker nowMs leaseMs start count with hr |
            ⟨t, job, hjob, hborn, horig, rfl, rfl, hcount, -, -, hr⟩
          · simp only [Operation.run, hr]
            exact hw
          · simp only [Operation.run, hr]
            refine allWithin_move (Move.probe m job t hjob hborn horig hcount) hm hp trivial ?_ hw
            intro s hs job' hjob'
            cases hs
            rw [knownRangeJob_find hjob] at hjob'
            cases hjob'
            exact hprobe _ hjob
      | _ => exact hknown.elim
    · have hinv := (run_seeds ho hp.fresh).invariant
        (fun n => n.Minted ∧ n.Partition good ∧ n.AllWithin) ⟨hm, hp, hw⟩ fun n l _ hi hg hmove =>
          ⟨hmove.minted hi.1, hi.2.1.move hi.1 hmove hg.1,
            allWithin_move hmove hi.1 hi.2.1 hg.1
              (fun t ht => absurd ht (hg.2.1 hknown t)) hi.2.2⟩
      exact hinv.2.2
  intro id t job hf hjob
  rw [h.sameRows.find_eq] at hf
  rw [h.sameRows.findJob_eq] at hjob
  exact hrun hf hjob

-- What a run of carves, failures and races makes of one job: its originals cut
-- the carved units into pieces, without a gap and without an overlap.
structure CarvedPartition (m : JobManager) (job : Job) : Prop where
  nonempty : ∀ t ∈ m.originals job, 0 < t.unitCount.toNat
  disjoint : (m.originals job).Pairwise fun s t => Disjoint s.span.units t.span.units
  keyspace : job.render = none → job.nextUnit ≤ job.totalUnits ∧
    ∀ u, (∃ t ∈ m.originals job, u ∈ t.span.units) ↔ u < job.nextUnit.toNat
  tiles : ∀ render, job.render = some render →
    (∀ i g, job.tileGranted[i]? = some g → g ≤ render.samplesPerTile ∧
      ∀ u, i * render.samplesPerTile.toNat ≤ u → u < (i + 1) * render.samplesPerTile.toNat →
        ((∃ t ∈ m.originals job, u ∈ t.span.units) ↔
          u < i * render.samplesPerTile.toNat + g.toNat)) ∧
    job.nextUnit.toNat = (job.tileGranted.map UInt64.toNat).sum

theorem mem_originals_units {job : Job} {u : Nat} :
    (∃ t ∈ m.originals job, u ∈ t.span.units) ↔ ∃ s ∈ m.spans job, u ∈ s.units := by
  simp [spans_eq]

theorem Partition.carved (hp : m.Partition good) {jobId : JobId} {job : Job}
    (hgood : good jobId) (hjob : m.findJob jobId = some job) (hfits : job.Fits) :
    m.CarvedPartition job := by
  obtain ⟨hcarvable, htiles⟩ := hp.tiles hgood hjob hfits
  refine ⟨?_, ?_, ?_, ?_⟩
  · intro t ht
    have hmem : t ∈ job.tasks.filterMap m.find := List.mem_of_mem_filter ht
    obtain ⟨id, hid, hfind⟩ := List.mem_filterMap.mp hmem
    exact hp.nonempty hfind
  · have hpair := htiles.disjoint
    rw [spans_eq, List.pairwise_map] at hpair
    exact hpair
  · intro hr
    refine ⟨hcarvable.bound, fun u => ?_⟩
    rw [mem_originals_units, htiles.cover, Job.carvedUnits, hr]
    rfl
  · intro render hr
    have ht := hcarvable.tiled hr
    refine ⟨fun i g hg => ?_, ht.sum⟩
    have hg' : (job.tileGranted.map UInt64.toNat)[i]? = some g.toNat := by
      rw [List.getElem?_map, hg]
      rfl
    have hle := ht.budget _ (List.mem_of_getElem? hg')
    refine ⟨UInt64.le_iff_toNat_le.mpr hle, fun u hlo hhi => ?_⟩
    rw [mem_originals_units, htiles.cover, Job.carvedUnits, hr]
    constructor
    · rintro ⟨j, level, hj, hlo', hhi'⟩
      rw [Nat.succ_mul] at hhi
      have hij : i = j := prefixes.cell_unique (Nat.le_refl _)
        (ht.budget _ (List.mem_of_getElem? hj)) hlo hhi hlo' hhi'
      subst hij
      rw [hg'] at hj
      cases hj
      exact hhi'
    · exact fun hu => ⟨i, g.toNat, hg', hlo, hu⟩

-- No multiple of the group size lies strictly inside the range of a task.
def Uncrossed (job : Job) (t : Task) : Prop :=
  job.unitsPerGroup ≠ 0 → ¬ ∃ k, t.startUnit.toNat < k * job.unitsPerGroup.toNat ∧
    k * job.unitsPerGroup.toNat < t.startUnit.toNat + t.unitCount.toNat

theorem uncrossed_of_within {job : Job} {t : Task}
    (h : t.span.Within job.unitsPerGroup.toNat) : Uncrossed job t := by
  intro hne
  have hne' : job.unitsPerGroup.toNat ≠ 0 := fun h0 => hne (UInt64.toNat_inj.mp h0)
  exact (Span.within_iff hne').mp h

-- The partition of every job, and no task across a boundary unless a known range was.
theorem carve_partition (h : Reach Step (fun _ (o : Operation F) => KeepsShape o) {} m)
    {jobId : JobId} {job : Job} (hjob : m.findJob jobId = some job) :
    (job.Fits → m.CarvedPartition job) ∧
      (Reach Step (fun n (o : Operation F) => KeepsShape o ∧ n.ProbesInside o) {} m →
        ∀ id t, m.find id = some t → t.job = jobId → Uncrossed job t) := by
  refine ⟨fun hfits => ?_, fun hinside id t hf hown => ?_⟩
  · have hp : m.Partition fun _ => True := (run_partition h).2
    exact hp.carved trivial hjob hfits
  have hinv := hinside.invariant (fun n => n.Minted ∧ (n.Partition fun _ => True) ∧ n.AllWithin)
    ⟨Minted.empty, Partition.empty, fun hf => by cases hf⟩ fun _ _ _ hi hg hstep =>
      have hpart := step_partition hstep hg.1 hi.1 hi.2.1
      ⟨hpart.1, hpart.2, step_allWithin hstep hg.1 hg.2 hi.1 hi.2.1 hi.2.2⟩
  exact uncrossed_of_within (hinv.2.2 hf (hown ▸ hjob))

-- Two tiles of two samples, carved by one worker in two rounds of two grants.
def renderRun : List (Operation Rat) :=
  let grid : TileGrid := ⟨128, 64, 64, 64⟩
  let camera : Camera := ⟨(0, 0, 0), (0, 0, 0), (0, 0, 0), (0, 0, 0)⟩
  let render : RenderConfig :=
    { grid, samplesPerTile := 2, camera, nodeCount := 1, primCount := 1, materialCount := 1 }
  [.seedRender render [],
    .grant ⟨1, 1⟩ 0 10 1 [], .grant ⟨1, 1⟩ 0 10 1 [], .grant ⟨1, 1⟩ 0 10 5 []]

theorem carve_partition_render :
    ((runAll {} renderRun).findJob ⟨0, 1⟩).map (fun job => job.tileGranted) = some [2, 1] ∧
      ∀ job, (runAll {} renderRun).findJob ⟨0, 1⟩ = some job →
        (runAll {} renderRun).CarvedPartition job ∧
          ∀ id t, (runAll {} renderRun).find id = some t → t.job = ⟨0, 1⟩ → Uncrossed job t := by
  have hops : ∀ o ∈ renderRun, ∀ n, KeepsShape o ∧ ProbesInside n o := by
    intro o ho n
    simp only [renderRun, List.mem_cons, List.not_mem_nil, or_false] at ho
    rcases ho with rfl | rfl | rfl | rfl
    · exact ⟨trivial, trivial⟩
    · exact ⟨trivial, trivial⟩
    · exact ⟨trivial, trivial⟩
    · exact ⟨trivial, trivial⟩
  refine ⟨by decide, fun job hjob => ?_⟩
  have hfour : ((runAll {} renderRun).findJob ⟨0, 1⟩).map (fun job => job.render.map fun r =>
      r.grid.tileCount.toNat * r.samplesPerTile.toNat) = some (some 4) := by decide
  have hfits : job.Fits := by
    intro render hrender
    rw [hjob, Option.map_some, hrender, Option.map_some, Option.some.injEq,
      Option.some.injEq] at hfour
    omega
  have h := carve_partition (reach_runAll renderRun {} fun o ho n => (hops o ho n).1) hjob
  exact ⟨h.1 hfits, h.2 (reach_runAll renderRun {} hops)⟩

-- The range [0, 6) was accepted in the job without groups. The job that comes first
-- in the order of iteration has room for it too, and groups of four.
def strayRun : List (Operation Rat) :=
  [.createJob "brute_search_v1" 100 42 0, .createJob "brute_search_v1" 10 42 4,
    .grant ⟨1, 1⟩ 0 10 6 [], .grant ⟨1, 1⟩ 0 10 6 [], .grant ⟨1, 1⟩ 0 10 6 [],
    .grant ⟨1, 1⟩ 0 10 6 [], .submit ⟨1, 1⟩ ⟨0, 6⟩, .finish ⟨0, 6⟩ true,
    .issueKnownRange ⟨1, 2⟩ 5 10 0 6]

theorem known_range_crosses : ¬ ∀ m : JobManager,
    Reach Step (fun _ (o : Operation Rat) => KeepsShape o) {} m →
      ∀ jobId job, m.findJob jobId = some job →
        (job.Fits → m.CarvedPartition job) ∧
          ∀ id t, m.find id = some t → t.job = jobId → Uncrossed job t := by
  intro h
  have hrun : Reach Step (fun _ (o : Operation Rat) => KeepsShape o) {} (runAll {} strayRun) := by
    refine reach_runAll strayRun {} ?_
    intro o ho n
    simp only [strayRun, List.mem_cons, List.not_mem_nil, or_false] at ho
    rcases ho with rfl | rfl | rfl | rfl | rfl | rfl | rfl | rfl | rfl <;> trivial
  have hprobe : ((runAll {} strayRun).find ⟨0, 7⟩).map
      (fun t => (t.job, t.startUnit, t.unitCount)) = some (⟨0, 2⟩, 0, 6) := by decide
  have hgroup : ((runAll {} strayRun).findJob ⟨0, 2⟩).map (fun job => job.unitsPerGroup) =
      some 4 := by decide
  obtain ⟨t, ht, hspan⟩ := Option.map_eq_some_iff.mp hprobe
  obtain ⟨job, hjob, hwidth⟩ := Option.map_eq_some_iff.mp hgroup
  simp only [Prod.mk.injEq] at hspan
  obtain ⟨hown, hstart, hcount⟩ := hspan
  refine (h _ hrun ⟨0, 2⟩ job hjob).2 ⟨0, 7⟩ t ht hown ?_ ⟨1, ?_⟩
  · rw [hwidth]
    decide
  · rw [hwidth, hstart, hcount]
    decide

end Runs

end JobManager

end P2pGpu.Coordinator
