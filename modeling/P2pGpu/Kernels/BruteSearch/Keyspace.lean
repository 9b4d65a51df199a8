import P2pGpu.Coordinator.Job.Partition
import P2pGpu.Coordinator.Job.Progress
import P2pGpu.Kernels.BruteSearch

namespace P2pGpu.Coordinator

open P2pGpu.Protocol P2pGpu.Kernels P2pGpu.Kernels.BruteSearch P2pGpu.Worker

-- What a worker brings to a task: its device, and the chunks it cuts the task into.
structure Host where
  limits : Limits
  schedule : Schedule
  unitsPerChunk : UInt64

-- A task of a search, from the parameters that are built for it to its last chunk.
def searched (host : Host) (job : Job) (t : Task) : Option Search :=
  match buildParams bruteSearch job t with
  | .error _ => none
  | .ok params =>
      runTask host.limits (taskRequest bruteSearch params (buildOutputInit bruteSearch) t)
        host.unitsPerChunk (dispatch host.schedule) load

-- The candidate that a unit of the keyspace is: its high word and its low word.
def candidate (u : Nat) : UInt32 × UInt32 := (UInt32.ofNat (u / 2 ^ 32), UInt32.ofNat u)

def candidates (s : Span) : Multiset (UInt32 × UInt32) :=
  (Multiset.range s.count).map fun i => candidate (s.start + i)

def Searches (host : Host) (job : Job) (t : Task) : Prop :=
  (searched host job t).map Search.evaluated = some (candidates t.span)

def Evaluates (host : Host) (job : Job) (t : Task) (c : UInt32 × UInt32) : Prop :=
  ∃ s, searched host job t = some s ∧ c ∈ s.evaluated

-- No multiple of 2^32 lies strictly inside the task, and it is not too long to be
-- handed out.
def OneWindow (t : Task) : Prop := t.span.Within (2 ^ 32) ∧ t.span.count < 2 ^ 32

instance (t : Task) : Decidable (OneWindow t) := inferInstanceAs (Decidable (_ ∧ _))

section

variable {host : Host} {job : Job} {t : Task}

def searchParams (job : Job) (t : Task) : BruteSearchParams where
  startLo := (t.startUnit &&& 0xFFFFFFFF).toUInt32
  unitCount := t.unitCount.toUInt32
  baseHi := (t.startUnit >>> 32).toUInt32
  seed := mix32 (job.seed ^^^ t.startUnit)
  mask := 0x00000FFF
  targetBits := mix32 job.seed &&& 0x00000FFF
  rounds := 8

theorem buildParams_ok (h : t.span.count < 2 ^ 32) :
    buildParams bruteSearch job t = .ok (toBytes (searchParams job t).words) := by
  have hle : ¬ (0xFFFFFFFF : UInt64) < t.unitCount := by
    rw [UInt64.lt_iff_toNat_lt]
    show ¬ 4294967295 < t.span.count
    omega
  show buildBruteSearch job t = _
  rw [buildBruteSearch, if_neg hle]
  rfl

theorem searched_refused (h : 2 ^ 32 ≤ t.span.count) : searched host job t = none := by
  have hlt : (0xFFFFFFFF : UInt64) < t.unitCount := by
    rw [UInt64.lt_iff_toNat_lt]
    show 4294967295 < t.span.count
    omega
  have hbuild : buildParams bruteSearch job t = buildBruteSearch job t := rfl
  rw [searched, hbuild, buildBruteSearch, if_pos hlt]

theorem asks (hpos : 0 < t.span.count) (h : t.span.count < 2 ^ 32) :
    Asks (taskRequest bruteSearch (toBytes (searchParams job t).words)
      (buildOutputInit bruteSearch) t) (searchParams job t) where
  params := rfl
  nonempty := hpos
  bound := h
  outputBytes := rfl
  outputInit := rfl
  workgroupSize := rfl
  workgroupSizeY := rfl
  invocationsX := rfl
  invocationsY := rfl

-- Of a task, only the low word moves.
theorem searched_evaluated (hpos : 0 < t.span.count) (h : t.span.count < 2 ^ 32) :
    (searched host job t).map Search.evaluated = some ((Multiset.range t.span.count).map fun i =>
      (UInt32.ofNat (t.span.start / 2 ^ 32), UInt32.ofNat (t.span.start + i))) := by
  have hhi : (t.startUnit >>> 32).toUInt32 = UInt32.ofNat (t.span.start / 2 ^ 32) := by
    apply UInt32.toNat_inj.mp
    have hshift : (t.startUnit >>> 32).toNat = t.span.start / 2 ^ 32 := by
      rw [UInt64.toNat_shiftRight, Nat.shiftRight_eq_div_pow]
      rfl
    rw [UInt64.toNat_toUInt32, hshift, UInt32.toNat_ofNat']
  have hlo : ∀ i, t.startUnit.toUInt32 + UInt32.ofNat i = UInt32.ofNat (t.span.start + i) := by
    intro i
    rw [UInt32.ofNat_add]
    rfl
  rw [searched, buildParams_ok h]
  simp only [(asks hpos h).runTask_eq, Option.map_some, evaluated_searchRange, zero_add]
  show some ((Multiset.range t.span.count).map fun i =>
    ((t.startUnit >>> 32).toUInt32, t.startUnit.toUInt32 + UInt32.ofNat i)) = _
  simp only [hhi, hlo]

-- The pairs that a task of one range evaluates.
theorem evaluates_iff (hpos : 0 < t.span.count) (c : UInt32 × UInt32) :
    Evaluates host job t c ↔ t.span.count < 2 ^ 32 ∧ ∃ u ∈ t.span.units,
      (UInt32.ofNat (t.span.start / 2 ^ 32), UInt32.ofNat u) = c := by
  by_cases hlt : t.span.count < 2 ^ 32
  · have heval : (searched host job t).map Search.evaluated =
        some ((Multiset.range t.span.count).map fun i =>
          (UInt32.ofNat (t.span.start / 2 ^ 32), UInt32.ofNat (t.span.start + i))) :=
      searched_evaluated hpos hlt
    obtain ⟨s, hs, hpairs⟩ := Option.map_eq_some_iff.mp heval
    have hmem : Evaluates host job t c ↔ c ∈ s.evaluated := by
      constructor
      · rintro ⟨s', hs', hc⟩
        rw [hs] at hs'
        cases hs'
        exact hc
      · exact fun hc => ⟨s, hs, hc⟩
    rw [hmem, hpairs, Multiset.mem_map]
    constructor
    · rintro ⟨i, hi, heq⟩
      have hi' := Multiset.mem_range.mp hi
      exact ⟨hlt, t.span.start + i, ⟨Nat.le_add_right _ _, by omega⟩, heq⟩
    · rintro ⟨-, u, hu, heq⟩
      obtain ⟨hlo, hhi⟩ := Span.mem_units.mp hu
      refine ⟨u - t.span.start, Multiset.mem_range.mpr (by omega), ?_⟩
      rw [Nat.add_sub_cancel' hlo]
      exact heq
  · constructor
    · rintro ⟨s, hs, -⟩
      rw [searched_refused (by omega)] at hs
      cases hs
    · exact fun h => absurd h.1 hlt

-- The first boundary past the start of a range that crosses one.
theorem boundary_mem {s : Span} (hcross : ¬ s.Within (2 ^ 32)) :
    (s.start / 2 ^ 32 + 1) * 2 ^ 32 ∈ s.units := by
  have hover : 2 ^ 32 < s.start % 2 ^ 32 + s.count := by
    by_contra hle
    exact hcross fun _ => by omega
  rw [Span.mem_units]
  omega

theorem candidate_boundary (k : Nat) : candidate (k * 2 ^ 32) = (UInt32.ofNat k, 0) := by
  have hlow : UInt32.ofNat (k * 2 ^ 32) = 0 := by
    apply UInt32.toNat_inj.mp
    rw [UInt32.toNat_ofNat', Nat.mul_mod_left]
    rfl
  rw [candidate, hlow, Nat.mul_div_cancel _ (Nat.two_pow_pos 32)]

theorem ofNat_succ_ne (k : Nat) : UInt32.ofNat k ≠ UInt32.ofNat (k + 1) := by
  intro he
  have hnat := congrArg UInt32.toNat he
  rw [UInt32.toNat_ofNat', UInt32.toNat_ofNat'] at hnat
  omega

-- A task is searched as it should be where its range lies in one window, and there only.
theorem searches_iff (hpos : 0 < t.span.count) : Searches host job t ↔ OneWindow t := by
  constructor
  · intro h
    have hlt : t.span.count < 2 ^ 32 := by
      by_contra hge
      rw [Searches, searched_refused (by omega)] at h
      cases h
    refine ⟨?_, hlt⟩
    by_contra hcross
    -- The unit at the boundary has a high word that no candidate of the task has.
    have hmem : candidate ((t.span.start / 2 ^ 32 + 1) * 2 ^ 32) ∈ candidates t.span := by
      obtain ⟨hlo, hhi⟩ := Span.mem_units.mp (boundary_mem hcross)
      refine Multiset.mem_map.mpr ⟨(t.span.start / 2 ^ 32 + 1) * 2 ^ 32 - t.span.start,
        Multiset.mem_range.mpr (by omega), ?_⟩
      rw [Nat.add_sub_cancel' hlo]
    obtain ⟨s, hs, hpairs⟩ := Option.map_eq_some_iff.mp h
    have heval : Evaluates host job t (candidate ((t.span.start / 2 ^ 32 + 1) * 2 ^ 32)) :=
      ⟨s, hs, hpairs ▸ hmem⟩
    obtain ⟨-, u, -, heq⟩ := (evaluates_iff hpos _).mp heval
    rw [candidate_boundary] at heq
    exact ofNat_succ_ne _ (congrArg Prod.fst heq)
  · rintro ⟨hwithin, hlt⟩
    rw [Searches, searched_evaluated hpos hlt]
    refine congrArg some (Multiset.map_congr rfl fun i hi => ?_)
    have hi' := Multiset.mem_range.mp hi
    have hin : t.span.start + i ∈ t.span.units := ⟨Nat.le_add_right _ _, by omega⟩
    rw [candidate, hwithin.div_eq (by decide) hin]

-- Tasks that share no unit, and that evaluate a candidate for each of theirs
-- together, each lie in one window.
theorem oneWindow_of_evaluated {tasks : List Task} (hosts : Task → Host)
    (hpos : ∀ t ∈ tasks, 0 < t.span.count)
    (hbound : ∀ t ∈ tasks, t.span.start + t.span.count ≤ 2 ^ 64)
    (hdisjoint : tasks.Pairwise fun s t => Disjoint s.span.units t.span.units)
    (hall : ∀ t ∈ tasks, ∀ u ∈ t.span.units,
      ∃ s ∈ tasks, Evaluates (hosts s) job s (candidate u)) :
    ∀ t ∈ tasks, OneWindow t := by
  have hsymm : Std.Symm fun s t : Task => Disjoint s.span.units t.span.units :=
    ⟨fun _ _ h => h.symm⟩
  have happart : ∀ s ∈ tasks, ∀ t ∈ tasks, s ≠ t → ∀ u ∈ s.span.units, u ∉ t.span.units :=
    fun s hs t ht hne u hu => Set.disjoint_left.mp (hdisjoint.forall hs ht hne) hu
  -- What a candidate's pair says of the task that it comes from.
  have hsource : ∀ u, u < 2 ^ 64 → (∃ s ∈ tasks, Evaluates (hosts s) job s (candidate u)) →
      ∃ s ∈ tasks, s.span.count < 2 ^ 32 ∧ s.span.start / 2 ^ 32 = u / 2 ^ 32 ∧
        ∃ v ∈ s.span.units, v % 2 ^ 32 = u % 2 ^ 32 := by
    rintro u hu ⟨s, hs, heval⟩
    obtain ⟨hcount, v, hv, heq⟩ := (evaluates_iff (hpos s hs) _).mp heval
    have hhi := congrArg (fun c => c.1.toNat) heq
    have hlo := congrArg (fun c => c.2.toNat) heq
    simp only [candidate, UInt32.toNat_ofNat'] at hhi hlo
    have hstart := hbound s hs
    have hcountpos := hpos s hs
    exact ⟨s, hs, hcount, by omega, v, hv, hlo⟩
  -- By the starts, from the last one down: a task evaluates no pair for a later one.
  have hdown : ∀ n, ∀ t ∈ tasks, 2 ^ 64 ≤ t.span.start + n → OneWindow t := by
    intro n
    induction n using Nat.strong_induction_on with
    | _ n ih =>
        intro t ht hn
        have hlater : ∀ s ∈ tasks, t.span.start < s.span.start → OneWindow s := by
          intro s hs hlt
          have hs' := hbound s hs
          have hspos := hpos s hs
          exact ih (n - 1) (by omega) s hs (by omega)
        have htpos := hpos t ht
        have htbound := hbound t ht
        by_cases hcount : t.span.count < 2 ^ 32
        · refine ⟨?_, hcount⟩
          by_contra hcross
          have hmem := boundary_mem hcross
          obtain ⟨hlo, hhi⟩ := Span.mem_units.mp hmem
          obtain ⟨s, hs, -, hwindow, v, hv, hmod⟩ :=
            hsource ((t.span.start / 2 ^ 32 + 1) * 2 ^ 32) (by omega) (hall t ht _ hmem)
          have hafter : t.span.start < s.span.start := by omega
          have hdiv := (hlater s hs hafter).1.div_eq (by decide) hv
          have hvb : v = (t.span.start / 2 ^ 32 + 1) * 2 ^ 32 := by omega
          have hne : s ≠ t := by
            rintro rfl
            exact Nat.lt_irrefl _ hafter
          exact happart s hs t ht hne v hv (hvb ▸ hmem)
        · have hmem : t.span.start ∈ t.span.units := ⟨Nat.le_refl _, by omega⟩
          obtain ⟨s, hs, hshort, hwindow, v, hv, hmod⟩ :=
            hsource t.span.start (by omega) (hall t ht _ hmem)
          have hne : s ≠ t := by
            rintro rfl
            exact hcount hshort
          obtain ⟨hvlo, hvhi⟩ := Span.mem_units.mp hv
          have hapart := happart t ht s hs hne.symm _ hmem
          rw [Span.mem_units, not_and_or] at hapart
          have hvt : v = t.span.start := by
            by_cases hafter : t.span.start < s.span.start
            · have hdiv := (hlater s hs hafter).1.div_eq (by decide) hv
              omega
            · omega
          exact absurd (hvt ▸ hv) (happart t ht s hs hne.symm _ hmem)
  intro t ht
  exact hdown (2 ^ 64) t ht (Nat.le_add_left _ _)

end

namespace JobManager

section

variable {F : Type} [Double F] {m m' : JobManager} {o : Operation F} {l : Label} {jobId : JobId}
  {job : Job} {t : Task}

-- Only the kernel of renders has a render.
def RendersOneKernel (m : JobManager) : Prop :=
  ∀ jobId job, m.findJob jobId = some job → job.render ≠ none → job.kernelId = kRenderKernel

theorem rendersOneKernel_move (h : Move m l m') (hfresh : m.findJob ⟨0, m.nextId⟩ = none)
    (hr : m.RendersOneKernel) (hedit : ∀ id edit job, l = .edit id edit →
      m.findJob id = some job → job.kernelId = kRenderKernel ∧
        (edit job).kernelId = job.kernelId) : m'.RendersOneKernel := by
  intro jobId job' hf hrender
  rcases h.findJob_some hfresh hf with hjob | ⟨-, -, -, -, -, -, hnone⟩ |
    ⟨job, edit, rfl, hjob, rfl⟩ | ⟨job, tile, t, units, -, -, hjob, rfl, -⟩ |
    ⟨job, t, original, -, -, hjob, rfl, -⟩
  · exact hr jobId job' hjob hrender
  · exact absurd hnone hrender
  · obtain ⟨hkernel, hsame⟩ := hedit jobId edit job rfl hjob
    exact hsame.trans hkernel
  · exact hr jobId job hjob hrender
  · exact hr jobId job hjob hrender

omit [Double F] in
theorem takes_no_edit (ho : KeepsShape o) (h : Takes o m l) (id : JobId) (edit : Job → Job) :
    l ≠ .edit id edit := by
  rintro rfl
  cases o with
  | mutableJob => exact ho.elim
  | createJob => cases h
  | clearDirty => cases h
  | _ => exact h.elim

theorem run_rendersOneKernel (ho : KeepsShape o) (hm : m.Minted)
    (hp : m.Partition fun _ => True) (hr : m.RendersOneKernel) :
    (o.run m).RendersOneKernel := by
  by_cases hseed : ∃ render inputRef, o = .seedRender render inputRef
  · obtain ⟨render, inputRef, rfl⟩ := hseed
    obtain ⟨n, hcreate, hedit⟩ := seedRender_moves m render inputRef
    have hn := rendersOneKernel_move hcreate hp.fresh hr fun _ _ _ he => by cases he
    have hjob : (n.findJob ⟨0, m.nextId⟩).map Job.kernelId = some kRenderKernel := by
      cases hcreate
      rw [findJob_addJob _ _ hp.fresh, if_pos rfl]
      rfl
    refine rendersOneKernel_move hedit (hp.move hm hcreate trivial).fresh hn ?_
    intro id edit job he hf
    cases he
    rw [hf] at hjob
    exact ⟨Option.some.inj hjob, rfl⟩
  · have hreq : o.requeuesLeased := by
      cases o <;> trivial
    have hmoves := run_moves (m := m) o hreq fun render inputRef he =>
      hseed ⟨render, inputRef, he⟩
    have hinv := hmoves.invariant
      (fun n => n.Minted ∧ (n.Partition fun _ => True) ∧ n.RendersOneKernel) ⟨hm, hp, hr⟩
      fun n l _ hi htakes hmove =>
        ⟨hmove.minted hi.1, hi.2.1.move hi.1 hmove (takes_seedsOnly ho n l htakes),
          rendersOneKernel_move hmove hi.2.1.fresh hi.2.2
            fun id edit _ he => absurd he (takes_no_edit ho htakes id edit)⟩
    exact hinv.2.2

theorem run_renders (h : Reach Step (fun _ (o : Operation F) => KeepsShape o) {} m) :
    m.RendersOneKernel := by
  have hinv := h.invariant
    (fun n => n.Minted ∧ (n.Partition fun _ => True) ∧ n.RendersOneKernel)
    ⟨Minted.empty, Partition.empty, fun _ _ hf => by cases hf⟩ fun n o n' hi ho hstep => by
      obtain ⟨hm, hp, hr⟩ := hi
      obtain ⟨hm', hp'⟩ := step_partition hstep ho hm hp
      refine ⟨hm', hp', fun jobId job hf hrender => ?_⟩
      rw [hstep.sameRows.findJob_eq] at hf
      exact run_rendersOneKernel ho hm hp hr jobId job hf hrender
  exact hinv.2.2

-- The keyspace of a search: a task evaluates the candidates of its units where no
-- multiple of 2^32 lies inside it, and a job that is complete has evaluated the
-- candidate of each unit where that holds of all that was carved.
theorem keyspace_searched_iff (h : Reach Step (fun _ (o : Operation F) => KeepsShape o) {} m)
    (hjob : m.findJob jobId = some job) (hkernel : job.kernelId = bruteSearch.id)
    (hosts : Task → Host) :
    (∀ id t, m.find id = some t → t.job = jobId → (Searches (hosts t) job t ↔ OneWindow t)) ∧
      (m.jobComplete jobId = true → ((∀ u < job.totalUnits.toNat, ∃ t ∈ m.originals job,
          Evaluates (hosts t) job t (candidate u)) ↔
        ∀ t ∈ m.originals job, OneWindow t)) := by
  have hreached : m.Minted ∧ m.Partition fun _ => True := run_partition h
  obtain ⟨hm, hp⟩ := hreached
  refine ⟨fun id t hf _ => searches_iff (hp.nonempty hf), fun hcomplete => ?_⟩
  have hrender : job.render = none := by
    by_contra hsome
    have hother := run_renders h jobId job hjob hsome
    rw [hkernel] at hother
    exact absurd hother (by decide)
  have hcarved := hp.carved trivial hjob fun r hr => by rw [hrender] at hr; cases hr
  obtain ⟨hle, hcover⟩ := hcarved.keyspace hrender
  obtain ⟨job', hjob', hexhausted, -⟩ := jobComplete_iff.mp hcomplete
  rw [hjob] at hjob'
  cases hjob'
  have hfull : job.nextUnit.toNat = job.totalUnits.toNat := by
    have hge : job.totalUnits ≤ job.nextUnit := by simpa [Job.keyspaceExhausted] using hexhausted
    have hge' := UInt64.le_iff_toNat_le.mp hge
    have hle' := UInt64.le_iff_toNat_le.mp hle
    omega
  have hinside : ∀ t ∈ m.originals job, ∀ u ∈ t.span.units, u < job.totalUnits.toNat := by
    intro t ht u hu
    rw [← hfull]
    exact (hcover u).mp ⟨t, ht, hu⟩
  constructor
  · intro hall
    refine oneWindow_of_evaluated hosts hcarved.nonempty ?_ hcarved.disjoint
      fun t ht u hu => hall u (hinside t ht u hu)
    intro t ht
    have hpos : 0 < t.span.count := hcarved.nonempty t ht
    have hlast := hinside t ht (t.span.start + t.span.count - 1) ⟨by omega, by omega⟩
    have hsize := job.totalUnits.toNat_lt
    omega
  · intro hwindows u hu
    obtain ⟨t, ht, hut⟩ := (hcover u).mpr (by omega)
    obtain ⟨hwithin, hlt⟩ := hwindows t ht
    refine ⟨t, ht, (evaluates_iff (hcarved.nonempty t ht) _).mpr ⟨hlt, u, hut, ?_⟩⟩
    rw [candidate, hwithin.div_eq (by decide) hut]

end

-- A device with the least limits, that takes the invocations of a dispatch in rows.
def plainHost : Host where
  limits :=
    { maxStorageBufferBindingSize := 134217728
      maxUniformBufferBindingSize := 65536
      maxComputeWorkgroupsPerDimension := 65535
      storage := by decide
      uniform := by decide
      groups := by decide }
  schedule := inRows
  unitsPerChunk := 2

-- Three units as one task, and its answer is accepted.
def shortSearch : List (Operation Rat) :=
  [.createJob "brute_search_v1" 3 42 0, .grant ⟨1, 1⟩ 0 10 5 [], .submit ⟨1, 1⟩ ⟨0, 2⟩,
    .finish ⟨0, 2⟩ true]

theorem keyspace_searched_iff_short :
    (runAll {} shortSearch).jobComplete ⟨0, 1⟩ = true ∧
      ∀ job, (runAll {} shortSearch).findJob ⟨0, 1⟩ = some job →
        ∀ u < job.totalUnits.toNat, ∃ t ∈ (runAll {} shortSearch).originals job,
          Evaluates plainHost job t (candidate u) := by
  have hcomplete : (runAll {} shortSearch).jobComplete ⟨0, 1⟩ = true := by decide +kernel
  refine ⟨hcomplete, fun job hjob => ?_⟩
  have hfacts : ((runAll {} shortSearch).findJob ⟨0, 1⟩).map (fun job => (job.kernelId,
      decide (∀ t ∈ (runAll {} shortSearch).originals job, OneWindow t))) =
      some (bruteSearch.id, true) := by decide +kernel
  rw [hjob, Option.map_some, Option.some.injEq, Prod.mk.injEq] at hfacts
  have hrun : Reach Step (fun _ (o : Operation Rat) => KeepsShape o) {}
      (runAll {} shortSearch) := by
    refine reach_runAll shortSearch {} ?_
    intro o ho n
    simp only [shortSearch, List.mem_cons, List.not_mem_nil, or_false] at ho
    rcases ho with rfl | rfl | rfl | rfl <;> trivial
  exact ((keyspace_searched_iff hrun hjob hfacts.1 fun _ => plainHost).2 hcomplete).mpr
    (of_decide_eq_true hfacts.2)

-- Twice the most that a task may hold, in a keyspace of two windows. The second
-- task starts at the last unit of the first window.
def longSearch : List (Operation Rat) :=
  [.createJob "brute_search_v1" 8589934592 42 0, .grant ⟨1, 1⟩ 0 10 4294967295 [],
    .grant ⟨1, 1⟩ 0 10 4294967295 []]

theorem window_crossed : ¬ ∀ m : JobManager,
    Reach Step (fun _ (o : Operation Rat) => KeepsShape o) {} m →
      ∀ jobId job, m.findJob jobId = some job → job.kernelId = bruteSearch.id →
        ∀ id t, m.find id = some t → t.job = jobId → ∀ host, Searches host job t := by
  intro h
  have hrun : Reach Step (fun _ (o : Operation Rat) => KeepsShape o) {} (runAll {} longSearch) := by
    refine reach_runAll longSearch {} ?_
    intro o ho n
    simp only [longSearch, List.mem_cons, List.not_mem_nil, or_false] at ho
    rcases ho with rfl | rfl | rfl <;> trivial
  have hkernel : ((runAll {} longSearch).findJob ⟨0, 1⟩).map Job.kernelId =
      some bruteSearch.id := by decide +kernel
  have htask : ((runAll {} longSearch).find ⟨0, 3⟩).map (fun t => (t.job, t.span)) =
      some (⟨0, 1⟩, ⟨4294967295, 4294967295⟩) := by decide +kernel
  obtain ⟨job, hjob, hid⟩ := Option.map_eq_some_iff.mp hkernel
  obtain ⟨t, ht, hspan⟩ := Option.map_eq_some_iff.mp htask
  rw [Prod.mk.injEq] at hspan
  obtain ⟨hown, hspan⟩ := hspan
  have hpos : 0 < t.span.count := by
    rw [hspan]
    decide
  have hwindow := (searches_iff hpos).mp (h _ hrun _ job hjob hid _ t ht hown plainHost)
  rw [OneWindow, hspan] at hwindow
  exact absurd hwindow (by decide)

end JobManager

end P2pGpu.Coordinator
