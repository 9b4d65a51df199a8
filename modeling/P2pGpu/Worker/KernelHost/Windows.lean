import P2pGpu.Coordinator.Params.Ranges
import P2pGpu.Coordinator.Sizer
import P2pGpu.Data.Windows
import P2pGpu.Worker.KernelHost

namespace P2pGpu.Worker

open P2pGpu.LittleEndian
open P2pGpu.Coordinator (Job KernelSpec Task buildParams buildPathTrace_ok kMaxUnitsPerTask
  paramWord pathTrace)

section

variable {σ : Type} {req : TaskRequest} {chunk : UInt64}
  {dispatch : List UInt8 → UInt32 → UInt32 → σ → σ}

-- The dispatch of one piece of a task.
def dispatchSpan (req : TaskRequest) (dispatch : List UInt8 → UInt32 → UInt32 → σ → σ) (s : σ)
    (piece : Span) : σ :=
  let units := UInt64.ofNat piece.count
  let start := req.startUnit + UInt64.ofNat piece.start
  dispatch (writeChunkWindow (paramsImage req) start.toUInt32 units.toUInt32)
    (groupsX req units) (groupsY req) s

-- With at least as many rounds as units are left, the loop is through with all the
-- pieces that are left.
theorem chunkLoop_from (hchunk : 0 < chunk.toNat) (fuel k : Nat) (done : UInt64) (s : σ)
    (hfuel : req.unitCount.toNat ≤ done.toNat + fuel)
    (hdone : done.toNat = min (k * chunk.toNat) req.unitCount.toNat) :
    chunkLoop req chunk dispatch fuel done s =
      ((List.range' k (Chunks.count chunk.toNat req.unitCount.toNat - k)).map fun k =>
        ⟨k * chunk.toNat, min chunk.toNat (req.unitCount.toNat - k * chunk.toNat)⟩).foldl
          (dispatchSpan req dispatch) s := by
  have hbound := req.unitCount.toNat_lt
  induction fuel generalizing k done s with
  | zero =>
      have hover : ¬ k < Chunks.count chunk.toNat req.unitCount.toNat := by
        rw [Chunks.lt_count hchunk]
        omega
      rw [Nat.sub_eq_zero_of_le (Nat.not_lt.mp hover)]
      rfl
  | succ fuel ih =>
      rw [chunkLoop]
      by_cases hlt : done < req.unitCount
      · have hltNat := UInt64.lt_iff_toNat_lt.mp hlt
        have hstart : done.toNat = k * chunk.toNat := by omega
        have hmore : k < Chunks.count chunk.toNat req.unitCount.toNat := by
          rw [Chunks.lt_count hchunk]
          omega
        have hleft : (req.unitCount - done).toNat = req.unitCount.toNat - k * chunk.toNat := by
          rw [UInt64.toNat_sub_of_le _ _ (UInt64.le_iff_toNat_le.mpr hltNat.le), hstart]
        have hunits : (min chunk (req.unitCount - done)).toNat =
            min chunk.toNat (req.unitCount.toNat - k * chunk.toNat) := by
          rw [toNat_minU64, hleft]
        have hnext : (done + min chunk (req.unitCount - done)).toNat =
            min ((k + 1) * chunk.toNat) req.unitCount.toNat := by
          rw [UInt64.toNat_add, hunits, hstart, Nat.succ_mul]
          omega
        have hsucc : Chunks.count chunk.toNat req.unitCount.toNat - k =
            Chunks.count chunk.toNat req.unitCount.toNat - (k + 1) + 1 := by omega
        rw [if_pos hlt, hsucc, List.range'_succ, List.map_cons, List.foldl_cons]
        have hpiece : dispatchSpan req dispatch s
            ⟨k * chunk.toNat, min chunk.toNat (req.unitCount.toNat - k * chunk.toNat)⟩ =
            dispatch (writeChunkWindow (paramsImage req) (req.startUnit + done).toUInt32
              (min chunk (req.unitCount - done)).toUInt32)
              (groupsX req (min chunk (req.unitCount - done))) (groupsY req) s := by
          rw [dispatchSpan, ← hunits, ← hstart, UInt64.ofNat_toNat, UInt64.ofNat_toNat]
        rw [hpiece]
        refine ih (k + 1) _ _ ?_ hnext
        rw [hnext, Nat.succ_mul]
        omega
      · have hge : req.unitCount.toNat ≤ done.toNat :=
          Nat.not_lt.mp fun h => hlt (UInt64.lt_iff_toNat_lt.mpr h)
        have hover : ¬ k < Chunks.count chunk.toNat req.unitCount.toNat := by
          rw [Chunks.lt_count hchunk]
          omega
        rw [if_neg hlt, Nat.sub_eq_zero_of_le (Nat.not_lt.mp hover)]
        rfl

-- However many rounds it is given beyond its units, a task is the dispatches of its
-- pieces in their order.
theorem chunkLoop_cut (hchunk : 0 < chunk.toNat) {fuel : Nat}
    (hfuel : req.unitCount.toNat ≤ fuel) (s : σ) :
    chunkLoop req chunk dispatch fuel 0 s =
      (Span.cut chunk.toNat req.unitCount.toNat).foldl (dispatchSpan req dispatch) s := by
  have hzero : (0 : UInt64).toNat = 0 := rfl
  rw [chunkLoop_from hchunk fuel 0 0 s (by rw [hzero]; omega) (by rw [hzero]; omega), Nat.sub_zero,
    ← List.range_eq_range']
  rfl

end

-- What the host checks of a task before it compiles anything.
structure Accepts (limits : DeviceLimits) (req : TaskRequest) (unitsPerChunk : UInt64) : Prop where
  args : ¬ (req.unitCount = 0 ∨ req.outputBytes = 0 ∨ req.workgroupSize = 0)
  params : ¬ req.params.length < 8
  outputInit : ¬ (req.outputInit ≠ [] ∧ req.outputInit.length ≠ req.outputBytes.toNat)
  storage : ¬ limits.maxStorageBufferBindingSize < req.outputBytes.toUInt64
  uniform : ¬ limits.maxUniformBufferBindingSize.toNat <
    roundUpTo req.params.length kUniformAlign
  chunk : chunkUnits limits req unitsPerChunk ≠ 0

def initialOutput (req : TaskRequest) : List UInt8 :=
  if req.outputInit ≠ [] then req.outputInit else List.replicate req.outputBytes.toNat 0

section

variable {σ : Type} {limits : DeviceLimits} {req : TaskRequest} {unitsPerChunk : UInt64}
  {dispatch : List UInt8 → UInt32 → UInt32 → σ → σ} {load : List UInt8 → σ} {out : σ}

theorem Accepts.chunk_pos (h : Accepts limits req unitsPerChunk) :
    0 < (chunkUnits limits req unitsPerChunk).toNat :=
  LittleEndian.toNat_posU64 h.chunk

theorem Accepts.unitCount_pos (h : Accepts limits req unitsPerChunk) : 0 < req.unitCount.toNat :=
  LittleEndian.toNat_posU64 fun he => h.args (.inl he)

theorem Accepts.workgroupSize_pos (h : Accepts limits req unitsPerChunk) :
    0 < req.workgroupSize.toNat :=
  LittleEndian.toNat_posU32 fun he => h.args (.inr (.inr he))

theorem accepts_of_runTask (h : runTask limits req unitsPerChunk dispatch load = some out) :
    Accepts limits req unitsPerChunk := by
  unfold runTask at h
  split at h
  · cases h
  · rename_i hargs
    split at h
    · cases h
    · rename_i hparams
      split at h
      · cases h
      · rename_i hinit
        split at h
        · cases h
        · rename_i hstorage
          split at h
          · cases h
          · rename_i huniform
            dsimp only at h
            split at h
            · cases h
            · rename_i hchunk
              exact ⟨hargs, hparams, hinit, hstorage, huniform, hchunk⟩

-- A task that is accepted is run by its pieces.
theorem runTask_of_accepts (h : Accepts limits req unitsPerChunk) :
    runTask limits req unitsPerChunk dispatch load =
      some ((Span.cut (chunkUnits limits req unitsPerChunk).toNat req.unitCount.toNat).foldl
        (dispatchSpan req dispatch) (load (initialOutput req))) := by
  rw [runTask, if_neg h.args, if_neg h.params, if_neg h.outputInit, if_neg h.storage,
    if_neg h.uniform]
  dsimp only
  rw [if_neg h.chunk, chunkLoop_cut h.chunk_pos (Nat.le_refl _)]
  rfl

end

-- One dispatch, as it was submitted.
structure Dispatched where
  image : List UInt8
  groupsX : UInt32
  groupsY : UInt32
deriving DecidableEq, Repr

def record (image : List UInt8) (groupsX groupsY : UInt32) (log : List Dispatched) :
    List Dispatched :=
  log ++ [⟨image, groupsX, groupsY⟩]

-- The dispatches of a task, in their order.
def dispatches (limits : DeviceLimits) (req : TaskRequest) (unitsPerChunk : UInt64) :
    Option (List Dispatched) :=
  runTask limits req unitsPerChunk record fun _ => []

def dispatched (req : TaskRequest) (piece : Span) : Dispatched where
  image := writeChunkWindow (paramsImage req)
    (req.startUnit + UInt64.ofNat piece.start).toUInt32 (UInt64.ofNat piece.count).toUInt32
  groupsX := groupsX req (UInt64.ofNat piece.count)
  groupsY := groupsY req

-- The window in bytes 0 to 7.
def window (image : List UInt8) : Span := ⟨(paramWord image 0).toNat, (paramWord image 1).toNat⟩

section

variable {limits : DeviceLimits} {req : TaskRequest} {unitsPerChunk : UInt64}
  {log : List Dispatched} {params : List UInt8} {task : Task} {spec : KernelSpec} {job : Job}

theorem foldl_record (pieces : List Span) (log : List Dispatched) :
    pieces.foldl (dispatchSpan req record) log = log ++ pieces.map (dispatched req) := by
  induction pieces generalizing log with
  | nil => simp
  | cons piece pieces ih =>
      rw [List.foldl_cons, ih, List.map_cons]
      simp only [dispatchSpan, record, dispatched, List.append_assoc, List.singleton_append]

theorem dispatches_some (h : dispatches limits req unitsPerChunk = some log) :
    Accepts limits req unitsPerChunk ∧
      log = (Span.cut (chunkUnits limits req unitsPerChunk).toNat req.unitCount.toNat).map
        (dispatched req) := by
  have haccepts := accepts_of_runTask h
  unfold dispatches at h
  rw [runTask_of_accepts haccepts, foldl_record, List.nil_append] at h
  exact ⟨haccepts, (Option.some.inj h).symm⟩

theorem window_writeChunkWindow (image : List UInt8) (start units : UInt32) :
    window (writeChunkWindow image start units) = ⟨start.toNat, units.toNat⟩ := by
  have hwords : readWords (writeChunkWindow image start units) =
      start :: units :: readWords (image.drop 8) := by
    rw [writeChunkWindow, List.append_assoc, readWords_write_append, readWords_write_append]
  simp only [window, paramWord, hwords]
  rfl

-- Each dispatch has the window of its piece, by the low word of the task's own start.
theorem window_dispatched {piece : Span} (hcount : piece.count < 2 ^ 32) :
    window (dispatched req piece).image =
      piece.shifted (2 ^ 32) (req.startUnit.toNat % 2 ^ 32) := by
  have hstart : (req.startUnit + UInt64.ofNat piece.start).toUInt32.toNat =
      (req.startUnit.toNat % 2 ^ 32 + piece.start) % 2 ^ 32 := by
    rw [UInt64.toNat_toUInt32, UInt64.toNat_add, UInt64.toNat_ofNat']
    omega
  have hunits : (UInt64.ofNat piece.count).toUInt32.toNat = piece.count := by
    rw [UInt64.toNat_toUInt32, UInt64.toNat_ofNat']
    omega
  rw [dispatched, window_writeChunkWindow, hstart, hunits, Span.shifted]

-- What the worker asks the host for is what was granted.
structure Carries (req : TaskRequest) (params : List UInt8) (task : Task) : Prop where
  params : req.params = params
  startUnit : req.startUnit = task.startUnit
  unitCount : req.unitCount = task.unitCount

theorem carries_taskRequest (spec : KernelSpec) (params outputInit : List UInt8) (task : Task) :
    Carries (taskRequest spec params outputInit task) params task := ⟨rfl, rfl, rfl⟩

-- The units of a task are numbered alike in its tile and in its job, up to whole words.
def Aligned (spec : KernelSpec) (job : Job) (task : Task) : Prop :=
  spec.paramLayout = "PathTraceParams" → ∀ r, job.render = some r →
    task.startUnit.toNat % r.samplesPerTile.toNat % 2 ^ 32 = task.startUnit.toNat % 2 ^ 32

-- The offset of the last dispatch.
def lastOffset (chunk count : Nat) : Nat := (count - 1) / chunk * chunk

theorem buildParams_window (hlayout : spec.paramLayout = "BruteSearchParams" ∨
      spec.paramLayout = "PathTraceParams") (hcap : task.unitCount ≤ kMaxUnitsPerTask)
    (h : buildParams spec job task = .ok params) :
    (window params).count = task.unitCount.toNat ∧
      ((window params).start = task.startUnit.toNat % 2 ^ 32 ↔ Aligned spec job task) := by
  have hcount : task.unitCount.toNat ≤ 4294967295 := UInt64.le_iff_toNat_le.mp hcap
  unfold buildParams at h
  by_cases hsearch : spec.paramLayout = "BruteSearchParams"
  · rw [if_pos hsearch] at h
    have hspan := Coordinator.buildBruteSearch_span h
    rw [Coordinator.searchSpan, Task.span, Span.mk.injEq] at hspan
    have haligned : Aligned spec job task := by
      intro hrender
      rw [hsearch] at hrender
      exact absurd hrender (by decide)
    have hlow := (paramWord params 0).toNat_lt
    refine ⟨hspan.2, fun _ => haligned, fun _ => ?_⟩
    show (paramWord params 0).toNat = _
    omega
  · have hrender := hlayout.resolve_left hsearch
    rw [if_neg hsearch, if_pos hrender] at h
    obtain ⟨r, hr, -, -, hstart, hunits⟩ := buildPathTrace_ok h
    have hstart' : (window params).start =
        task.startUnit.toNat % r.samplesPerTile.toNat % 2 ^ 32 := by
      show (paramWord params 0).toNat = _
      rw [hstart, UInt64.toNat_toUInt32, UInt64.toNat_mod]
    refine ⟨?_, ?_⟩
    · show (paramWord params 1).toNat = _
      rw [hunits, UInt64.toNat_toUInt32]
      omega
    · rw [hstart']
      constructor
      · intro heq _ r' hr'
        rw [hr] at hr'
        cases hr'
        exact heq
      · exact fun haligned => haligned hrender r hr

-- The units of the dispatches in each sense are those of the pieces of the task.
theorem mem_dispatched (hcap : task.unitCount ≤ kMaxUnitsPerTask) (hreq : Carries req params task)
    {chunk : Nat} (hchunk : 0 < chunk) (inside : Span → Set Nat) :
    { u | ∃ d ∈ (Span.cut chunk task.unitCount.toNat).map (dispatched req),
        u ∈ inside (window d.image) } =
      { u | ∃ piece ∈ Span.cut chunk task.unitCount.toNat,
        u ∈ inside (piece.shifted (2 ^ 32) (task.startUnit.toNat % 2 ^ 32)) } := by
  have hmost : task.unitCount.toNat ≤ 4294967295 := UInt64.le_iff_toNat_le.mp hcap
  have hwindow : ∀ piece ∈ Span.cut chunk task.unitCount.toNat,
      window (dispatched req piece).image =
        piece.shifted (2 ^ 32) (task.startUnit.toNat % 2 ^ 32) := by
    intro piece hpiece
    have hle := Span.start_le_of_mem_cut hchunk hpiece
    rw [window_dispatched (by omega), hreq.startUnit]
  ext u
  constructor
  · rintro ⟨d, hd, hu⟩
    obtain ⟨piece, hpiece, rfl⟩ := List.mem_map.mp hd
    rw [hwindow piece hpiece] at hu
    exact ⟨piece, hpiece, hu⟩
  · rintro ⟨piece, hpiece, hu⟩
    refine ⟨_, List.mem_map.mpr ⟨piece, hpiece, rfl⟩, ?_⟩
    rw [hwindow piece hpiece]
    exact hu

-- A task that is run, and the window that was built for it, are alike in length.
theorem window_of_run (hlayout : spec.paramLayout = "BruteSearchParams" ∨
      spec.paramLayout = "PathTraceParams") (hcap : task.unitCount ≤ kMaxUnitsPerTask)
    (hbuild : buildParams spec job task = .ok params) (hreq : Carries req params task)
    (hrun : dispatches limits req unitsPerChunk = some log) :
    0 < (chunkUnits limits req unitsPerChunk).toNat ∧ 0 < task.unitCount.toNat ∧
      task.unitCount.toNat < 2 ^ 32 ∧
      log = (Span.cut (chunkUnits limits req unitsPerChunk).toNat task.unitCount.toNat).map
        (dispatched req) ∧
      window params = ⟨(window params).start, task.unitCount.toNat⟩ := by
  obtain ⟨haccepts, hlog⟩ := dispatches_some hrun
  have hcount := (buildParams_window hlayout hcap hbuild).1
  have hmost : task.unitCount.toNat ≤ 4294967295 := UInt64.le_iff_toNat_le.mp hcap
  have hpos := haccepts.unitCount_pos
  rw [hreq.unitCount] at hpos hlog
  refine ⟨haccepts.chunk_pos, hpos, by omega, hlog, ?_⟩
  rw [← hcount]

theorem windows_units_iff (hlayout : spec.paramLayout = "BruteSearchParams" ∨
      spec.paramLayout = "PathTraceParams") (hcap : task.unitCount ≤ kMaxUnitsPerTask)
    (hbuild : buildParams spec job task = .ok params) (hreq : Carries req params task)
    (hrun : dispatches limits req unitsPerChunk = some log) :
    { u | ∃ d ∈ log, u ∈ (window d.image).units } = (window params).units ↔
      Aligned spec job task ∧ task.startUnit.toNat % 2 ^ 32 +
        lastOffset (chunkUnits limits req unitsPerChunk).toNat task.unitCount.toNat < 2 ^ 32 := by
  obtain ⟨hchunk, hpos, hlt, rfl, hparams⟩ := window_of_run hlayout hcap hbuild hreq hrun
  have haligned := (buildParams_window hlayout hcap hbuild).2
  have hlow := Nat.mod_lt task.startUnit.toNat (Nat.two_pow_pos 32)
  rw [mem_dispatched hcap hreq hchunk, hparams, Span.shifted_cut_eq_iff hchunk hpos hlt hlow,
    haligned]
  rfl

theorem windows_wrapped_iff (hlayout : spec.paramLayout = "BruteSearchParams" ∨
      spec.paramLayout = "PathTraceParams") (hcap : task.unitCount ≤ kMaxUnitsPerTask)
    (hbuild : buildParams spec job task = .ok params) (hreq : Carries req params task)
    (hrun : dispatches limits req unitsPerChunk = some log) :
    { u | ∃ d ∈ log, u ∈ (window d.image).wrapped (2 ^ 32) } = (window params).wrapped (2 ^ 32) ↔
      Aligned spec job task := by
  obtain ⟨hchunk, hpos, hlt, rfl, hparams⟩ := window_of_run hlayout hcap hbuild hreq hrun
  have hlow := Nat.mod_lt task.startUnit.toNat (Nat.two_pow_pos 32)
  have hin : (window params).start < 2 ^ 32 := (paramWord params 0).toNat_lt
  rw [mem_dispatched hcap hreq hchunk, Span.wrapped_cut_eq hchunk,
    ← (buildParams_window hlayout hcap hbuild).2]
  constructor
  · intro heq
    rw [hparams] at heq
    exact (Span.wrapped_inj hpos hlt hlow hin heq).symm
  · intro heq
    rw [hparams, heq]

-- The windows of the dispatches are together the one that was built for the task where
-- both count from the same word. Read as numbers, and not as the words that the lanes
-- count, they are so where no dispatch starts in a later window besides.
theorem windows_agree_iff (hlayout : spec.paramLayout = "BruteSearchParams" ∨
      spec.paramLayout = "PathTraceParams") (hcap : task.unitCount ≤ kMaxUnitsPerTask)
    (hbuild : buildParams spec job task = .ok params) (hreq : Carries req params task)
    (hrun : dispatches limits req unitsPerChunk = some log) :
    ({ u | ∃ d ∈ log, u ∈ (window d.image).units } = (window params).units ↔
        Aligned spec job task ∧ task.startUnit.toNat % 2 ^ 32 +
          lastOffset (chunkUnits limits req unitsPerChunk).toNat task.unitCount.toNat < 2 ^ 32) ∧
      ({ u | ∃ d ∈ log, u ∈ (window d.image).wrapped (2 ^ 32) } =
        (window params).wrapped (2 ^ 32) ↔ Aligned spec job task) :=
  ⟨windows_units_iff hlayout hcap hbuild hreq hrun, windows_wrapped_iff hlayout hcap hbuild hreq hrun⟩

end

def leastLimits : DeviceLimits := ⟨134217728, 65536, 65535⟩

-- Two tiles side by side, of 64 samples each.
def pairJob : Job :=
  { id := ⟨0, 1⟩, kernelId := "pathtrace_tile_v1", seed := 42, totalUnits := 128
    unitsPerGroup := 64
    render := some
      { grid := ⟨128, 64, 64, 64⟩, samplesPerTile := 64
        camera := ⟨(0, 0, 0), (0, 0, 0), (0, 0, 0), (0, 0, 0)⟩
        nodeCount := 1, primCount := 1, materialCount := 1 } }

def leftTile : Task := { id := ⟨0, 2⟩, job := ⟨0, 1⟩, startUnit := 0, unitCount := 64 }

def rightTile : Task := { id := ⟨0, 3⟩, job := ⟨0, 1⟩, startUnit := 64, unitCount := 64 }

def tileParams (task : Task) : List UInt8 := Coordinator.built pathTrace pairJob task

def tileDispatches (task : Task) : List Dispatched :=
  (dispatches leastLimits (taskRequest pathTrace (tileParams task) [] task) 16).getD []

theorem windows_agree_iff_left :
    (tileDispatches leftTile).length = 4 ∧
      { u | ∃ d ∈ tileDispatches leftTile, u ∈ (window d.image).units } =
        (window (tileParams leftTile)).units := by
  have hlayout : pathTrace.paramLayout = "BruteSearchParams" ∨
      pathTrace.paramLayout = "PathTraceParams" := .inr rfl
  have hcap : leftTile.unitCount ≤ kMaxUnitsPerTask := by decide
  have hbuild : buildParams pathTrace pairJob leftTile = .ok (tileParams leftTile) := by
    decide +kernel
  have hrun : dispatches leastLimits (taskRequest pathTrace (tileParams leftTile) [] leftTile) 16 =
      some (tileDispatches leftTile) := by decide +kernel
  have hreq := carries_taskRequest pathTrace (tileParams leftTile) [] leftTile
  refine ⟨by decide +kernel,
    (windows_agree_iff hlayout hcap hbuild hreq hrun).1.mpr ⟨?_, by decide +kernel⟩⟩
  intro _ r hr
  cases hr
  decide

-- The worker counts the samples of the second tile from those of the first, and the
-- coordinator from none.
theorem windows_disagree : ¬ ∀ spec job task params limits req unitsPerChunk log,
    (spec.paramLayout = "BruteSearchParams" ∨ spec.paramLayout = "PathTraceParams") →
    task.unitCount ≤ kMaxUnitsPerTask → buildParams spec job task = .ok params →
    Carries req params task → dispatches limits req unitsPerChunk = some log →
    { u | ∃ d ∈ log, u ∈ (window d.image).units } = (window params).units ∨
      { u | ∃ d ∈ log, u ∈ (window d.image).wrapped (2 ^ 32) } =
        (window params).wrapped (2 ^ 32) := by
  intro h
  have hbuild : buildParams pathTrace pairJob rightTile = .ok (tileParams rightTile) := by
    decide +kernel
  have hreq := carries_taskRequest pathTrace (tileParams rightTile) [] rightTile
  have hrun : dispatches leastLimits (taskRequest pathTrace (tileParams rightTile) [] rightTile)
      16 = some (tileDispatches rightTile) := by decide +kernel
  have hcap : rightTile.unitCount ≤ kMaxUnitsPerTask := by decide
  have haligned : Aligned pathTrace pairJob rightTile := by
    rcases h pathTrace pairJob rightTile _ _ _ _ _ (.inr rfl) hcap hbuild hreq hrun with hu | hw
    · exact ((windows_units_iff (.inr rfl) hcap hbuild hreq hrun).mp hu).1
    · exact (windows_wrapped_iff (.inr rfl) hcap hbuild hreq hrun).mp hw
  exact absurd (haligned rfl _ rfl) (by decide)

end P2pGpu.Worker
