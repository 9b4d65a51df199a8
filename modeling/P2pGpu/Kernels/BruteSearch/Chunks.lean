import P2pGpu.Kernels.BruteSearch
import P2pGpu.Worker.KernelHost.Windows

namespace P2pGpu.Kernels.BruteSearch

open P2pGpu.LittleEndian P2pGpu.Worker
open P2pGpu.Coordinator

-- The output of a task. The kernel never writes the words past the third.
def Result.bytes (r : Result) : List UInt8 :=
  toBytes [r.foundCount, r.minMatch, r.matchXor, 0, 0, 0, 0, 0]

-- A request for a search whose parameters state its own range.
structure Describes (req : TaskRequest) (p : BruteSearchParams) : Prop where
  params : req.params = toBytes p.words
  startLo : p.startLo = req.startUnit.toUInt32
  unitCount : p.unitCount.toNat = req.unitCount.toNat
  outputBytes : req.outputBytes = 32
  outputInit : req.outputInit = toBytes bruteSearchResult
  workgroupSizeY : req.workgroupSizeY = 1
  invocationsX : req.invocationsX = 0
  invocationsY : req.invocationsY = 1

section

variable {limits : DeviceLimits} {req : TaskRequest} {unitsPerChunk : UInt64}
  {p : BruteSearchParams} {log : List Dispatched}

theorem maxUnitsPerDispatch_eq (limits : DeviceLimits) (req : TaskRequest) :
    (maxUnitsPerDispatch limits req).toNat =
      limits.maxComputeWorkgroupsPerDimension.toNat * req.workgroupSize.toNat := by
  have hlimit := limits.maxComputeWorkgroupsPerDimension.toNat_lt
  have hsize := req.workgroupSize.toNat_lt
  have hmul := Nat.mul_le_mul (Nat.le_sub_one_of_lt hlimit) (Nat.le_sub_one_of_lt hsize)
  rw [maxUnitsPerDispatch, UInt64.toNat_mul, UInt32.toNat_toUInt64, UInt32.toNat_toUInt64]
  apply Nat.mod_eq_of_lt
  omega

theorem chunkUnits_le (limits : DeviceLimits) (req : TaskRequest) (unitsPerChunk : UInt64) :
    (chunkUnits limits req unitsPerChunk).toNat ≤
      limits.maxComputeWorkgroupsPerDimension.toNat * req.workgroupSize.toNat := by
  rw [chunkUnits, toNat_minU64, maxUnitsPerDispatch_eq]
  exact Nat.min_le_right _ _

-- The units of one dispatch, filled up to whole workgroups, are as many groups as the
-- device takes or fewer.
theorem groupsX_spec (hx : req.invocationsX = 0) (hsize : 0 < req.workgroupSize.toNat)
    (units : UInt64) (hunits : units.toNat < 2 ^ 32) {most : UInt32}
    (hmost : units.toNat ≤ most.toNat * req.workgroupSize.toNat) :
    units.toNat ≤ (groupsX req units).toNat * req.workgroupSize.toNat ∧
      groupsX req units ≤ most := by
  have hsize' := req.workgroupSize.toNat_lt
  have hspan : (units + req.workgroupSize.toUInt64 - 1).toNat =
      units.toNat + req.workgroupSize.toNat - 1 := by
    have hadd : (units + req.workgroupSize.toUInt64).toNat =
        units.toNat + req.workgroupSize.toNat := by
      rw [UInt64.toNat_add, UInt32.toNat_toUInt64]
      apply Nat.mod_eq_of_lt
      omega
    rw [UInt64.toNat_sub_of_le, hadd]
    · rfl
    · rw [UInt64.le_iff_toNat_le, hadd]
      show 1 ≤ _
      omega
  have hle : (units.toNat + req.workgroupSize.toNat - 1) / req.workgroupSize.toNat ≤
      most.toNat := by
    rw [← Nat.lt_succ_iff, Nat.div_lt_iff_lt_mul hsize, Nat.succ_mul]
    omega
  have hgroups : (groupsX req units).toNat =
      (units.toNat + req.workgroupSize.toNat - 1) / req.workgroupSize.toNat := by
    have hlt := most.toNat_lt
    simp only [groupsX, hx, ne_eq, not_true_eq_false, if_false]
    rw [UInt64.toNat_toUInt32, UInt64.toNat_div, hspan, UInt32.toNat_toUInt64]
    exact Nat.mod_eq_of_lt (by omega)
  rw [UInt32.le_iff_toNat_le, hgroups]
  exact ⟨Chunks.count_le hsize, hle⟩

theorem Describes.asks (h : Describes req p) (haccepts : Accepts limits req unitsPerChunk)
    (hsize : req.workgroupSize = 256) : Asks req p where
  params := h.params
  nonempty := haccepts.unitCount_pos
  bound := by
    rw [← h.unitCount]
    exact p.unitCount.toNat_lt
  outputBytes := h.outputBytes
  outputInit := h.outputInit
  workgroupSize := hsize
  workgroupSizeY := h.workgroupSizeY
  invocationsX := h.invocationsX
  invocationsY := h.invocationsY

theorem load_initialOutput (h : Describes req p) : load (initialOutput req) = {} := by
  rw [initialOutput, h.outputInit, h.outputBytes]
  decide

-- However a search is cut, it goes through its windows one by one: they cover the range
-- of the task and do not overlap, and each has a lane for every unit and no more groups
-- than the device takes. With the workgroup of the shader, the output is the one of the
-- search in one piece.
theorem chunks_invariant (hreq : Describes req p)
    (hrange : req.startUnit.toNat % 2 ^ 32 + req.unitCount.toNat ≤ 2 ^ 32)
    (hrun : dispatches limits req unitsPerChunk = some log) :
    (∀ fuel, req.unitCount.toNat ≤ fuel →
        chunkLoop req (chunkUnits limits req unitsPerChunk) record fuel 0 [] = log) ∧
      Tiles (fun d => (window d.image).units) log
        (Span.mk (req.startUnit.toNat % 2 ^ 32) req.unitCount.toNat).units ∧
      (∀ d ∈ log, (window d.image).count ≤ d.groupsX.toNat * req.workgroupSize.toNat ∧
        d.groupsX ≤ limits.maxComputeWorkgroupsPerDimension ∧ d.groupsY = 1) ∧
      (req.workgroupSize = 256 → ∀ schedule,
        (runTask limits req unitsPerChunk (dispatch schedule) load).map
          (fun s => s.result.bytes) = some (reference p).bytes) := by
  obtain ⟨haccepts, rfl⟩ := dispatches_some hrun
  have hchunk := haccepts.chunk_pos
  have hbound : req.unitCount.toNat < 2 ^ 32 := by
    rw [← hreq.unitCount]
    exact p.unitCount.toNat_lt
  refine ⟨fun fuel hfuel => ?_, ?_, ?_, fun hsize schedule => ?_⟩
  · rw [chunkLoop_cut hchunk hfuel, foldl_record, List.nil_append]
  · refine Tiles.map ((Span.tiles_shifted_cut hchunk hrange).congr fun piece hpiece => ?_)
    have hle := Span.start_le_of_mem_cut hchunk hpiece
    rw [window_dispatched (by omega)]
  · intro d hd
    obtain ⟨piece, hpiece, rfl⟩ := List.mem_map.mp hd
    have hle := Span.start_le_of_mem_cut hchunk hpiece
    have hunits : (UInt64.ofNat piece.count).toNat = piece.count := by
      rw [UInt64.toNat_ofNat']
      exact Nat.mod_eq_of_lt (by omega)
    have hmost : piece.count ≤ (chunkUnits limits req unitsPerChunk).toNat := by
      obtain ⟨k, -, rfl⟩ := (Span.mem_cut hchunk).mp hpiece
      exact Nat.min_le_left _ _
    have hgroups := groupsX_spec hreq.invocationsX haccepts.workgroupSize_pos
      (UInt64.ofNat piece.count) (by omega)
      (hunits.le.trans (hmost.trans (chunkUnits_le limits req unitsPerChunk)))
    rw [hunits] at hgroups
    rw [window_dispatched (by omega)]
    refine ⟨hgroups.1, hgroups.2, ?_⟩
    simp only [dispatched, groupsY, hreq.invocationsY, hreq.workgroupSizeY]
    rfl
  · have hasks := hreq.asks haccepts hsize
    have hcount : p.unitCount.toNat = req.unitCount.toNat := hreq.unitCount
    rw [runTask_of_accepts haccepts, ← chunkLoop_cut hchunk (Nat.le_refl _),
      hasks.chunkLoop_eq schedule hchunk, Option.map_some, result_searchRange,
      load_initialOutput hreq, reference, hcount, ← hreq.startLo]

end

-- The first units of a job, and a request for them with workgroups of one size.
def firstParams : BruteSearchParams where
  unitCount := 512
  seed := mix32 42
  targetBits := mix32 42 &&& 0x00000FFF
  mask := 0x00000FFF

def firstRequest (workgroupSize : UInt32) : TaskRequest where
  params := toBytes firstParams.words
  unitCount := 512
  outputBytes := 32
  workgroupSize
  outputInit := toBytes bruteSearchResult

theorem firstRequest_describes (workgroupSize : UInt32) :
    Describes (firstRequest workgroupSize) firstParams where
  params := rfl
  startLo := rfl
  unitCount := rfl
  outputBytes := rfl
  outputInit := rfl
  workgroupSizeY := rfl
  invocationsX := rfl
  invocationsY := rfl

def firstDispatches (workgroupSize : UInt32) (unitsPerChunk : UInt64) : List Dispatched :=
  (dispatches leastLimits (firstRequest workgroupSize) unitsPerChunk).getD []

theorem chunks_invariant_first :
    (firstDispatches 256 100).length = 6 ∧
      (runTask leastLimits (firstRequest 256) 100 (dispatch inRows) load).map
        (fun s => s.result.bytes) = some (reference firstParams).bytes := by
  have hrun : dispatches leastLimits (firstRequest 256) 100 = some (firstDispatches 256 100) := by
    decide +kernel
  exact ⟨by decide +kernel,
    (chunks_invariant (firstRequest_describes 256) (by decide) hrun).2.2.2 rfl inRows⟩

-- One group of a workgroup twice the shader's has lanes for half of the units.
theorem workgroup_short : ¬ ∀ limits req unitsPerChunk p log schedule, Describes req p →
    req.startUnit.toNat % 2 ^ 32 + req.unitCount.toNat ≤ 2 ^ 32 →
    dispatches limits req unitsPerChunk = some log →
    (runTask limits req unitsPerChunk (dispatch schedule) load).map (fun s => s.result.bytes) =
      some (reference p).bytes := by
  intro h
  have hrun : dispatches leastLimits (firstRequest 512) 0 = some (firstDispatches 512 0) := by
    decide +kernel
  have hbytes := h leastLimits (firstRequest 512) 0 firstParams _ inRows
    (firstRequest_describes 512) (by decide) hrun
  exact absurd hbytes (by decide +kernel)

end P2pGpu.Kernels.BruteSearch
