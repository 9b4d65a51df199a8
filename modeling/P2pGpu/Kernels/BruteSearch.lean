import P2pGpu.Coordinator.Params.Ranges
import P2pGpu.Worker.KernelHost
import Mathlib.Data.List.Perm.Basic
import Mathlib.Data.List.ProdSigma
import Mathlib.Data.Multiset.Range
import Mathlib.Data.Multiset.MapFold

namespace P2pGpu.Kernels.BruteSearch

open P2pGpu.LittleEndian P2pGpu.Worker
open P2pGpu.Coordinator

structure Result where
  foundCount : UInt32 := 0
  minMatch : UInt32 := 0xFFFFFFFF
  matchXor : UInt32 := 0
deriving DecidableEq, Repr

-- The words of the uniform buffer, as the shader's struct names them.
def readParams (buffer : List UInt8) : BruteSearchParams :=
  let word := (readWords buffer).getD
  { startLo := word 0 0
    unitCount := word 1 0
    baseHi := word 2 0
    seed := word 3 0
    targetBits := word 4 0
    mask := word 5 0
    rounds := word 6 0 }

def readResult (buffer : List UInt8) : Result :=
  let word := (readWords buffer).getD
  { foundCount := word 0 0, minMatch := word 1 0, matchXor := word 2 0 }

def pcgHash (v : UInt32) : UInt32 :=
  let state := v * 747796405 + 2891336453
  let word := ((state >>> ((state >>> 28) + 4)) ^^^ state) * 277803737
  (word >>> 22) ^^^ word

-- Both halves of the candidate and the seed, folded into one word.
def hash (p : BruteSearchParams) (lo : UInt32) : UInt32 :=
  pcgHash^[p.rounds.toNat] (lo ^^^ p.seed ^^^ (p.baseHi * 2654435769))

def Result.tally (r : Result) (p : BruteSearchParams) (lo : UInt32) : Result :=
  if hash p lo &&& p.mask = p.targetBits then
    { foundCount := r.foundCount + 1
      minMatch := if lo < r.minMatch then lo else r.minMatch
      matchXor := r.matchXor ^^^ lo }
  else r

-- The output of a task, and the candidates that were hashed for it: the high word
-- and the low word of each.
structure Search where
  result : Result := {}
  evaluated : Multiset (UInt32 × UInt32) := 0
deriving DecidableEq

def visit (p : BruteSearchParams) (s : Search) (lo : UInt32) : Search where
  result := s.result.tally p lo
  evaluated := (p.baseHi, lo) ::ₘ s.evaluated

-- One invocation. The grid is rounded up to a whole workgroup and overhangs.
def main (p : BruteSearchParams) (s : Search) (gidX : UInt32) : Search :=
  if p.unitCount ≤ gidX then s else visit p s (p.startLo + gidX)

-- The order that a device takes the invocations of a dispatch in.
structure Schedule where
  order : List UInt8 → Nat → Nat → List (Nat × Nat)
  each : ∀ image width height,
    (order image width height).Perm (List.range width ×ˢ List.range height)

def inRows : Schedule where
  order _ width height := List.range width ×ˢ List.range height
  each _ _ _ := List.Perm.refl _

def dispatch (schedule : Schedule) (image : List UInt8) (groupsX groupsY : UInt32)
    (s : Search) : Search :=
  (schedule.order image (groupsX.toNat * 256) groupsY.toNat).foldl
    (fun s gid => main (readParams image) s (UInt32.ofNat gid.1)) s

def load (output : List UInt8) : Search := { result := readResult output }

-- The same search on one thread and in one piece.
def reference (p : BruteSearchParams) : Result :=
  (List.range p.unitCount.toNat).foldl (fun r i => r.tally p (p.startLo + UInt32.ofNat i)) {}

-- The first `n` candidates from the start of the window.
def searchRange (p : BruteSearchParams) (n : Nat) (s : Search) : Search :=
  (List.range n).foldl (fun s i => visit p s (p.startLo + UInt32.ofNat i)) s

section

variable {p : BruteSearchParams}

theorem searchRange_succ (n : Nat) (s : Search) : searchRange p (n + 1) s =
    visit p (searchRange p n s) (p.startLo + UInt32.ofNat n) := by
  rw [searchRange, List.range_succ, List.foldl_append]
  rfl

-- Of two candidates, neither order gives another minimum.
theorem minMatch_comm (m a b : UInt32) :
    (if b < (if a < m then a else m) then b else if a < m then a else m) =
      if a < (if b < m then b else m) then a else if b < m then b else m := by
  apply UInt32.toNat_inj.mp
  by_cases ha : a < m
  · by_cases hb : b < m
    · simp only [ha, hb, if_true]
      by_cases hab : a < b
      · have hba : ¬ b < a := by
          rw [UInt32.lt_iff_toNat_lt] at hab ⊢
          omega
        rw [if_neg hba, if_pos hab]
      · by_cases hba : b < a
        · rw [if_pos hba, if_neg hab]
        · rw [UInt32.lt_iff_toNat_lt] at hab hba
          rw [if_neg (by rw [UInt32.lt_iff_toNat_lt]; exact hba),
            if_neg (by rw [UInt32.lt_iff_toNat_lt]; exact hab)]
          omega
    · have hba : ¬ b < a := by
        rw [UInt32.lt_iff_toNat_lt] at ha hb ⊢
        omega
      simp only [ha, hb, hba, if_true, if_false]
  · by_cases hb : b < m
    · have hab : ¬ a < b := by
        rw [UInt32.lt_iff_toNat_lt] at ha hb ⊢
        omega
      simp only [ha, hb, hab, if_true, if_false]
    · simp only [ha, hb, if_false]

theorem tally_comm (r : Result) (a b : UInt32) :
    (r.tally p a).tally p b = (r.tally p b).tally p a := by
  by_cases ha : hash p a &&& p.mask = p.targetBits
  · by_cases hb : hash p b &&& p.mask = p.targetBits
    · have hxor : r.matchXor ^^^ a ^^^ b = r.matchXor ^^^ b ^^^ a := by
        rw [UInt32.xor_assoc, UInt32.xor_comm a b, ← UInt32.xor_assoc]
      have hmin := minMatch_comm r.minMatch a b
      simp only [Result.tally, ha, hb, if_true, Result.mk.injEq, true_and]
      exact ⟨hmin, hxor⟩
    · simp only [Result.tally, ha, hb, if_true, if_false]
  · by_cases hb : hash p b &&& p.mask = p.targetBits
    · simp only [Result.tally, ha, hb, if_true, if_false]
    · simp only [Result.tally, ha, hb, if_false]

theorem visit_comm (s : Search) (a b : UInt32) :
    visit p (visit p s a) b = visit p (visit p s b) a := by
  simp only [visit, tally_comm s.result a b, Search.mk.injEq, true_and]
  exact Multiset.cons_swap _ _ _

theorem main_comm (s : Search) (i j : UInt32) :
    main p (main p s i) j = main p (main p s j) i := by
  by_cases hi : p.unitCount ≤ i
  · by_cases hj : p.unitCount ≤ j
    · simp only [main, hi, hj, if_true]
    · simp only [main, hi, hj, if_true, if_false]
  · by_cases hj : p.unitCount ≤ j
    · simp only [main, hi, hj, if_true, if_false]
    · simp only [main, hi, hj, if_false]
      exact visit_comm s _ _

-- Whatever the order of the invocations, a grid that reaches as far as the window
-- visits the window and no more.
theorem foldl_main (n : Nat) (hn : n ≤ 2 ^ 32) (s : Search) :
    (List.range n).foldl (fun s i => main p s (UInt32.ofNat i)) s =
      searchRange p (min n p.unitCount.toNat) s := by
  induction n with
  | zero => simp [searchRange]
  | succ n ih =>
      have hlt : n < 2 ^ 32 := by omega
      have hofNat : (UInt32.ofNat n).toNat = n := UInt32.toNat_ofNat_of_lt' hlt
      rw [List.range_succ, List.foldl_append, ih (by omega)]
      simp only [List.foldl_cons, List.foldl_nil, main]
      by_cases hge : p.unitCount ≤ UInt32.ofNat n
      · have hge' : p.unitCount.toNat ≤ n := by
          rw [UInt32.le_iff_toNat_le, hofNat] at hge
          exact hge
        rw [if_pos hge, Nat.min_eq_right hge', Nat.min_eq_right (by omega)]
      · have hlt' : n < p.unitCount.toNat := by
          rw [UInt32.le_iff_toNat_le, hofNat] at hge
          omega
        rw [if_neg hge, Nat.min_eq_left (by omega), Nat.min_eq_left (by omega), searchRange_succ]

theorem dispatch_eq (schedule : Schedule) (image : List UInt8) (groupsX : UInt32) (s : Search)
    (hcover : (readParams image).unitCount.toNat ≤ groupsX.toNat * 256)
    (hgrid : groupsX.toNat * 256 ≤ 2 ^ 32) :
    dispatch schedule image groupsX 1 s =
      searchRange (readParams image) (readParams image).unitCount.toNat s := by
  have hcomm : RightCommutative fun (s : Search) (gid : Nat × Nat) =>
      main (readParams image) s (UInt32.ofNat gid.1) :=
    ⟨fun s i j => main_comm s _ _⟩
  have hrow : List.range (groupsX.toNat * 256) ×ˢ List.range 1 =
      (List.range (groupsX.toNat * 256)).map fun i => (i, 0) := by
    rw [List.map_eq_flatMap]
    rfl
  rw [dispatch, (schedule.each _ _ _).foldl_eq]
  show (List.range (groupsX.toNat * 256) ×ˢ List.range 1).foldl _ s = _
  rw [hrow, List.foldl_map, foldl_main _ hgrid, Nat.min_eq_right hcover]

-- A window that starts where another one ended carries the search on.
theorem searchRange_add (a b : Nat) (s : Search) :
    searchRange p (a + b) s =
      searchRange { p with startLo := p.startLo + UInt32.ofNat a } b (searchRange p a s) := by
  induction b with
  | zero => rfl
  | succ b ih =>
      have hlo : p.startLo + UInt32.ofNat (a + b) =
          p.startLo + UInt32.ofNat a + UInt32.ofNat b := by
        rw [UInt32.ofNat_add, UInt32.add_assoc]
      rw [← Nat.add_assoc, searchRange_succ, searchRange_succ, ih, hlo]
      rfl

theorem result_searchRange (n : Nat) (s : Search) :
    (searchRange p n s).result =
      (List.range n).foldl (fun r i => r.tally p (p.startLo + UInt32.ofNat i)) s.result := by
  induction n with
  | zero => rfl
  | succ n ih =>
      rw [searchRange_succ, List.range_succ, List.foldl_append, ← ih]
      rfl

theorem evaluated_searchRange (n : Nat) (s : Search) :
    (searchRange p n s).evaluated = s.evaluated +
      (Multiset.range n).map fun i => (p.baseHi, p.startLo + UInt32.ofNat i) := by
  induction n with
  | zero => simp [searchRange]
  | succ n ih =>
      rw [searchRange_succ]
      show (p.baseHi, p.startLo + UInt32.ofNat n) ::ₘ (searchRange p n s).evaluated = _
      rw [ih, Multiset.range_succ, Multiset.map_cons, Multiset.add_cons]

-- What the shader reads is what the coordinator wrote, but for the window.
theorem readParams_window (p : BruteSearchParams) (start units : UInt32) :
    readParams (writeChunkWindow (toBytes p.words) start units) =
      { p with startLo := start, unitCount := units } := by
  have hdrop : (toBytes p.words).drop 8 =
      [p.baseHi, p.seed, p.targetBits, p.mask, p.rounds, 0].flatMap writeU32LE := by
    rw [toBytes_eq]
    rfl
  have hwords : readWords (writeChunkWindow (toBytes p.words) start units) =
      [start, units, p.baseHi, p.seed, p.targetBits, p.mask, p.rounds, 0] := by
    rw [writeChunkWindow, hdrop, List.append_assoc, readWords_write_append,
      readWords_write_append, readWords_flatMap_write]
  rw [readParams, hwords]
  rfl

end

-- A task of a search, as its worker is given it.
structure Asks (req : TaskRequest) (p : BruteSearchParams) : Prop where
  params : req.params = toBytes p.words
  nonempty : 0 < req.unitCount.toNat
  bound : req.unitCount.toNat < 2 ^ 32
  outputBytes : req.outputBytes = 32
  outputInit : req.outputInit = toBytes bruteSearchResult
  workgroupSize : req.workgroupSize = 256
  workgroupSizeY : req.workgroupSizeY = 1
  invocationsX : req.invocationsX = 0
  invocationsY : req.invocationsY = 1

namespace Asks

variable {req : TaskRequest} {p : BruteSearchParams}

theorem length (h : Asks req p) : req.params.length = 32 := by
  rw [h.params, toBytes_eq]
  rfl

theorem image (h : Asks req p) : paramsImage req = toBytes p.words := by
  have hpad : roundUpTo req.params.length kUniformAlign - req.params.length = 0 := by
    rw [h.length]
    rfl
  rw [paramsImage, hpad, h.params, List.replicate_zero, List.append_nil]

-- A dispatch has a lane for each unit, and its lanes have 32 bits.
theorem groups (h : Asks req p) {units : UInt64} (hunits : units.toNat < 2 ^ 32) :
    units.toNat ≤ (groupsX req units).toNat * 256 ∧
      (groupsX req units).toNat * 256 ≤ 2 ^ 32 := by
  have hspan : groupsX req units = ((units + 256 - 1) / 256).toUInt32 := by
    simp only [groupsX, h.invocationsX, h.workgroupSize, ne_eq, not_true_eq_false, if_false]
    rfl
  have hadd : (units + 256).toNat = units.toNat + 256 := by
    rw [UInt64.toNat_add]
    apply Nat.mod_eq_of_lt
    show units.toNat + 256 < 2 ^ 64
    omega
  have hsub : (units + 256 - 1).toNat = units.toNat + 255 := by
    rw [UInt64.toNat_sub_of_le, hadd]
    · rfl
    · rw [UInt64.le_iff_toNat_le, hadd]
      show 1 ≤ units.toNat + 256
      omega
  have hdiv : ((units + 256 - 1) / 256).toNat = (units.toNat + 255) / 256 := by
    rw [UInt64.toNat_div, hsub]
    rfl
  rw [hspan, UInt64.toNat_toUInt32, hdiv, Nat.mod_eq_of_lt (by omega)]
  omega

theorem chunk_pos (h : Asks req p) (limits : Limits) (unitsPerChunk : UInt64) :
    0 < (chunkUnits limits req unitsPerChunk).toNat := by
  have hgroups := UInt32.le_iff_toNat_le.mp limits.groups
  have hlt := limits.maxComputeWorkgroupsPerDimension.toNat_lt
  have hmax : (maxUnitsPerDispatch limits req).toNat =
      limits.maxComputeWorkgroupsPerDimension.toNat * 256 := by
    rw [maxUnitsPerDispatch, h.workgroupSize, UInt64.toNat_mul, UInt32.toNat_toUInt64]
    apply Nat.mod_eq_of_lt
    show limits.maxComputeWorkgroupsPerDimension.toNat * 256 < 2 ^ 64
    omega
  have hgroups' : 65535 ≤ limits.maxComputeWorkgroupsPerDimension.toNat := hgroups
  have hchunk : 0 < (if unitsPerChunk = 0 then req.unitCount else unitsPerChunk).toNat := by
    by_cases h0 : unitsPerChunk = 0
    · rw [if_pos h0]
      exact h.nonempty
    · rw [if_neg h0]
      exact LittleEndian.toNat_posU64 h0
  have hpos := h.nonempty
  rw [chunkUnits, toNat_minU64, toNat_minU64, hmax]
  omega

-- However the task is cut into chunks, it is one search from its first low word.
theorem chunkLoop_eq (h : Asks req p) (schedule : Schedule) {chunk : UInt64}
    (hchunk : 0 < chunk.toNat) (s : Search) :
    chunkLoop req chunk (dispatch schedule) req.unitCount.toNat 0 s =
      searchRange { p with startLo := req.startUnit.toUInt32 } req.unitCount.toNat s := by
  have hrows : groupsY req = 1 := by
    simp only [groupsY, h.invocationsY, h.workgroupSizeY]
    rfl
  refine chunkLoop_invariant (fun done t =>
      t = searchRange { p with startLo := req.startUnit.toUInt32 } done s) hchunk ?_
    req.unitCount.toNat 0 s (by simp) (by simp) rfl
  rintro done units t rfl hfit hpos hle
  have hbound := h.bound
  have hunits : units.toNat < 2 ^ 32 := by omega
  have hcast : units.toUInt32.toNat = units.toNat := by
    rw [UInt64.toNat_toUInt32]
    exact Nat.mod_eq_of_lt hunits
  have hstart : (req.startUnit + done).toUInt32 =
      req.startUnit.toUInt32 + UInt32.ofNat done.toNat := by
    rw [UInt64.toUInt32_add]
    rfl
  obtain ⟨hcover, hgrid⟩ := h.groups hunits
  have hread := readParams_window p (req.startUnit + done).toUInt32 units.toUInt32
  rw [hrows, h.image, dispatch_eq schedule _ _ _ (by rw [hread]; exact hcast.le.trans hcover) hgrid,
    hread, searchRange_add, hstart]
  show searchRange _ units.toUInt32.toNat _ = _
  rw [hcast]
  rfl

theorem runTask_eq (h : Asks req p) (limits : Limits) (schedule : Schedule)
    (unitsPerChunk : UInt64) : runTask limits req unitsPerChunk (dispatch schedule) load =
      some (searchRange { p with startLo := req.startUnit.toUInt32 } req.unitCount.toNat {}) := by
  have hpos := h.nonempty
  have hcount : req.unitCount ≠ 0 := fun he => by
    rw [he] at hpos
    exact Nat.lt_irrefl 0 hpos
  have hchunk := h.chunk_pos limits unitsPerChunk
  have hchunk' : chunkUnits limits req unitsPerChunk ≠ 0 := fun he => by
    rw [he] at hchunk
    exact Nat.lt_irrefl 0 hchunk
  have hargs : ¬ (req.unitCount = 0 ∨ req.outputBytes = 0 ∨ req.workgroupSize = 0) := by
    rw [h.outputBytes, h.workgroupSize]
    simp only [hcount, false_or]
    decide
  have hinit : ¬ (req.outputInit ≠ [] ∧ req.outputInit.length ≠ req.outputBytes.toNat) := by
    rw [h.outputInit, h.outputBytes]
    decide
  have hstorage : ¬ limits.maxStorageBufferBindingSize < req.outputBytes.toUInt64 := by
    have hlimit := UInt64.le_iff_toNat_le.mp limits.storage
    have hlimit' : 134217728 ≤ limits.maxStorageBufferBindingSize.toNat := hlimit
    rw [h.outputBytes, UInt64.lt_iff_toNat_lt]
    show ¬ limits.maxStorageBufferBindingSize.toNat < 32
    omega
  have huniform : ¬ limits.maxUniformBufferBindingSize.toNat <
      roundUpTo req.params.length kUniformAlign := by
    have hlimit : 65536 ≤ limits.maxUniformBufferBindingSize.toNat :=
      UInt64.le_iff_toNat_le.mp limits.uniform
    rw [h.length]
    show ¬ limits.maxUniformBufferBindingSize.toNat < 32
    omega
  have hload : load (if req.outputInit ≠ [] then req.outputInit
      else List.replicate req.outputBytes.toNat 0) = {} := by
    rw [h.outputInit, h.outputBytes]
    decide
  rw [runTask, if_neg hargs, if_neg (by rw [h.length]; decide), if_neg hinit, if_neg hstorage,
    if_neg huniform]
  simp only [if_neg hchunk', hload]
  rw [h.chunkLoop_eq schedule hchunk]

-- The output is the one of the search in one piece, whatever the chunks.
theorem result_eq (h : Asks req p) (hp : p.unitCount = req.unitCount.toUInt32)
    (hlo : p.startLo = req.startUnit.toUInt32) (limits : Limits) (schedule : Schedule)
    (unitsPerChunk : UInt64) :
    (runTask limits req unitsPerChunk (dispatch schedule) load).map Search.result =
      some (reference p) := by
  have hcount : p.unitCount.toNat = req.unitCount.toNat := by
    rw [hp, UInt64.toNat_toUInt32]
    exact Nat.mod_eq_of_lt h.bound
  rw [h.runTask_eq, Option.map_some, result_searchRange, reference, hcount, ← hlo]

end Asks

end P2pGpu.Kernels.BruteSearch
