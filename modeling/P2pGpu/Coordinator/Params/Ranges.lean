import P2pGpu.Coordinator.Params
import P2pGpu.Data.LittleEndian

namespace P2pGpu.Coordinator

open P2pGpu.LittleEndian

theorem wordBytes_eq (v : UInt32) : wordBytes v = writeU32LE v := by
  obtain ⟨h₀, h₁, h₂, h₃⟩ := toNat_byteU32 v
  have hbyte : ∀ k : Nat, v.toNat >>> k % 2 ^ 8 = v.toNat / 2 ^ k % 2 ^ 8 := by
    intro k
    rw [Nat.shiftRight_eq_div_pow]
  simp only [wordBytes, writeU32LE, List.cons.injEq, and_true]
  refine ⟨UInt8.toNat_inj.mp ?_, UInt8.toNat_inj.mp ?_, UInt8.toNat_inj.mp ?_,
    UInt8.toNat_inj.mp ?_⟩
  · rw [h₀]
    rfl
  · rw [h₁, ← hbyte]
    rfl
  · rw [h₂, ← hbyte]
    rfl
  · rw [h₃, ← hbyte]
    rfl

theorem toBytes_eq (words : List UInt32) : toBytes words = words.flatMap writeU32LE := by
  unfold toBytes
  exact List.flatMap_congr fun v _ => wordBytes_eq v

@[simp] theorem readWords_toBytes (words : List UInt32) : readWords (toBytes words) = words := by
  rw [toBytes_eq, readWords_flatMap_write]

def paramWord (blob : List UInt8) (i : Nat) : UInt32 := (readWords blob).getD i 0

-- The units of the keyspace that the parameters of a search name, by the high word
-- and the low word of the first one.
def searchSpan (blob : List UInt8) : Span where
  start := (paramWord blob 2).toNat * 2 ^ 32 + (paramWord blob 0).toNat
  count := (paramWord blob 1).toNat

def paramTile (blob : List UInt8) : TileGrid.Tile :=
  ⟨paramWord blob 2, paramWord blob 3, paramWord blob 4, paramWord blob 5⟩

-- The samples that the parameters of a render name, in the tile of this number.
def renderSpan (r : RenderConfig) (index : UInt32) (blob : List UInt8) : Span where
  start := index.toNat * r.samplesPerTile.toNat + (paramWord blob 0).toNat
  count := (paramWord blob 1).toNat

-- A search names its units outright, and a render by a tile and the samples of it.
-- The parameters of a calibration name no range.
def NamesRange (spec : KernelSpec) (job : Job) (task : Task) (blob : List UInt8) : Prop :=
  (spec.paramLayout = "BruteSearchParams" → searchSpan blob = task.span) ∧
    (spec.paramLayout = "PathTraceParams" → ∃ r index, job.render = some r ∧
      r.grid.tileAt index = some (paramTile blob) ∧ renderSpan r index blob = task.span)

-- The number of the tile, the sample it starts at and the number of samples are
-- each a word.
structure RenderConfig.Narrow (r : RenderConfig) (task : Task) : Prop where
  tile : task.startUnit.toNat / r.samplesPerTile.toNat < 2 ^ 32
  sample : task.startUnit.toNat % r.samplesPerTile.toNat < 2 ^ 32
  count : task.unitCount.toNat < 2 ^ 32

instance (r : RenderConfig) (task : Task) : Decidable (r.Narrow task) :=
  decidable_of_iff (task.startUnit.toNat / r.samplesPerTile.toNat < 2 ^ 32 ∧
      task.startUnit.toNat % r.samplesPerTile.toNat < 2 ^ 32 ∧ task.unitCount.toNat < 2 ^ 32)
    ⟨fun h => ⟨h.1, h.2.1, h.2.2⟩, fun h => ⟨h.tile, h.sample, h.count⟩⟩

section

variable {spec : KernelSpec} {job : Job} {task : Task} {blob : List UInt8} {r : RenderConfig}

theorem buildBruteSearch_span (h : buildBruteSearch job task = .ok blob) :
    searchSpan blob = task.span := by
  unfold buildBruteSearch at h
  by_cases hlong : 0xFFFFFFFF < task.unitCount
  · rw [if_pos hlong] at h
    cases h
  · rw [if_neg hlong] at h
    cases h
    have hcount : task.unitCount.toNat ≤ 4294967295 := by
      rw [UInt64.lt_iff_toNat_lt] at hlong
      exact Nat.not_lt.mp hlong
    have hlow : (task.startUnit &&& 0xFFFFFFFF).toUInt32.toNat = task.startUnit.toNat % 2 ^ 32 := by
      rw [UInt64.toNat_toUInt32, UInt64.toNat_and]
      show (task.startUnit.toNat &&& 2 ^ 32 - 1) % 2 ^ 32 = _
      rw [Nat.and_two_pow_sub_one_eq_mod, Nat.mod_mod]
    have hhigh : (task.startUnit >>> 32).toUInt32.toNat = task.startUnit.toNat / 2 ^ 32 := by
      have hstart := task.startUnit.toNat_lt
      rw [UInt64.toNat_toUInt32, UInt64.toNat_shiftRight, Nat.shiftRight_eq_div_pow]
      show task.startUnit.toNat / 2 ^ 32 % 2 ^ 32 = _
      omega
    have hunits : task.unitCount.toUInt32.toNat = task.unitCount.toNat := by
      rw [UInt64.toNat_toUInt32]
      omega
    rw [searchSpan, Task.span, Span.mk.injEq]
    simp only [paramWord, readWords_toBytes]
    constructor
    · show (task.startUnit >>> 32).toUInt32.toNat * 2 ^ 32 +
        (task.startUnit &&& 0xFFFFFFFF).toUInt32.toNat = _
      rw [hlow, hhigh]
      omega
    · exact hunits

-- What a render that is not refused is given.
theorem buildPathTrace_ok (h : buildPathTrace job task = .ok blob) :
    ∃ r, job.render = some r ∧ r.samplesPerTile ≠ 0 ∧
      r.grid.tileAt (task.startUnit / r.samplesPerTile).toUInt32 = some (paramTile blob) ∧
      paramWord blob 0 = (task.startUnit % r.samplesPerTile).toUInt32 ∧
      paramWord blob 1 = task.unitCount.toUInt32 := by
  unfold buildPathTrace at h
  cases hrender : job.render with
  | none =>
      rw [hrender] at h
      cases h
  | some r =>
      rw [hrender] at h
      dsimp only at h
      by_cases hzero : r.samplesPerTile = 0
      · rw [if_pos hzero] at h
        cases h
      · rw [if_neg hzero] at h
        cases htile : r.grid.tileAt (task.startUnit / r.samplesPerTile).toUInt32 with
        | none =>
            rw [htile] at h
            cases h
        | some tile =>
            rw [htile] at h
            dsimp only at h
            by_cases hlong : r.samplesPerTile < task.startUnit % r.samplesPerTile + task.unitCount
            · rw [if_pos hlong] at h
              cases h
            · rw [if_neg hlong] at h
              cases h
              refine ⟨r, rfl, hzero, ?_, ?_, ?_⟩
              · rw [htile]
                simp only [paramTile, paramWord, readWords_toBytes]
                rfl
              · simp only [paramWord, readWords_toBytes]
                rfl
              · simp only [paramWord, readWords_toBytes]
                rfl

-- The number of the tile is a quotient and the sample the rest of one division, so
-- that no other pair of words comes to the same unit.
theorem renderSpan_eq_iff (hr : r.samplesPerTile ≠ 0)
    (hsample : paramWord blob 0 = (task.startUnit % r.samplesPerTile).toUInt32)
    (hcount : paramWord blob 1 = task.unitCount.toUInt32) (index : UInt32) :
    renderSpan r index blob = task.span ↔
      index.toNat = task.startUnit.toNat / r.samplesPerTile.toNat ∧ r.Narrow task := by
  have hpos : 0 < r.samplesPerTile.toNat :=
    LittleEndian.toNat_posU64 hr
  have hrest := Nat.mod_lt task.startUnit.toNat hpos
  have hdivmod := Nat.div_add_mod task.startUnit.toNat r.samplesPerTile.toNat
  rw [Nat.mul_comm] at hdivmod
  have hsample' : (paramWord blob 0).toNat =
      task.startUnit.toNat % r.samplesPerTile.toNat % 2 ^ 32 := by
    rw [hsample, UInt64.toNat_toUInt32, UInt64.toNat_mod]
  have hcount' : (paramWord blob 1).toNat = task.unitCount.toNat % 2 ^ 32 := by
    rw [hcount, UInt64.toNat_toUInt32]
  rw [renderSpan, Task.span, Span.mk.injEq, hsample', hcount']
  have hindex := index.toNat_lt
  constructor
  · rintro ⟨hstart, hunits⟩
    have hle := Nat.mod_le (task.startUnit.toNat % r.samplesPerTile.toNat) (2 ^ 32)
    have hquotient : index.toNat = task.startUnit.toNat / r.samplesPerTile.toNat := by
      rw [← hstart, Nat.mul_comm, Nat.mul_add_div hpos, Nat.div_eq_of_lt (hle.trans_lt hrest),
        Nat.add_zero]
    refine ⟨hquotient, by omega, ?_, by omega⟩
    rw [hquotient] at hstart
    omega
  · rintro ⟨hquotient, hnarrow⟩
    rw [hquotient, Nat.mod_eq_of_lt hnarrow.sample, Nat.mod_eq_of_lt hnarrow.count]
    exact ⟨hdivmod, rfl⟩

theorem buildPathTrace_names_iff (h : buildPathTrace job task = .ok blob)
    (hrender : job.render = some r) :
    (∃ r index, job.render = some r ∧ r.grid.tileAt index = some (paramTile blob) ∧
      renderSpan r index blob = task.span) ↔ r.Narrow task := by
  obtain ⟨r', hr', hzero, htile, hsample, hcount⟩ := buildPathTrace_ok h
  rw [hrender] at hr'
  cases hr'
  constructor
  · rintro ⟨r', index, hr', -, hspan⟩
    rw [hrender] at hr'
    cases hr'
    exact ((renderSpan_eq_iff hzero hsample hcount index).mp hspan).2
  · intro hnarrow
    refine ⟨r, _, hrender, htile, (renderSpan_eq_iff hzero hsample hcount _).mpr ⟨?_, hnarrow⟩⟩
    rw [UInt64.toNat_toUInt32, UInt64.toNat_div, Nat.mod_eq_of_lt hnarrow.tile]

-- Parameters that are built name the range of their task where no number of a render
-- is wider than a word, and there only.
theorem buildParams_names_iff (h : buildParams spec job task = .ok blob) :
    NamesRange spec job task blob ↔ (spec.paramLayout = "PathTraceParams" →
      ∀ r, job.render = some r → r.Narrow task) := by
  unfold buildParams at h
  by_cases hsearch : spec.paramLayout = "BruteSearchParams"
  · rw [if_pos hsearch] at h
    have hother : spec.paramLayout ≠ "PathTraceParams" := by
      rw [hsearch]
      decide
    exact ⟨fun _ hrender => absurd hrender hother,
      fun _ => ⟨fun _ => buildBruteSearch_span h, fun hrender => absurd hrender hother⟩⟩
  · rw [if_neg hsearch] at h
    by_cases hrender : spec.paramLayout = "PathTraceParams"
    · rw [if_pos hrender] at h
      obtain ⟨r, hr, -⟩ := buildPathTrace_ok h
      have hnames := buildPathTrace_names_iff h hr
      constructor
      · intro hall _ r' hr'
        rw [hr] at hr'
        cases hr'
        exact hnames.mp (hall.2 hrender)
      · intro hall
        exact ⟨fun he => absurd he hsearch, fun _ => hnames.mpr (hall hrender r hr)⟩
    · exact ⟨fun _ he => absurd he hrender,
        fun _ => ⟨fun he => absurd he hsearch, fun he => absurd he hrender⟩⟩

end

-- One tile of 64 by 64 pixels, with a little over 2^33 samples.
def deepRender : RenderConfig where
  grid := ⟨64, 64, 64, 64⟩
  samplesPerTile := 8589934602
  camera := ⟨(0, 0, 0), (0, 0, 0), (0, 0, 0), (0, 0, 0)⟩
  nodeCount := 1
  primCount := 1
  materialCount := 1

def deepJob : Job :=
  { id := ⟨0, 1⟩, kernelId := "pathtrace_tile_v1", seed := 42, totalUnits := 8589934602
    unitsPerGroup := 8589934602, render := some deepRender }

def built (spec : KernelSpec) (job : Job) (task : Task) : List UInt8 :=
  match buildParams spec job task with
  | .error _ => []
  | .ok blob => blob

def firstSamples : Task := { id := ⟨0, 2⟩, job := ⟨0, 1⟩, startUnit := 12, unitCount := 12 }

def lastSamples : Task := { id := ⟨0, 3⟩, job := ⟨0, 1⟩, startUnit := 8589934590, unitCount := 12 }

theorem buildParams_names_first :
    buildParams pathTrace deepJob firstSamples = .ok (built pathTrace deepJob firstSamples) ∧
      NamesRange pathTrace deepJob firstSamples (built pathTrace deepJob firstSamples) := by
  have h : buildParams pathTrace deepJob firstSamples =
      .ok (built pathTrace deepJob firstSamples) := by decide +kernel
  refine ⟨h, (buildParams_names_iff h).mpr fun _ r hr => ?_⟩
  cases hr
  decide

-- The last samples of the tile start past what a word holds.
theorem buildParams_narrows : ¬ ∀ spec job task blob, buildParams spec job task = .ok blob →
    NamesRange spec job task blob := by
  intro h
  have hnames := h pathTrace deepJob lastSamples (built pathTrace deepJob lastSamples)
    (by decide +kernel)
  have hnarrow := (buildPathTrace_names_iff (r := deepRender)
    (by decide +kernel : buildPathTrace deepJob lastSamples =
      .ok (built pathTrace deepJob lastSamples)) rfl).mp (hnames.2 rfl)
  exact absurd hnarrow (by decide)

end P2pGpu.Coordinator
