import P2pGpu.Coordinator.Composite
import P2pGpu.Data.Windows

namespace P2pGpu.Coordinator

namespace TileGrid

-- The pixels of a tile, and those of the image.
def Tile.area (t : Tile) : Set (Nat × Nat) :=
  (Span.mk t.x.toNat t.w.toNat).units ×ˢ (Span.mk t.y.toNat t.h.toNat).units

def image (g : TileGrid) : Set (Nat × Nat) := Set.Iio g.imageW.toNat ×ˢ Set.Iio g.imageH.toNat

-- The indices that a caller goes through.
def indices (g : TileGrid) : List UInt32 := (List.range g.tileCount.toNat).map UInt32.ofNat

def piece (g : TileGrid) (i : UInt32) : Set (Nat × Nat) :=
  { p | ∃ tile, g.tileAt i = some tile ∧ p ∈ tile.area }

structure Partitions (g : TileGrid) : Prop where
  inside : ∀ i < g.tileCount, ∃ tile, g.tileAt i = some tile ∧ 0 < tile.w.toNat ∧
    0 < tile.h.toNat ∧ tile.x.toNat + tile.w.toNat ≤ g.imageW.toNat ∧
    tile.y.toNat + tile.h.toNat ≤ g.imageH.toNat
  tiles : Tiles g.piece g.indices g.image
  beyond : ∀ i, g.tileCount ≤ i → g.tileAt i = none

-- How many tiles lie side by side, and one above the other.
def columns (g : TileGrid) : Nat := Chunks.count g.tileW.toNat g.imageW.toNat

def rows (g : TileGrid) : Nat := Chunks.count g.tileH.toNat g.imageH.toNat

-- No number of the decomposition is too large for its type.
structure Exact (g : TileGrid) : Prop where
  width : g.imageW.toNat + g.tileW.toNat - 1 < 2 ^ 32
  height : g.imageH.toNat + g.tileH.toNat - 1 < 2 ^ 32
  count : g.columns * g.rows < 2 ^ 32

-- In which tile a pixel lies.
def indexOf (g : TileGrid) (p : Nat × Nat) : UInt32 :=
  UInt32.ofNat (p.2 / g.tileH.toNat * g.columns + p.1 / g.tileW.toNat)

section

variable {g : TileGrid} {extent side count q : UInt32} {i : UInt32} {p : Nat × Nat}

theorem tilesX_toNat (hw : g.tileW ≠ 0) : g.tilesX.toNat =
    if g.imageW.toNat + g.tileW.toNat - 1 < 2 ^ 32 then g.columns else 0 :=
  axis_count hw (if_neg hw)

theorem tilesY_toNat (hh : g.tileH ≠ 0) : g.tilesY.toNat =
    if g.imageH.toNat + g.tileH.toNat - 1 < 2 ^ 32 then g.rows else 0 :=
  axis_count hh (if_neg hh)

-- Where there is a tile, the counts along the sides did not wrap.
theorem counted (hw : g.tileW ≠ 0) (hh : g.tileH ≠ 0) (hi : i < g.tileCount) :
    (g.imageW.toNat + g.tileW.toNat - 1 < 2 ^ 32 ∧ g.tilesX.toNat = g.columns) ∧
      (g.imageH.toNat + g.tileH.toNat - 1 < 2 ^ 32 ∧ g.tilesY.toNat = g.rows) ∧
      i.toNat < g.columns * g.rows := by
  have hcount := UInt32.lt_iff_toNat_lt.mp hi
  have hx := tilesX_toNat hw
  have hy := tilesY_toNat hh
  have hproduct : i.toNat < g.tilesX.toNat * g.tilesY.toNat := by
    unfold tileCount at hcount
    rw [UInt32.toNat_mul] at hcount
    exact hcount.trans_le (Nat.mod_le _ _)
  by_cases hfitsX : g.imageW.toNat + g.tileW.toNat - 1 < 2 ^ 32
  · by_cases hfitsY : g.imageH.toNat + g.tileH.toNat - 1 < 2 ^ 32
    · rw [if_pos hfitsX] at hx
      rw [if_pos hfitsY] at hy
      rw [hx, hy] at hproduct
      exact ⟨⟨hfitsX, hx⟩, ⟨hfitsY, hy⟩, hproduct⟩
    · rw [hy, if_neg hfitsY, Nat.mul_zero] at hproduct
      exact absurd hproduct (Nat.not_lt_zero _)
  · rw [hx, if_neg hfitsX, Nat.zero_mul] at hproduct
    exact absurd hproduct (Nat.not_lt_zero _)

-- The tile at an index, with numbers that do not wrap.
theorem tileAt_exact (hw : g.tileW ≠ 0) (hh : g.tileH ≠ 0) (hi : i < g.tileCount) :
    i.toNat % g.columns * g.tileW.toNat < g.imageW.toNat ∧
      i.toNat / g.columns * g.tileH.toNat < g.imageH.toNat ∧
      ∃ tile, g.tileAt i = some tile ∧
        tile.x.toNat = i.toNat % g.columns * g.tileW.toNat ∧
        tile.y.toNat = i.toNat / g.columns * g.tileH.toNat ∧
        tile.w.toNat = min g.tileW.toNat
          (g.imageW.toNat - i.toNat % g.columns * g.tileW.toNat) ∧
        tile.h.toNat = min g.tileH.toNat
          (g.imageH.toNat - i.toNat / g.columns * g.tileH.toNat) := by
  obtain ⟨⟨-, hx⟩, ⟨-, hy⟩, hproduct⟩ := counted hw hh hi
  have hcolumns : 0 < g.columns := Nat.pos_of_lt_mul_right hproduct
  have hcolumn : (i % g.tilesX).toNat = i.toNat % g.columns := by rw [UInt32.toNat_mod, hx]
  have hrow : (i / g.tilesX).toNat = i.toNat / g.columns := by rw [UInt32.toNat_div, hx]
  have hlt : (i % g.tilesX).toNat < g.tilesX.toNat := by
    rw [hcolumn, hx]
    exact Nat.mod_lt _ hcolumns
  have hlt' : (i / g.tilesX).toNat < g.tilesY.toNat := by
    rw [hrow, hy]
    exact Nat.div_lt_of_lt_mul hproduct
  obtain ⟨hstart, hmul, hmin⟩ := axis_exact hw
    (if_neg hw : g.tilesX = (g.imageW + g.tileW - 1) / g.tileW) hlt
  obtain ⟨hstart', hmul', hmin'⟩ := axis_exact hh
    (if_neg hh : g.tilesY = (g.imageH + g.tileH - 1) / g.tileH) hlt'
  rw [hcolumn] at hstart hmul hmin
  rw [hrow] at hstart' hmul' hmin'
  have hindex : ¬ (g.tileW = 0 ∨ g.tileH = 0 ∨ g.tileCount ≤ i) := by
    rintro (h | h | h)
    · exact hw h
    · exact hh h
    · exact absurd hi (UInt32.not_lt.mpr h)
  refine ⟨hstart, hstart', _, if_neg hindex, hmul, hmul', hmin, hmin'⟩

-- The pixels of a tile are those of the image that division counts to it.
theorem mem_piece (hw : g.tileW ≠ 0) (hh : g.tileH ≠ 0) (hi : i < g.tileCount) :
    p ∈ g.piece i ↔ p ∈ g.image ∧ p.1 / g.tileW.toNat = i.toNat % g.columns ∧
      p.2 / g.tileH.toNat = i.toNat / g.columns := by
  obtain ⟨-, -, tile, htile, hx, hy, hwidth, hheight⟩ := tileAt_exact hw hh hi
  have harea : p ∈ g.piece i ↔ p ∈ tile.area := by
    constructor
    · rintro ⟨other, hother, hp⟩
      rw [htile, Option.some.injEq] at hother
      exact hother ▸ hp
    · exact fun hp => ⟨tile, htile, hp⟩
  rw [harea, Tile.area, Set.mem_prod, hx, hy, hwidth, hheight,
    Span.mem_window (LittleEndian.toNat_posU32 hw), Span.mem_window (LittleEndian.toNat_posU32 hh)]
  show _ ↔ (p.1 < _ ∧ p.2 < _) ∧ _
  tauto

theorem mem_indices : i ∈ g.indices ↔ i < g.tileCount := by
  unfold indices
  rw [List.mem_map, UInt32.lt_iff_toNat_lt]
  constructor
  · rintro ⟨n, hn, rfl⟩
    have hlt := List.mem_range.mp hn
    have hsmall := g.tileCount.toNat_lt
    have hnat : (UInt32.ofNat n).toNat = n :=
      UInt32.toNat_ofNat_of_lt' (show n < 2 ^ 32 by omega)
    rw [hnat]
    exact hlt
  · exact fun hi => ⟨i.toNat, List.mem_range.mpr hi, UInt32.ofNat_toNat⟩

theorem indices_nodup (g : TileGrid) : g.indices.Nodup := by
  refine List.Nodup.map_on (fun n hn m hm hsame => ?_) List.nodup_range
  have hsmall := g.tileCount.toNat_lt
  have hn' := List.mem_range.mp hn
  have hm' := List.mem_range.mp hm
  have hnat := congrArg UInt32.toNat hsame
  rwa [UInt32.toNat_ofNat_of_lt' (show n < 2 ^ 32 by omega),
    UInt32.toNat_ofNat_of_lt' (show m < 2 ^ 32 by omega)] at hnat

-- A row and a column give an index, and the index gives them back.
theorem row_column {c q r n : Nat} (hq : q < c) : r * c + q = n ↔ q = n % c ∧ r = n / c := by
  constructor
  · rintro rfl
    have hpos : 0 < c := Nat.zero_lt_of_lt hq
    rw [Nat.add_comm, Nat.add_mul_mod_self_right, Nat.add_mul_div_right _ _ hpos,
      Nat.mod_eq_of_lt hq, Nat.div_eq_of_lt hq, Nat.zero_add]
    exact ⟨rfl, rfl⟩
  · rintro ⟨rfl, rfl⟩
    rw [Nat.mul_comm]
    exact Nat.div_add_mod n c

section

variable (hw : g.tileW ≠ 0) (hh : g.tileH ≠ 0)

include hw hh

theorem place_lt (hp : p ∈ g.image) :
    p.1 / g.tileW.toNat < g.columns ∧ p.2 / g.tileH.toNat < g.rows := by
  obtain ⟨hx, hy⟩ := hp
  have hposW := LittleEndian.toNat_posU32 hw
  have hposH : 0 < g.tileH.toNat := LittleEndian.toNat_posU32 hh
  refine ⟨(Chunks.lt_count hposW).mpr ?_, (Chunks.lt_count hposH).mpr ?_⟩
  · exact (Nat.div_mul_le_self _ _).trans_lt hx
  · exact (Nat.div_mul_le_self _ _).trans_lt hy

theorem tileCount_toNat (hexact : g.Exact) : g.tileCount.toNat = g.columns * g.rows := by
  have hx := tilesX_toNat hw
  have hy := tilesY_toNat hh
  rw [if_pos hexact.width] at hx
  rw [if_pos hexact.height] at hy
  unfold tileCount
  rw [UInt32.toNat_mul, hx, hy, Nat.mod_eq_of_lt hexact.count]

-- Every pixel is counted to one tile.
theorem indexOf_lt (hexact : g.Exact) (hp : p ∈ g.image) :
    (g.indexOf p).toNat = p.2 / g.tileH.toNat * g.columns + p.1 / g.tileW.toNat ∧
      g.indexOf p < g.tileCount := by
  obtain ⟨hcolumn, hrow⟩ := place_lt hw hh hp
  have hcount := tileCount_toNat hw hh hexact
  have hsmall := hexact.count
  have hnext := Nat.mul_le_mul_right g.columns (Nat.succ_le_of_lt hrow)
  rw [Nat.succ_mul, Nat.mul_comm g.rows] at hnext
  have hindex : (g.indexOf p).toNat =
      p.2 / g.tileH.toNat * g.columns + p.1 / g.tileW.toNat :=
    UInt32.toNat_ofNat_of_lt' (show _ < 2 ^ 32 by omega)
  refine ⟨hindex, ?_⟩
  rw [UInt32.lt_iff_toNat_lt, hindex, hcount]
  omega

theorem mem_piece_iff (hexact : g.Exact) (hi : i < g.tileCount) :
    p ∈ g.piece i ↔ p ∈ g.image ∧ g.indexOf p = i := by
  rw [mem_piece hw hh hi]
  refine and_congr_right fun hp => ?_
  rw [← UInt32.toNat_inj, (indexOf_lt hw hh hexact hp).1,
    row_column (place_lt hw hh hp).1]

theorem exact_tiles (hexact : g.Exact) : Tiles g.piece g.indices g.image := by
  have hcount := tileCount_toNat hw hh hexact
  have hfibers : Tiles (fun i => { p | p ∈ g.image ∧ g.indexOf p = i }) g.indices g.image := by
    refine Tiles.fibers g.indices_nodup (fun p hp => ?_) fun i hi => ?_
    · exact mem_indices.mpr (indexOf_lt hw hh hexact hp).2
    · have hlt := mem_indices.mp hi
      obtain ⟨hx, hy, -⟩ := tileAt_exact hw hh hlt
      have hin : (i.toNat % g.columns * g.tileW.toNat, i.toNat / g.columns * g.tileH.toNat) ∈
          g.image := ⟨hx, hy⟩
      refine ⟨_, hin, (mem_piece_iff hw hh hexact hlt).mp ?_ |>.2⟩
      refine (mem_piece hw hh hlt).mpr ⟨hin, ?_, ?_⟩
      · exact Nat.mul_div_cancel _ (LittleEndian.toNat_posU32 hw)
      · exact Nat.mul_div_cancel _ (LittleEndian.toNat_posU32 hh)
  refine hfibers.congr fun i hi => ?_
  ext p
  exact mem_piece_iff hw hh hexact (mem_indices.mp hi)

-- An image without pixels has no tiles.
theorem no_tiles (hzero : g.imageW.toNat = 0 ∨ g.imageH.toNat = 0) :
    Tiles g.piece g.indices g.image := by
  have hindices : g.indices = [] := by
    rw [List.eq_nil_iff_forall_not_mem]
    intro i hi
    obtain ⟨hx, hy, -⟩ := tileAt_exact hw hh (mem_indices.mp hi)
    omega
  have himage : (∅ : Set (Nat × Nat)) = g.image := by
    refine (Set.eq_empty_of_forall_notMem fun p hp => ?_).symm
    obtain ⟨hx, hy⟩ := hp
    rw [Set.mem_Iio] at hx hy
    omega
  rw [hindices]
  exact Tiles.nil.region_eq himage

theorem partitions_iff : g.Partitions ↔ g.imageW = 0 ∨ g.imageH = 0 ∨ g.Exact := by
  constructor
  · intro hparts
    by_contra hnot
    rw [not_or, not_or] at hnot
    obtain ⟨hwidth, hheight, hnot⟩ := hnot
    have hposW : 0 < g.imageW.toNat := LittleEndian.toNat_posU32 hwidth
    have hposH : 0 < g.imageH.toNat := LittleEndian.toNat_posU32 hheight
    obtain ⟨i, hi, -⟩ := (hparts.tiles.cover (0, 0)).mpr ⟨hposW, hposH⟩
    obtain ⟨⟨hfitsX, hx⟩, ⟨hfitsY, hy⟩, -⟩ := counted hw hh (mem_indices.mp hi)
    -- The first index that is not counted has pixels of its own.
    have hcount : g.tileCount.toNat = g.columns * g.rows % 2 ^ 32 := by
      unfold tileCount
      rw [UInt32.toNat_mul, hx, hy]
    have hover : ¬ g.columns * g.rows < 2 ^ 32 := fun h => hnot ⟨hfitsX, hfitsY, h⟩
    have hsmall := Nat.mod_lt (g.columns * g.rows) (Nat.two_pow_pos 32)
    have hless : g.tileCount.toNat < g.columns * g.rows := by omega
    have hcolumns : 0 < g.columns := Nat.pos_of_lt_mul_right hless
    have hcolumn : g.tileCount.toNat % g.columns < g.columns := Nat.mod_lt _ hcolumns
    have hrow : g.tileCount.toNat / g.columns < g.rows := Nat.div_lt_of_lt_mul hless
    have hpositiveW : 0 < g.tileW.toNat := LittleEndian.toNat_posU32 hw
    have hpositiveH : 0 < g.tileH.toNat := LittleEndian.toNat_posU32 hh
    have hin : (g.tileCount.toNat % g.columns * g.tileW.toNat,
        g.tileCount.toNat / g.columns * g.tileH.toNat) ∈ g.image :=
      ⟨(Chunks.lt_count hpositiveW).mp hcolumn, (Chunks.lt_count hpositiveH).mp hrow⟩
    obtain ⟨j, hj, hcovered⟩ := (hparts.tiles.cover _).mpr hin
    have hlt := mem_indices.mp hj
    obtain ⟨-, hmod, hdiv⟩ := (mem_piece hw hh hlt).mp hcovered
    rw [Nat.mul_div_cancel _ hpositiveW] at hmod
    rw [Nat.mul_div_cancel _ hpositiveH] at hdiv
    have hsame : g.tileCount.toNat = j.toNat := by
      rw [← Nat.div_add_mod g.tileCount.toNat g.columns, hmod, hdiv, Nat.div_add_mod]
    have hltNat := UInt32.lt_iff_toNat_lt.mp hlt
    omega
  · intro h
    refine ⟨fun i hi => ?_, ?_, fun i hi => ?_⟩
    · obtain ⟨hx, hy, tile, htile, hxs, hys, hws, hhs⟩ := tileAt_exact hw hh hi
      have hposW := LittleEndian.toNat_posU32 hw
      have hposH : 0 < g.tileH.toNat := LittleEndian.toNat_posU32 hh
      refine ⟨tile, htile, ?_, ?_, ?_, ?_⟩ <;> omega
    · rcases h with hzero | hzero | hexact
      · refine no_tiles hw hh ?_
        rw [hzero]
        exact .inl rfl
      · refine no_tiles hw hh ?_
        rw [hzero]
        exact .inr rfl
      · exact exact_tiles hw hh hexact
    · exact if_pos (.inr (.inr hi))

end

end

end TileGrid

end P2pGpu.Coordinator
