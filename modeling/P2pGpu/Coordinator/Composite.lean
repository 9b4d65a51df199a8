import P2pGpu.Coordinator.Double
import P2pGpu.Data.Chunks
import P2pGpu.Data.LittleEndian
import P2pGpu.Data.Table

namespace P2pGpu.Coordinator

-- The image, cut into tiles.
structure TileGrid where
  imageW : UInt32
  imageH : UInt32
  tileW : UInt32
  tileH : UInt32
deriving DecidableEq, Repr

namespace TileGrid

def tilesX (g : TileGrid) : UInt32 :=
  if g.tileW = 0 then 0 else (g.imageW + g.tileW - 1) / g.tileW

def tilesY (g : TileGrid) : UInt32 :=
  if g.tileH = 0 then 0 else (g.imageH + g.tileH - 1) / g.tileH

def tileCount (g : TileGrid) : UInt32 := g.tilesX * g.tilesY

structure Tile where
  x : UInt32
  y : UInt32
  w : UInt32
  h : UInt32
deriving DecidableEq, Repr

def Tile.pixels (t : Tile) : UInt32 := t.w * t.h

def tileAt (g : TileGrid) (index : UInt32) : Option Tile :=
  if g.tileW = 0 ∨ g.tileH = 0 ∨ g.tileCount ≤ index then none
  else
    let x := index % g.tilesX * g.tileW
    let y := index / g.tilesX * g.tileH
    -- Clipped to the image, not overhanging it.
    some ⟨x, y, min g.tileW (g.imageW - x), min g.tileH (g.imageH - y)⟩

-- A sum that wraps leaves less than one tile, and none is counted.
theorem axis_count {extent side count : UInt32} (hside : side ≠ 0)
    (hcount : count = (extent + side - 1) / side) :
    count.toNat = if extent.toNat + side.toNat - 1 < 2 ^ 32
      then Chunks.count side.toNat extent.toNat else 0 := by
  have hpos : 0 < side.toNat := LittleEndian.toNat_posU32 hside
  have hextent := extent.toNat_lt
  have hsum : (extent + side - 1).toNat = (extent.toNat + side.toNat - 1) % 2 ^ 32 := by
    rw [UInt32.toNat_sub, UInt32.toNat_add]
    have hlt := side.toNat_lt
    have hone : (1 : UInt32).toNat = 1 := rfl
    omega
  rw [hcount, UInt32.toNat_div, hsum]
  by_cases hfits : extent.toNat + side.toNat - 1 < 2 ^ 32
  · rw [if_pos hfits, Nat.mod_eq_of_lt hfits]
    rfl
  · have hside' := side.toNat_lt
    have hsmall : (extent.toNat + side.toNat - 1) % 2 ^ 32 < side.toNat := by omega
    rw [if_neg hfits, Nat.div_eq_of_lt hsmall]

-- Along one axis, nothing about a tile that is counted wraps.
theorem axis_exact {extent side count q : UInt32} (hside : side ≠ 0)
    (hcount : count = (extent + side - 1) / side) (hq : q.toNat < count.toNat) :
    q.toNat * side.toNat < extent.toNat ∧ (q * side).toNat = q.toNat * side.toNat ∧
      (min side (extent - q * side)).toNat =
        min side.toNat (extent.toNat - q.toNat * side.toNat) := by
  have hpos : 0 < side.toNat := LittleEndian.toNat_posU32 hside
  have hextent := extent.toNat_lt
  rw [axis_count hside hcount] at hq
  split at hq
  · have hstart := (Chunks.lt_count hpos).mp hq
    have hproduct : (q * side).toNat = q.toNat * side.toNat := by
      rw [UInt32.toNat_mul]
      exact Nat.mod_eq_of_lt (by omega)
    have hrest : (extent - q * side).toNat = extent.toNat - q.toNat * side.toNat := by
      rw [UInt32.toNat_sub_of_le _ _ (UInt32.le_iff_toNat_le.mpr (by omega)), hproduct]
    refine ⟨hstart, hproduct, ?_⟩
    show (if side ≤ extent - q * side then side else extent - q * side).toNat = _
    rw [← hrest]
    by_cases hclip : side ≤ extent - q * side
    · rw [if_pos hclip, Nat.min_eq_left (UInt32.le_iff_toNat_le.mp hclip)]
    · have hlt := UInt32.lt_iff_toNat_lt.mp (UInt32.not_le.mp hclip)
      rw [if_neg hclip, Nat.min_eq_right hlt.le]
  · exact absurd hq (Nat.not_lt_zero _)

-- A tile that is counted is clipped to no less than a pixel.
theorem axis {extent side count q : UInt32} (hside : side ≠ 0)
    (hcount : count = (extent + side - 1) / side) (hq : q.toNat < count.toNat) :
    0 < (min side (extent - q * side)).toNat ∧
      (min side (extent - q * side)).toNat ≤ side.toNat := by
  have hpos : 0 < side.toNat := LittleEndian.toNat_posU32 hside
  obtain ⟨hstart, -, hmin⟩ := axis_exact hside hcount hq
  omega

theorem tileAt_lt {g : TileGrid} {i : UInt32} {tile : Tile} (h : g.tileAt i = some tile) :
    i < g.tileCount := by
  unfold tileAt at h
  split at h
  · cases h
  · rename_i hindex
    exact UInt32.not_le.mp fun hle => hindex (.inr (.inr hle))

-- Every tile of the grid has a pixel.
theorem tileAt_some (g : TileGrid) (harea : g.tileW.toNat * g.tileH.toNat < 2 ^ 32) {i : UInt32}
    (hi : i < g.tileCount) : ∃ tile, g.tileAt i = some tile ∧ tile.pixels ≠ 0 := by
  have hcount := UInt32.lt_iff_toNat_lt.mp hi
  have hproduct : i.toNat < g.tilesX.toNat * g.tilesY.toNat := by
    unfold tileCount at hcount
    rw [UInt32.toNat_mul] at hcount
    exact hcount.trans_le (Nat.mod_le _ _)
  have hx : g.tilesX ≠ 0 := by
    intro hzero
    rw [hzero] at hproduct
    simp at hproduct
  have hy : g.tilesY ≠ 0 := by
    intro hzero
    rw [hzero] at hproduct
    simp at hproduct
  have hw : g.tileW ≠ 0 := fun hzero => hx (by unfold tilesX; rw [if_pos hzero])
  have hh : g.tileH ≠ 0 := fun hzero => hy (by unfold tilesY; rw [if_pos hzero])
  have hcolumn : (i % g.tilesX).toNat < g.tilesX.toNat := by
    rw [UInt32.toNat_mod]
    exact Nat.mod_lt _ (LittleEndian.toNat_posU32 hx)
  have hrow : (i / g.tilesX).toNat < g.tilesY.toNat := by
    rw [UInt32.toNat_div]
    exact Nat.div_lt_of_lt_mul hproduct
  obtain ⟨hwpos, hwle⟩ := axis hw (if_neg hw : g.tilesX = (g.imageW + g.tileW - 1) / g.tileW) hcolumn
  obtain ⟨hhpos, hhle⟩ := axis hh (if_neg hh : g.tilesY = (g.imageH + g.tileH - 1) / g.tileH) hrow
  have hindex : ¬ (g.tileW = 0 ∨ g.tileH = 0 ∨ g.tileCount ≤ i) := by
    rintro (h | h | h)
    · exact hw h
    · exact hh h
    · exact absurd hi (UInt32.not_lt.mpr h)
  unfold tileAt
  rw [if_neg hindex]
  refine ⟨_, rfl, fun hzero => ?_⟩
  have hle := Nat.mul_le_mul hwle hhle
  have hpos := Nat.mul_pos hwpos hhpos
  have hpixels := congrArg UInt32.toNat hzero
  have hwhole := UInt32.toNat_mul (min g.tileW (g.imageW - i % g.tilesX * g.tileW))
    (min g.tileH (g.imageH - i / g.tilesX * g.tileH))
  rw [Nat.mod_eq_of_lt (by omega)] at hwhole
  rw [← hwhole] at hpos
  exact absurd hpixels (Nat.pos_iff_ne_zero.mp hpos)

end TileGrid

abbrev Payload : Type := List UInt8

section

variable {F : Type} [Double F]

-- The little-endian `float` at byte `i`, by its bits.
def readFloat32 (payload : Payload) (i : Nat) : UInt32 :=
  let byte (j : Nat) : UInt32 := (payload.getD (i + j) 0).toUInt32
  byte 0 ||| byte 1 <<< 8 ||| byte 2 <<< 16 ||| byte 3 <<< 24

structure TileData (F : Type) where
  rgb : List UInt32
  samples : F

structure Compositor (F : Type) where
  grid : TileGrid
  tiles : Table UInt32 (TileData F) := ∅

def kStride : Nat := 16

-- The sample count of one pixel, and nothing for a count that is none.
def pixelSamples (payload : Payload) (p : Nat) : F :=
  let samples : F := Double.ofFloat32 (readFloat32 payload (p * kStride + 12))
  if Double.isFinite samples ∧ 0.0 < samples then samples else 0.0

def pixelRgb (F : Type) [Double F] (payload : Payload) (p : Nat) : List UInt32 :=
  (List.range 3).map fun k =>
    let channel := readFloat32 payload (p * kStride + k * 4)
    if Double.isFinite (Double.ofFloat32 channel : F) then channel else 0

namespace Compositor

def acceptTile (c : Compositor F) (index : UInt32) (payload : Payload) :
    Bool × Compositor F :=
  match c.grid.tileAt index with
  | none => (false, c)
  | some tile =>
      if payload.length ≠ tile.pixels.toNat * kStride then (false, c)
      else
        let rgb := (List.range tile.pixels.toNat).flatMap (pixelRgb F payload)
        -- The count is the first pixel's. A tile without pixels has none.
        let samples := if tile.pixels = 0 then 0.0 else pixelSamples payload 0
        (true, { c with tiles := AList.insert index ⟨rgb, samples⟩ c.tiles })

def tileSamples (c : Compositor F) (index : UInt32) : F :=
  match c.tiles.lookup index with
  | none => 0.0
  | some data => data.samples

@[simp] theorem acceptTile_grid (c : Compositor F) (index : UInt32) (payload : Payload) :
    (c.acceptTile index payload).2.grid = c.grid := by
  unfold acceptTile
  cases c.grid.tileAt index with
  | none => rfl
  | some tile => dsimp only; split <;> rfl

theorem acceptTile_none (c : Compositor F) (index : UInt32) (payload : Payload)
    (h : c.grid.tileAt index = none) : (c.acceptTile index payload).2 = c := by
  unfold acceptTile
  rw [h]

-- A tile that is offered is replaced whole, and no other one moves.
theorem tileSamples_acceptTile (c : Compositor F) (index i : UInt32) (payload : Payload)
    {tile : TileGrid.Tile} (ht : c.grid.tileAt index = some tile)
    (hlen : payload.length = tile.pixels.toNat * kStride) (hp : tile.pixels ≠ 0) :
    (c.acceptTile index payload).2.tileSamples i =
      if i = index then pixelSamples payload 0 else c.tileSamples i := by
  simp only [acceptTile, ht, hlen, ne_eq, not_true_eq_false, if_false, hp, tileSamples,
    Table.lookup_insert_eq]
  by_cases hi : i = index
  · simp only [hi, if_true]
  · simp only [hi, if_false]

end Compositor

end

end P2pGpu.Coordinator
