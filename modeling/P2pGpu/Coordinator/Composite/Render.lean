import P2pGpu.Coordinator.Composite.Partition
import P2pGpu.Data.Paint

namespace P2pGpu.Coordinator

open Checked

namespace Compositor

section

-- `tone` is what is shown of a sum of radiance over some samples: the mean, the exposure,
-- the transfer function and the rounding to a byte.
variable {F : Type} [Double F] (tone : UInt32 → F → UInt8)

def renderPixel (imageW : UInt32) (tile : TileGrid.Tile) (data : TileData F) (ty tx : Nat)
    (out : List UInt8) : Checked Empty (List UInt8) :=
  let src := (UInt64.ofNat ty * tile.w.toUInt64 + UInt64.ofNat tx) * 3
  let dst := ((tile.y + UInt32.ofNat ty).toUInt64 * imageW.toUInt64 +
    (tile.x + UInt32.ofNat tx).toUInt64) * 4
  loop 3 (fun out k => do
    let channel ← read data.rgb (src + UInt64.ofNat k).toNat
    write out (dst + UInt64.ofNat k).toNat (tone channel data.samples)) out

def renderTile (c : Compositor F) (index : UInt32) (out : List UInt8) :
    Checked Empty (List UInt8) :=
  match c.tiles.lookup index with
  | none => .ok out
  | some data =>
      if ¬ 0.0 < data.samples then .ok out
      else
        match c.grid.tileAt index with
        | none => .ok out
        | some tile =>
            loop tile.h.toNat (fun out ty =>
              loop tile.w.toNat (fun out tx =>
                renderPixel tone c.grid.imageW tile data ty tx out) out) out

-- Tiles that were not rendered are black, not transparent.
def blank (size : Nat) : Checked Empty (List UInt8) :=
  loop (size / 4) (fun out i => write out (i * 4 + 3) 255) (List.replicate size 0)

def renderRgba (c : Compositor F) : Checked Empty (List UInt8) :=
  let size := c.grid.imageW.toUInt64 * c.grid.imageH.toUInt64 * 4
  if size = 0 then .ok []
  else do
    let out ← blank size.toNat
    loop c.grid.tileCount.toNat (fun out index => renderTile tone c (UInt32.ofNat index) out) out

end

section

variable {F : Type} [Double F]

-- The compositor of a grid, after some tiles were offered to it.
def accepted (g : TileGrid) (offers : List (UInt32 × Payload)) : Compositor F :=
  offers.foldl (fun c offer => (c.acceptTile offer.1 offer.2).2) { grid := g }

-- A tile with samples, which is one that is shown.
def shown (c : Compositor F) (index : UInt32) : Option (TileData F) :=
  (c.tiles.lookup index).filter fun data => 0.0 < data.samples

-- The image has four bytes for each pixel, and those of a pixel are from the pixel of its
-- tile that lies at the same place.
structure Shows (tone : UInt32 → F → UInt8) (c : Compositor F) (out : List UInt8) : Prop where
  length : out.length = c.grid.imageW.toNat * c.grid.imageH.toNat * 4
  alpha : ∀ p ∈ c.grid.image, out[(p.2 * c.grid.imageW.toNat + p.1) * 4 + 3]? = some 255
  rendered : ∀ i tile data, c.grid.tileAt i = some tile → c.shown i = some data →
    ∀ p ∈ tile.area, ∀ k < 3, ∃ channel,
      data.rgb[((p.2 - tile.y.toNat) * tile.w.toNat + (p.1 - tile.x.toNat)) * 3 + k]? =
        some channel ∧
      out[(p.2 * c.grid.imageW.toNat + p.1) * 4 + k]? = some (tone channel data.samples)
  black : ∀ i tile, c.grid.tileAt i = some tile → c.shown i = none →
    ∀ p ∈ tile.area, ∀ k < 3, out[(p.2 * c.grid.imageW.toNat + p.1) * 4 + k]? = some 0

-- Whatever was offered, the image is drawn, and nothing outside of an array is touched.
def Renders (tone : UInt32 → F → UInt8) (g : TileGrid) : Prop :=
  ∀ offers, ∃ out, renderRgba tone (accepted g offers) = .ok out ∧
    Shows tone (accepted g offers) out

end

end Compositor

namespace TileGrid

-- The size of a tile in pixels is not cut short by its type, or else nothing is left of it.
def Storable (g : TileGrid) : Prop :=
  ∀ q r, q * g.tileW.toNat < g.imageW.toNat → r * g.tileH.toNat < g.imageH.toNat →
    min g.tileW.toNat (g.imageW.toNat - q * g.tileW.toNat) *
        min g.tileH.toNat (g.imageH.toNat - r * g.tileH.toNat) < 2 ^ 32 ∨
      2 ^ 32 ∣ min g.tileW.toNat (g.imageW.toNat - q * g.tileW.toNat) *
        min g.tileH.toNat (g.imageH.toNat - r * g.tileH.toNat)

end TileGrid

namespace Compositor

section

variable {F : Type} {tone : UInt32 → F → UInt8} {g : TileGrid} {data : TileData F}
  {tile : TileGrid.Tile}

-- What is known of a tile that is drawn, and of the image that it lies in.
structure Fits (g : TileGrid) (tile : TileGrid.Tile) (data : TileData F) : Prop where
  right : tile.x.toNat + tile.w.toNat ≤ g.imageW.toNat
  bottom : tile.y.toNat + tile.h.toNat ≤ g.imageH.toNat
  rgb : data.rgb.length = tile.h.toNat * tile.w.toNat * 3
  small : tile.h.toNat * tile.w.toNat < 2 ^ 32
  image : g.imageW.toNat * g.imageH.toNat * 4 < 2 ^ 64

-- The place of a row and a column in an area.
theorem cell_lt {m n a b : Nat} (ha : a < m) (hb : b < n) : a * n + b < m * n := by
  have hrow := Nat.mul_le_mul_right n (Nat.succ_le_of_lt ha)
  rw [Nat.succ_mul] at hrow
  omega

theorem toNat_cell {a n b s : UInt64} {k : Nat} (hs : 0 < s.toNat)
    (hlt : (a.toNat * n.toNat + b.toNat) * s.toNat + k < 2 ^ 64) :
    ((a * n + b) * s + UInt64.ofNat k).toNat = (a.toNat * n.toNat + b.toNat) * s.toNat + k := by
  have hle := Nat.le_mul_of_pos_right (a.toNat * n.toNat + b.toNat) hs
  have hk : (UInt64.ofNat k).toNat = k := UInt64.toNat_ofNat_of_lt' (show k < 2 ^ 64 by omega)
  rw [UInt64.toNat_add, UInt64.toNat_mul, UInt64.toNat_add, UInt64.toNat_mul, hk,
    Nat.mod_eq_of_lt (show a.toNat * n.toNat < 2 ^ 64 by omega),
    Nat.mod_eq_of_lt (show a.toNat * n.toNat + b.toNat < 2 ^ 64 by omega),
    Nat.mod_eq_of_lt (show (a.toNat * n.toNat + b.toNat) * s.toNat < 2 ^ 64 by omega),
    Nat.mod_eq_of_lt hlt]

theorem Fits.src (h : Fits g tile data) {ty tx k : Nat} (hty : ty < tile.h.toNat)
    (htx : tx < tile.w.toNat) (hk : k < 3) :
    ((UInt64.ofNat ty * tile.w.toUInt64 + UInt64.ofNat tx) * 3 + UInt64.ofNat k).toNat =
        (ty * tile.w.toNat + tx) * 3 + k ∧
      (ty * tile.w.toNat + tx) * 3 + k < data.rgb.length := by
  have hcell := cell_lt hty htx
  have hsmall := h.small
  have hrgb := h.rgb
  have hrow := tile.h.toNat_lt
  have hcolumn := tile.w.toNat_lt
  have hy : (UInt64.ofNat ty).toNat = ty := UInt64.toNat_ofNat_of_lt' (show ty < 2 ^ 64 by omega)
  have hx : (UInt64.ofNat tx).toNat = tx := UInt64.toNat_ofNat_of_lt' (show tx < 2 ^ 64 by omega)
  have hthree : (3 : UInt64).toNat = 3 := rfl
  refine ⟨?_, by omega⟩
  rw [toNat_cell, hy, hx, UInt32.toNat_toUInt64, hthree]
  · rw [hthree]
    decide
  · rw [hy, hx, UInt32.toNat_toUInt64, hthree]
    omega

theorem Fits.dst (h : Fits g tile data) {ty tx k : Nat} (hty : ty < tile.h.toNat)
    (htx : tx < tile.w.toNat) (hk : k < 3) :
    (((tile.y + UInt32.ofNat ty).toUInt64 * g.imageW.toUInt64 +
          (tile.x + UInt32.ofNat tx).toUInt64) * 4 + UInt64.ofNat k).toNat =
        ((tile.y.toNat + ty) * g.imageW.toNat + (tile.x.toNat + tx)) * 4 + k ∧
      ((tile.y.toNat + ty) * g.imageW.toNat + (tile.x.toNat + tx)) * 4 + k <
        g.imageW.toNat * g.imageH.toNat * 4 := by
  have hright := h.right
  have hbottom := h.bottom
  have himage := h.image
  have hwidth := g.imageW.toNat_lt
  have hheight := g.imageH.toNat_lt
  have hcell : (tile.y.toNat + ty) * g.imageW.toNat + (tile.x.toNat + tx) <
      g.imageH.toNat * g.imageW.toNat := cell_lt (by omega) (by omega)
  rw [Nat.mul_comm g.imageH.toNat] at hcell
  have hy : (tile.y + UInt32.ofNat ty).toUInt64.toNat = tile.y.toNat + ty := by
    rw [UInt32.toNat_toUInt64, UInt32.toNat_add,
      UInt32.toNat_ofNat_of_lt' (show ty < 2 ^ 32 by omega)]
    exact Nat.mod_eq_of_lt (by omega)
  have hx : (tile.x + UInt32.ofNat tx).toUInt64.toNat = tile.x.toNat + tx := by
    rw [UInt32.toNat_toUInt64, UInt32.toNat_add,
      UInt32.toNat_ofNat_of_lt' (show tx < 2 ^ 32 by omega)]
    exact Nat.mod_eq_of_lt (by omega)
  have hfour : (4 : UInt64).toNat = 4 := rfl
  refine ⟨?_, by omega⟩
  rw [toNat_cell, hy, hx, UInt32.toNat_toUInt64, hfour]
  · rw [hfour]
    decide
  · rw [hy, hx, UInt32.toNat_toUInt64, hfour]
    omega

theorem toNat_size (hsize : g.imageW.toNat * g.imageH.toNat * 4 < 2 ^ 64) :
    (g.imageW.toUInt64 * g.imageH.toUInt64 * 4).toNat = g.imageW.toNat * g.imageH.toNat * 4 := by
  have hfour : (4 : UInt64).toNat = 4 := rfl
  rw [UInt64.toNat_mul, UInt64.toNat_mul, UInt32.toNat_toUInt64, UInt32.toNat_toUInt64, hfour,
    Nat.mod_eq_of_lt (show g.imageW.toNat * g.imageH.toNat < 2 ^ 64 by omega),
    Nat.mod_eq_of_lt hsize]

theorem blank_meets {want : Nat → UInt8} (hwant : ∀ i, want (i * 4 + 3) = 255) (size : Nat) :
    Meets False (blank size)
      (Paints want { a | ∃ i < size / 4, a = i * 4 + 3 } (List.replicate size 0)) := by
  have hloop : Meets False (blank size) (Paints want
      { a | ∃ i < size / 4, a ∈ ({i * 4 + 3} : Set Nat) } (List.replicate size 0)) := by
    refine Paints.loop fun i hi ys hys => Paints.write (hwant i) ?_
    rw [hys, List.length_replicate]
    omega
  exact hloop

-- The three places of one pixel are written to.
theorem renderPixel_meets (h : Fits g tile data) {want : Nat → UInt8} {ty tx : Nat}
    (hty : ty < tile.h.toNat) (htx : tx < tile.w.toNat) {out : List UInt8}
    (hlength : out.length = g.imageW.toNat * g.imageH.toNat * 4)
    (hwant : ∀ k < 3, ∀ channel, data.rgb[(ty * tile.w.toNat + tx) * 3 + k]? = some channel →
      want (((tile.y.toNat + ty) * g.imageW.toNat + (tile.x.toNat + tx)) * 4 + k) =
        tone channel data.samples) :
    Meets False (renderPixel tone g.imageW tile data ty tx out) (Paints want { a | ∃ k < 3,
      a = ((tile.y.toNat + ty) * g.imageW.toNat + (tile.x.toNat + tx)) * 4 + k } out) := by
  have hloop : Meets False (renderPixel tone g.imageW tile data ty tx out)
      (Paints want { a | ∃ k < 3, a ∈ ({((tile.y.toNat + ty) * g.imageW.toNat +
        (tile.x.toNat + tx)) * 4 + k} : Set Nat) } out) := by
    refine Paints.loop fun k hk ys hys => ?_
    obtain ⟨hsrc, hsrcLt⟩ := h.src hty htx hk
    obtain ⟨hdst, hdstLt⟩ := h.dst hty htx hk
    rw [hsrc, hdst]
    refine (Meets.read hsrcLt).bind fun channel hchannel => ?_
    refine Paints.write (hwant k hk channel hchannel) ?_
    rw [hys, hlength]
    exact hdstLt
  exact hloop

-- The places of a tile are those of its pixels.
theorem drawTile_meets (h : Fits g tile data) {want : Nat → UInt8} {out : List UInt8}
    (hlength : out.length = g.imageW.toNat * g.imageH.toNat * 4)
    (hwant : ∀ p ∈ tile.area, ∀ k < 3, ∀ channel,
      data.rgb[((p.2 - tile.y.toNat) * tile.w.toNat + (p.1 - tile.x.toNat)) * 3 + k]? =
          some channel →
        want ((p.2 * g.imageW.toNat + p.1) * 4 + k) = tone channel data.samples) :
    Meets False (loop tile.h.toNat (fun out ty => loop tile.w.toNat (fun out tx =>
        renderPixel tone g.imageW tile data ty tx out) out) out)
      (Paints want { a | ∃ p ∈ tile.area, ∃ k < 3, a = (p.2 * g.imageW.toNat + p.1) * 4 + k }
        out) := by
  have hloops : Meets False (loop tile.h.toNat (fun out ty => loop tile.w.toNat (fun out tx =>
        renderPixel tone g.imageW tile data ty tx out) out) out)
      (Paints want { a | ∃ ty < tile.h.toNat, a ∈ { a | ∃ tx < tile.w.toNat, a ∈ { a | ∃ k < 3,
        a = ((tile.y.toNat + ty) * g.imageW.toNat + (tile.x.toNat + tx)) * 4 + k } } } out) := by
    refine Paints.loop fun ty hty ys hys => Paints.loop fun tx htx zs hzs => ?_
    refine renderPixel_meets h hty htx (hzs.trans (hys.trans hlength)) fun k hk channel hch => ?_
    refine hwant (tile.x.toNat + tx, tile.y.toNat + ty) ⟨?_, ?_⟩ k hk channel ?_
    · rw [Span.mem_units]
      dsimp only
      omega
    · rw [Span.mem_units]
      dsimp only
      omega
    · dsimp only
      rw [Nat.add_sub_cancel_left, Nat.add_sub_cancel_left]
      exact hch
  refine hloops.mono fun ys hys => hys.congr fun a => ?_
  constructor
  · rintro ⟨ty, hty, tx, htx, k, hk, rfl⟩
    refine ⟨(tile.x.toNat + tx, tile.y.toNat + ty), ⟨?_, ?_⟩, k, hk, rfl⟩
    · rw [Span.mem_units]
      dsimp only
      omega
    · rw [Span.mem_units]
      dsimp only
      omega
  · rintro ⟨p, ⟨hx, hy⟩, k, hk, rfl⟩
    rw [Span.mem_units] at hx hy
    dsimp only at hx hy
    refine ⟨p.2 - tile.y.toNat, by omega, p.1 - tile.x.toNat, by omega, k, hk, ?_⟩
    rw [Nat.add_sub_cancel' hy.1, Nat.add_sub_cancel' hx.1]

end

section

variable {F : Type} [Double F] {tone : UInt32 → F → UInt8} {c : Compositor F} {g : TileGrid}
  {i : UInt32} {data : TileData F} {tile : TileGrid.Tile}

-- What is stored is as large as its tile is said to be.
structure Kept (g : TileGrid) (c : Compositor F) : Prop where
  grid : c.grid = g
  tile : ∀ i data, c.tiles.lookup i = some data → ∃ tile, g.tileAt i = some tile ∧
    data.rgb.length = tile.pixels.toNat * 3 ∧ (tile.pixels = 0 → data.samples = 0.0)

theorem length_rgb (payload : Payload) (n : Nat) :
    ((List.range n).flatMap (pixelRgb F payload)).length = n * 3 := by
  have hone : ∀ p, (pixelRgb F payload p).length = 3 := fun p => by simp [pixelRgb]
  rw [Chunks.length_flatMap_const hone, List.length_range]

theorem acceptTile_kept (h : Kept g c) (index : UInt32) (payload : Payload) :
    Kept g (c.acceptTile index payload).2 := by
  refine ⟨(acceptTile_grid c index payload).trans h.grid, fun i data hdata => ?_⟩
  unfold acceptTile at hdata
  cases htile : c.grid.tileAt index with
  | none =>
      rw [htile] at hdata
      exact h.tile i data hdata
  | some tile =>
      rw [htile] at hdata
      dsimp only at hdata
      split at hdata
      · exact h.tile i data hdata
      · rw [Table.lookup_insert_eq] at hdata
        split at hdata
        · rename_i hsame
          rw [Option.some.injEq] at hdata
          subst hdata
          subst hsame
          refine ⟨tile, h.grid ▸ htile, length_rgb payload _, fun hzero => if_pos hzero⟩
        · exact h.tile i data hdata

theorem accepted_kept (g : TileGrid) (offers : List (UInt32 × Payload)) :
    Kept g (accepted g offers : Compositor F) := by
  have hrun : ∀ c : Compositor F, Kept g c →
      Kept g (offers.foldl (fun c offer => (c.acceptTile offer.1 offer.2).2) c) := by
    induction offers with
    | nil => exact fun c hc => hc
    | cons offer offers ih => exact fun c hc => ih _ (acceptTile_kept hc _ _)
  exact hrun _ ⟨rfl, fun i data hdata => by cases hdata⟩

theorem shown_eq : c.shown i = some data ↔
    c.tiles.lookup i = some data ∧ (0.0 : F) < data.samples := by
  unfold shown
  rw [Option.filter_eq_some_iff, decide_eq_true_iff]

-- What byte `k` of a pixel is to be.
def pixelByte (tone : UInt32 → F → UInt8) (c : Compositor F) (p : Nat × Nat) (k : Nat) : UInt8 :=
  if k = 3 then 255
  else
    match c.grid.tileAt (c.grid.indexOf p), c.shown (c.grid.indexOf p) with
    | some tile, some data =>
        tone (data.rgb.getD
          (((p.2 - tile.y.toNat) * tile.w.toNat + (p.1 - tile.x.toNat)) * 3 + k) 0) data.samples
    | _, _ => 0

def byteAt (tone : UInt32 → F → UInt8) (c : Compositor F) (a : Nat) : UInt8 :=
  pixelByte tone c (a / 4 % c.grid.imageW.toNat, a / 4 / c.grid.imageW.toNat) (a % 4)

theorem byteAt_pixel {p : Nat × Nat} {k : Nat} (hp : p ∈ c.grid.image) (hk : k < 4) :
    byteAt tone c ((p.2 * c.grid.imageW.toNat + p.1) * 4 + k) = pixelByte tone c p k := by
  have hx : p.1 < c.grid.imageW.toNat := hp.1
  obtain ⟨hmod, hdiv⟩ := (TileGrid.row_column hx).mp (Eq.refl (p.2 * c.grid.imageW.toNat + p.1))
  have hpixel : ((p.2 * c.grid.imageW.toNat + p.1) * 4 + k) / 4 =
      p.2 * c.grid.imageW.toNat + p.1 := by omega
  have hbyte : ((p.2 * c.grid.imageW.toNat + p.1) * 4 + k) % 4 = k := by omega
  unfold byteAt
  rw [hpixel, hbyte, ← hmod, ← hdiv]

-- The pixel that a byte of the image belongs to.
theorem exists_pixel {a : Nat} (ha : a < g.imageW.toNat * g.imageH.toNat * 4) :
    ∃ p ∈ g.image, ∃ k < 4, a = (p.2 * g.imageW.toNat + p.1) * 4 + k := by
  have hlt : a / 4 < g.imageW.toNat * g.imageH.toNat := by omega
  have hwidth : 0 < g.imageW.toNat := Nat.pos_of_lt_mul_right hlt
  refine ⟨(a / 4 % g.imageW.toNat, a / 4 / g.imageW.toNat), ⟨Nat.mod_lt _ hwidth, ?_⟩, a % 4,
    Nat.mod_lt _ (by decide), ?_⟩
  · exact Nat.div_lt_of_lt_mul hlt
  · have hsplit := Nat.div_add_mod (a / 4) g.imageW.toNat
    rw [Nat.mul_comm] at hsplit
    dsimp only
    omega

-- The bytes that a tile that is shown gives.
def placesOf (c : Compositor F) (i : UInt32) : Set Nat :=
  { a | ∃ tile data, c.grid.tileAt i = some tile ∧ c.shown i = some data ∧
    ∃ p ∈ tile.area, ∃ k < 3, a = (p.2 * c.grid.imageW.toNat + p.1) * 4 + k }

section

variable (hw : g.tileW ≠ 0) (hh : g.tileH ≠ 0) (hzero : ¬ (0.0 : F) < 0.0) (hkept : Kept g c)

include hw hh hzero hkept

-- A tile that is shown was stored with as many pixels as it covers.
theorem fits_of_shown (hstorable : g.Storable)
    (hsize : g.imageW.toNat * g.imageH.toNat * 4 < 2 ^ 64) (htile : g.tileAt i = some tile)
    (hshown : c.shown i = some data) : Fits g tile data := by
  obtain ⟨hlookup, hsamples⟩ := shown_eq.mp hshown
  obtain ⟨other, hother, hrgb, hnone⟩ := hkept.tile i data hlookup
  obtain rfl : tile = other := Option.some.inj (htile.symm.trans hother)
  obtain ⟨hx, hy, same, hsame, hxs, hys, hws, hhs⟩ :=
    TileGrid.tileAt_exact hw hh (TileGrid.tileAt_lt htile)
  obtain rfl : tile = same := Option.some.inj (htile.symm.trans hsame)
  have hpixels : tile.pixels.toNat = tile.w.toNat * tile.h.toNat % 2 ^ 32 := UInt32.toNat_mul _ _
  have hsmall : tile.w.toNat * tile.h.toNat < 2 ^ 32 := by
    rw [hws, hhs]
    refine (hstorable _ _ hx hy).resolve_right fun hdvd => ?_
    rw [← hws, ← hhs] at hdvd
    rw [Nat.mod_eq_zero_of_dvd hdvd] at hpixels
    rw [hnone (UInt32.toNat_inj.mp hpixels)] at hsamples
    exact hzero hsamples
  rw [Nat.mod_eq_of_lt hsmall] at hpixels
  refine ⟨by omega, by omega, ?_, ?_, hsize⟩
  · rw [hrgb, hpixels, Nat.mul_comm tile.w.toNat]
  · rw [Nat.mul_comm]
    exact hsmall

theorem renderTile_meets (hexact : g.Exact) (hstorable : g.Storable)
    (hsize : g.imageW.toNat * g.imageH.toNat * 4 < 2 ^ 64) (i : UInt32) {out : List UInt8}
    (hlength : out.length = g.imageW.toNat * g.imageH.toNat * 4) :
    Meets False (renderTile tone c i out) (Paints (byteAt tone c) (c.placesOf i) out) := by
  obtain rfl := hkept.grid
  have hidle : c.grid.tileAt i = none ∨ c.shown i = none →
      Paints (byteAt tone c) (c.placesOf i) out out := by
    intro hnone
    refine (Paints.refl _ _).congr fun a => ⟨fun ha => ha.elim, ?_⟩
    rintro ⟨tile, data, htile, hshown, -⟩
    rcases hnone with hnone | hnone
    · rw [hnone] at htile
      cases htile
    · rw [hnone] at hshown
      cases hshown
  unfold renderTile
  cases hlookup : c.tiles.lookup i with
  | none =>
      refine Meets.ok (hidle (.inr ?_))
      unfold shown
      rw [hlookup]
      rfl
  | some data =>
      dsimp only
      by_cases hsamples : (0.0 : F) < data.samples
      · rw [if_neg (not_not.mpr hsamples)]
        have hshown := shown_eq.mpr ⟨hlookup, hsamples⟩
        cases htile : c.grid.tileAt i with
        | none => exact Meets.ok (hidle (.inl htile))
        | some tile =>
            have hfits := fits_of_shown hw hh hzero hkept hstorable hsize htile hshown
            have hwant : ∀ p ∈ tile.area, ∀ k < 3, ∀ channel,
                data.rgb[((p.2 - tile.y.toNat) * tile.w.toNat + (p.1 - tile.x.toNat)) * 3 + k]? =
                    some channel →
                  byteAt tone c ((p.2 * c.grid.imageW.toNat + p.1) * 4 + k) =
                    tone channel data.samples := by
              intro p hp k hk channel hchannel
              obtain ⟨hin, hindex⟩ := (TileGrid.mem_piece_iff hw hh hexact
                (TileGrid.tileAt_lt htile)).mp ⟨tile, htile, hp⟩
              rw [byteAt_pixel hin (by omega), pixelByte, if_neg (by omega), hindex, htile, hshown]
              dsimp only
              rw [List.getD_eq_getElem?_getD, hchannel, Option.getD_some]
            refine (drawTile_meets hfits hlength hwant).mono fun ys hys => hys.congr fun a => ?_
            constructor
            · exact fun ha => ⟨tile, data, htile, hshown, ha⟩
            · rintro ⟨tile', data', htile', hshown', ha⟩
              obtain rfl : tile = tile' := Option.some.inj (htile.symm.trans htile')
              exact ha
      · rw [if_pos hsamples]
        refine Meets.ok (hidle (.inr ?_))
        cases hshown : c.shown i with
        | none => rfl
        | some other =>
            obtain ⟨hsame, hpos⟩ := shown_eq.mp hshown
            rw [hlookup, Option.some.injEq] at hsame
            exact absurd (hsame ▸ hpos) hsamples

omit hkept hzero in
-- What is in no tile that is shown stays black.
theorem byteAt_black {c : Compositor F} (hgrid : c.grid = g) (hexact : g.Exact) {a : Nat}
    (ha : a < g.imageW.toNat * g.imageH.toNat * 4) (halpha : a % 4 ≠ 3)
    (hnone : ∀ i < g.tileCount, a ∉ c.placesOf i) : byteAt tone c a = 0 := by
  subst hgrid
  obtain ⟨p, hp, k, hk, rfl⟩ := exists_pixel ha
  have hthree : k ≠ 3 := by omega
  obtain ⟨-, hlt⟩ := TileGrid.indexOf_lt hw hh hexact hp
  rw [byteAt_pixel hp hk, pixelByte, if_neg hthree]
  obtain ⟨tile, htile, harea⟩ := (TileGrid.mem_piece_iff hw hh hexact hlt).mpr ⟨hp, rfl⟩
  rw [htile]
  cases hshown : c.shown (c.grid.indexOf p) with
  | none => rfl
  | some data =>
      exact absurd ⟨tile, data, htile, hshown, p, harea, k, by omega, rfl⟩ (hnone _ hlt)

-- Every byte of the image is as its pixel wants it.
theorem renderRgba_meets (hexact : g.Exact) (hstorable : g.Storable)
    (hsize : g.imageW.toNat * g.imageH.toNat * 4 < 2 ^ 64) :
    Meets False (renderRgba tone c) fun out =>
      out.length = g.imageW.toNat * g.imageH.toNat * 4 ∧
        ∀ a < out.length, out[a]? = some (byteAt tone c a) := by
  obtain rfl := hkept.grid
  have hnat := toNat_size hsize
  unfold renderRgba
  dsimp only
  by_cases hempty : c.grid.imageW.toUInt64 * c.grid.imageH.toUInt64 * 4 = 0
  · rw [if_pos hempty]
    rw [hempty, UInt64.toNat_zero] at hnat
    exact Meets.ok ⟨hnat, fun a ha => absurd ha (Nat.not_lt_zero a)⟩
  · rw [if_neg hempty, hnat]
    have hthree : ∀ i, byteAt tone c (i * 4 + 3) = 255 := fun i => by
      have hbyte : (i * 4 + 3) % 4 = 3 := by omega
      unfold byteAt pixelByte
      rw [hbyte, if_pos rfl]
    refine (blank_meets hthree _).bind fun ys hys => ?_
    have hlength := hys.length
    rw [List.length_replicate] at hlength
    have htiles : Meets False (loop c.grid.tileCount.toNat
          (fun out index => renderTile tone c (UInt32.ofNat index) out) ys)
        (Paints (byteAt tone c) { a | ∃ index < c.grid.tileCount.toNat,
          a ∈ c.placesOf (UInt32.ofNat index) } ys) :=
      Paints.loop fun index _ zs hzs => renderTile_meets hw hh hzero hkept hexact hstorable hsize _
        (hzs.trans hlength)
    refine htiles.mono fun out hout => ?_
    have hall := hys.trans hout
    have hlen := hall.length
    rw [List.length_replicate] at hlen
    refine ⟨hlen, fun a ha => ?_⟩
    rw [hlen] at ha
    by_cases hwritten : a ∈ { a | ∃ i < c.grid.imageW.toNat * c.grid.imageH.toNat * 4 / 4,
        a = i * 4 + 3 } ∪ { a | ∃ index < c.grid.tileCount.toNat,
          a ∈ c.placesOf (UInt32.ofNat index) }
    · exact hall.painted a hwritten (by rw [List.length_replicate]; exact ha)
    · have halphaNot : a % 4 ≠ 3 := fun hthree =>
        hwritten (.inl ⟨a / 4, by omega, by omega⟩)
      have hnone : ∀ i < c.grid.tileCount, a ∉ c.placesOf i := fun i hi hin =>
        hwritten (.inr ⟨i.toNat, UInt32.lt_iff_toNat_lt.mp hi, by
          rw [UInt32.ofNat_toNat]
          exact hin⟩)
      rw [hall.kept a hwritten, byteAt_black hw hh rfl hexact ha halphaNot hnone,
        List.getElem?_replicate, if_pos ha]

-- The image is the one that is meant, also where it has no pixels.
theorem renderRgba_shows (hexact : g.Exact) (hstorable : g.Storable)
    (hsize : g.imageW.toNat * g.imageH.toNat * 4 < 2 ^ 64) :
    ∃ out, renderRgba tone c = .ok out ∧ Shows tone c out := by
  have hmeets : Meets False (renderRgba tone c) _ :=
    renderRgba_meets hw hh hzero hkept hexact hstorable hsize
  obtain ⟨out, hout, hlength, hbytes⟩ := hmeets.returns
  obtain rfl := hkept.grid
  have hpixel : ∀ p ∈ c.grid.image, ∀ k < 4,
      out[(p.2 * c.grid.imageW.toNat + p.1) * 4 + k]? = some (pixelByte tone c p k) := by
    intro p hp k hk
    have hcell : p.2 * c.grid.imageW.toNat + p.1 < c.grid.imageH.toNat * c.grid.imageW.toNat :=
      cell_lt hp.2 hp.1
    rw [Nat.mul_comm c.grid.imageH.toNat] at hcell
    rw [hbytes _ (by omega), byteAt_pixel hp hk]
  have harea : ∀ {i tile}, c.grid.tileAt i = some tile → ∀ p ∈ tile.area,
      p ∈ c.grid.image ∧ c.grid.indexOf p = i := fun htile p hp =>
    (TileGrid.mem_piece_iff hw hh hexact (TileGrid.tileAt_lt htile)).mp ⟨_, htile, hp⟩
  refine ⟨out, hout, hlength, fun p hp => ?_, fun i tile data htile hshown p hp k hk => ?_,
    fun i tile htile hshown p hp k hk => ?_⟩
  · rw [hpixel p hp 3 (by decide)]
    rfl
  · obtain ⟨hin, hindex⟩ := harea htile p hp
    have hfits := fits_of_shown hw hh hzero hkept hstorable hsize htile hshown
    obtain ⟨⟨hx, hx'⟩, ⟨hy, hy'⟩⟩ := hp
    dsimp only at hx hx' hy hy'
    have hrow : p.2 - tile.y.toNat < tile.h.toNat := by omega
    have hcolumn : p.1 - tile.x.toNat < tile.w.toNat := by omega
    obtain ⟨-, hlt⟩ := hfits.src hrow hcolumn hk
    refine ⟨_, List.getElem?_eq_getElem hlt, ?_⟩
    rw [hpixel p hin k (by omega), pixelByte, if_neg (by omega), hindex, htile, hshown]
    dsimp only
    rw [List.getD_eq_getElem?_getD, List.getElem?_eq_getElem hlt, Option.getD_some]
  · obtain ⟨hin, hindex⟩ := harea htile p hp
    rw [hpixel p hin k (by omega), pixelByte, if_neg (by omega), hindex, htile, hshown]

end

-- A tile of which fewer pixels are stored than it covers is read past the end.
theorem renderRgba_overruns {out : List UInt8} (hgrid : c.grid = g)
    (htile : g.tileAt i = some tile) (hshown : c.shown i = some data)
    (hrgb : data.rgb.length = tile.pixels.toNat * 3)
    (hlarge : tile.pixels.toNat < tile.h.toNat * tile.w.toNat)
    (hsize : g.imageW.toUInt64 * g.imageH.toUInt64 * 4 ≠ 0) : renderRgba tone c ≠ .ok out := by
  subst hgrid
  intro hout
  obtain ⟨hlookup, hsamples⟩ := shown_eq.mp hshown
  have hpixels := tile.pixels.toNat_lt
  have hwidth : 0 < tile.w.toNat := Nat.pos_of_lt_mul_left hlarge
  unfold renderRgba at hout
  dsimp only at hout
  rw [if_neg hsize] at hout
  cases hblank : blank (c.grid.imageW.toUInt64 * c.grid.imageH.toUInt64 * 4).toNat with
  | error stop =>
      rw [hblank] at hout
      cases hout
  | ok ys =>
      rw [hblank] at hout
      obtain ⟨b, b', hturn⟩ := loop_turn hout
        (UInt32.lt_iff_toNat_lt.mp (TileGrid.tileAt_lt htile))
      rw [UInt32.ofNat_toNat, renderTile, hlookup] at hturn
      dsimp only at hturn
      rw [if_neg (not_not.mpr hsamples), htile] at hturn
      -- The first pixel that is not stored.
      have hrow : tile.pixels.toNat / tile.w.toNat < tile.h.toNat :=
        Nat.div_lt_of_lt_mul (by rw [Nat.mul_comm]; exact hlarge)
      have hcolumn : tile.pixels.toNat % tile.w.toNat < tile.w.toNat := Nat.mod_lt _ hwidth
      have hsplit := Nat.div_add_mod tile.pixels.toNat tile.w.toNat
      rw [Nat.mul_comm] at hsplit
      obtain ⟨b₁, b₁', hturn⟩ := loop_turn hturn hrow
      obtain ⟨b₂, b₂', hturn⟩ := loop_turn hturn hcolumn
      obtain ⟨b₃, b₃', hturn⟩ := loop_turn hturn (Nat.zero_lt_succ 2)
      have hty : (UInt64.ofNat (tile.pixels.toNat / tile.w.toNat)).toNat =
          tile.pixels.toNat / tile.w.toNat :=
        UInt64.toNat_ofNat_of_lt' (show _ < 2 ^ 64 by have := tile.h.toNat_lt; omega)
      have htx : (UInt64.ofNat (tile.pixels.toNat % tile.w.toNat)).toNat =
          tile.pixels.toNat % tile.w.toNat :=
        UInt64.toNat_ofNat_of_lt' (show _ < 2 ^ 64 by have := tile.w.toNat_lt; omega)
      have hthree : (3 : UInt64).toNat = 3 := rfl
      have hsrc := toNat_cell (a := UInt64.ofNat (tile.pixels.toNat / tile.w.toNat))
        (n := tile.w.toUInt64) (b := UInt64.ofNat (tile.pixels.toNat % tile.w.toNat)) (s := 3)
        (k := 0) (by decide) (by
          rw [hty, htx, UInt32.toNat_toUInt64, hthree, hsplit]
          omega)
      rw [hty, htx, UInt32.toNat_toUInt64, hthree, hsplit, Nat.add_zero, ← hrgb] at hsrc
      have hread : (Checked.read data.rgb data.rgb.length : Checked Empty UInt32) = fault := by
        unfold Checked.read
        rw [List.getElem?_eq_none (Nat.le_refl _)]
      rw [hsrc, hread] at hturn
      cases hturn

-- Some pixels, the first of which has one sample.
def litPayload (n : Nat) : Payload :=
  List.replicate 12 0 ++ [0, 0, 0x80, 0x3F] ++ List.replicate ((n - 1) * kStride) 0

theorem litPayload_samples (hone : Double.isFinite (Double.ofFloat32 0x3F800000 : F) = true ∧
    (0.0 : F) < Double.ofFloat32 0x3F800000) (n : Nat) :
    (0.0 : F) < pixelSamples (litPayload n) 0 := by
  have hthird : (litPayload n).getD (0 * kStride + 12 + 2) 0 = 0x80 := rfl
  have hfourth : (litPayload n).getD (0 * kStride + 12 + 3) 0 = 0x3F := rfl
  have hread : readFloat32 (litPayload n) (0 * kStride + 12) = 0x3F800000 := by
    show (0 : UInt8).toUInt32 ||| (0 : UInt8).toUInt32 <<< 8 |||
      ((litPayload n).getD (0 * kStride + 12 + 2) 0).toUInt32 <<< 16 |||
      ((litPayload n).getD (0 * kStride + 12 + 3) 0).toUInt32 <<< 24 = _
    rw [hthird, hfourth]
    decide
  unfold pixelSamples
  rw [hread, if_pos hone]
  exact hone.2

theorem length_litPayload {n : Nat} (hn : 0 < n) : (litPayload n).length = n * kStride := by
  have hstride : kStride = 16 := rfl
  simp only [litPayload, List.length_append, List.length_replicate, List.length_cons,
    List.length_nil, hstride]
  omega

theorem accepted_lit (hone : Double.isFinite (Double.ofFloat32 0x3F800000 : F) = true ∧
    (0.0 : F) < Double.ofFloat32 0x3F800000) (htile : g.tileAt i = some tile)
    (hpixels : tile.pixels ≠ 0) :
    ∃ data, (accepted g [(i, litPayload tile.pixels.toNat)] : Compositor F).shown i = some data ∧
      data.rgb.length = tile.pixels.toNat * 3 := by
  have hpos : 0 < tile.pixels.toNat := LittleEndian.toNat_posU32 hpixels
  refine ⟨⟨(List.range tile.pixels.toNat).flatMap (pixelRgb F (litPayload tile.pixels.toNat)),
    pixelSamples (litPayload tile.pixels.toNat) 0⟩,
    shown_eq.mpr ⟨?_, litPayload_samples hone _⟩, length_rgb _ _⟩
  show ((({ grid := g } : Compositor F).acceptTile i
    (litPayload tile.pixels.toNat)).2.tiles).lookup i = _
  unfold acceptTile
  dsimp only
  rw [htile]
  dsimp only
  rw [if_neg (not_not.mpr (length_litPayload hpos)), if_neg hpixels]
  exact AList.lookup_insert _

-- The size of the image is a number of its type.
theorem size_lt_of_renders (h : Renders (F := F) tone g) :
    g.imageW.toNat * g.imageH.toNat * 4 < 2 ^ 64 := by
  obtain ⟨out, hout, hshows⟩ := h []
  have hlength : out.length = g.imageW.toNat * g.imageH.toNat * 4 := hshows.length
  have hidle : ∀ (n : Nat) (ys : List UInt8), loop n (fun out index =>
      renderTile tone (accepted g [] : Compositor F) (UInt32.ofNat index) out) ys = .ok ys := by
    intro n ys
    unfold loop
    induction n with
    | zero => rfl
    | succ n ih =>
        rw [List.range_succ, List.foldlM_append, ih]
        rfl
  unfold renderRgba at hout
  dsimp only at hout
  split at hout
  · rw [Except.ok.injEq] at hout
    rw [← hout] at hlength
    rw [← hlength]
    exact Nat.two_pow_pos 64
  · let white : Nat → UInt8 := fun _ => 255
    have hwhite : ∀ i, white (i * 4 + 3) = 255 := fun _ => rfl
    obtain ⟨ys, hblank, hpaints⟩ := (blank_meets hwhite
      (g.imageW.toUInt64 * g.imageH.toUInt64 * 4).toNat).returns
    have hwhole : blank (g.imageW.toUInt64 * g.imageH.toUInt64 * 4).toNat >>= (fun out =>
        loop g.tileCount.toNat (fun out index =>
          renderTile tone (accepted g [] : Compositor F) (UInt32.ofNat index) out) out) =
        .ok out := hout
    rw [hblank] at hwhole
    obtain rfl : ys = out := Except.ok.inj ((hidle _ ys).symm.trans hwhole)
    rw [← hlength, hpaints.length, List.length_replicate]
    exact UInt64.toNat_lt _

theorem storable_of_renders (hw : g.tileW ≠ 0) (hh : g.tileH ≠ 0)
    (hone : Double.isFinite (Double.ofFloat32 0x3F800000 : F) = true ∧
      (0.0 : F) < Double.ofFloat32 0x3F800000)
    (hexact : g.Exact) (h : Renders (F := F) tone g) : g.Storable := by
  intro q r hx hy
  by_contra hlarge
  rw [not_or, Nat.not_lt] at hlarge
  obtain ⟨hover, hdvd⟩ := hlarge
  have hsize := size_lt_of_renders h
  -- The tile whose first pixel this is.
  have hposW := LittleEndian.toNat_posU32 hw
  have hposH : 0 < g.tileH.toNat := LittleEndian.toNat_posU32 hh
  have hin : (q * g.tileW.toNat, r * g.tileH.toNat) ∈ g.image := ⟨hx, hy⟩
  obtain ⟨hindex, hlt⟩ := TileGrid.indexOf_lt hw hh hexact hin
  obtain ⟨hcolumns, -⟩ := TileGrid.place_lt hw hh hin
  rw [Nat.mul_div_cancel _ hposW, Nat.mul_div_cancel _ hposH] at hindex
  rw [Nat.mul_div_cancel _ hposW] at hcolumns
  obtain ⟨hmod, hdiv⟩ := (TileGrid.row_column hcolumns).mp hindex.symm
  obtain ⟨-, -, tile, htile, -, -, hws, hhs⟩ := TileGrid.tileAt_exact hw hh hlt
  rw [← hmod] at hws
  rw [← hdiv] at hhs
  rw [← hws, ← hhs] at hover hdvd
  have hpixels : tile.pixels.toNat = tile.w.toNat * tile.h.toNat % 2 ^ 32 := UInt32.toNat_mul _ _
  have hpos : 0 < tile.pixels.toNat := by
    rw [hpixels]
    exact Nat.pos_of_ne_zero fun hnone => hdvd (Nat.dvd_of_mod_eq_zero hnone)
  have hnonzero : tile.pixels ≠ 0 := fun hnone => by
    rw [hnone] at hpos
    exact absurd hpos (Nat.not_lt_zero _)
  obtain ⟨out, hout, -⟩ := h [(_, litPayload tile.pixels.toNat)]
  obtain ⟨data, hshown, hrgb⟩ := accepted_lit hone htile hnonzero
  refine renderRgba_overruns (accepted_kept g _).grid htile hshown hrgb ?_ ?_ hout
  · have hsmall := tile.pixels.toNat_lt
    rw [Nat.mul_comm]
    omega
  · intro hnone
    have hnat := toNat_size hsize
    have hx' : 0 < g.imageW.toNat := by omega
    have hy' : 0 < g.imageH.toNat := by omega
    have harea := Nat.mul_pos hx' hy'
    have hzero : g.imageW.toUInt64 * g.imageH.toUInt64 * 4 = 0 := hnone
    rw [hzero, UInt64.toNat_zero] at hnat
    omega

-- An image without pixels is drawn whatever the tiles are.
theorem renders_empty (hw : g.tileW ≠ 0) (hh : g.tileH ≠ 0)
    (hnone : g.imageW = 0 ∨ g.imageH = 0) : Renders (F := F) tone g := by
  intro offers
  have hgrid : (accepted g offers : Compositor F).grid = g := (accepted_kept g offers).grid
  have harea : g.imageW.toNat * g.imageH.toNat = 0 := by
    rcases hnone with h | h
    · rw [h]
      exact Nat.zero_mul _
    · rw [h]
      exact Nat.mul_zero _
  have hsize : g.imageW.toUInt64 * g.imageH.toUInt64 * 4 = 0 := by
    rw [← UInt64.toNat_inj, toNat_size (by rw [harea]; decide), harea]
    rfl
  have htiles : ∀ i tile, g.tileAt i ≠ some tile := by
    intro i tile htile
    obtain ⟨hx, hy, -⟩ := TileGrid.tileAt_exact hw hh (TileGrid.tileAt_lt htile)
    have hpos := Nat.mul_pos (Nat.zero_lt_of_lt hx) (Nat.zero_lt_of_lt hy)
    omega
  refine ⟨[], ?_, ?_, fun p hp => ?_, fun i tile data htile => ?_, fun i tile htile => ?_⟩
  · unfold renderRgba
    dsimp only
    rw [hgrid, if_pos hsize]
  · rw [hgrid, harea]
    rfl
  · rw [hgrid] at hp
    have hpos := Nat.mul_pos (Nat.zero_lt_of_lt hp.1) (Nat.zero_lt_of_lt hp.2)
    omega
  · rw [hgrid] at htile
    exact absurd htile (htiles i tile)
  · rw [hgrid] at htile
    exact absurd htile (htiles i tile)

theorem tiles_and_image_iff (hzero : ¬ (0.0 : F) < 0.0)
    (hone : Double.isFinite (Double.ofFloat32 0x3F800000 : F) = true ∧
      (0.0 : F) < Double.ofFloat32 0x3F800000)
    (tone : UInt32 → F → UInt8) (g : TileGrid) (hw : g.tileW ≠ 0) (hh : g.tileH ≠ 0) :
    (g.Partitions ∧ Renders tone g) ↔ g.imageW = 0 ∨ g.imageH = 0 ∨
      (g.Exact ∧ g.Storable ∧ g.imageW.toNat * g.imageH.toNat * 4 < 2 ^ 64) := by
  constructor
  · rintro ⟨hparts, hrenders⟩
    rcases (TileGrid.partitions_iff hw hh).mp hparts with h | h | hexact
    · exact .inl h
    · exact .inr (.inl h)
    · exact .inr (.inr ⟨hexact, storable_of_renders hw hh hone hexact hrenders,
        size_lt_of_renders hrenders⟩)
  · intro h
    rw [TileGrid.partitions_iff hw hh]
    rcases h with h | h | ⟨hexact, hstorable, hsize⟩
    · exact ⟨.inl h, renders_empty hw hh (.inl h)⟩
    · exact ⟨.inr (.inl h), renders_empty hw hh (.inr h)⟩
    · exact ⟨.inr (.inr hexact), fun offers =>
        renderRgba_shows hw hh hzero (accepted_kept g offers) hexact hstorable hsize⟩

end

-- The last column and the last row are clipped.
def ragged : TileGrid := ⟨100, 70, 64, 64⟩

theorem tiles_and_image_iff_ragged :
    ragged.Partitions ∧ Renders (F := Rat) (fun _ _ => 0) ragged := by
  have hzero : ¬ (0.0 : Rat) < 0.0 := fun h => absurd h (lt_irrefl _)
  have hone : Double.isFinite (Double.ofFloat32 0x3F800000 : Rat) = true ∧
      (0.0 : Rat) < Double.ofFloat32 0x3F800000 := by decide +kernel
  refine (tiles_and_image_iff hzero hone (fun _ _ => 0) ragged (by decide) (by decide)).mpr
    (.inr (.inr ⟨⟨by decide, by decide, by decide⟩, fun q r _ _ => .inl ?_, by decide⟩))
  calc
    min 64 (100 - q * 64) * min 64 (70 - r * 64) ≤ 64 * 64 :=
      Nat.mul_le_mul (Nat.min_le_left _ _) (Nat.min_le_left _ _)
    _ < 2 ^ 32 := by decide

-- One row of pixels that is as wide as its type allows. No tile of it is counted.
def widest : TileGrid := ⟨4294967295, 1, 64, 64⟩

theorem widest_not_cut : widest.tileCount = 0 ∧ ¬ ∀ g : TileGrid, g.tileW ≠ 0 → g.tileH ≠ 0 →
    g.Partitions ∧ Renders (F := Rat) (fun _ _ => 0) g := by
  refine ⟨by decide, fun hall => ?_⟩
  obtain ⟨hparts, -⟩ := hall widest (by decide) (by decide)
  rcases (TileGrid.partitions_iff (by decide) (by decide)).mp hparts with h | h | h
  · exact absurd h (by decide)
  · exact absurd h (by decide)
  · exact absurd h.width (by decide)

end Compositor

end P2pGpu.Coordinator
