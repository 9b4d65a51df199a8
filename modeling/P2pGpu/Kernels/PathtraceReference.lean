import Mathlib.Analysis.SpecialFunctions.Log.Base
import P2pGpu.Kernels.PathtraceTile.Nearest

namespace P2pGpu.Kernels

open P2pGpu.Coordinator P2pGpu.Scene V3

namespace PathtraceReference

section

variable {K : Type} [Field K] [LinearOrder K] [SquareRoot K]

def norm (v : V3 K) : V3 K :=
  let len := SquareRoot.sqrt (dot v v)
  if 0 < len then v.scale (1 / len) else v

def tracer : Tracer K where
  tMin := 1e-4
  tMax := 1e30
  parallel := 1e-12
  sphereNormal v radius := v.scale (1 / radius)
  faceNormal across dir :=
    let n := norm across
    if 0 < dot n dir then n.scale (-1) else n

-- Every primitive is tried, and no tree is walked.
def trace (b : Bvh) (origin dir : V3 K) : Hit K :=
  b.prims.foldl (fun best p => closer tracer origin dir p best) (miss tracer)

end

-- The product that says how far a ray is from being parallel to a triangle.
def determinant {K : Type} [Field K] (p : BvhPrim) (dir : V3 K) : K :=
  dot (ofBits p.b - ofBits p.a) (cross dir (ofBits p.c - ofBits p.a))

-- Nothing is hit between the least distances of the two programs, and no triangle is
-- parallel to the ray for one of them only.
structure Clear {K : Type} [Field K] [LinearOrder K] [SquareRoot K] (b : Bvh)
    (origin dir : V3 K) : Prop where
  near : ∀ p ∈ b.prims, ∀ h, strike tracer origin dir p = some h → 1e-3 ≤ h.t
  flat : ∀ p ∈ b.prims, p.kind ≠ kPrimSphere → |determinant p dir| < 1e-8 →
    |determinant p dir| < 1e-12

section

variable {K : Type} [LinearOrder K] {m : K}

-- A greater least distance changes nothing where all hits are past it.
theorem single_raise {t tMin tMin' : K} {found : K → Hit K} (hfound : (found t).t = t)
    (hle : tMin ≤ tMin')
    (hclear : ∀ h, (if t < tMin ∨ m < t then none else some (found t)) = some h → tMin' ≤ h.t) :
    (if t < tMin' ∨ m < t then none else some (found t)) =
      if t < tMin ∨ m < t then none else some (found t) := by
  by_cases hout : t < tMin ∨ m < t
  · have hout' : t < tMin' ∨ m < t := hout.imp_left hle.trans_lt'
    rw [if_pos hout, if_pos hout']
  · have hpast := hclear (found t) (if_neg hout)
    rw [hfound] at hpast
    have hin : ¬ (t < tMin' ∨ m < t) := not_or.mpr ⟨hpast.not_gt, (not_or.mp hout).2⟩
    rw [if_neg hout, if_neg hin]

theorem roots_raise {near far tMin tMin' : K} {found : K → Hit K} (hfound : ∀ t, (found t).t = t)
    (hle : tMin ≤ tMin')
    (hclear : ∀ h, (if near < tMin ∨ m < near then
      if far < tMin ∨ m < far then none else some (found far)
    else some (found near)) = some h → tMin' ≤ h.t) :
    (if near < tMin' ∨ m < near then
      if far < tMin' ∨ m < far then none else some (found far)
    else some (found near)) =
    if near < tMin ∨ m < near then
      if far < tMin ∨ m < far then none else some (found far)
    else some (found near) := by
  by_cases hout : near < tMin ∨ m < near
  · have hout' : near < tMin' ∨ m < near := hout.imp_left hle.trans_lt'
    rw [if_pos hout] at hclear
    rw [if_pos hout, if_pos hout']
    exact single_raise (hfound far) hle hclear
  · rw [if_neg hout] at hclear
    have hpast := hclear (found near) rfl
    rw [hfound] at hpast
    have hin : ¬ (near < tMin' ∨ m < near) := not_or.mpr ⟨hpast.not_gt, (not_or.mp hout).2⟩
    rw [if_neg hout, if_neg hin]

end

theorem dot_cross_swap {K : Type} [Field K] (e₁ e₂ dir : V3 K) :
    dot e₁ (cross dir e₂) = -dot (cross e₁ e₂) dir := by
  simp only [dot, cross]
  ring

theorem dot_self_nonneg {K : Type} [Field K] [LinearOrder K] [IsStrictOrderedRing K] (v : V3 K) :
    0 ≤ dot v v := by
  have hx := mul_self_nonneg v.x
  have hy := mul_self_nonneg v.y
  have hz := mul_self_nonneg v.z
  unfold dot
  linarith

section

variable {K : Type} [Field K] [LinearOrder K] [IsStrictOrderedRing K] [SquareRoot K]
  {origin dir : V3 K} {p : BvhPrim} {b : Bvh}

-- A direction that is not across the ray has a length.
theorem length_pos {v : V3 K} (h : dot v dir ≠ 0) : 0 < SquareRoot.sqrt (dot v v) := by
  have hself := dot_self_nonneg v
  apply lt_of_le_of_ne (SquareRoot.sqrt_nonneg _ hself)
  intro hzero
  apply h
  have hsquare := SquareRoot.mul_self_sqrt _ hself
  rw [← hzero, mul_zero] at hsquare
  have hx := mul_self_nonneg v.x
  have hy := mul_self_nonneg v.y
  have hz := mul_self_nonneg v.z
  have hsum : v.x * v.x + v.y * v.y + v.z * v.z = 0 := hsquare.symm
  have hx₀ : v.x = 0 := mul_self_eq_zero.mp (by linarith)
  have hy₀ : v.y = 0 := mul_self_eq_zero.mp (by linarith)
  have hz₀ : v.z = 0 := mul_self_eq_zero.mp (by linarith)
  simp [dot, hx₀, hy₀, hz₀]

-- Both programs turn the normal of a triangle against the ray.
theorem faceNormal_eq {across : V3 K} (h : dot across dir ≠ 0) :
    PathtraceTile.tracer.faceNormal across dir = tracer.faceNormal across dir := by
  have hlength := length_pos h
  have hsame : PathtraceTile.normalize across = norm across := by
    unfold PathtraceTile.normalize norm
    dsimp only
    rw [if_pos hlength]
    apply V3.ext <;> exact div_eq_mul_one_div _ _
  have hne : dot (norm across) dir ≠ 0 := by
    unfold norm
    dsimp only
    rw [if_pos hlength]
    have hscaled : dot (across.scale (1 / SquareRoot.sqrt (dot across across))) dir =
        dot across dir * (1 / SquareRoot.sqrt (dot across across)) := by
      simp only [dot, scale_x, scale_y, scale_z]
      ring
    rw [hscaled]
    exact mul_ne_zero h (one_div_ne_zero hlength.ne')
  show (if dot (PathtraceTile.normalize across) dir < 0 then _ else -PathtraceTile.normalize across)
    = if 0 < dot (norm across) dir then (norm across).scale (-1) else norm across
  rw [hsame]
  rcases lt_or_gt_of_ne hne with hneg | hpos
  · rw [if_pos hneg, if_neg hneg.not_gt]
  · rw [if_neg hpos.not_gt, if_pos hpos]
    apply V3.ext <;> exact (mul_neg_one _).symm

theorem tMin_le : (tracer : Tracer K).tMin ≤ PathtraceTile.tracer.tMin := by
  show (1e-4 : K) ≤ 1e-3
  norm_num

theorem strike_sphere (hkind : p.kind = kPrimSphere)
    (hnear : ∀ h, strike tracer origin dir p = some h → 1e-3 ≤ h.t) :
    strike PathtraceTile.tracer origin dir p = strike tracer origin dir p := by
  unfold strike hitPrim at hnear ⊢
  rw [if_pos hkind] at hnear ⊢
  rw [if_pos hkind]
  unfold hitSphere at hnear ⊢
  dsimp only at hnear ⊢
  have hfound : sphereHit PathtraceTile.tracer p origin dir = sphereHit tracer p origin dir := by
    funext root
    unfold sphereHit
    congr 1
    apply V3.ext <;> exact div_eq_mul_one_div _ _
  rw [hfound]
  split
  · rfl
  · rename_i hdisc
    rw [if_neg hdisc] at hnear
    exact roots_raise (fun _ => rfl) tMin_le hnear

theorem strike_triangle (hkind : p.kind ≠ kPrimSphere)
    (hnear : ∀ h, strike tracer origin dir p = some h → 1e-3 ≤ h.t)
    (hflat : |determinant p dir| < 1e-8 → |determinant p dir| < 1e-12) :
    strike PathtraceTile.tracer origin dir p = strike tracer origin dir p := by
  unfold strike hitPrim at hnear ⊢
  rw [if_neg hkind] at hnear ⊢
  rw [if_neg hkind]
  unfold hitTriangle at hnear ⊢
  dsimp only at hnear ⊢
  have hless : (1e-12 : K) ≤ 1e-8 := by norm_num
  by_cases hparallel : |determinant p dir| < 1e-12
  · have hkernel : |determinant p dir| < PathtraceTile.tracer.parallel := hparallel.trans_le hless
    have hreference : |determinant p dir| < (tracer : Tracer K).parallel := hparallel
    unfold determinant at hkernel hreference
    rw [if_pos hkernel, if_pos hreference]
  · have hkernel : ¬ |determinant p dir| < PathtraceTile.tracer.parallel :=
      fun h => hparallel (hflat h)
    have hreference : ¬ |determinant p dir| < (tracer : Tracer K).parallel := hparallel
    have hpos : (0 : K) < 1e-12 := by positivity
    have hne : determinant p dir ≠ 0 := abs_pos.mp (hpos.trans_le (not_lt.mp hparallel))
    unfold determinant at hkernel hreference hne
    rw [dot_cross_swap] at hne
    rw [if_neg hreference] at hnear
    rw [if_neg hkernel, if_neg hreference, faceNormal_eq (neg_ne_zero.mp hne)]
    split
    · rfl
    · rename_i hu
      rw [if_neg hu] at hnear
      split
      · rfl
      · rename_i hv
        rw [if_neg hv] at hnear
        exact single_raise rfl tMin_le hnear

-- Of each primitive both programs find the same hit.
theorem Clear.strike_eq (h : Clear b origin dir) (hp : p ∈ b.prims) :
    strike PathtraceTile.tracer origin dir p = strike tracer origin dir p := by
  by_cases hkind : p.kind = kPrimSphere
  · exact strike_sphere hkind (h.near p hp)
  · exact strike_triangle hkind (h.near p hp) (h.flat p hp hkind)

theorem foldl_closer {T : Tracer K} (hd : 0 < dot dir dir) (prims : List BvhPrim) {best : Hit K}
    (hbest : best.t ≤ T.tMax) :
    prims.foldl (fun best p => closer T origin dir p best) best =
      scan (strike T origin dir) Hit.t prims best := by
  induction prims generalizing best with
  | nil => rfl
  | cons p prims ih =>
      have hnext : (nearer (strike T origin dir) Hit.t p best).t ≤ T.tMax :=
        (nearer_le p best).trans hbest
      rw [List.foldl_cons, closer_eq hd hbest, ih hnext]
      rfl

theorem trace_nearest (hd : 0 < dot dir dir) (b : Bvh) :
    Nearest (strike tracer origin dir) Hit.t b.prims (miss tracer) (trace b origin dir) := by
  have hscan : trace b origin dir = scan (strike tracer origin dir) Hit.t b.prims (miss tracer) :=
    foldl_closer hd b.prims (le_refl _)
  rw [hscan]
  exact Nearest.scanned _ _ _ _

-- Where both find something nearest, it is at one place.
theorem nearest_place {T : Tracer K} {best best' : Hit K} (hd : 0 < dot dir dir)
    (hparallel : 0 < T.parallel)
    (h : Nearest (strike T origin dir) Hit.t b.prims (miss T) best)
    (h' : Nearest (strike T origin dir) Hit.t b.prims (miss T) best') :
    best.hit = best'.hit ∧ best.t = best'.t ∧ best.position = best'.position := by
  have hkey := h.key_eq h'
  rcases h.origin with hmiss | ⟨p, hp, hstrike, -⟩
  · have hmiss' := (h.start_iff h').mp hmiss
    rw [hmiss, hmiss']
    exact ⟨rfl, rfl, rfl⟩
  · rcases h'.origin with hmiss' | ⟨p', hp', hstrike', -⟩
    · have hmiss := (h.start_iff h').mpr hmiss'
      rw [hmiss, hmiss']
      exact ⟨rfl, rfl, rfl⟩
    · have hstruck := strike_spec hd hparallel hstrike
      have hstruck' := strike_spec hd hparallel hstrike'
      refine ⟨hstruck.hit.trans hstruck'.hit.symm, hkey, ?_⟩
      rw [hstruck.position, hstruck'.position, hkey]

theorem tracer_parallel : 0 < (tracer : Tracer K).parallel := by
  show (0 : K) < 1e-12
  positivity

-- The kernel's walk through the tree and the reference, which tries every primitive, see the
-- same point. They see the same in full where no two primitives are hit at one distance.
theorem trace_agrees {bytes : List UInt8} (hload : loadBvh bytes = .ok b)
    (hturns : ∀ i n w, b.nodes[i]? = some n → n.isLeaf = false →
      IndexTree.Under (kidsOf b.nodes) i w → w ≤ 62)
    (hcover : ∀ p < b.prims.length, ∃ i, InLeaf b.nodes i p) (hboxes : PathtraceTile.Boxed K b)
    (hdir : PathtraceTile.Usable dir) (hclear : Clear b origin dir) :
    ∃ t, PathtraceTile.trace (PathtraceTile.rayOf origin dir) b b.nodes.length = some t ∧
      (t.best.hit = (trace b origin dir).hit ∧ t.best.t = (trace b origin dir).t ∧
        t.best.position = (trace b origin dir).position) ∧
      ((∀ p ∈ b.prims, ∀ p' ∈ b.prims, ∀ h h', strike tracer origin dir p = some h →
        strike tracer origin dir p' = some h' → h.t = h'.t → h = h') →
        t.best = trace b origin dir) := by
  have hd := PathtraceTile.dot_pos hdir
  obtain ⟨t, ht, hnearest⟩ := PathtraceTile.trace_nearest hload hturns hcover hboxes hdir
  have hwalked : Nearest (strike tracer origin dir) Hit.t b.prims (miss tracer) t.best :=
    hnearest.congr fun p hp => hclear.strike_eq hp
  have hreference : Nearest (strike tracer origin dir) Hit.t b.prims (miss tracer)
      (trace b origin dir) := trace_nearest hd b
  exact ⟨t, ht, nearest_place hd tracer_parallel hwalked hreference,
    fun hties => hwalked.unique hreference hties⟩

end

noncomputable instance : SquareRoot ℝ where
  sqrt := Real.sqrt
  sqrt_nonneg x _ := Real.sqrt_nonneg x
  mul_self_sqrt _ := Real.mul_self_sqrt

-- A sphere about the origin, in a box that it touches.
def ball : Bvh where
  nodes := [{
    bmin := ⟨0xBF800000, 0xBF800000, 0xBF800000⟩
    bmax := ⟨0x3F800000, 0x3F800000, 0x3F800000⟩
    countAndLeaf := kLeafFlag ||| 1 }]
  prims := [{ radius := 0x3F800000 }]
  materials := [{}]
  maxDepth := 1
  maxLeafPrims := 1

theorem float32Value_ball : float32Value 0 = 0 ∧ float32Value 0x3F800000 = 1 ∧
    float32Value 0xBF800000 = -1 := by
  decide +kernel

theorem onPrim_ball {v : V3 ℝ} (h : OnPrim { radius := 0x3F800000 } v) :
    v.x * v.x + v.y * v.y + v.z * v.z = 1 := by
  obtain ⟨hzero, hone, -⟩ := float32Value_ball
  have hon : dot (v - ofBits ⟨0, 0, 0⟩) (v - ofBits ⟨0, 0, 0⟩) =
      (float32Value 0x3F800000 * float32Value 0x3F800000 : ℝ) := (if_pos rfl).mp h
  simp only [dot, sub_x, sub_y, sub_z, ofBits, hzero, hone] at hon
  simpa using hon

theorem ball_boxed : PathtraceTile.Boxed ℝ ball := by
  intro i j p n q hn _ _ hq v hv
  obtain ⟨-, hone, hneg⟩ := float32Value_ball
  obtain rfl := List.mem_singleton.mp (List.mem_of_getElem? hn)
  obtain rfl := List.mem_singleton.mp (List.mem_of_getElem? hq)
  have hsum := onPrim_ball hv
  have hx := mul_self_nonneg v.x
  have hy := mul_self_nonneg v.y
  have hz := mul_self_nonneg v.z
  have hbound : ∀ x : ℝ, x * x ≤ 1 → ((-1 : Rat) : ℝ) ≤ x ∧ x ≤ ((1 : Rat) : ℝ) := by
    intro x h
    have habs := abs_le_one_iff_mul_self_le_one.mpr h
    rw [Rat.cast_neg, Rat.cast_one]
    exact abs_le.mp habs
  simp only [ofBits, hone, hneg]
  exact ⟨hbound _ (by linarith), hbound _ (by linarith), hbound _ (by linarith)⟩

theorem ball_clear : Clear ball (⟨-4, -4, -4⟩ : V3 ℝ) ⟨1, 1, 1⟩ := by
  have hd : 0 < dot (⟨1, 1, 1⟩ : V3 ℝ) ⟨1, 1, 1⟩ := by norm_num [dot]
  refine ⟨fun p hp h hh => ?_, fun p hp hkind => ?_⟩
  · obtain rfl := List.mem_singleton.mp hp
    have hstruck := strike_spec hd tracer_parallel hh
    have hsum := onPrim_ball hstruck.on
    rw [hstruck.position] at hsum
    simp only [add_x, add_y, add_z, scale_x, scale_y, scale_z] at hsum
    nlinarith [hstruck.low]
  · obtain rfl := List.mem_singleton.mp hp
    exact absurd rfl hkind

theorem trace_agrees_ball : ∃ t, PathtraceTile.trace
      (PathtraceTile.rayOf (⟨-4, -4, -4⟩ : V3 ℝ) ⟨1, 1, 1⟩) ball 1 = some t ∧
    t.best = trace ball ⟨-4, -4, -4⟩ ⟨1, 1, 1⟩ := by
  have hleaves : ∀ n ∈ ball.nodes, n.isLeaf = true := by decide
  have hcover : ∀ p < ball.prims.length, ∃ i, InLeaf ball.nodes i p := by
    intro p hp
    exact ⟨0, _, rfl, by decide, Nat.zero_le _, hp⟩
  have hdir : PathtraceTile.Usable (⟨1, 1, 1⟩ : V3 ℝ) := by
    constructor <;> norm_num
  obtain ⟨t, ht, -, hsame⟩ := trace_agrees (by decide +kernel : loadBvh (blobOf ball) = .ok ball)
    (fun i n w hn hleaf => absurd (hleaves n (List.mem_of_getElem? hn)) (by rw [hleaf]; decide))
    hcover ball_boxed hdir ball_clear
  refine ⟨t, ht, hsame fun p hp p' hp' h h' hh hh' _ => ?_⟩
  rw [List.mem_singleton.mp hp] at hh
  rw [List.mem_singleton.mp hp', hh] at hh'
  exact Option.some.inj hh'

end PathtraceReference

end P2pGpu.Kernels
