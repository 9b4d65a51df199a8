import Mathlib.Algebra.Order.Floor.Ring
import P2pGpu.Coordinator.Double
import P2pGpu.Data.Extended

namespace P2pGpu.Coordinator

universe u

-- What a field is not required to have.
class Roots (K : Type u) where
  sqrt : K → K
  log10 : K → K

class LawfulRoots (K : Type u) [Zero K] [LT K] [Roots K] : Prop where
  sqrt_pos : ∀ x : K, 0 < x → 0 < Roots.sqrt x

-- Arithmetic that does not round, with the special values of a `double`.
namespace Exact

open Extended

section

variable {K : Type} [Field K]

def fractionBits (bits : UInt32) : Nat := bits.toNat % 2 ^ 23

def exponentBits (bits : UInt32) : Nat := bits.toNat / 2 ^ 23 % 2 ^ 8

def signBit (bits : UInt32) : Bool := bits.toNat / 2 ^ 31 ≠ 0

def ofFloat32 (bits : UInt32) : Extended K :=
  if exponentBits bits = 255 then
    if fractionBits bits = 0 then infinite (signBit bits) else nan
  else finite (float32Value bits : K)

end

section

variable {K : Type} [Field K] [LinearOrder K] [FloorRing K] [Roots K]

-- A value that no number of the target type is near to is not converted.
def toUInt64 : Extended K → UInt64
  | finite x => UInt64.ofNat ⌊x⌋.toNat
  | _ => 0

def sqrt : Extended K → Extended K
  | finite x => if x < 0 then nan else finite (Roots.sqrt x)
  | infinite false => infinite false
  | _ => nan

def log10 : Extended K → Extended K
  | finite x =>
      if x < 0 then nan else if x = 0 then infinite true else finite (Roots.log10 x)
  | infinite false => infinite false
  | _ => nan

instance : Double (Extended K) where
  decLt := inferInstance
  decLe := inferInstance
  beq := Extended.beq
  ofUInt64 n := finite (n.toNat : K)
  toUInt64 := toUInt64
  ofFloat32 := ofFloat32
  isNaN := Extended.isNaN
  isFinite := Extended.isFinite
  abs := Extended.abs
  sqrt := sqrt
  log10 := log10
  infinity := infinite false

end

section

variable {K : Type} [Field K] [LinearOrder K] [FloorRing K] [Roots K] {a b : Extended K}

theorem ofFloat32_of_number {bits : UInt32} (h : exponentBits bits ≠ 255) :
    (Double.ofFloat32 bits : Extended K) = finite (float32Value bits : K) := if_neg h

theorem positive_sqrt [LawfulRoots K] (h : Positive a) : Positive (Double.sqrt a) := by
  obtain ⟨x, hx, rfl⟩ := h
  refine ⟨Roots.sqrt x, LawfulRoots.sqrt_pos x hx, ?_⟩
  show (if x < 0 then nan else finite (Roots.sqrt x)) = _
  rw [if_neg hx.not_gt]

-- The larger of two, of which one is positive and the other a number.
theorem positive_max (ha : a.isFinite = true) (hb : Positive b) : Positive (Double.max a b) := by
  obtain ⟨x, rfl⟩ := isFinite_iff.mp ha
  obtain ⟨y, hy, rfl⟩ := hb
  unfold Double.max
  split
  · exact ⟨y, hy, rfl⟩
  · rename_i hle
    exact ⟨x, hy.trans_le (not_lt.mp (mt finite_lt.mpr hle)), rfl⟩

theorem positive_ofUInt64 [IsStrictOrderedRing K] {n : Nat} (hpos : 0 < n) (hlt : n < 2 ^ 64) :
    Positive (Double.ofUInt64 (UInt64.ofNat n) : Extended K) := by
  refine ⟨n, Nat.cast_pos.mpr hpos, ?_⟩
  show finite ((UInt64.ofNat n).toNat : K) = _
  rw [UInt64.toNat_ofNat_of_lt' hlt]

theorem beq_zero_of_pos {y : Extended K} (h : 0.0 < y) : Double.beq y 0.0 = false := by
  have hzero : (0.0 : Extended K) = finite 0 := zero_scientific
  rw [hzero] at h ⊢
  exact beq_zero_of_lt h

theorem beq_zero_of_positive (h : Positive a) : Double.beq a 0.0 = false := by
  apply beq_zero_of_pos
  rw [zero_scientific]
  exact h.lt

end

end Exact

instance : Roots Rat := ⟨Double.sqrt, Double.log10⟩

end P2pGpu.Coordinator
