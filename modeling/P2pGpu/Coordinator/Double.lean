import Mathlib.Data.Nat.Log
import Mathlib.Data.Rat.Defs
import Mathlib.Algebra.Order.Ring.Unbundled.Rat
import Mathlib.Data.Rat.Floor

namespace P2pGpu.Coordinator

-- What the coordinator uses of a C++ `double`. Nothing is assumed about
-- rounding: results about the program hold of every such type.
class Double (F : Type) extends Add F, Sub F, Mul F, Div F, LT F, LE F, OfScientific F where
  decLt : DecidableLT F
  decLe : DecidableLE F
  beq : F → F → Bool
  ofUInt64 : UInt64 → F
  toUInt64 : F → UInt64
  -- A `float` stands for its bits until it is widened.
  ofFloat32 : UInt32 → F
  isNaN : F → Bool
  isFinite : F → Bool
  abs : F → F
  sqrt : F → F
  log10 : F → F
  infinity : F

namespace Double

variable {F : Type} [Double F]

instance : DecidableLT F := decLt
instance : DecidableLE F := decLe

-- The standard library's, with its answer when the arguments do not compare.
def max (a b : F) : F := if a < b then b else a

def min (a b : F) : F := if b < a then b else a

def clamp (v lo hi : F) : F := if v < lo then lo else if hi < v then hi else v

end Double

-- Exact arithmetic, for runs on concrete inputs. A bit pattern is read as the
-- number it encodes, and a special value as one too large to be finite.
def float32Value (bits : UInt32) : Rat :=
  let sign : Rat := if bits.toNat / 2 ^ 31 = 0 then 1 else -1
  let exponent : Nat := bits.toNat / 2 ^ 23 % 2 ^ 8
  let fraction : Nat := bits.toNat % 2 ^ 23
  if exponent = 255 then sign * 2 ^ 1024
  else if exponent = 0 then sign * (fraction : Rat) / 2 ^ 149
  else sign * ((2 ^ 23 + fraction : Nat) : Rat) * 2 ^ exponent / 2 ^ 150

instance : Double Rat where
  decLt := inferInstance
  decLe := inferInstance
  beq a b := a = b
  ofUInt64 n := n.toNat
  toUInt64 x := UInt64.ofNat x.floor.toNat
  ofFloat32 := float32Value
  isNaN _ := false
  isFinite x := |x| < 2 ^ 1024
  abs x := |x|
  sqrt x := Nat.sqrt x.floor.toNat
  log10 x := Nat.log 10 x.floor.toNat
  infinity := 2 ^ 1024

end P2pGpu.Coordinator
