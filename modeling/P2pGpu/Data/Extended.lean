import Mathlib.Algebra.Order.Field.Basic
import Mathlib.Algebra.Order.Group.Unbundled.Abs

namespace P2pGpu

universe u

-- A number, or one of the special values that a machine's arithmetic has next to
-- the numbers. A zero has no sign: where one is divided by it counts as positive.
inductive Extended (K : Type u) where
  | nan
  | infinite (negative : Bool)
  | finite (x : K)
deriving DecidableEq, Repr

namespace Extended

variable {K : Type u}

def isNaN : Extended K → Bool
  | nan => true
  | _ => false

def isFinite : Extended K → Bool
  | finite _ => true
  | _ => false

def isInfinite : Extended K → Bool
  | infinite _ => true
  | _ => false

theorem isFinite_iff {a : Extended K} : a.isFinite = true ↔ ∃ x, a = finite x := by
  cases a <;> simp [isFinite]

section

variable [Field K] {x y : K} {s t : Bool} {a b : Extended K}

def neg : Extended K → Extended K
  | nan => nan
  | infinite s => infinite !s
  | finite x => finite (-x)

def add : Extended K → Extended K → Extended K
  | finite x, finite y => finite (x + y)
  | infinite s, infinite t => if s = t then infinite s else nan
  | infinite s, finite _ => infinite s
  | finite _, infinite t => infinite t
  | nan, _ => nan
  | _, nan => nan

instance : Add (Extended K) := ⟨add⟩

instance : Sub (Extended K) := ⟨fun a b => add a (neg b)⟩

instance : OfScientific (Extended K) :=
  ⟨fun mantissa negative exponent =>
    finite (if negative then (mantissa : K) / 10 ^ exponent else mantissa * 10 ^ exponent)⟩

@[simp]
theorem finite_sub : (finite x - finite y : Extended K) = finite (x - y) := by
  show finite (x + -y) = _
  rw [sub_eq_add_neg]

theorem infinite_sub_infinite (h : s ≠ t) :
    (infinite s - infinite t : Extended K) = infinite s := by
  cases s <;> cases t <;> first | rfl | exact absurd rfl h

theorem sub_self_infinite : (infinite s - infinite s : Extended K) = nan := by
  cases s <;> rfl

theorem isFinite_sub (ha : a.isFinite = true) (hb : b.isFinite = true) :
    (a - b).isFinite = true := by
  obtain ⟨x, rfl⟩ := isFinite_iff.mp ha
  obtain ⟨y, rfl⟩ := isFinite_iff.mp hb
  rw [finite_sub]
  rfl

theorem finite_sub_self (h : a.isFinite = true) : a - a = finite 0 := by
  obtain ⟨y, rfl⟩ := isFinite_iff.mp h
  rw [finite_sub, sub_self]

theorem zero_scientific : (0.0 : Extended K) = finite 0 := by
  show finite (((0 : ℕ) : K) / 10 ^ 1) = _
  rw [Nat.cast_zero, zero_div]

end

section

variable [LinearOrder K] {x y : K} {a : Extended K}

def lt : Extended K → Extended K → Bool
  | finite x, finite y => decide (x < y)
  | finite _, infinite t => !t
  | infinite s, finite _ => s
  | infinite s, infinite t => s && !t
  | nan, _ => false
  | _, nan => false

-- What is not a number equals nothing.
def beq (a b : Extended K) : Bool := decide (a = b) && !a.isNaN

instance : LT (Extended K) := ⟨fun a b => lt a b = true⟩

instance : LE (Extended K) := ⟨fun a b => (lt a b || beq a b) = true⟩

instance : DecidableLT (Extended K) := fun a b => inferInstanceAs (Decidable (lt a b = true))

instance : DecidableLE (Extended K) :=
  fun a b => inferInstanceAs (Decidable ((lt a b || beq a b) = true))

@[simp]
theorem finite_lt : (finite x : Extended K) < finite y ↔ x < y := by
  show decide (x < y) = true ↔ x < y
  exact decide_eq_true_iff

@[simp]
theorem finite_le : (finite x : Extended K) ≤ finite y ↔ x ≤ y := by
  show (decide (x < y) || decide (finite x = finite y) && true) = true ↔ x ≤ y
  rw [Bool.and_true, Bool.or_eq_true, decide_eq_true_iff, decide_eq_true_iff, finite.injEq,
    le_iff_lt_or_eq]

@[simp]
theorem finite_beq : beq (finite x) (finite y) = decide (x = y) := by
  simp [beq, isNaN]

@[simp]
theorem not_lt_nan : ¬ a < nan := by
  cases a <;> exact Bool.false_ne_true

@[simp]
theorem finite_lt_infinite : finite x < infinite false := rfl

@[simp]
theorem not_nan_lt : ¬ nan < a := by
  cases a <;> exact Bool.false_ne_true

-- Nothing is above the positive infinity.
@[simp]
theorem not_infinite_lt : ¬ infinite false < a := by
  cases a <;> exact Bool.false_ne_true

theorem not_lt_self (a : Extended K) : ¬ a < a := by
  cases a with
  | nan => exact not_lt_nan
  | infinite s => cases s <;> exact Bool.false_ne_true
  | finite x => exact fun h => lt_irrefl x (finite_lt.mp h)

theorem not_lt_infinite : ¬ a < infinite true := by
  cases a with
  | nan => exact not_nan_lt
  | infinite s => cases s <;> exact Bool.false_ne_true
  | finite x => exact Bool.false_ne_true

-- A number is on one side of what lies between.
theorem lt_or_lt {b c : Extended K} (hb : isNaN b = false) (h : a < c) : a < b ∨ b < c := by
  cases b with
  | nan => cases hb
  | infinite s =>
      cases s with
      | true =>
          right
          cases c with
          | nan => exact absurd h not_lt_nan
          | infinite t =>
              cases t with
              | true => exact absurd h not_lt_infinite
              | false => rfl
          | finite z => rfl
      | false =>
          left
          cases a with
          | nan => exact absurd h not_nan_lt
          | infinite t =>
              cases t with
              | true => rfl
              | false => exact absurd h not_infinite_lt
          | finite x => rfl
  | finite y =>
      cases c with
      | nan => exact absurd h not_lt_nan
      | infinite t =>
          cases t with
          | true => exact absurd h not_lt_infinite
          | false => exact .inr finite_lt_infinite
      | finite z =>
          cases a with
          | nan => exact absurd h not_nan_lt
          | infinite t =>
              cases t with
              | true => exact .inl rfl
              | false => exact absurd h not_infinite_lt
          | finite x =>
              rw [finite_lt] at h
              rcases lt_or_ge x y with hlt | hge
              · exact .inl (finite_lt.mpr hlt)
              · exact .inr (finite_lt.mpr (hge.trans_lt h))

theorem trans_lt {b c : Extended K} (h : a < b) (h' : b < c) : a < c := by
  cases b with
  | nan => exact absurd h not_lt_nan
  | infinite s =>
      cases s with
      | false => exact absurd h' not_infinite_lt
      | true => exact absurd h not_lt_infinite
  | finite y =>
      cases c with
      | nan => exact absurd h' not_lt_nan
      | infinite t =>
          cases t with
          | true => exact absurd h' not_lt_infinite
          | false =>
              cases a with
              | nan => exact absurd h not_nan_lt
              | infinite s =>
                  cases s with
                  | true => rfl
                  | false => exact absurd h not_infinite_lt
              | finite x => exact finite_lt_infinite
      | finite z =>
          cases a with
          | nan => exact absurd h not_nan_lt
          | infinite s => exact h
          | finite x => exact finite_lt.mpr ((finite_lt.mp h).trans (finite_lt.mp h'))

end

section

variable [Field K] [LinearOrder K] {x y : K} {s : Bool}

-- An infinity so many times.
def scaled (s : Bool) (x : K) : Extended K :=
  if x = 0 then nan else infinite (s != decide (x < 0))

def mul : Extended K → Extended K → Extended K
  | finite x, finite y => finite (x * y)
  | infinite s, infinite t => infinite (s != t)
  | infinite s, finite y => scaled s y
  | finite x, infinite t => scaled t x
  | nan, _ => nan
  | _, nan => nan

def div : Extended K → Extended K → Extended K
  | finite x, finite y =>
      if y ≠ 0 then finite (x / y) else if x = 0 then nan else infinite (decide (x < 0))
  | infinite _, infinite _ => nan
  | infinite s, finite y => infinite (s != decide (y < 0))
  | finite _, infinite _ => finite 0
  | nan, _ => nan
  | _, nan => nan

def abs : Extended K → Extended K
  | nan => nan
  | infinite _ => infinite false
  | finite x => finite |x|

instance : Mul (Extended K) := ⟨mul⟩

instance : Div (Extended K) := ⟨div⟩

@[simp]
theorem finite_mul : (finite x * finite y : Extended K) = finite (x * y) := rfl

theorem finite_div (h : y ≠ 0) : (finite x / finite y : Extended K) = finite (x / y) := by
  show (if y ≠ 0 then finite (x / y) else _) = _
  rw [if_pos h]

@[simp]
theorem abs_finite : (finite x).abs = finite |x| := rfl

-- A number together with so many infinities is no number, or it is infinite too.
theorem not_add_mul_infinite_lt (hy : ¬ y < 0) :
    ¬ (finite x + finite y * infinite false : Extended K) < infinite false := by
  show ¬ (finite x + if y = 0 then nan else infinite (false != decide (y < 0))) < infinite false
  by_cases hzero : y = 0
  · rw [if_pos hzero]
    exact not_nan_lt
  · rw [if_neg hzero, decide_eq_false hy]
    exact not_infinite_lt

end

def Positive [Zero K] [LT K] (a : Extended K) : Prop := ∃ x, 0 < x ∧ a = finite x

section

variable [Field K] [LinearOrder K] {a b : Extended K}

theorem Positive.isFinite (h : Positive a) : a.isFinite = true := by
  obtain ⟨x, -, rfl⟩ := h
  rfl

theorem Positive.lt (h : Positive a) : finite 0 < a := by
  obtain ⟨x, hx, rfl⟩ := h
  exact finite_lt.mpr hx

theorem positive_of_lt (h : finite 0 < a) (hfinite : a.isFinite = true) : Positive a := by
  obtain ⟨x, rfl⟩ := isFinite_iff.mp hfinite
  exact ⟨x, finite_lt.mp h, rfl⟩

-- What is above zero is not equal to it.
theorem beq_zero_of_lt (h : finite 0 < a) : beq a (finite 0) = false := by
  cases a with
  | nan => exact absurd h not_lt_nan
  | infinite s => rfl
  | finite x =>
      rw [finite_beq, decide_eq_false_iff_not]
      exact (finite_lt.mp h).ne'

theorem Positive.not_lt_zero (h : Positive a) : ¬ a < finite 0 := by
  obtain ⟨x, hx, rfl⟩ := h
  rw [finite_lt]
  exact hx.not_gt

theorem zero_div_of_lt (h : finite 0 < a) : (finite 0 / a : Extended K) = finite 0 := by
  cases a with
  | nan => exact absurd h not_lt_nan
  | infinite s => rfl
  | finite x => rw [finite_div (finite_lt.mp h).ne', zero_div]

theorem isFinite_abs (ha : a.isFinite = true) : a.abs.isFinite = true := by
  obtain ⟨x, rfl⟩ := isFinite_iff.mp ha
  rfl

theorem isFinite_div (ha : a.isFinite = true) (hb : Positive b) : (a / b).isFinite = true := by
  obtain ⟨x, rfl⟩ := isFinite_iff.mp ha
  obtain ⟨y, hy, rfl⟩ := hb
  rw [finite_div hy.ne']
  rfl

end

section

variable [Field K] [LinearOrder K] [IsStrictOrderedRing K] {a b : Extended K}

theorem Positive.add (ha : Positive a) (hb : Positive b) : Positive (a + b) := by
  obtain ⟨x, hx, rfl⟩ := ha
  obtain ⟨y, hy, rfl⟩ := hb
  exact ⟨x + y, add_pos hx hy, rfl⟩

theorem Positive.mul (ha : Positive a) (hb : Positive b) : Positive (a * b) := by
  obtain ⟨x, hx, rfl⟩ := ha
  obtain ⟨y, hy, rfl⟩ := hb
  exact ⟨x * y, mul_pos hx hy, rfl⟩

theorem Positive.div (ha : Positive a) (hb : Positive b) : Positive (a / b) := by
  obtain ⟨x, hx, rfl⟩ := ha
  obtain ⟨y, hy, rfl⟩ := hb
  exact ⟨x / y, div_pos hx hy, finite_div hy.ne'⟩

theorem positive_scientific {mantissa exponent : Nat} (h : 0 < mantissa) :
    Positive (OfScientific.ofScientific mantissa true exponent : Extended K) :=
  ⟨(mantissa : K) / 10 ^ exponent,
    div_pos (Nat.cast_pos.mpr h) (pow_pos Nat.ofNat_pos exponent), rfl⟩

end

end Extended

end P2pGpu
