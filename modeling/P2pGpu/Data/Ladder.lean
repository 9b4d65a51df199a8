import Mathlib.Algebra.Order.Ring.Int
import Mathlib.Data.Int.ConditionallyCompleteOrder
import Mathlib.Data.Int.Interval
import Mathlib.Data.Set.Card
import Mathlib.Order.Monotone.Odd

namespace P2pGpu

universe u

-- How many steps it takes from one member of an ordered set to another.
section

variable {α : Type u} [LinearOrder α]

noncomputable def stepsBetween (s : Set α) (x y : α) : Nat :=
  {v | v ∈ s ∧ min x y < v ∧ v ≤ max x y}.ncard

-- Where the members are the values of an increasing sequence, the places are counted.
theorem stepsBetween_image {f : Int → α} (hf : StrictMono f) {w : Set Int} {i j : Int}
    (hw : Set.Icc (min i j) (max i j) ⊆ w) :
    stepsBetween (f '' w) (f i) (f j) = (i - j).natAbs := by
  have hset : {v | v ∈ f '' w ∧ min (f i) (f j) < v ∧ v ≤ max (f i) (f j)} =
      f '' (Finset.Ioc (min i j) (max i j) : Finset Int) := by
    rw [← hf.monotone.map_min, ← hf.monotone.map_max]
    ext v
    constructor
    · rintro ⟨⟨k, -, rfl⟩, hlow, hhigh⟩
      exact ⟨k, Finset.mem_coe.mpr (Finset.mem_Ioc.mpr ⟨hf.lt_iff_lt.mp hlow,
        hf.le_iff_le.mp hhigh⟩), rfl⟩
    · rintro ⟨k, hk, rfl⟩
      obtain ⟨hlow, hhigh⟩ := Finset.mem_Ioc.mp (Finset.mem_coe.mp hk)
      exact ⟨⟨k, hw ⟨hlow.le, hhigh⟩, rfl⟩, hf.lt_iff_lt.mpr hlow, hf.le_iff_le.mpr hhigh⟩
  unfold stepsBetween
  rw [hset, Set.ncard_image_of_injective _ hf.injective, Set.ncard_coe_finset, Int.card_Ioc]
  omega

end

-- The values of a binary format with gradual underflow and `p` bits of fraction, by
-- their place above zero and in units of the smallest one.
namespace Gradual

def value (p n : Nat) : Nat :=
  if n / 2 ^ p = 0 then n else (2 ^ p + n % 2 ^ p) * 2 ^ (n / 2 ^ p - 1)

theorem value_of_lt {p n : Nat} (h : n < 2 ^ p) : value p n = n := by
  unfold value
  rw [if_pos (Nat.div_eq_of_lt h)]

theorem value_of_exponent {p e m : Nat} (he : 0 < e) (hm : m < 2 ^ p) :
    value p (e * 2 ^ p + m) = (2 ^ p + m) * 2 ^ (e - 1) := by
  have hpos := Nat.two_pow_pos p
  have hdiv : (e * 2 ^ p + m) / 2 ^ p = e := by
    rw [Nat.add_comm, Nat.add_mul_div_right _ _ hpos, Nat.div_eq_of_lt hm, Nat.zero_add]
  have hmod : (e * 2 ^ p + m) % 2 ^ p = m := by
    rw [Nat.add_comm, Nat.add_mul_mod_self_right, Nat.mod_eq_of_lt hm]
  unfold value
  rw [hdiv, hmod, if_neg (Nat.ne_of_gt he)]

theorem value_lt_succ (p n : Nat) : value p n < value p (n + 1) := by
  have hpos := Nat.two_pow_pos p
  have hm := Nat.mod_lt n hpos
  have hn : n = n / 2 ^ p * 2 ^ p + n % 2 ^ p := (Nat.div_add_mod' n (2 ^ p)).symm
  generalize n / 2 ^ p = e at hn
  generalize n % 2 ^ p = m at hn hm
  rcases Nat.eq_zero_or_pos e with rfl | he
  · rw [Nat.zero_mul, Nat.zero_add] at hn
    subst hn
    rw [value_of_lt hm]
    by_cases hlast : n + 1 < 2 ^ p
    · rw [value_of_lt hlast]
      exact Nat.lt_succ_self n
    · have hnext : n + 1 = 1 * 2 ^ p + 0 := by omega
      have hvalue : value p (n + 1) = (2 ^ p + 0) * 2 ^ 0 := by
        rw [hnext]
        exact value_of_exponent Nat.one_pos hpos
      omega
  · have hunit := Nat.two_pow_pos (e - 1)
    have hvalue := value_of_exponent he hm
    rw [← hn] at hvalue
    by_cases hlast : m + 1 < 2 ^ p
    · -- The exponent stays.
      have hnext : n + 1 = e * 2 ^ p + (m + 1) := by omega
      rw [hvalue, hnext, value_of_exponent he hlast]
      exact Nat.mul_lt_mul_of_pos_right (by omega) hunit
    · have hnext : n + 1 = (e + 1) * 2 ^ p + 0 := by
        rw [Nat.succ_mul]
        omega
      have hdouble : 2 ^ e = 2 * 2 ^ (e - 1) := by
        rw [← Nat.pow_succ', Nat.succ_eq_add_one, Nat.sub_add_cancel he]
      rw [hvalue, hnext, value_of_exponent (Nat.succ_pos e) hpos, Nat.add_zero,
        Nat.succ_sub_one, hdouble, ← Nat.mul_assoc]
      exact Nat.mul_lt_mul_of_pos_right (by omega) hunit

theorem strictMono_value (p : Nat) : StrictMono (value p) :=
  strictMono_nat_of_lt_succ (value_lt_succ p)

-- Below zero the values are those above it, with the other sign.
def signed (p : Nat) (i : Int) : Int := i.sign * value p i.natAbs

theorem signed_ofNat (p n : Nat) : signed p n = value p n := by
  unfold signed
  rcases Nat.eq_zero_or_pos n with rfl | hn
  · rw [value_of_lt (Nat.two_pow_pos p)]
    exact Int.zero_mul _
  · rw [Int.sign_eq_one_of_pos (Int.natCast_pos.mpr hn), Int.natAbs_natCast, Int.one_mul]

theorem signed_neg (p : Nat) (i : Int) : signed p (-i) = -signed p i := by
  unfold signed
  rw [Int.sign_neg, Int.natAbs_neg, Int.neg_mul]

theorem strictMono_signed (p : Nat) : StrictMono (signed p) := by
  refine strictMono_of_odd_strictMonoOn_nonneg (signed_neg p) ?_
  intro i hi j hj hij
  obtain ⟨m, rfl⟩ := Int.eq_ofNat_of_zero_le (Set.mem_Ici.mp hi)
  obtain ⟨n, rfl⟩ := Int.eq_ofNat_of_zero_le (Set.mem_Ici.mp hj)
  show signed p (m : Int) < signed p (n : Int)
  rw [signed_ofNat, signed_ofNat]
  exact Int.ofNat_lt.mpr (strictMono_value p (Int.ofNat_lt.mp hij))

end Gradual

end P2pGpu
