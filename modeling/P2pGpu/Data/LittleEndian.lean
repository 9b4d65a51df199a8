import Mathlib.Data.Nat.Bitwise
import Mathlib.Tactic.Ring

namespace P2pGpu

-- Words and the bytes that they are written as, the lowest byte first.
namespace LittleEndian

def readU16LE (b₀ b₁ : UInt8) : UInt16 := b₀.toUInt16 ||| b₁.toUInt16 <<< 8

def readU32LE (b₀ b₁ b₂ b₃ : UInt8) : UInt32 :=
  b₀.toUInt32 ||| b₁.toUInt32 <<< 8 ||| b₂.toUInt32 <<< 16 ||| b₃.toUInt32 <<< 24

def writeU16LE (v : UInt16) : List UInt8 :=
  [(v &&& 0xFF).toUInt8, (v >>> 8 &&& 0xFF).toUInt8]

def writeU32LE (v : UInt32) : List UInt8 :=
  [(v &&& 0xFF).toUInt8, (v >>> 8 &&& 0xFF).toUInt8, (v >>> 16 &&& 0xFF).toUInt8,
    (v >>> 24 &&& 0xFF).toUInt8]

theorem toNat_posU32 {a : UInt32} (h : a ≠ 0) : 0 < a.toNat :=
  UInt32.lt_iff_toNat_lt.mp (UInt32.pos_iff_ne_zero.mpr h)

theorem toNat_posU64 {a : UInt64} (h : a ≠ 0) : 0 < a.toNat :=
  UInt64.lt_iff_toNat_lt.mp (UInt64.pos_iff_ne_zero.mpr h)

theorem toNat_minU32 (a b : UInt32) : (min a b).toNat = min a.toNat b.toNat := by
  rw [UInt32.min_def, Nat.min_def]
  simp only [UInt32.le_iff_toNat_le]
  split <;> rfl

theorem toNat_minU64 (a b : UInt64) : (min a b).toNat = min a.toNat b.toNat := by
  rw [UInt64.min_def, Nat.min_def]
  simp only [UInt64.le_iff_toNat_le]
  split <;> rfl

theorem toNat_maxU64 (a b : UInt64) : (max a b).toNat = max a.toNat b.toNat := by
  rw [UInt64.max_def, Nat.max_def]
  simp only [UInt64.le_iff_toNat_le]
  split <;> rfl

-- Bits above those of the first number only add to it.
theorem lor_shiftLeft {a k : Nat} (h : a < 2 ^ k) (b : Nat) : a ||| b <<< k = a + b * 2 ^ k := by
  rw [Nat.lor_comm, ← Nat.shiftLeft_add_eq_or_of_lt h, Nat.shiftLeft_eq, Nat.add_comm]

theorem toNat_readU16LE (b₀ b₁ : UInt8) :
    (readU16LE b₀ b₁).toNat = b₀.toNat + b₁.toNat * 2 ^ 8 := by
  have h₀ := b₀.toNat_lt
  have h₁ := b₁.toNat_lt
  have hshift : b₁.toNat <<< 8 % 2 ^ 16 = b₁.toNat <<< 8 := by
    apply Nat.mod_eq_of_lt
    rw [Nat.shiftLeft_eq]
    omega
  simp only [readU16LE, UInt16.toNat_or, UInt16.toNat_shiftLeft, UInt8.toNat_toUInt16]
  show b₀.toNat ||| b₁.toNat <<< 8 % 2 ^ 16 = _
  rw [hshift, lor_shiftLeft h₀]

theorem toNat_readU32LE (b₀ b₁ b₂ b₃ : UInt8) :
    (readU32LE b₀ b₁ b₂ b₃).toNat =
      b₀.toNat + b₁.toNat * 2 ^ 8 + b₂.toNat * 2 ^ 16 + b₃.toNat * 2 ^ 24 := by
  have h₀ := b₀.toNat_lt
  have h₁ := b₁.toNat_lt
  have h₂ := b₂.toNat_lt
  have h₃ := b₃.toNat_lt
  have hshift : ∀ b k : Nat, b < 2 ^ 8 → k ≤ 24 → b <<< k % 2 ^ 32 = b <<< k := by
    intro b k hb hk
    apply Nat.mod_eq_of_lt
    rw [Nat.shiftLeft_eq]
    calc b * 2 ^ k < 2 ^ 8 * 2 ^ k := Nat.mul_lt_mul_of_pos_right hb (Nat.two_pow_pos k)
      _ ≤ 2 ^ 8 * 2 ^ 24 := Nat.mul_le_mul_left _ (Nat.pow_le_pow_right (by decide) hk)
      _ = 2 ^ 32 := by decide
  have h₀₁ : b₀.toNat + b₁.toNat * 2 ^ 8 < 2 ^ 16 := by omega
  have h₀₁₂ : b₀.toNat + b₁.toNat * 2 ^ 8 + b₂.toNat * 2 ^ 16 < 2 ^ 24 := by omega
  simp only [readU32LE, UInt32.toNat_or, UInt32.toNat_shiftLeft, UInt8.toNat_toUInt32]
  show b₀.toNat ||| b₁.toNat <<< 8 % 2 ^ 32 ||| b₂.toNat <<< 16 % 2 ^ 32 |||
    b₃.toNat <<< 24 % 2 ^ 32 = _
  rw [hshift _ 8 h₁ (by decide), hshift _ 16 h₂ (by decide), hshift _ 24 h₃ (by decide),
    lor_shiftLeft h₀, lor_shiftLeft h₀₁, lor_shiftLeft h₀₁₂]

theorem toNat_byteU16 (v : UInt16) :
    (v &&& 0xFF).toUInt8.toNat = v.toNat % 2 ^ 8 ∧
      (v >>> 8 &&& 0xFF).toUInt8.toNat = v.toNat / 2 ^ 8 % 2 ^ 8 := by
  have hmask : ∀ n : Nat, n &&& 255 = n % 2 ^ 8 := fun n => Nat.and_two_pow_sub_one_eq_mod n 8
  constructor
  · show (v.toNat &&& 255) % 2 ^ 8 = _
    rw [hmask, Nat.mod_mod]
  · show (v.toNat >>> 8 &&& 255) % 2 ^ 8 = _
    rw [hmask, Nat.mod_mod, Nat.shiftRight_eq_div_pow]

theorem toNat_byteU32 (v : UInt32) :
    (v &&& 0xFF).toUInt8.toNat = v.toNat % 2 ^ 8 ∧
      (v >>> 8 &&& 0xFF).toUInt8.toNat = v.toNat / 2 ^ 8 % 2 ^ 8 ∧
      (v >>> 16 &&& 0xFF).toUInt8.toNat = v.toNat / 2 ^ 16 % 2 ^ 8 ∧
      (v >>> 24 &&& 0xFF).toUInt8.toNat = v.toNat / 2 ^ 24 % 2 ^ 8 := by
  have hmask : ∀ n : Nat, n &&& 255 = n % 2 ^ 8 := fun n => Nat.and_two_pow_sub_one_eq_mod n 8
  refine ⟨?_, ?_, ?_, ?_⟩
  · show (v.toNat &&& 255) % 2 ^ 8 = _
    rw [hmask, Nat.mod_mod]
  · show (v.toNat >>> 8 &&& 255) % 2 ^ 8 = _
    rw [hmask, Nat.mod_mod, Nat.shiftRight_eq_div_pow]
  · show (v.toNat >>> 16 &&& 255) % 2 ^ 8 = _
    rw [hmask, Nat.mod_mod, Nat.shiftRight_eq_div_pow]
  · show (v.toNat >>> 24 &&& 255) % 2 ^ 8 = _
    rw [hmask, Nat.mod_mod, Nat.shiftRight_eq_div_pow]

@[simp] theorem length_writeU16LE (v : UInt16) : (writeU16LE v).length = 2 := rfl

@[simp] theorem length_writeU32LE (v : UInt32) : (writeU32LE v).length = 4 := rfl

theorem readU16LE_write (v : UInt16) :
    readU16LE (v &&& 0xFF).toUInt8 (v >>> 8 &&& 0xFF).toUInt8 = v := by
  obtain ⟨h₀, h₁⟩ := toNat_byteU16 v
  have hv := v.toNat_lt
  apply UInt16.toNat_inj.mp
  rw [toNat_readU16LE, h₀, h₁]
  omega

theorem readU32LE_write (v : UInt32) :
    readU32LE (v &&& 0xFF).toUInt8 (v >>> 8 &&& 0xFF).toUInt8 (v >>> 16 &&& 0xFF).toUInt8
      (v >>> 24 &&& 0xFF).toUInt8 = v := by
  obtain ⟨h₀, h₁, h₂, h₃⟩ := toNat_byteU32 v
  have hv := v.toNat_lt
  apply UInt32.toNat_inj.mp
  rw [toNat_readU32LE, h₀, h₁, h₂, h₃]
  omega

theorem writeU16LE_read (b₀ b₁ : UInt8) : writeU16LE (readU16LE b₀ b₁) = [b₀, b₁] := by
  obtain ⟨h₀, h₁⟩ := toNat_byteU16 (readU16LE b₀ b₁)
  have hb₀ := b₀.toNat_lt
  have hb₁ := b₁.toNat_lt
  rw [toNat_readU16LE] at h₀ h₁
  simp only [writeU16LE, List.cons.injEq, and_true]
  refine ⟨UInt8.toNat_inj.mp ?_, UInt8.toNat_inj.mp ?_⟩
  · rw [h₀]
    omega
  · rw [h₁]
    omega

theorem writeU32LE_read (b₀ b₁ b₂ b₃ : UInt8) :
    writeU32LE (readU32LE b₀ b₁ b₂ b₃) = [b₀, b₁, b₂, b₃] := by
  obtain ⟨h₀, h₁, h₂, h₃⟩ := toNat_byteU32 (readU32LE b₀ b₁ b₂ b₃)
  have hb₀ := b₀.toNat_lt
  have hb₁ := b₁.toNat_lt
  have hb₂ := b₂.toNat_lt
  have hb₃ := b₃.toNat_lt
  rw [toNat_readU32LE] at h₀ h₁ h₂ h₃
  simp only [writeU32LE, List.cons.injEq, and_true]
  refine ⟨UInt8.toNat_inj.mp ?_, UInt8.toNat_inj.mp ?_, UInt8.toNat_inj.mp ?_,
    UInt8.toNat_inj.mp ?_⟩
  · rw [h₀]
    omega
  · rw [h₁]
    omega
  · rw [h₂]
    omega
  · rw [h₃]
    omega

def readU64LE (b₀ b₁ b₂ b₃ b₄ b₅ b₆ b₇ : UInt8) : UInt64 :=
  b₀.toUInt64 ||| b₁.toUInt64 <<< 8 ||| b₂.toUInt64 <<< 16 ||| b₃.toUInt64 <<< 24 |||
    b₄.toUInt64 <<< 32 ||| b₅.toUInt64 <<< 40 ||| b₆.toUInt64 <<< 48 ||| b₇.toUInt64 <<< 56

def byteU64 (v : UInt64) (k : Nat) : UInt8 := (v >>> UInt64.ofNat (k * 8) &&& 0xFF).toUInt8

theorem toNat_readU64LE (b₀ b₁ b₂ b₃ b₄ b₅ b₆ b₇ : UInt8) :
    (readU64LE b₀ b₁ b₂ b₃ b₄ b₅ b₆ b₇).toNat =
      b₀.toNat + b₁.toNat * 2 ^ 8 + b₂.toNat * 2 ^ 16 + b₃.toNat * 2 ^ 24 + b₄.toNat * 2 ^ 32 +
        b₅.toNat * 2 ^ 40 + b₆.toNat * 2 ^ 48 + b₇.toNat * 2 ^ 56 := by
  have h₀ := b₀.toNat_lt
  have h₁ := b₁.toNat_lt
  have h₂ := b₂.toNat_lt
  have h₃ := b₃.toNat_lt
  have h₄ := b₄.toNat_lt
  have h₅ := b₅.toNat_lt
  have h₆ := b₆.toNat_lt
  have h₇ := b₇.toNat_lt
  have hshift : ∀ b k : Nat, b < 2 ^ 8 → k ≤ 56 → b <<< k % 2 ^ 64 = b <<< k := by
    intro b k hb hk
    apply Nat.mod_eq_of_lt
    rw [Nat.shiftLeft_eq]
    calc b * 2 ^ k < 2 ^ 8 * 2 ^ k := Nat.mul_lt_mul_of_pos_right hb (Nat.two_pow_pos k)
      _ ≤ 2 ^ 8 * 2 ^ 56 := Nat.mul_le_mul_left _ (Nat.pow_le_pow_right (by decide) hk)
      _ = 2 ^ 64 := by decide
  have s₁ : b₀.toNat + b₁.toNat * 2 ^ 8 < 2 ^ 16 := by omega
  have s₂ : b₀.toNat + b₁.toNat * 2 ^ 8 + b₂.toNat * 2 ^ 16 < 2 ^ 24 := by omega
  have s₃ : b₀.toNat + b₁.toNat * 2 ^ 8 + b₂.toNat * 2 ^ 16 + b₃.toNat * 2 ^ 24 < 2 ^ 32 := by
    omega
  have s₄ : b₀.toNat + b₁.toNat * 2 ^ 8 + b₂.toNat * 2 ^ 16 + b₃.toNat * 2 ^ 24 +
      b₄.toNat * 2 ^ 32 < 2 ^ 40 := by omega
  have s₅ : b₀.toNat + b₁.toNat * 2 ^ 8 + b₂.toNat * 2 ^ 16 + b₃.toNat * 2 ^ 24 +
      b₄.toNat * 2 ^ 32 + b₅.toNat * 2 ^ 40 < 2 ^ 48 := by omega
  have s₆ : b₀.toNat + b₁.toNat * 2 ^ 8 + b₂.toNat * 2 ^ 16 + b₃.toNat * 2 ^ 24 +
      b₄.toNat * 2 ^ 32 + b₅.toNat * 2 ^ 40 + b₆.toNat * 2 ^ 48 < 2 ^ 56 := by omega
  simp only [readU64LE, UInt64.toNat_or, UInt64.toNat_shiftLeft, UInt8.toNat_toUInt64]
  show b₀.toNat ||| b₁.toNat <<< 8 % 2 ^ 64 ||| b₂.toNat <<< 16 % 2 ^ 64 |||
    b₃.toNat <<< 24 % 2 ^ 64 ||| b₄.toNat <<< 32 % 2 ^ 64 ||| b₅.toNat <<< 40 % 2 ^ 64 |||
    b₆.toNat <<< 48 % 2 ^ 64 ||| b₇.toNat <<< 56 % 2 ^ 64 = _
  rw [hshift _ 8 h₁ (by decide), hshift _ 16 h₂ (by decide), hshift _ 24 h₃ (by decide),
    hshift _ 32 h₄ (by decide), hshift _ 40 h₅ (by decide), hshift _ 48 h₆ (by decide),
    hshift _ 56 h₇ (by decide), lor_shiftLeft h₀, lor_shiftLeft s₁, lor_shiftLeft s₂,
    lor_shiftLeft s₃, lor_shiftLeft s₄, lor_shiftLeft s₅, lor_shiftLeft s₆]

theorem toNat_byteU64 (v : UInt64) {k : Nat} (hk : k < 8) :
    (byteU64 v k).toNat = v.toNat / 2 ^ (k * 8) % 2 ^ 8 := by
  have hmask : ∀ n : Nat, n &&& 255 = n % 2 ^ 8 := fun n => Nat.and_two_pow_sub_one_eq_mod n 8
  have hamount : (UInt64.ofNat (k * 8)).toNat % 64 = k * 8 := by
    rw [UInt64.toNat_ofNat', Nat.mod_eq_of_lt (by omega), Nat.mod_eq_of_lt (by omega)]
  show ((v.toNat >>> ((UInt64.ofNat (k * 8)).toNat % 64)) &&& 255) % 2 ^ 8 = _
  rw [hamount, hmask, Nat.mod_mod, Nat.shiftRight_eq_div_pow]

theorem readU64LE_bytes (v : UInt64) :
    readU64LE (byteU64 v 0) (byteU64 v 1) (byteU64 v 2) (byteU64 v 3) (byteU64 v 4) (byteU64 v 5)
      (byteU64 v 6) (byteU64 v 7) = v := by
  have hv := v.toNat_lt
  apply UInt64.toNat_inj.mp
  rw [toNat_readU64LE, toNat_byteU64 v (by decide), toNat_byteU64 v (by decide),
    toNat_byteU64 v (by decide), toNat_byteU64 v (by decide), toNat_byteU64 v (by decide),
    toNat_byteU64 v (by decide), toNat_byteU64 v (by decide), toNat_byteU64 v (by decide)]
  omega

-- The words of a buffer. Bytes that do not fill a last word are not read.
def readWords : List UInt8 → List UInt32
  | b₀ :: b₁ :: b₂ :: b₃ :: rest => readU32LE b₀ b₁ b₂ b₃ :: readWords rest
  | _ => []

theorem readWords_write_append (v : UInt32) (rest : List UInt8) :
    readWords (writeU32LE v ++ rest) = v :: readWords rest := by
  show readU32LE _ _ _ _ :: readWords rest = _
  rw [readU32LE_write]

@[simp] theorem readWords_flatMap_write (words : List UInt32) :
    readWords (words.flatMap writeU32LE) = words := by
  induction words with
  | nil => rfl
  | cons v words ih => rw [List.flatMap_cons, readWords_write_append, ih]

end LittleEndian

end P2pGpu
