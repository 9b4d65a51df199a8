import Mathlib.Data.List.Basic
import Mathlib.Tactic.Ring

namespace P2pGpu

-- A list in pieces of one width. The last one may be shorter.
namespace Chunks

variable {α : Type}

def piece (width : Nat) (xs : List α) (i : Nat) : List α := (xs.drop (i * width)).take width

-- How many pieces a list of `n` elements has.
def count (width n : Nat) : Nat := (n + width - 1) / width

-- `src` in the place of what stands at `start` and after it.
def overwrite (xs : List α) (start : Nat) (src : List α) : List α :=
  xs.take start ++ src ++ xs.drop (start + src.length)

variable {width n i j : Nat} {xs src : List α}

theorem count_le (hw : 0 < width) : n ≤ count width n * width := by
  have hdiv := Nat.div_add_mod (n + width - 1) width
  have hmod := Nat.mod_lt (n + width - 1) hw
  rw [Nat.mul_comm] at hdiv
  show n ≤ (n + width - 1) / width * width
  omega

theorem lt_count (hw : 0 < width) : i < count width n ↔ i * width < n := by
  unfold count
  rw [Nat.lt_iff_add_one_le, Nat.le_div_iff_mul_le hw, Nat.add_mul, Nat.one_mul]
  omega

theorem length_piece : (piece width xs i).length = min width (xs.length - i * width) := by
  simp [piece]

theorem length_overwrite (h : i + src.length ≤ xs.length) :
    (overwrite xs i src).length = xs.length := by
  simp only [overwrite, List.length_append, List.length_take, List.length_drop]
  omega

theorem getElem?_overwrite (h : i + src.length ≤ xs.length) (k : Nat) :
    (overwrite xs i src)[k]? =
      if i ≤ k ∧ k < i + src.length then src[k - i]? else xs[k]? := by
  have hprefix : (xs.take i).length = i := by
    rw [List.length_take]
    omega
  unfold overwrite
  by_cases hlow : k < i
  · rw [if_neg (by omega), List.append_assoc, List.getElem?_append_left (by omega),
      List.getElem?_take, if_pos hlow]
  · by_cases hhigh : k < i + src.length
    · rw [if_pos ⟨by omega, hhigh⟩, List.getElem?_append_left (by simp; omega),
        List.getElem?_append_right (by omega), hprefix]
    · rw [if_neg (by omega), List.getElem?_append_right (by simp; omega), List.getElem?_drop]
      congr 1
      simp only [List.length_append, hprefix]
      omega

theorem getElem?_piece (k : Nat) :
    (piece width xs i)[k]? = if k < width then xs[i * width + k]? else none := by
  rw [piece, List.getElem?_take]
  split
  · rw [List.getElem?_drop]
  · rfl

theorem piece_overwrite_self (hsrc : src.length = (piece width xs i).length)
    (h : i * width + src.length ≤ xs.length) :
    piece width (overwrite xs (i * width) src) i = src := by
  have hle : src.length ≤ width := by
    rw [hsrc, length_piece]
    exact Nat.min_le_left _ _
  apply List.ext_getElem?
  intro k
  rw [getElem?_piece, getElem?_overwrite h]
  by_cases hk : k < src.length
  · rw [if_pos (by omega), if_pos (by omega), Nat.add_sub_cancel_left]
  · have hnone : src[k]? = none := List.getElem?_eq_none (by omega)
    rw [hnone]
    by_cases hw : k < width
    · rw [if_pos hw, if_neg (by omega)]
      apply List.getElem?_eq_none
      rw [length_piece] at hsrc
      omega
    · rw [if_neg hw]

theorem piece_overwrite_ne (hsrc : src.length ≤ width) (h : i * width + src.length ≤ xs.length)
    (hne : j ≠ i) : piece width (overwrite xs (i * width) src) j = piece width xs j := by
  apply List.ext_getElem?
  intro k
  rw [getElem?_piece, getElem?_piece]
  by_cases hw : k < width
  · rw [if_pos hw, if_pos hw, getElem?_overwrite h, if_neg]
    rintro ⟨hlow, hhigh⟩
    rcases Nat.lt_or_gt_of_ne hne with hlt | hgt
    · have hmul := Nat.mul_le_mul_right width (Nat.succ_le_of_lt hlt)
      rw [Nat.succ_mul] at hmul
      omega
    · have hmul := Nat.mul_le_mul_right width (Nat.succ_le_of_lt hgt)
      rw [Nat.succ_mul] at hmul
      omega
  · rw [if_neg hw, if_neg hw]

theorem flatMap_piece_take (n : Nat) :
    (List.range n).flatMap (piece width xs) = xs.take (n * width) := by
  induction n with
  | zero => simp
  | succ n ih =>
      rw [List.range_succ, List.flatMap_append, ih, List.flatMap_singleton, piece, Nat.succ_mul,
        List.take_add]

-- The pieces in their order are the list.
theorem flatMap_piece (h : xs.length ≤ n * width) :
    (List.range n).flatMap (piece width xs) = xs := by
  rw [flatMap_piece_take, List.take_of_length_le h]

theorem length_flatMap_const {β : Type} {f : α → List β} (hf : ∀ a, (f a).length = width)
    (xs : List α) : (xs.flatMap f).length = xs.length * width := by
  induction xs with
  | nil => simp
  | cons a xs ih =>
      rw [List.flatMap_cons, List.length_append, hf, ih, List.length_cons]
      ring

-- Where every element becomes one piece, the pieces are those of the elements.
theorem piece_flatMap {β : Type} {f : α → List β} (hf : ∀ a, (f a).length = width)
    (hi : i < xs.length) : piece width (xs.flatMap f) i = f xs[i] := by
  induction xs generalizing i with
  | nil => exact absurd hi (Nat.not_lt_zero i)
  | cons a xs ih =>
      cases i with
      | zero => simp [piece, ← hf a]
      | succ i =>
          have hnext := ih (Nat.lt_of_succ_lt_succ hi)
          have hdrop : (i + 1) * width = (f a).length + i * width := by
            rw [hf]
            ring
          rw [piece, List.flatMap_cons, hdrop, List.drop_length_add_append]
          exact hnext

-- What is written is only in another order.
theorem overwrite_perm (h : src.Perm ((xs.drop i).take src.length)) :
    (overwrite xs i src).Perm xs := by
  have hsplit : xs = xs.take i ++ ((xs.drop i).take src.length ++ xs.drop (i + src.length)) := by
    rw [← List.drop_drop, List.take_append_drop, List.take_append_drop]
  have hchanged := (h.append_right (xs.drop (i + src.length))).append_left (xs.take i)
  rw [overwrite, List.append_assoc]
  exact hchanged.trans (List.Perm.of_eq hsplit.symm)

-- What is written right after a prefix.
theorem overwrite_append (before xs src : List α) :
    overwrite (before ++ xs) before.length src = before ++ src ++ xs.drop src.length := by
  rw [overwrite, List.take_left, List.drop_length_add_append]

end Chunks

end P2pGpu
