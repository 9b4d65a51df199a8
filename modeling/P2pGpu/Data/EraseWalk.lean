import Mathlib.Data.List.Nodup
import Mathlib.Data.List.Perm.Subperm

namespace P2pGpu

universe u

-- A vector in its buffer. The cells behind its end keep what was there last.
structure Cells (α : Type u) where
  cells : List α
  size : Nat

namespace Cells

section

variable {α : Type u} [DecidableEq α]

def kept (v : Cells α) (a : α) : List α := (v.cells.take v.size).filter (· ≠ a)

-- All that is equal goes, and what is left moves up.
def erase (v : Cells α) (a : α) : Cells α :=
  { cells := v.kept a ++ v.cells.drop (v.kept a).length, size := (v.kept a).length }

-- A loop up to the end that it found at its start, which erases every value that it comes
-- to. It reads the cells, whatever the size is by then.
def walk : Nat → Nat → Cells α → List α
  | 0, _, _ => []
  | n + 1, i, v =>
      match v.cells[i]? with
      | none => []
      | some a => a :: walk n (i + 1) (v.erase a)

def walked (l : List α) : List α := walk l.length 0 { cells := l, size := l.length }

variable {v : Cells α} {l : List α} {a b : α} {n i : Nat}

theorem erase_eq {l : List α} (h : v.kept a = l) :
    v.erase a = { cells := l ++ v.cells.drop l.length, size := l.length } := by
  rw [erase, h]

theorem mem_erase (h : b ∈ (v.erase a).cells) : b ∈ v.cells := by
  rcases List.mem_append.mp h with hkept | hrest
  · exact List.mem_of_mem_take (List.mem_of_mem_filter hkept)
  · exact List.mem_of_mem_drop hrest

theorem length_erase (v : Cells α) (a : α) : (v.erase a).cells.length = v.cells.length := by
  have hkept : (v.kept a).length ≤ v.cells.length := by
    have hfilter := List.length_filter_le (· ≠ a) (v.cells.take v.size)
    have htake := List.length_take_le' v.size v.cells
    exact Nat.le_trans hfilter htake
  simp only [erase, List.length_append, List.length_drop]
  omega

theorem mem_walk (h : a ∈ walk n i v) : a ∈ v.cells := by
  induction n generalizing i v with
  | zero => cases h
  | succ n ih =>
      unfold walk at h
      cases hi : v.cells[i]? with
      | none => simp [hi] at h
      | some b =>
          rw [hi] at h
          rcases List.mem_cons.mp h with rfl | htail
          · exact List.mem_of_getElem? hi
          · exact mem_erase (ih htail)

theorem length_walk (h : i + n ≤ v.cells.length) : (walk n i v).length = n := by
  induction n generalizing i v with
  | zero => rfl
  | succ n ih =>
      have hi : i < v.cells.length := by omega
      unfold walk
      rw [List.getElem?_eq_getElem hi]
      dsimp only
      rw [List.length_cons, ih]
      rw [length_erase]
      omega

-- What stands in the first place alone.
structure Leads (b : α) (v : Cells α) : Prop where
  first : ∃ rest, v.cells = b :: rest ∧ b ∉ rest
  size : 0 < v.size

theorem Leads.erase (h : v.Leads b) (hne : a ≠ b) : (v.erase a).Leads b := by
  obtain ⟨⟨rest, hcells, hrest⟩, hsize⟩ := h
  obtain ⟨m, hm⟩ := Nat.exists_eq_succ_of_ne_zero (Nat.ne_of_gt hsize)
  have hkept : v.kept a = b :: (rest.take m).filter (· ≠ a) := by
    rw [kept, hcells, hm, List.take_succ_cons, List.filter_cons_of_pos (by simp [Ne.symm hne])]
  rw [erase_eq hkept, hcells, List.length_cons, List.drop_succ_cons]
  refine ⟨⟨_, rfl, fun hb => ?_⟩, Nat.succ_pos _⟩
  rcases List.mem_append.mp hb with hmem | hmem
  · exact hrest (List.mem_of_mem_take (List.mem_of_mem_filter hmem))
  · exact hrest (List.mem_of_mem_drop hmem)

-- The loop has gone past it, and nothing brings it back.
theorem Leads.not_mem_walk (h : v.Leads b) : b ∉ walk n (i + 1) v := by
  induction n generalizing i v with
  | zero => simp [walk]
  | succ n ih =>
      obtain ⟨⟨rest, hcells, hrest⟩, hsize⟩ := id h
      unfold walk
      rw [hcells, List.getElem?_cons_succ]
      cases hi : rest[i]? with
      | none => simp
      | some a =>
          have hne : a ≠ b := by
            rintro rfl
            exact hrest (List.mem_of_getElem? hi)
          simp only [List.mem_cons, not_or]
          exact ⟨Ne.symm hne, ih (h.erase hne)⟩

theorem mem_walked (h : a ∈ walked l) : a ∈ l := mem_walk h

theorem length_walked (l : List α) : (walked l).length = l.length :=
  length_walk (by simp)

-- The second value moves to the first place while the loop goes on to the second.
theorem not_mem_walked {c : α} (h : (a :: b :: c :: l).Nodup) : b ∉ walked (a :: b :: c :: l) := by
  obtain ⟨ha, hrest⟩ := List.nodup_cons.mp h
  have hb := (List.nodup_cons.mp hrest).1
  have hab : b ≠ a := by
    rintro rfl
    simp at ha
  have hkept : kept ⟨a :: b :: c :: l, (a :: b :: c :: l).length⟩ a = b :: c :: l := by
    rw [kept, List.take_length, List.filter_cons_of_neg (by simp), List.filter_eq_self]
    intro x hx
    have hne : x ≠ a := by
      rintro rfl
      exact ha hx
    simpa using hne
  have hleads : (erase ⟨a :: b :: c :: l, (a :: b :: c :: l).length⟩ a).Leads b := by
    rw [erase_eq hkept, List.length_cons, List.length_cons, List.drop_succ_cons,
      List.drop_succ_cons]
    refine ⟨⟨_, rfl, fun hmem => ?_⟩, Nat.succ_pos _⟩
    rcases List.mem_append.mp hmem with hmem | hmem
    · exact hb hmem
    · exact hb (List.mem_of_mem_drop hmem)
  show b ∉ a :: walk (l.length + 2) 1 (erase ⟨a :: b :: c :: l, (a :: b :: c :: l).length⟩ a)
  simp only [List.mem_cons, not_or]
  exact ⟨hab, hleads.not_mem_walk⟩

theorem walked_eq (h : l.Nodup) (hlen : l.length ≤ 2) : walked l = l := by
  match l, h, hlen with
  | [], _, _ => rfl
  | [a], _, _ => rfl
  | [a, b], h, _ =>
      have hab : b ≠ a := by
        rintro rfl
        simp at h
      simp [walked, walk, erase, kept, hab]

-- Such a loop sees each value once just where there are no more than two, and they differ.
theorem count_walked_iff : (∀ a ∈ l, (walked l).count a = 1) ↔ l.Nodup ∧ l.length ≤ 2 := by
  constructor
  · intro h
    have honce : (walked l).Nodup :=
      List.nodup_iff_count_eq_one.mpr fun a ha => h a (mem_walked ha)
    have hsub : walked l ⊆ l := fun a => mem_walked
    have hperm : (walked l).Perm l :=
      (List.subperm_of_subset honce hsub).perm_of_length_le (Nat.le_of_eq (length_walked l).symm)
    have hnodup : l.Nodup := hperm.nodup_iff.mp honce
    refine ⟨hnodup, ?_⟩
    by_contra hlong
    match l, hnodup, hlong with
    | a :: b :: c :: rest, hnodup, _ =>
        have hmissed := not_mem_walked hnodup
        have hseen := h b (by simp)
        rw [List.count_eq_zero_of_not_mem hmissed] at hseen
        cases hseen
    | [], _, hlong => simp at hlong
    | [_], _, hlong => simp at hlong
    | [_, _], _, hlong => simp at hlong
  · rintro ⟨hnodup, hlen⟩ a ha
    rw [walked_eq hnodup hlen]
    exact List.count_eq_one_of_mem hnodup ha

end

-- One of three is missed, and another is seen twice.
example : walked [1, 2, 3] = [1, 3, 3] := by decide

end Cells

end P2pGpu
