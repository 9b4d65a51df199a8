import Mathlib.Data.List.Nodup
import Mathlib.Data.List.Perm.Subperm
import Mathlib.Logic.Relation
import Mathlib.Order.Bounds.Basic

namespace P2pGpu

-- A tree of the nodes `0` to `n - 1`, each with the list of its kids. A kid has a
-- greater index than its parent.
structure IndexTree (n : Nat) (kids : Nat → List Nat) : Prop where
  pos : 0 < n
  increases : ∀ i < n, ∀ j ∈ kids i, i < j ∧ j < n
  nodup : ∀ i < n, (kids i).Nodup
  parent : ∀ j, 0 < j → j < n → ∃ i < n, j ∈ kids i
  unique : ∀ i < n, ∀ i' < n, ∀ j, j ∈ kids i → j ∈ kids i' → i = i'

namespace IndexTree

-- A path from the root to a node, by how many nodes it has.
inductive PathTo (kids : Nat → List Nat) : Nat → Nat → Prop where
  | root : PathTo kids 0 1
  | kid {i j d : Nat} (h : PathTo kids i d) (hj : j ∈ kids i) : PathTo kids j (d + 1)

-- Depth-first, with a stack that has no bound. The last of the fuel is not needed.
def walk (kids : Nat → List Nat) : Nat → List Nat → Option (List Nat)
  | _, [] => some []
  | 0, _ :: _ => none
  | fuel + 1, i :: stack => (walk kids fuel (kids i ++ stack)).map (i :: ·)

-- What was visited and what is on the stack.
structure Frontier (n : Nat) (kids : Nat → List Nat) (visited stack : List Nat) : Prop where
  nodup : (visited ++ stack).Nodup
  inside : ∀ j ∈ visited ++ stack, j < n
  root : 0 ∈ visited ++ stack
  closed : ∀ i ∈ visited, ∀ j ∈ kids i, j ∈ visited ++ stack
  entered : ∀ j ∈ visited ++ stack, j = 0 ∨ ∃ i ∈ visited, j ∈ kids i

variable {n : Nat} {kids : Nat → List Nat} {i j d e : Nat} {visited stack : List Nat}

theorem PathTo.pos (h : PathTo kids j d) : 0 < d := by
  cases h with
  | root => exact Nat.one_pos
  | kid => exact Nat.succ_pos _

theorem PathTo.lt (ht : IndexTree n kids) (h : PathTo kids j d) : j < n := by
  induction h with
  | root => exact ht.pos
  | kid _ hj ih => exact (ht.increases _ ih _ hj).2

theorem PathTo.le (ht : IndexTree n kids) (h : PathTo kids j d) : d ≤ j + 1 := by
  induction h with
  | root => exact Nat.le_refl _
  | kid h hj ih =>
      have hlt := (ht.increases _ (h.lt ht) _ hj).1
      omega

theorem PathTo.reachable (h : PathTo kids j d) :
    Relation.ReflTransGen (fun i j => j ∈ kids i) 0 j := by
  induction h with
  | root => exact .refl
  | kid _ hj ih => exact ih.tail hj

-- Every node has a path: that of its parent, which comes before it.
theorem exists_pathTo (ht : IndexTree n kids) (hj : j < n) : ∃ d, PathTo kids j d := by
  induction j using Nat.strong_induction_on with
  | _ j ih =>
      by_cases hzero : j = 0
      · subst hzero
        exact ⟨1, .root⟩
      · obtain ⟨i, hi, hkid⟩ := ht.parent j (Nat.pos_of_ne_zero hzero) hj
        obtain ⟨d, hd⟩ := ih i (ht.increases i hi j hkid).1 hi
        exact ⟨d + 1, hd.kid hkid⟩

theorem PathTo.unique (ht : IndexTree n kids) (h : PathTo kids j d) (h' : PathTo kids j e) :
    d = e := by
  induction h generalizing e with
  | root =>
      cases h' with
      | root => rfl
      | kid h hj => exact absurd (ht.increases _ (h.lt ht) _ hj).1 (Nat.not_lt_zero _)
  | kid h hj ih =>
      cases h' with
      | root => exact absurd (ht.increases _ (h.lt ht) _ hj).1 (Nat.not_lt_zero _)
      | kid h' hj' =>
          have hsame := ht.unique _ (h.lt ht) _ (h'.lt ht) _ hj hj'
          subst hsame
          rw [ih h']

-- The longest path ends where there are no kids.
theorem deepest (hmax : IsGreatest {d | ∃ j, PathTo kids j d} d) :
    IsGreatest {d | ∃ j, kids j = [] ∧ PathTo kids j d} d := by
  obtain ⟨⟨j, hj⟩, hupper⟩ := hmax
  refine ⟨⟨j, ?_, hj⟩, fun e he => ?_⟩
  · cases hkids : kids j with
    | nil => rfl
    | cons k rest =>
        have hlonger := hupper ⟨k, hj.kid (hkids ▸ List.mem_cons_self)⟩
        exact absurd hlonger (Nat.not_succ_le_self d)
  · obtain ⟨j', -, hj'⟩ := he
    exact hupper ⟨j', hj'⟩

theorem Frontier.start (ht : IndexTree n kids) : Frontier n kids [] [0] where
  nodup := List.nodup_singleton 0
  inside j hj := by
    rw [List.nil_append, List.mem_singleton] at hj
    rw [hj]
    exact ht.pos
  root := List.mem_singleton_self 0
  closed _ hi := by cases hi
  entered j hj := by
    rw [List.nil_append, List.mem_singleton] at hj
    exact .inl hj

-- Kids are new when their parent is visited.
theorem Frontier.visit (h : Frontier n kids visited (i :: stack)) (ht : IndexTree n kids) :
    Frontier n kids (visited ++ [i]) (kids i ++ stack) := by
  have hi : i < n := h.inside i (by simp)
  have hfresh : ∀ j ∈ kids i, j ∉ visited ++ i :: stack := by
    intro j hj hold
    rcases h.entered j hold with rfl | ⟨i', hi', hj'⟩
    · exact absurd (ht.increases i hi 0 hj).1 (Nat.not_lt_zero _)
    · have hin := h.inside i' (List.mem_append_left _ hi')
      have hsame := ht.unique i hi i' hin j hj hj'
      subst hsame
      exact (List.disjoint_of_nodup_append h.nodup) hi' List.mem_cons_self
  have hmem : ∀ j, j ∈ (visited ++ [i]) ++ (kids i ++ stack) ↔
      j ∈ visited ++ i :: stack ∨ j ∈ kids i := by
    intro j
    simp only [List.mem_append, List.mem_cons, List.not_mem_nil, or_false]
    tauto
  have hperm : ((visited ++ [i]) ++ (kids i ++ stack)).Perm (kids i ++ (visited ++ i :: stack)) := by
    have hswap : (visited ++ [i] ++ kids i).Perm (kids i ++ (visited ++ [i])) :=
      List.perm_append_comm
    have hall := hswap.append_right stack
    simpa [List.append_assoc] using hall
  refine ⟨?_, fun j hj => ?_, ?_, fun i' hi' j hj => ?_, fun j hj => ?_⟩
  · rw [hperm.nodup_iff, List.nodup_append']
    exact ⟨ht.nodup i hi, h.nodup, fun j hj hold => hfresh j hj hold⟩
  · rcases (hmem j).mp hj with hold | hnew
    · exact h.inside j hold
    · exact (ht.increases i hi j hnew).2
  · exact (hmem 0).mpr (.inl h.root)
  · rcases List.mem_append.mp hi' with hold | hnew
    · have hin := h.closed i' hold j hj
      exact (hmem j).mpr (.inl hin)
    · rw [List.mem_singleton.mp hnew] at hj
      exact (hmem j).mpr (.inr hj)
  · rcases (hmem j).mp hj with hold | hnew
    · rcases h.entered j hold with hzero | ⟨i', hi', hj'⟩
      · exact .inl hzero
      · exact .inr ⟨i', List.mem_append_left _ hi', hj'⟩
    · exact .inr ⟨i, by simp, hnew⟩

-- With an empty stack, all nodes were visited.
theorem Frontier.complete (h : Frontier n kids visited []) (ht : IndexTree n kids) :
    visited.Perm (List.range n) := by
  have hall : ∀ {j d}, PathTo kids j d → j ∈ visited := by
    intro j d hpath
    induction hpath with
    | root => simpa using h.root
    | kid _ hj ih => simpa using h.closed _ ih _ hj
  have hnodup : visited.Nodup := by simpa using h.nodup
  rw [List.perm_ext_iff_of_nodup hnodup List.nodup_range]
  intro j
  rw [List.mem_range]
  constructor
  · exact fun hj => h.inside j (List.mem_append_left _ hj)
  · intro hj
    obtain ⟨d, hd⟩ := ht.exists_pathTo hj
    exact hall hd

theorem walk_frontier (ht : IndexTree n kids) (fuel : Nat) (h : Frontier n kids visited stack)
    (hfuel : n ≤ fuel + visited.length) :
    ∃ order, walk kids fuel stack = some order ∧ Frontier n kids (visited ++ order) [] := by
  induction fuel generalizing visited stack with
  | zero =>
      cases stack with
      | nil => exact ⟨[], rfl, by simpa using h⟩
      | cons i stack =>
          -- More nodes than there are would be on the two lists.
          have hsub : (visited ++ i :: stack) ⊆ List.range n := fun j hj =>
            List.mem_range.mpr (h.inside j hj)
          have hle := (h.nodup.subperm hsub).length_le
          rw [List.length_range, List.length_append, List.length_cons] at hle
          omega
  | succ fuel ih =>
      cases stack with
      | nil => exact ⟨[], rfl, by simpa using h⟩
      | cons i stack =>
          obtain ⟨order, horder, hfrontier⟩ := ih (h.visit ht) (by
            rw [List.length_append, List.length_singleton]
            omega)
          refine ⟨i :: order, ?_, ?_⟩
          · rw [walk, horder]
            rfl
          · rw [List.append_assoc] at hfrontier
            exact hfrontier

-- A walk from the root ends, and it visits every node once.
theorem walk_all (ht : IndexTree n kids) :
    ∃ order, walk kids n [0] = some order ∧ order.Perm (List.range n) := by
  obtain ⟨order, horder, hfrontier⟩ := walk_frontier ht n (.start ht) (Nat.le_add_right _ _)
  exact ⟨order, horder, hfrontier.complete ht⟩

end IndexTree

end P2pGpu
