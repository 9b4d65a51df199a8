import Mathlib.Data.Set.Lattice
import P2pGpu.Data.Checked

namespace P2pGpu

-- A list was written to at some places, and there it has what is wanted.
structure Paints {α : Type} (want : Nat → α) (places : Set Nat) (xs ys : List α) : Prop where
  length : ys.length = xs.length
  painted : ∀ a ∈ places, a < xs.length → ys[a]? = some (want a)
  kept : ∀ a, a ∉ places → ys[a]? = xs[a]?

namespace Paints

variable {ε α : Type} {may : Prop} {want : Nat → α} {places places' : Set Nat}
  {xs ys zs : List α}

theorem refl (want : Nat → α) (xs : List α) : Paints want ∅ xs xs :=
  ⟨rfl, fun _ ha => ha.elim, fun _ _ => rfl⟩

-- It does not matter which of the two wrote to a place last.
theorem trans (h : Paints want places xs ys) (h' : Paints want places' ys zs) :
    Paints want (places ∪ places') xs zs where
  length := h'.length.trans h.length
  painted a ha hlt := by
    by_cases hlast : a ∈ places'
    · exact h'.painted a hlast (h.length ▸ hlt)
    · rw [h'.kept a hlast]
      exact h.painted a (ha.resolve_right hlast) hlt
  kept a ha := by
    rw [h'.kept a fun hin => ha (.inr hin)]
    exact h.kept a fun hin => ha (.inl hin)

theorem congr (h : Paints want places xs ys) (hsame : ∀ a, a ∈ places ↔ a ∈ places') :
    Paints want places' xs ys :=
  Set.ext hsame ▸ h

theorem set {a : Nat} (hwant : want a = v) (hlt : a < xs.length) :
    Paints want {a} xs (xs.set a v) where
  length := List.length_set
  painted b hb _ := by
    rw [Set.mem_singleton_iff.mp hb, List.getElem?_set_self hlt, hwant]
  kept b hb := List.getElem?_set_ne fun hab => hb hab.symm

theorem write {a : Nat} {v : α} (hwant : want a = v) (hlt : a < xs.length) :
    Checked.Meets may (Checked.write xs a v : Checked ε (List α)) (Paints want {a} xs) :=
  (Checked.Meets.write hlt).mono fun _ hys => hys ▸ set hwant hlt

-- A loop writes to all of the places that its turns write to.
theorem loop {n : Nat} {body : List α → Nat → Checked ε (List α)} {turn : Nat → Set Nat}
    (hbody : ∀ i < n, ∀ ys, ys.length = xs.length →
      Checked.Meets may (body ys i) (Paints want (turn i) ys)) :
    Checked.Meets may (Checked.loop n body xs) (Paints want { a | ∃ i < n, a ∈ turn i } xs) := by
  refine Checked.Meets.loop (fun k ys => Paints want { a | ∃ i < k, a ∈ turn i } xs ys) ?_ ?_
  · exact (refl want xs).congr fun a => by simp
  · intro i hi ys hys
    refine (hbody i hi ys hys.length).mono fun zs hzs => (hys.trans hzs).congr fun a => ?_
    constructor
    · rintro (⟨j, hj, ha⟩ | ha)
      · exact ⟨j, Nat.lt_succ_of_lt hj, ha⟩
      · exact ⟨i, Nat.lt_succ_self i, ha⟩
    · rintro ⟨j, hj, ha⟩
      rcases Nat.lt_succ_iff_lt_or_eq.mp hj with hlt | rfl
      · exact .inl ⟨j, hlt, ha⟩
      · exact .inr ha

end Paints

end P2pGpu
