import Mathlib.Order.Lattice

namespace P2pGpu

section

variable {α β K : Type} [LinearOrder K] (strike : α → Option β) (key : β → K)

-- Of what elements strike, what was struck first.
def nearer (a : α) (best : β) : β :=
  match strike a with
  | some b => if key b < key best then b else best
  | none => best

-- What stands for nothing, or what an element struck before that.
def Origin (xs : List α) (start best : β) : Prop :=
  best = start ∨ ∃ a ∈ xs, strike a = some best ∧ key best < key start

-- Nothing that is struck lies before it.
structure Nearest (xs : List α) (start best : β) : Prop where
  origin : Origin strike key xs start best
  least : ∀ a ∈ xs, ∀ b, strike a = some b → key best ≤ key b

-- One after the other.
def scan (xs : List α) (start : β) : β :=
  xs.foldl (fun best a => nearer strike key a best) start

end

variable {α β K : Type} [LinearOrder K] {strike : α → Option β} {key : β → K} {xs : List α}
  {start best best' b : β} {a : α}

theorem nearer_le (a : α) (best : β) : key (nearer strike key a best) ≤ key best := by
  unfold nearer
  split
  · split
    · rename_i h
      exact h.le
    · exact le_refl _
  · exact le_refl _

theorem nearer_le_strike (h : strike a = some b) : key (nearer strike key a best) ≤ key b := by
  unfold nearer
  rw [h]
  dsimp only
  split
  · exact le_refl _
  · rename_i hnot
    exact not_lt.mp hnot

theorem Origin.le_start (h : Origin strike key xs start best) : key best ≤ key start := by
  rcases h with rfl | ⟨-, -, -, hlt⟩
  · exact le_refl _
  · exact hlt.le

theorem Origin.nearer (h : Origin strike key xs start best) (ha : a ∈ xs) :
    Origin strike key xs start (nearer strike key a best) := by
  unfold P2pGpu.nearer
  split
  · rename_i b hb
    split
    · rename_i hlt
      refine .inr ⟨a, ha, hb, ?_⟩
      rcases h with rfl | ⟨-, -, -, hstart⟩
      · exact hlt
      · exact hlt.trans hstart
    · exact h
  · exact h

theorem scan_le : key (scan strike key xs start) ≤ key start := by
  induction xs generalizing start with
  | nil => exact le_refl _
  | cons a xs ih => exact ih.trans (nearer_le a start)

theorem scan_least (ha : a ∈ xs) (hb : strike a = some b) :
    key (scan strike key xs start) ≤ key b := by
  induction xs generalizing start with
  | nil => cases ha
  | cons x xs ih =>
      rcases List.mem_cons.mp ha with rfl | ha
      · show key (scan strike key xs (nearer strike key a start)) ≤ key b
        exact scan_le.trans (nearer_le_strike hb)
      · exact ih ha

theorem scan_origin {ys : List α} (hsub : ys ⊆ xs) (h : Origin strike key xs start best) :
    Origin strike key xs start (scan strike key ys best) := by
  induction ys generalizing best with
  | nil => exact h
  | cons y ys ih =>
      obtain ⟨hy, hys⟩ := List.cons_subset.mp hsub
      exact ih hys (h.nearer hy)

namespace Nearest

theorem congr {strike' : α → Option β} (h : Nearest strike key xs start best)
    (hsame : ∀ a ∈ xs, strike a = strike' a) : Nearest strike' key xs start best := by
  refine ⟨?_, fun a ha b hb => h.least a ha b ((hsame a ha).trans hb)⟩
  rcases h.origin with hstart | ⟨a, ha, hstrike, hlt⟩
  · exact .inl hstart
  · exact .inr ⟨a, ha, (hsame a ha).symm.trans hstrike, hlt⟩

theorem scanned (strike : α → Option β) (key : β → K) (xs : List α) (start : β) :
    Nearest strike key xs start (scan strike key xs start) :=
  ⟨scan_origin (List.Subset.refl _) (.inl rfl), fun _ ha _ hb => scan_least ha hb⟩

-- The order of the elements does not matter.
theorem of_mem_iff {ys : List α} (h : Nearest strike key xs start best)
    (hsame : ∀ a, a ∈ xs ↔ a ∈ ys) : Nearest strike key ys start best := by
  refine ⟨?_, fun a ha => h.least a ((hsame a).mpr ha)⟩
  rcases h.origin with hstart | ⟨a, ha, hstrike, hlt⟩
  · exact .inl hstart
  · exact .inr ⟨a, (hsame a).mp ha, hstrike, hlt⟩

theorem key_le (h : Nearest strike key xs start best) (h' : Nearest strike key xs start best') :
    key best ≤ key best' := by
  rcases h'.origin with rfl | ⟨a, ha, hstrike, -⟩
  · exact h.origin.le_start
  · exact h.least a ha best' hstrike

theorem key_eq (h : Nearest strike key xs start best) (h' : Nearest strike key xs start best') :
    key best = key best' :=
  le_antisymm (h.key_le h') (h'.key_le h)

theorem start_iff (h : Nearest strike key xs start best)
    (h' : Nearest strike key xs start best') : best = start ↔ best' = start := by
  have hkey := h.key_eq h'
  constructor
  · rintro rfl
    rcases h'.origin with hstart | ⟨-, -, -, hlt⟩
    · exact hstart
    · exact absurd hkey hlt.ne'
  · rintro rfl
    rcases h.origin with hstart | ⟨-, -, -, hlt⟩
    · exact hstart
    · exact absurd hkey hlt.ne

-- It is the only one where no two are struck at once.
theorem unique (h : Nearest strike key xs start best) (h' : Nearest strike key xs start best')
    (hties : ∀ a ∈ xs, ∀ a' ∈ xs, ∀ b b', strike a = some b → strike a' = some b' →
      key b = key b' → b = b') : best = best' := by
  rcases h.origin with rfl | ⟨a, ha, hstrike, hlt⟩
  · exact ((h.start_iff h').mp rfl).symm
  · rcases h'.origin with rfl | ⟨a', ha', hstrike', -⟩
    · exact (h.start_iff h').mpr rfl
    · exact hties a ha a' ha' best best' hstrike hstrike' (h.key_eq h')

end Nearest

end P2pGpu
