import Mathlib.Data.List.Basic

namespace P2pGpu

universe u v w

-- A file of rows that is written behind a memory of values. What is dirty may
-- differ, but for what of a row is written once.
section

variable {κ : Type u} {ν : Type v} {ρ : Type w}

structure Behind (shape shows : ν → ρ → Prop) (mem : κ → Option ν) (file : κ → Option ρ)
    (dirty : κ → Prop) : Prop where
  known : ∀ {k r}, file k = some r → ∃ v, mem k = some v ∧ shape v r
  clean : ∀ {k v}, mem k = some v → ¬ dirty k → ∃ r, file k = some r ∧ shows v r

namespace Behind

variable {shape shows : ν → ρ → Prop} {mem mem' : κ → Option ν} {file file' : κ → Option ρ}
  {dirty dirty' : κ → Prop} {k : κ} {v : ν}

theorem empty : Behind shape shows (fun _ : κ => none) (fun _ => none) dirty where
  known h := by cases h
  clean h := by cases h

-- The memory moves on, and marks whatever is not shown by its row any more.
theorem moves (h : Behind shape shows mem file dirty)
    (hkept : ∀ k v, mem k = some v → ∃ v', mem' k = some v' ∧ ∀ r, shape v r → shape v' r)
    (hclean : ∀ k v', mem' k = some v' → ¬ dirty' k →
      ∃ v, mem k = some v ∧ ¬ dirty k ∧ ∀ r, shows v r → shows v' r) :
    Behind shape shows mem' file dirty' where
  known := by
    intro k r hr
    obtain ⟨v, hv, hshape⟩ := h.known hr
    obtain ⟨v', hv', hkeeps⟩ := hkept k v hv
    exact ⟨v', hv', hkeeps r hshape⟩
  clean := by
    intro k v' hv' hk
    obtain ⟨v, hv, hold, hkeeps⟩ := hclean k v' hv' hk
    obtain ⟨r, hr, hshows⟩ := h.clean hv hold
    exact ⟨r, hr, hkeeps r hshows⟩

-- A row is written, and its key is dirty no more.
theorem write (h : Behind shape shows mem file dirty) (hshape : ∀ v r, shows v r → shape v r)
    (hv : mem k = some v) (hrow : ∃ r, file' k = some r ∧ shows v r)
    (hrest : ∀ i, i ≠ k → file' i = file i) :
    Behind shape shows mem file' fun i => dirty i ∧ i ≠ k where
  known := by
    intro i r hr
    by_cases hi : i = k
    · obtain ⟨r', hr', hshows⟩ := hrow
      rw [hi, hr'] at hr
      cases hr
      exact ⟨v, by rw [hi]; exact hv, hshape v _ hshows⟩
    · rw [hrest i hi] at hr
      exact h.known hr
  clean := by
    intro i u hu hclean
    by_cases hi : i = k
    · rw [hi, hv] at hu
      cases hu
      rw [hi]
      exact hrow
    · rw [hrest i hi]
      exact h.clean hu fun hd => hclean ⟨hd, hi⟩

theorem mono (h : Behind shape shows mem file dirty)
    (hdirty : ∀ k v, mem k = some v → dirty k → dirty' k) :
    Behind shape shows mem file dirty' where
  known := h.known
  clean hv hk := h.clean hv fun hd => hk (hdirty _ _ hv hd)

end Behind

end

end P2pGpu
