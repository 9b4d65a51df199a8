import Mathlib.Data.List.Basic

namespace P2pGpu

universe u

-- An entry of a list that got one more is the one at its end, or was there before.
theorem split_concat {α : Type u} {before after as : List α} {a b : α}
    (heq : as ++ [b] = before ++ a :: after) :
    (before = as ∧ a = b) ∨ ∃ rest, after = rest ++ [b] ∧ as = before ++ a :: rest := by
  rcases List.eq_nil_or_concat after with rfl | ⟨rest, last, rfl⟩
  · obtain ⟨rfl, hlast⟩ := List.append_inj' heq rfl
    exact .inl ⟨rfl, (List.singleton_inj.mp hlast).symm⟩
  · rw [List.concat_eq_append, ← List.cons_append, ← List.append_assoc] at heq
    obtain ⟨has, hlast⟩ := List.append_inj' heq rfl
    rw [List.concat_eq_append, List.singleton_inj.mp hlast]
    exact .inr ⟨rest, rfl, has⟩

-- What began somewhere in a history and has not ended there since. Both are told of an
-- entry by what came before it.
section

variable {α : Type u} {starts ends : List α → α → Prop} {as : List α} {a : α}

def Since (starts ends : List α → α → Prop) (as : List α) : Prop :=
  ∃ before a after, as = before ++ a :: after ∧ starts before a ∧
    ∀ mid b rest, after = mid ++ b :: rest → ¬ ends (before ++ a :: mid) b

namespace Since

theorem nil : ¬ Since starts ends [] := by
  rintro ⟨before, a, after, heq, -⟩
  exact List.append_ne_nil_of_right_ne_nil before (List.cons_ne_nil a after) heq.symm

theorem start (h : starts as a) : Since starts ends (as ++ [a]) :=
  ⟨as, a, [], rfl, h, fun mid b rest heq =>
    absurd heq.symm (List.append_ne_nil_of_right_ne_nil mid (List.cons_ne_nil b rest))⟩

theorem keep (h : Since starts ends as) (hends : ¬ ends as a) : Since starts ends (as ++ [a]) := by
  obtain ⟨before, first, after, rfl, hstart, hrest⟩ := h
  refine ⟨before, first, after ++ [a], by simp, hstart, fun mid b rest heq => ?_⟩
  rcases split_concat heq with ⟨rfl, rfl⟩ | ⟨rest, -, hold⟩
  · -- the entry that is new
    exact hends
  · exact hrest mid b rest hold

-- One more entry: it begins here, or it goes on.
theorem concat : Since starts ends (as ++ [a]) ↔
    starts as a ∨ (Since starts ends as ∧ ¬ ends as a) := by
  constructor
  · rintro ⟨before, first, after, heq, hstart, hrest⟩
    rcases split_concat heq with ⟨rfl, rfl⟩ | ⟨rest, rfl, rfl⟩
    · exact .inl hstart
    · refine .inr ⟨⟨before, first, rest, rfl, hstart, fun mid b tail hmid => ?_⟩, ?_⟩
      · exact hrest mid b (tail ++ [a]) (by rw [hmid]; simp)
      · exact hrest rest a [] rfl
  · rintro (hstart | ⟨hold, hends⟩)
    · exact start hstart
    · exact hold.keep hends

end Since

-- Every entry is as it should be, told of it by what came before it.
def Throughout (ok : List α → α → Prop) (as : List α) : Prop :=
  ∀ before a after, as = before ++ a :: after → ok before a

namespace Throughout

variable {ok : List α → α → Prop} {bs : List α}

theorem nil : Throughout ok [] := by
  intro before a after heq
  exact absurd heq.symm (List.append_ne_nil_of_right_ne_nil before (List.cons_ne_nil a after))

theorem concat (h : Throughout ok as) (hlast : ok as a) : Throughout ok (as ++ [a]) := by
  intro before b after heq
  rcases split_concat heq with ⟨rfl, rfl⟩ | ⟨rest, -, hold⟩
  · exact hlast
  · exact h before b rest hold

theorem concat_iff : Throughout ok (as ++ [a]) ↔ Throughout ok as ∧ ok as a := by
  refine ⟨fun h => ⟨fun before b after heq => ?_, h as a [] rfl⟩, fun h => h.1.concat h.2⟩
  exact h before b (after ++ [a]) (by rw [heq]; simp)

-- Entries that are as they should be wherever they stand.
theorem append (h : Throughout ok as) (hbs : ∀ b ∈ bs, ∀ before, ok before b) :
    Throughout ok (as ++ bs) := by
  induction bs generalizing as with
  | nil => simpa using h
  | cons b bs ih =>
      have hfirst := h.concat (hbs b List.mem_cons_self as)
      have hrest := ih hfirst fun c hc => hbs c (List.mem_cons_of_mem b hc)
      simpa using hrest

end Throughout

end

end P2pGpu
