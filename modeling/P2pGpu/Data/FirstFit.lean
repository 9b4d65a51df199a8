import Mathlib.Algebra.GroupWithZero.Nat
import Mathlib.Data.List.Induction
import Mathlib.Data.List.InsertIdx
import Mathlib.Data.List.Nodup
import Mathlib.Data.List.Perm.Basic

namespace P2pGpu

universe u v w

-- Grouping by first fit, for a relation of which nothing is assumed.
namespace FirstFit

variable {α : Type u} {β : Type w} {κ : Type v} [DecidableEq κ] {fits : α → α → Bool} {gs : List (List α)}
  {a : α} {as : List α} {size : α → Nat}

-- Into the first group all of whose members it fits, or into one of its own.
def place (fits : α → α → Bool) (a : α) : List (List α) → List (List α)
  | [] => [[a]]
  | g :: gs => if g.all (fits a) then (g ++ [a]) :: gs else g :: place fits a gs

def groups (fits : α → α → Bool) (as : List α) : List (List α) :=
  as.foldl (fun gs a => place fits a gs) []

theorem groups_concat (fits : α → α → Bool) (as : List α) (a : α) :
    groups fits (as ++ [a]) = place fits a (groups fits as) := by
  simp only [groups, List.foldl_append, List.foldl_cons, List.foldl_nil]

theorem place_perm (fits : α → α → Bool) (a : α) (gs : List (List α)) :
    (place fits a gs).flatten.Perm (a :: gs.flatten) := by
  induction gs with
  | nil => exact List.Perm.refl _
  | cons g gs ih =>
      rw [place]
      split
      · simp only [List.flatten_cons, List.append_assoc, List.singleton_append]
        exact List.perm_middle
      · rw [List.flatten_cons, List.flatten_cons]
        exact (ih.append_left g).trans List.perm_middle

-- Nothing is lost and nothing is counted twice.
theorem groups_perm (fits : α → α → Bool) (as : List α) : (groups fits as).flatten.Perm as := by
  induction as using List.reverseRecOn with
  | nil => exact List.Perm.refl _
  | append_singleton as a ih =>
      rw [groups_concat]
      have hplace := place_perm fits a (groups fits as)
      have hlast : (a :: as).Perm (as ++ [a]) := (List.perm_append_singleton a as).symm
      exact (hplace.trans (ih.cons a)).trans hlast

theorem place_ne_nil (fits : α → α → Bool) (a : α) (gs : List (List α)) :
    place fits a gs ≠ [] := by
  cases gs with
  | nil => simp [place]
  | cons g gs =>
      rw [place]
      split <;> simp

variable (fits) in
theorem groups_ne_nil (h : as ≠ []) : groups fits as ≠ [] := by
  obtain ⟨as, a, rfl⟩ := List.eq_nil_or_concat as |>.resolve_left h
  rw [List.concat_eq_append, groups_concat]
  exact place_ne_nil fits a _

theorem place_groups {p : List α → Prop} (hnew : p [a])
    (hjoins : ∀ g ∈ gs, g.all (fits a) = true → p (g ++ [a])) (h : ∀ g ∈ gs, p g) :
    ∀ g ∈ place fits a gs, p g := by
  induction gs with
  | nil =>
      intro g hg
      rw [place, List.mem_singleton] at hg
      rw [hg]
      exact hnew
  | cons first gs ih =>
      have hrest := ih (fun g hg => hjoins g (List.mem_cons_of_mem first hg))
        (fun g hg => h g (List.mem_cons_of_mem first hg))
      intro g hg
      rw [place] at hg
      split at hg
      · rename_i hall
        rcases List.mem_cons.mp hg with rfl | hold
        · exact hjoins first List.mem_cons_self hall
        · exact h g (List.mem_cons_of_mem first hold)
      · rcases List.mem_cons.mp hg with rfl | hlater
        · exact h g List.mem_cons_self
        · exact hrest g hlater

-- Where every group was short of a size, one that has it now has the new entry, which fits
-- the others.
theorem full_place {most : Nat} {g : List α} (hshort : ∀ g ∈ gs, g.length < most)
    (hg : g ∈ place fits a gs) (hfull : most ≤ g.length) :
    ∃ old, g = old ++ [a] ∧ ∀ b ∈ old, fits a b = true := by
  induction gs with
  | nil =>
      rw [place, List.mem_singleton] at hg
      exact ⟨[], hg, fun b hb => absurd hb List.not_mem_nil⟩
  | cons first gs ih =>
      have hrest : ∀ g ∈ gs, g.length < most := fun g hg =>
        hshort g (List.mem_cons_of_mem first hg)
      rw [place] at hg
      split at hg
      · rename_i hall
        rcases List.mem_cons.mp hg with rfl | hold
        · exact ⟨first, rfl, fun b hb => List.all_eq_true.mp hall b hb⟩
        · exact absurd (hrest g hold) (Nat.not_lt.mpr hfull)
      · rcases List.mem_cons.mp hg with rfl | hlater
        · exact absurd (hshort g List.mem_cons_self) (Nat.not_lt.mpr hfull)
        · exact ih hrest hlater

-- A group keeps the order of arrival, and each of its members fits all that came before it.
theorem groups_arrival (fits : α → α → Bool) (as : List α) :
    ∀ g ∈ groups fits as, g.Sublist as ∧ g.Pairwise fun earlier later => fits later earlier = true := by
  induction as using List.reverseRecOn with
  | nil => exact fun g hg => absurd hg List.not_mem_nil
  | append_singleton as a ih =>
      rw [groups_concat]
      refine place_groups ?_ (fun g hg hall => ?_) fun g hg => ?_
      · refine ⟨?_, List.pairwise_singleton _ _⟩
        exact List.sublist_append_right as [a]
      · obtain ⟨hsub, hpairs⟩ := ih g hg
        refine ⟨hsub.append_right [a], List.pairwise_append.mpr ⟨hpairs, ?_, ?_⟩⟩
        · exact List.pairwise_singleton _ _
        · intro b hb c hc
          rw [List.mem_singleton.mp hc]
          exact List.all_eq_true.mp hall b hb
      · obtain ⟨hsub, hpairs⟩ := ih g hg
        exact ⟨hsub.trans (List.sublist_append_left as [a]), hpairs⟩

-- Where the relation compares a key, the groups are the classes of that key.
def members (key : α → κ) (as : List α) (k : κ) : List α := as.filter fun a => key a = k

theorem members_concat (key : α → κ) (as : List α) (a : α) (k : κ) :
    members key (as ++ [a]) k = if key a = k then members key as k ++ [a] else members key as k := by
  simp only [members, List.filter_append]
  by_cases h : key a = k
  · simp [h]
  · simp [h]

theorem all_members {key : α → κ} (hfits : ∀ a b, fits a b = true ↔ key a = key b) {k : κ}
    (hk : k ∈ as.map key) : (members key as k).all (fits a) = true ↔ key a = k := by
  obtain ⟨b, hb, rfl⟩ := List.mem_map.mp hk
  rw [List.all_eq_true]
  constructor
  · intro h
    have hmem : b ∈ members key as (key b) := by simp [members, hb]
    exact (hfits a b).mp (h b hmem)
  · intro h c hc
    have hkey : key c = key b := by simpa using (List.mem_filter.mp hc).2
    exact (hfits a c).mpr (h.trans hkey.symm)

theorem place_members {key : α → κ} (hfits : ∀ a b, fits a b = true ↔ key a = key b)
    {ks : List κ} (hnodup : ks.Nodup) (hks : ∀ k ∈ ks, k ∈ as.map key)
    (hnew : key a ∉ ks → members key as (key a) = []) :
    place fits a (ks.map (members key as)) =
      (if key a ∈ ks then ks else ks ++ [key a]).map (members key (as ++ [a])) := by
  induction ks with
  | nil =>
      have hnone := hnew List.not_mem_nil
      simp [place, members_concat, hnone]
  | cons k ks ih =>
      obtain ⟨hk, hnodup⟩ := List.nodup_cons.mp hnodup
      have hfirst := all_members (a := a) hfits (hks k List.mem_cons_self)
      rw [List.map_cons, place]
      by_cases hkey : key a = k
      · -- its class is here, and no other class changes
        have hrest : ks.map (members key as) = ks.map (members key (as ++ [a])) := by
          apply List.map_congr_left
          intro j hj
          have hne : key a ≠ j := fun he => hk (hkey ▸ he ▸ hj)
          rw [members_concat, if_neg hne]
        rw [if_pos (hfirst.mpr hkey), if_pos (hkey ▸ List.mem_cons_self), List.map_cons,
          members_concat, if_pos hkey, hrest]
      · have hmem : key a ∈ k :: ks ↔ key a ∈ ks := by simp [hkey]
        have htail := ih hnodup (fun j hj => hks j (List.mem_cons_of_mem k hj))
          (fun hn => hnew (hmem.not.mpr hn))
        have hsame : members key as k = members key (as ++ [a]) k := by
          rw [members_concat, if_neg hkey]
        rw [if_neg (hfirst.not.mpr hkey), htail, hsame]
        by_cases hin : key a ∈ ks
        · rw [if_pos hin, if_pos (hmem.mpr hin), List.map_cons]
        · rw [if_neg hin, if_neg (hmem.not.mpr hin), List.cons_append, List.map_cons]

theorem groups_members {key : α → κ} (hfits : ∀ a b, fits a b = true ↔ key a = key b)
    (as : List α) : ∃ ks : List κ, ks.Nodup ∧ (∀ k, k ∈ ks ↔ k ∈ as.map key) ∧
      groups fits as = ks.map (members key as) := by
  induction as using List.reverseRecOn with
  | nil => exact ⟨[], List.nodup_nil, by simp, rfl⟩
  | append_singleton as a ih =>
      obtain ⟨ks, hnodup, hks, hgroups⟩ := ih
      have hnew : key a ∉ ks → members key as (key a) = [] := by
        intro hn
        simp only [members, List.filter_eq_nil_iff, decide_eq_true_eq]
        intro b hb he
        exact hn ((hks _).mpr (he ▸ List.mem_map_of_mem hb))
      refine ⟨if key a ∈ ks then ks else ks ++ [key a], ?_, ?_, ?_⟩
      · split
        · exact hnodup
        · rename_i hn
          exact List.nodup_append.mpr ⟨hnodup, by simp, by
            intro j hj k hk he
            exact hn ((List.mem_singleton.mp hk) ▸ he ▸ hj)⟩
      · intro k
        rw [List.map_append, List.mem_append, ← hks k]
        by_cases hin : key a ∈ ks
        · rw [if_pos hin]
          constructor
          · exact Or.inl
          · rintro (hk | hk)
            · exact hk
            · obtain rfl : k = key a := by simpa using hk
              exact hin
        · rw [if_neg hin, List.mem_append]
          simp
      · rw [groups_concat, hgroups]
        exact place_members hfits hnodup (fun k hk => (hks k).mp hk) hnew

-- The first of the largest entries.
def firstMaxFrom (size : α → Nat) : List α → Nat → Nat → Nat → Nat
  | [], _, best, _ => best
  | a :: as, i, best, most =>
      if most < size a then firstMaxFrom size as (i + 1) i (size a)
      else firstMaxFrom size as (i + 1) best most

def firstMax (size : α → Nat) : List α → Nat
  | [] => 0
  | a :: as => firstMaxFrom size as 1 0 (size a)

-- What is behind the cursor holds the best entry so far.
theorem firstMaxFrom_spec (before after : List α) {best : Nat} {a : α}
    (hbest : before[best]? = some a) (hmax : ∀ b ∈ before, size b ≤ size a) :
    ∃ c, (before ++ after)[firstMaxFrom size after before.length best (size a)]? = some c ∧
      ∀ b ∈ before ++ after, size b ≤ size c := by
  induction after generalizing before best a with
  | nil => exact ⟨a, by simpa [firstMaxFrom] using hbest, by simpa using hmax⟩
  | cons b after ih =>
      have hlen : (before ++ [b]).length = before.length + 1 := by simp
      have hsplit : before ++ b :: after = (before ++ [b]) ++ after := by simp
      rw [firstMaxFrom, hsplit, ← hlen]
      by_cases hb : size a < size b
      · rw [if_pos hb]
        apply ih
        · simp
        · intro c hc
          rcases List.mem_append.mp hc with hc | hc
          · have := hmax c hc
            omega
          · exact (List.mem_singleton.mp hc) ▸ Nat.le_refl _
      · rw [if_neg hb]
        have hlt : best < before.length := (List.getElem?_eq_some_iff.mp hbest).choose
        apply ih
        · rw [List.getElem?_append_left hlt]
          exact hbest
        · intro c hc
          rcases List.mem_append.mp hc with hc | hc
          · exact hmax c hc
          · rw [List.mem_singleton.mp hc]
            omega

variable (size) in
theorem firstMax_spec (h : as ≠ []) :
    ∃ a, as[firstMax size as]? = some a ∧ ∀ b ∈ as, size b ≤ size a := by
  cases as with
  | nil => exact absurd rfl h
  | cons a as =>
      have hself : ∀ b ∈ [a], size b ≤ size a := by simp
      exact firstMaxFrom_spec [a] as rfl hself

-- What comes before the best entry is smaller.
theorem firstMaxFrom_first (before after : List α) {best : Nat} {a : α}
    (hbest : before[best]? = some a) (hfirst : ∀ i b, i < best → before[i]? = some b →
      size b < size a) (hmax : ∀ b ∈ before, size b ≤ size a) :
    ∀ i b c, i < firstMaxFrom size after before.length best (size a) →
      (before ++ after)[i]? = some b →
      (before ++ after)[firstMaxFrom size after before.length best (size a)]? = some c →
      size b < size c := by
  have hlt : best < before.length := (List.getElem?_eq_some_iff.mp hbest).choose
  induction after generalizing before best a with
  | nil =>
      intro i b c hi hb hc
      simp only [firstMaxFrom, List.append_nil] at hi hb hc
      obtain rfl := Option.some.inj (hbest.symm.trans hc)
      exact hfirst i b hi hb
  | cons d after ih =>
      have hlen : (before ++ [d]).length = before.length + 1 := by simp
      have hsplit : before ++ d :: after = (before ++ [d]) ++ after := by simp
      rw [firstMaxFrom, hsplit, ← hlen]
      by_cases hd : size a < size d
      · rw [if_pos hd]
        apply ih
        · simp
        · intro i b hi hb
          rw [List.getElem?_append_left hi] at hb
          have hle := hmax b (List.mem_of_getElem? hb)
          omega
        · intro b hb
          rcases List.mem_append.mp hb with hb | hb
          · have := hmax b hb
            omega
          · exact (List.mem_singleton.mp hb) ▸ Nat.le_refl _
        · simp
      · rw [if_neg hd]
        apply ih
        · rw [List.getElem?_append_left hlt]
          exact hbest
        · intro i b hi hb
          rw [List.getElem?_append_left (by omega)] at hb
          exact hfirst i b hi hb
        · intro b hb
          rcases List.mem_append.mp hb with hb | hb
          · exact hmax b hb
          · rw [List.mem_singleton.mp hb]
            omega
        · omega

theorem firstMax_first {i : Nat} {b c : α} (hi : i < firstMax size as) (hb : as[i]? = some b)
    (hc : as[firstMax size as]? = some c) : size b < size c := by
  cases as with
  | nil => cases hb
  | cons a as =>
      have hself : ∀ d ∈ [a], size d ≤ size a := by simp
      exact firstMaxFrom_first [a] as rfl (fun i d hi _ => absurd hi (Nat.not_lt_zero i)) hself
        i b c hi hb hc

theorem firstMax_eq_iff {i : Nat} {a : α} (ha : as[i]? = some a) :
    firstMax size as = i ↔ ∀ j b, as[j]? = some b → j ≠ i →
      (j < i → size b < size a) ∧ size b ≤ size a := by
  have hne : as ≠ [] := List.ne_nil_of_mem (List.mem_of_getElem? ha)
  obtain ⟨c, hc, hmax⟩ := firstMax_spec size hne
  constructor
  · rintro rfl j b hb hj
    obtain rfl := Option.some.inj (ha.symm.trans hc)
    exact ⟨fun hlt => firstMax_first hlt hb ha, hmax b (List.mem_of_getElem? hb)⟩
  · intro h
    by_contra hother
    have hle := hmax a (List.mem_of_getElem? ha)
    obtain ⟨hbefore, hsize⟩ := h _ c hc hother
    by_cases hlt : firstMax size as < i
    · have := hbefore hlt
      omega
    · have := firstMax_first (by omega : i < firstMax size as) ha hc
      omega

-- Where an entry is put.
def slot (fits : α → α → Bool) (a : α) : List (List α) → Nat
  | [] => 0
  | g :: gs => if g.all (fits a) then 0 else slot fits a gs + 1

theorem place_slot (fits : α → α → Bool) (a : α) (gs : List (List α)) :
    (place fits a gs)[slot fits a gs]? = some (gs.getD (slot fits a gs) [] ++ [a]) := by
  induction gs with
  | nil => rfl
  | cons g gs ih =>
      rw [place, slot]
      by_cases hall : g.all (fits a) = true
      · simp only [hall, if_true, List.getElem?_cons_zero, List.getD_cons_zero]
      · simp only [hall, if_false, Bool.false_eq_true, List.getElem?_cons_succ,
          List.getD_cons_succ, ih]

theorem place_ne_slot {i : Nat} (h : i ≠ slot fits a gs) : (place fits a gs)[i]? = gs[i]? := by
  induction gs generalizing i with
  | nil =>
      rw [slot] at h
      simp [place, h]
  | cons g gs ih =>
      rw [place]
      rw [slot] at h
      by_cases hall : g.all (fits a) = true
      · rw [if_pos hall] at h ⊢
        obtain ⟨j, rfl⟩ := Nat.exists_eq_succ_of_ne_zero h
        rfl
      · rw [if_neg hall] at h ⊢
        cases i with
        | zero => rfl
        | succ j =>
            rw [List.getElem?_cons_succ, List.getElem?_cons_succ]
            exact ih (by omega)

-- With one more entry its group is ahead of those before it, and not behind the
-- others.
def Overtakes (fits : α → α → Bool) (a : α) (gs : List (List α)) : Prop :=
  ∀ i g, gs[i]? = some g → i ≠ slot fits a gs →
    (i < slot fits a gs → g.length < (gs.getD (slot fits a gs) []).length + 1) ∧
      g.length ≤ (gs.getD (slot fits a gs) []).length + 1

theorem firstMax_place (fits : α → α → Bool) (a : α) (gs : List (List α)) :
    firstMax List.length (place fits a gs) = slot fits a gs ↔ Overtakes fits a gs := by
  rw [firstMax_eq_iff (place_slot fits a gs)]
  have hsize : (gs.getD (slot fits a gs) [] ++ [a]).length =
      (gs.getD (slot fits a gs) []).length + 1 := by simp
  rw [hsize]
  constructor
  · intro h i g hg hi
    exact h i g ((place_ne_slot hi).trans hg) hi
  · intro h i g hg hi
    exact h i g ((place_ne_slot hi).symm.trans hg) hi

instance (fits : α → α → Bool) (a : α) (gs : List (List α)) : Decidable (Overtakes fits a gs) :=
  decidable_of_iff _ (firstMax_place fits a gs)

-- An entry that was nowhere else is in the largest group just when that is its own.
theorem mem_firstMax_place {g : List α} (hnew : a ∉ gs.flatten)
    (hg : (place fits a gs)[firstMax List.length (place fits a gs)]? = some g) :
    a ∈ g ↔ Overtakes fits a gs := by
  rw [← firstMax_place]
  constructor
  · intro hmem
    by_contra hother
    rw [place_ne_slot hother] at hg
    exact hnew (List.mem_flatten.mpr ⟨g, List.mem_of_getElem? hg, hmem⟩)
  · intro hsame
    rw [hsame, place_slot] at hg
    rw [← Option.some.inj hg]
    exact List.mem_append_right _ (List.mem_singleton_self a)

-- Two entries share the largest size.
def Tied (size : α → Nat) (as : List α) (most : Nat) : Prop :=
  ∃ (i j : Nat) (a b : α), i ≠ j ∧ as[i]? = some a ∧ as[j]? = some b ∧ size a = most ∧ size b = most

-- The entry at `i` is larger than every other one.
def Leads (size : α → Nat) (as : List α) (i : Nat) : Prop :=
  ∀ a, as[i]? = some a → ∀ b ∈ as.eraseIdx i, size b < size a

theorem leads_iff {i : Nat} (ha : as[i]? = some a) (hmax : ∀ b ∈ as, size b ≤ size a) :
    Leads size as i ↔ ¬ Tied size as (size a) := by
  constructor
  · rintro h ⟨j, k, b, c, hjk, hb, hc, hsb, hsc⟩
    -- one of the two is elsewhere
    have hother : ∃ d ∈ as.eraseIdx i, size d = size a := by
      by_cases hj : j = i
      · exact ⟨c, List.mem_eraseIdx_iff_getElem?.mpr ⟨k, by omega, hc⟩, hsc⟩
      · exact ⟨b, List.mem_eraseIdx_iff_getElem?.mpr ⟨j, hj, hb⟩, hsb⟩
    obtain ⟨d, hd, hsd⟩ := hother
    have := h a ha d hd
    omega
  · intro h c hc b hb
    obtain rfl : a = c := Option.some.inj (ha.symm.trans hc)
    obtain ⟨j, hj, hbj⟩ := List.mem_eraseIdx_iff_getElem?.mp hb
    have hle := hmax b (List.mem_of_mem_eraseIdx hb)
    rcases Nat.lt_or_eq_of_le hle with hlt | heq
    · exact hlt
    · exact absurd ⟨i, j, a, b, Ne.symm hj, ha, hbj, rfl, heq⟩ h

-- One entry more makes one group larger by one.
theorem tied_place {most : Nat} (hbefore : ∀ g ∈ gs, g.length < most) :
    ¬ Tied List.length (place fits a gs) most := by
  induction gs with
  | nil =>
      rintro ⟨i, j, g, h, hij, hg, hh, -, -⟩
      have hi := (List.getElem?_eq_some_iff.mp hg).choose
      have hj := (List.getElem?_eq_some_iff.mp hh).choose
      simp only [place, List.length_singleton] at hi hj
      omega
  | cons k gs ih =>
      have hrest : ∀ g ∈ gs, g.length < most := fun g hg =>
        hbefore g (List.mem_cons_of_mem k hg)
      have hk := hbefore k List.mem_cons_self
      rintro ⟨i, j, g, h, hij, hg, hh, hsg, hsh⟩
      rw [place] at hg hh
      by_cases hall : k.all (fits a) = true
      · -- every group behind the first one is as it was
        rw [if_pos hall] at hg hh
        have hbehind : ∀ (n : Nat) (e : List α), ((k ++ [a]) :: gs)[n]? = some e →
            e.length = most → n = 0 := by
          intro n e he hlen
          cases n with
          | zero => rfl
          | succ n =>
              have := hrest e (List.mem_of_getElem? he)
              omega
        exact hij ((hbehind i g hg hsg).trans (hbehind j h hh hsh).symm)
      · rw [if_neg hall] at hg hh
        cases i with
        | zero =>
            obtain rfl : k = g := Option.some.inj hg
            omega
        | succ i =>
            cases j with
            | zero =>
                obtain rfl : k = h := Option.some.inj hh
                omega
            | succ j => exact ih hrest ⟨i, j, g, h, by omega, hg, hh, hsg, hsh⟩

-- More than half of all there is leaves less for every other entry.
theorem leads_of_majority {i : Nat} (ha : as[i]? = some a)
    (h : (as.map size).sum < size a * 2) : Leads size as i := by
  intro c hc b hb
  obtain rfl : a = c := Option.some.inj (ha.symm.trans hc)
  obtain ⟨hi, rfl⟩ := List.getElem?_eq_some_iff.mp ha
  have hsum : (as.map size).sum = size as[i] + ((as.eraseIdx i).map size).sum := by
    have hperm := (List.getElem_cons_eraseIdx_perm hi).map size
    rw [← hperm.sum_nat, List.map_cons, List.sum_cons]
  obtain ⟨before, after, hsplit⟩ := List.append_of_mem hb
  have hb : size b ≤ ((as.eraseIdx i).map size).sum := by
    rw [hsplit, List.map_append, List.map_cons, List.sum_append, List.sum_cons]
    omega
  omega

theorem firstMaxFrom_map (f : α → β) (size : β → Nat) (as : List α) (i best most : Nat) :
    firstMaxFrom size (as.map f) i best most = firstMaxFrom (size ∘ f) as i best most := by
  induction as generalizing i best most with
  | nil => rfl
  | cons a as ih =>
      simp only [List.map_cons, firstMaxFrom, Function.comp_apply, ih]

theorem firstMax_map (f : α → β) (size : β → Nat) (as : List α) :
    firstMax size (as.map f) = firstMax (size ∘ f) as := by
  cases as with
  | nil => rfl
  | cons a as => exact firstMaxFrom_map f size as 1 0 (size (f a))

-- The class of `k` is the first of the largest groups.
structure Elects (fits : α → α → Bool) (key : α → κ) (as : List α) (k : κ) : Prop where
  won : (groups fits as)[firstMax List.length (groups fits as)]? = some (members key as k)
  nonempty : members key as k ≠ []
  largest : ∀ j, (members key as j).length ≤ (members key as k).length
  others : ∀ a, a ∈ ((groups fits as).eraseIdx (firstMax List.length (groups fits as))).flatten ↔
    a ∈ as ∧ key a ≠ k
  leads : Leads List.length (groups fits as) (firstMax List.length (groups fits as)) ↔
    ∀ j, j ≠ k → (members key as j).length < (members key as k).length

theorem mem_members {key : α → κ} {k : κ} : a ∈ members key as k ↔ a ∈ as ∧ key a = k := by
  simp [members]

theorem mem_eraseIdx_of_nodup {ks : List κ} (hnodup : ks.Nodup) {i : Nat} {k j : κ}
    (hk : ks[i]? = some k) : j ∈ ks.eraseIdx i ↔ j ∈ ks ∧ j ≠ k := by
  obtain ⟨hi, rfl⟩ := List.getElem?_eq_some_iff.mp hk
  rw [← hnodup.erase_getElem i hi, hnodup.mem_erase_iff]
  exact And.comm

theorem elects {key : α → κ} (hfits : ∀ a b, fits a b = true ↔ key a = key b) (h : as ≠ []) :
    ∃ k, Elects fits key as k := by
  obtain ⟨ks, hnodup, hks, hgroups⟩ := groups_members hfits as
  obtain ⟨g, hwon, hlargest⟩ := firstMax_spec List.length (groups_ne_nil fits h)
  generalize hi : firstMax List.length (groups fits as) = i at hwon
  obtain ⟨k, hk, rfl⟩ : ∃ k, ks[i]? = some k ∧ members key as k = g := by
    rw [hgroups, List.getElem?_map] at hwon
    exact Option.map_eq_some_iff.mp hwon
  have hmem : k ∈ as.map key := (hks k).mp (List.mem_of_getElem? hk)
  have hne : members key as k ≠ [] := by
    obtain ⟨b, hb, hkey⟩ := List.mem_map.mp hmem
    exact List.ne_nil_of_mem (mem_members.mpr ⟨hb, hkey⟩)
  -- a key that nothing has is the key of an empty class
  have habsent : ∀ j, j ∉ ks → members key as j = [] := by
    intro j hj
    apply List.eq_nil_iff_forall_not_mem.mpr
    intro b hb
    obtain ⟨hb, hkey⟩ := mem_members.mp hb
    exact hj ((hks j).mpr (hkey ▸ List.mem_map_of_mem hb))
  have hrest : ∀ j, j ∈ ks.eraseIdx i ↔ j ∈ ks ∧ j ≠ k := fun j => mem_eraseIdx_of_nodup hnodup hk
  have herase : (groups fits as).eraseIdx i = (ks.eraseIdx i).map (members key as) := by
    rw [hgroups, List.eraseIdx_map]
  refine ⟨k, ?_, hne, ?_, ?_, ?_⟩
  · rw [hi]
    exact hwon
  · intro j
    by_cases hj : j ∈ ks
    · exact hlargest _ (hgroups ▸ List.mem_map_of_mem hj)
    · rw [habsent j hj]
      exact Nat.zero_le _
  · intro a
    rw [hi, herase, List.mem_flatten]
    constructor
    · rintro ⟨g, hg, ha⟩
      obtain ⟨j, hj, rfl⟩ := List.mem_map.mp hg
      obtain ⟨ha, hkey⟩ := mem_members.mp ha
      exact ⟨ha, hkey ▸ ((hrest j).mp hj).2⟩
    · rintro ⟨ha, hkey⟩
      have hj : key a ∈ ks := (hks _).mpr (List.mem_map_of_mem ha)
      exact ⟨members key as (key a), List.mem_map_of_mem ((hrest _).mpr ⟨hj, hkey⟩),
        mem_members.mpr ⟨ha, rfl⟩⟩
  · rw [hi]
    constructor
    · intro hleads j hjk
      by_cases hj : j ∈ ks
      · exact hleads _ hwon _ (herase ▸ List.mem_map_of_mem ((hrest j).mpr ⟨hj, hjk⟩))
      · rw [habsent j hj]
        exact List.length_pos_of_ne_nil hne
    · intro hlt g hg b hb
      obtain rfl := Option.some.inj (hwon.symm.trans hg)
      rw [herase] at hb
      obtain ⟨j, hj, rfl⟩ := List.mem_map.mp hb
      exact hlt j ((hrest j).mp hj).2

-- A class that leads is elected whatever the order.
theorem Elects.perm {key : α → κ} {bs : List α} {k j : κ} (hk : Elects fits key as k)
    (hj : Elects fits key bs j) (hperm : as.Perm bs)
    (hleads : Leads List.length (groups fits as) (firstMax List.length (groups fits as))) :
    j = k := by
  have hcount : ∀ i, (members key as i).length = (members key bs i).length := fun i =>
    (hperm.filter _).length_eq
  by_contra hne
  have hlt := hk.leads.mp hleads j hne
  have hle := hj.largest k
  have hcj := hcount j
  have hck := hcount k
  omega

end FirstFit

end P2pGpu
