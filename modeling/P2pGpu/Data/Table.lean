import Mathlib.Data.List.AList

namespace P2pGpu

universe u v

variable {κ : Type u} {ν : Type v}

-- A keyed store that is also read by iteration. The order of the entries is
-- the iteration order, and it means nothing.
abbrev Table (κ : Type u) (ν : Type v) : Type (max u v) := AList (fun _ : κ => ν)

namespace Table

variable [DecidableEq κ]

-- Adds an entry and keeps the one that is there already.
def emplace (t : Table κ ν) (k : κ) (v : ν) : Table κ ν :=
  if k ∈ t then t else AList.insert k v t

-- Rewrites one entry where it stands.
def modify (t : Table κ ν) (k : κ) (f : ν → ν) : Table κ ν where
  entries := t.entries.map fun e => if e.1 = k then ⟨e.1, f e.2⟩ else e
  nodupKeys := by
    have hkeys : (t.entries.map fun e => if e.1 = k then ⟨e.1, f e.2⟩ else e).keys =
        t.entries.keys := by
      simp only [List.keys, List.map_map]
      apply List.map_congr_left
      intro e _
      simp only [Function.comp_apply]
      split <;> rfl
    rw [List.NodupKeys, hkeys]
    exact t.nodupKeys

-- Adds an entry, or rewrites the one that is there.
def upsert (t : Table κ ν) (k : κ) (v : ν) (f : ν → ν) : Table κ ν :=
  match t.lookup k with
  | none => AList.insert k v t
  | some _ => t.modify k f

def values (t : Table κ ν) : List ν := t.entries.map Sigma.snd

theorem mem_entries_iff {t : Table κ ν} {k : κ} {v : ν} :
    (⟨k, v⟩ : Sigma fun _ : κ => ν) ∈ t.entries ↔ t.lookup k = some v :=
  AList.mem_lookup_iff.symm

theorem filter_entries (t : Table κ ν) (k : κ) :
    (t.entries.filter fun e => e.1 = k) = (t.lookup k).toList.map (Sigma.mk k) := by
  obtain ⟨entries, hkeys⟩ := t
  induction entries with
  | nil => rfl
  | cons e entries ih =>
      obtain ⟨k', v⟩ := e
      have htail := ih (List.nodupKeys_cons.mp hkeys).2
      by_cases hk : k' = k
      · subst hk
        have habsent : ∀ e ∈ entries, e.1 ≠ k' := by
          intro e he heq
          apply (List.nodupKeys_cons.mp hkeys).1
          exact List.mem_map.mpr ⟨e, he, heq⟩
        have hnone : (entries.filter fun e => e.1 = k') = [] := by
          simpa [List.filter_eq_nil_iff] using habsent
        simp [hnone, AList.lookup]
      · rw [List.filter_cons_of_neg (by simp [hk])]
        rw [htail]
        simp only [AList.lookup]
        rw [List.dlookup_cons_ne _ _ (Ne.symm hk)]

theorem mem_iff_lookup {t : Table κ ν} {k : κ} : k ∈ t ↔ ∃ v, t.lookup k = some v := by
  rw [← AList.lookup_isSome, Option.isSome_iff_exists]

theorem lookup_insert_eq (t : Table κ ν) (k i : κ) (v : ν) :
    AList.lookup i (AList.insert k v t) = if i = k then some v else t.lookup i := by
  split
  · rename_i h
    subst h
    exact AList.lookup_insert t
  · rename_i h
    exact AList.lookup_insert_ne h

theorem lookup_emplace (t : Table κ ν) (k i : κ) (v : ν) (hk : t.lookup k = none) :
    (t.emplace k v).lookup i = if i = k then some v else t.lookup i := by
  have hn : k ∉ t := AList.lookup_eq_none.mp hk
  rw [emplace, if_neg hn]
  exact lookup_insert_eq t k i v

theorem entries_emplace {t : Table κ ν} {k : κ} (hk : t.lookup k = none) (v : ν) :
    (t.emplace k v).entries = ⟨k, v⟩ :: t.entries := by
  have hn : k ∉ t := AList.lookup_eq_none.mp hk
  rw [emplace, if_neg hn, AList.entries_insert_of_notMem hn]

-- What is there already stays.
theorem lookup_emplace_kept {t : Table κ ν} {i : κ} {w : ν} (h : t.lookup i = some w) (k : κ)
    (v : ν) : (t.emplace k v).lookup i = some w := by
  unfold emplace
  split
  · exact h
  · rename_i hk
    have hne : i ≠ k := by
      rintro rfl
      exact hk (mem_iff_lookup.mpr ⟨w, h⟩)
    rw [AList.lookup_insert_ne hne]
    exact h

theorem lookup_emplace_ne {i k : κ} (h : i ≠ k) (t : Table κ ν) (v : ν) :
    (t.emplace k v).lookup i = t.lookup i := by
  unfold emplace
  split
  · rfl
  · exact AList.lookup_insert_ne h

@[simp] theorem lookup_modify (t : Table κ ν) (k i : κ) (f : ν → ν) :
    (t.modify k f).lookup i = if i = k then (t.lookup i).map f else t.lookup i := by
  apply Option.ext
  intro w
  have hmem : w ∈ (t.modify k f).lookup i ↔
      (⟨i, w⟩ : Sigma fun _ : κ => ν) ∈ (t.modify k f).entries := AList.mem_lookup_iff
  rw [← Option.mem_def, hmem]
  simp only [modify, List.mem_map, Sigma.exists]
  constructor
  · rintro ⟨j, u, hm, he⟩
    have hl := mem_entries_iff.mp hm
    by_cases hj : j = k
    · simp only [hj, if_true, Sigma.mk.injEq] at he
      obtain ⟨rfl, hw⟩ := he
      subst hj
      simp [hl, eq_of_heq hw]
    · simp only [hj, if_false, Sigma.mk.injEq] at he
      obtain ⟨rfl, hw⟩ := he
      simp [hj, hl, eq_of_heq hw]
  · by_cases hi : i = k
    · intro h
      simp only [hi, if_true, Option.map_eq_some_iff] at h
      obtain ⟨u, hu, rfl⟩ := h
      exact ⟨i, u, mem_entries_iff.mpr (hi ▸ hu), by simp [hi]⟩
    · intro h
      simp only [hi, if_false] at h
      exact ⟨i, w, mem_entries_iff.mpr h, by simp [hi]⟩

theorem lookup_upsert (t : Table κ ν) (k i : κ) (v : ν) (f : ν → ν) :
    (t.upsert k v f).lookup i =
      if i = k then some ((t.lookup i).elim v f) else t.lookup i := by
  unfold upsert
  cases h : t.lookup k with
  | none =>
      rw [lookup_insert_eq]
      by_cases hi : i = k
      · rw [if_pos hi, if_pos hi, hi, h, Option.elim_none]
      · rw [if_neg hi, if_neg hi]
  | some w =>
      rw [lookup_modify]
      by_cases hi : i = k
      · rw [if_pos hi, if_pos hi, hi, h, Option.elim_some, Option.map_some]
      · rw [if_neg hi, if_neg hi]

@[simp] theorem keys_modify (t : Table κ ν) (k : κ) (f : ν → ν) :
    (t.modify k f).keys = t.keys := by
  simp only [AList.keys, modify, List.keys, List.map_map]
  apply List.map_congr_left
  intro e _
  simp only [Function.comp_apply]
  split <;> rfl

-- The last of two writes under one key is the one that stays.
@[simp] theorem modify_modify_const (t : Table κ ν) (k : κ) (a b : ν) :
    (t.modify k fun _ => a).modify k (fun _ => b) = t.modify k fun _ => b := by
  apply AList.ext
  simp only [modify, List.map_map]
  apply List.map_congr_left
  intro e _
  by_cases he : e.1 = k
  · simp [he]
  · simp [he]

-- Two tables that differ in the order of their entries only.
theorem lookup_of_perm {s t : Table κ ν} (h : s.entries.Perm t.entries) (k : κ) :
    s.lookup k = t.lookup k :=
  AList.perm_lookup h

end Table

end P2pGpu
