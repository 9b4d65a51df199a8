import P2pGpu.Coordinator.Job.Operations

namespace P2pGpu.Coordinator.JobManager

open P2pGpu.Protocol

-- Every task stands under its own identifier, and every identifier was minted.
structure Minted (m : JobManager) : Prop where
  pos : 0 < m.nextId
  task : ∀ {id t}, m.find id = some t → t.id = id ∧ ∃ n, 0 < n ∧ n < m.nextId ∧ id = ⟨0, n⟩

namespace Minted

variable {m : JobManager} {id : TaskId} {t : Task}

theorem empty : Minted {} where
  pos := by decide
  task h := by cases h

theorem id_eq (hm : m.Minted) (h : m.find id = some t) : t.id = id := (hm.task h).1

theorem ne_nil (hm : m.Minted) (h : m.find id = some t) : id ≠ Id.nil := by
  obtain ⟨-, n, hpos, -, rfl⟩ := hm.task h
  exact Id.mk_zero_ne_nil hpos

theorem fresh (hm : m.Minted) : m.find m.mint.1 = none := by
  cases h : m.find m.mint.1 with
  | none => rfl
  | some t =>
      obtain ⟨-, n, -, hlt, heq⟩ := hm.task h
      have := Id.mk_zero_inj.mp heq
      omega

end Minted

namespace Move

variable {m m' : JobManager} {l : Label} {i : TaskId} {t : Task}

-- What a move does to the table of tasks.
theorem find_eq (h : Move m l m') (hm : m.Minted) (i : TaskId) :
    (m'.find i = m.find i ∧ (∀ t, l.entered = some t → t.id ≠ i) ∧ ∀ a, l ≠ .act i a) ∨
      (∃ a t t', l = .act i a ∧ m.find i = some t ∧ a.result t = some t' ∧
        a.finds i m.queue ∧ m'.find i = some t') ∨
      ∃ t, l.entered = some t ∧ m.Born t ∧ t.id = i ∧ m.find i = none ∧ m'.find i = some t := by
  have henter : ∀ (n : JobManager) (t : Task), n.mint.1 = m.mint.1 → n.find = m.find →
      m.Born t → ((n.enter t).find i = m.find i ∧ t.id ≠ i) ∨
        (m.Born t ∧ t.id = i ∧ m.find i = none ∧ (n.enter t).find i = some t) := by
    intro n t hmint hfind hborn
    have hnone : m.find t.id = none := by
      rw [hborn.id]
      exact hm.fresh
    have hf := find_enter n t (by rw [hfind]; exact hnone) i
    by_cases hi : i = t.id
    · rw [if_pos hi] at hf
      exact .inr ⟨hborn, hi.symm, by rw [hi]; exact hnone, hf⟩
    · rw [if_neg hi, hfind] at hf
      exact .inl ⟨hf, fun he => hi he.symm⟩
  cases h with
  | create => exact .inl ⟨rfl, nofun, nofun⟩
  | edit => exact .inl ⟨rfl, nofun, nofun⟩
  | mint => exact .inl ⟨rfl, nofun, nofun⟩
  | flush => exact .inl ⟨rfl, nofun, nofun⟩
  | aux _ h => exact .inl ⟨h.find_eq i, nofun, nofun⟩
  | act id a t t' hfind hresult hqueue =>
      have hf := find_perform hfind a t' i
      by_cases hi : i = id
      · subst hi
        rw [if_pos rfl] at hf
        exact .inr (.inl ⟨a, t, t', rfl, hfind, hresult, hqueue, hf⟩)
      · rw [if_neg hi] at hf
        exact .inl ⟨hf, nofun, fun b he => hi (by injection he with hid; exact hid.symm)⟩
  | carve job tile t units hjob hleft hborn horig hstart hcount hpos =>
      rcases henter _ t rfl rfl hborn with ⟨hf, hne⟩ | hnew
      · exact .inl ⟨hf, fun _ he => Option.some.inj he ▸ hne, nofun⟩
      · exact .inr (.inr ⟨t, rfl, hnew⟩)
  | probe job t hjob hborn horig hpos =>
      rcases henter _ t rfl rfl hborn with ⟨hf, hne⟩ | hnew
      · exact .inl ⟨hf, fun _ he => Option.some.inj he ▸ hne, nofun⟩
      · exact .inr (.inr ⟨t, rfl, hnew⟩)
  | replica job original t hjob hmem hfind horig hborn hstart hcount =>
      rcases henter _ t rfl rfl hborn with ⟨hf, hne⟩ | hnew
      · exact .inl ⟨hf, fun _ he => Option.some.inj he ▸ hne, nofun⟩
      · exact .inr (.inr ⟨t, rfl, hnew⟩)

theorem queue_eq (h : Move m l m') : m'.queue = l.queue m.queue := by
  cases h with
  | aux _ h => exact h.queue.symm
  | create => rfl
  | edit => rfl
  | mint => rfl
  | act => rfl
  | carve => rfl
  | probe => rfl
  | replica => rfl
  | flush => rfl

theorem nextId_le (h : Move m l m') : m.nextId ≤ m'.nextId := by
  cases h with
  | aux _ h => exact Nat.le_of_eq h.nextId
  | create => exact Nat.le_succ _
  | edit => exact Nat.le_refl _
  | mint => exact Nat.le_succ _
  | act => exact Nat.le_refl _
  | carve => exact Nat.le_succ _
  | probe => exact Nat.le_succ _
  | replica => exact Nat.le_succ _
  | flush => exact Nat.le_refl _

theorem nextId_lt (h : Move m l m') (he : l.entered = some t) : m.nextId < m'.nextId := by
  cases h with
  | carve => exact Nat.lt_succ_self _
  | probe => exact Nat.lt_succ_self _
  | replica => exact Nat.lt_succ_self _
  | create => cases he
  | edit => cases he
  | mint => cases he
  | act => cases he
  | aux => cases he
  | flush => cases he

-- A task that was there still is, moved by one step at most.
theorem find_some (h : Move m l m') (hm : m.Minted) (hf : m.find i = some t) :
    m'.find i = some t ∨
      ∃ a t', l = .act i a ∧ a.result t = some t' ∧ a.finds i m.queue ∧ m'.find i = some t' := by
  rcases h.find_eq hm i with ⟨heq, -⟩ | ⟨a, s, t', hl, hs, hr, hq, hf'⟩ | ⟨s, -, -, -, hnone, -⟩
  · exact .inl (heq.trans hf)
  · rw [hf] at hs
    cases hs
    exact .inr ⟨a, t', hl, hr, hq, hf'⟩
  · rw [hnone] at hf
    cases hf

theorem minted (h : Move m l m') (hm : m.Minted) : m'.Minted where
  pos := Nat.lt_of_lt_of_le hm.pos h.nextId_le
  task := by
    intro id t hf
    rcases h.find_eq hm id with ⟨heq, -⟩ | ⟨a, s, t', -, hs, hr, -, hf'⟩ | ⟨s, he, hborn, hid, -, hf'⟩
    · obtain ⟨hid, n, hpos, hlt, heq'⟩ := hm.task (heq ▸ hf)
      exact ⟨hid, n, hpos, Nat.lt_of_lt_of_le hlt h.nextId_le, heq'⟩
    · rw [hf] at hf'
      cases hf'
      obtain ⟨hid, n, hpos, hlt, heq'⟩ := hm.task hs
      exact ⟨(Act.result_shape hr).1.trans hid, n, hpos, Nat.lt_of_lt_of_le hlt h.nextId_le, heq'⟩
    · rw [hf] at hf'
      cases hf'
      exact ⟨hid, m.nextId, hm.pos, h.nextId_lt he, by rw [← hid, hborn.id]; rfl⟩

end Move

theorem Moves.minted {guard : JobManager → Label → Prop} {m m' : JobManager}
    (h : Moves guard m m') (hm : m.Minted) : m'.Minted :=
  h.invariant Minted hm fun _ _ _ hn _ hmove => hmove.minted hn

end P2pGpu.Coordinator.JobManager
