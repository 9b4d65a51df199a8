import P2pGpu.Coordinator.Job.Run

namespace P2pGpu.Coordinator

open P2pGpu.Protocol

namespace Label

-- Work goes to somebody, never to nil.
def HandsToSomeone : Label → Prop
  | .act _ (.grant _ worker _) => worker ≠ Id.nil
  | .carve _ t => t.holder ≠ Id.nil
  | .probe t => t.holder ≠ Id.nil
  | .replica t => t.holder ≠ Id.nil
  | .act _ _ | .create _ | .edit _ _ | .mint | .aux | .flush => True

theorem handsToSomeone_of_grants {l : Label} {worker : WorkerId} {deadline : UInt64}
    {issue : Issue} (h : l.grants worker deadline issue) (hw : worker ≠ Id.nil) :
    l.HandsToSomeone := by
  cases l with
  | act id a => cases a <;> first | trivial | exact fun he => hw (h.1.symm.trans he)
  | carve tile t => exact fun he => hw (h.1.symm.trans he)
  | probe t => exact fun he => hw (h.1.1.symm.trans he)
  | replica t => exact fun he => hw (h.1.1.symm.trans he)
  | create => trivial
  | edit => trivial
  | mint => trivial
  | aux => trivial
  | flush => trivial

theorem handsToSomeone_of_settles {l : Label} (h : l.Settles) : l.HandsToSomeone := by
  cases l with
  | act id a => cases a <;> trivial
  | carve => exact h.elim
  | probe => exact h.elim
  | replica => exact h.elim
  | create => trivial
  | edit => trivial
  | mint => trivial
  | aux => trivial
  | flush => exact h.elim

end Label

namespace JobManager

-- The queue is the set of queued tasks, and a lease is what a holder has.
structure QueueInv (m : JobManager) : Prop where
  nodup : m.queue.Nodup
  queued : ∀ id, id ∈ m.queue ↔ ∃ t, m.find id = some t ∧ t.state = .queued
  holder : ∀ {id t}, m.find id = some t → (t.holder ≠ Id.nil ↔ t.state = .leased)

namespace QueueInv

variable {m m' : JobManager} {l : Label} {id i : TaskId} {t t' : Task} {a : Act}

theorem empty : QueueInv {} where
  nodup := List.nodup_nil
  queued id := by
    constructor
    · intro h
      cases h
    · rintro ⟨t, h, -⟩
      cases h
  holder h := by cases h

theorem not_mem (hq : m.QueueInv) (h : m.find id = some t) (hs : t.state ≠ .queued) :
    id ∉ m.queue := by
  intro hmem
  obtain ⟨s, hs', hstate⟩ := (hq.queued id).mp hmem
  rw [h] at hs'
  cases hs'
  exact hs hstate

private theorem not_mem_eraseIdx {q : List TaskId} {place : Nat} (hq : q.Nodup)
    (h : q[place]? = some id) : id ∉ q.eraseIdx place := by
  intro hmem
  obtain ⟨j, hne, hj⟩ := List.mem_eraseIdx_iff_getElem?.mp hmem
  obtain ⟨hlt, -⟩ := List.getElem?_eq_some_iff.mp hj
  exact hne ((List.getElem?_inj hlt hq).mp (hj.trans h.symm))

private theorem mem_eraseIdx_ne {q : List TaskId} {place : Nat} (h : q[place]? = some id)
    (hi : i ≠ id) : i ∈ q.eraseIdx place ↔ i ∈ q := by
  constructor
  · exact List.mem_of_mem_eraseIdx
  · intro hmem
    obtain ⟨j, hj⟩ := List.mem_iff_getElem?.mp hmem
    refine List.mem_eraseIdx_iff_getElem?.mpr ⟨j, ?_, hj⟩
    rintro rfl
    rw [h] at hj
    exact hi (Option.some.inj hj).symm

-- A step of one task moves no other one in the queue.
theorem mem_queue_ne (hf : a.finds id m.queue) (hi : i ≠ id) :
    i ∈ a.queue id m.queue ↔ i ∈ m.queue := by
  cases a with
  | grant place worker deadline => exact mem_eraseIdx_ne hf hi
  | requeue => simp [Act.queue, hi]
  | replicate => simp [Act.queue, hi]
  | cancel => simp [Act.queue, hi]
  | submit => rfl
  | renew => rfl
  | record => rfl
  | finish => rfl

-- What one step makes of the queue, of the state and of the holder of its task.
theorem act_queue (hq : m.QueueInv) (hfind : m.find id = some t) (hr : a.result t = some t')
    (hf : a.finds id m.queue) (hl : (Label.act id a).HandsToSomeone) :
    (a.queue id m.queue).Nodup ∧ (id ∈ a.queue id m.queue ↔ t'.state = .queued) ∧
      (t'.holder ≠ Id.nil ↔ t'.state = .leased) := by
  have hold := hq.holder hfind
  have hin : t.state = .queued → id ∈ m.queue := fun h => (hq.queued id).mpr ⟨t, hfind, h⟩
  have hout : t.state ≠ .queued → id ∉ m.queue := hq.not_mem hfind
  have hpush : id ∉ m.queue → (m.queue ++ [id]).Nodup := by
    intro h
    refine List.nodup_append.mpr ⟨hq.nodup, List.nodup_singleton id, ?_⟩
    intro j hj k hk he
    rw [he, List.mem_singleton.mp hk] at hj
    exact h hj
  cases a with
  | grant place worker deadline =>
      simp only [Act.result] at hr
      split at hr <;> cases hr
      exact ⟨hq.nodup.sublist (List.eraseIdx_sublist _ _),
        by simp [Act.queue, not_mem_eraseIdx hq.nodup hf], fun _ => rfl, fun _ => hl⟩
  | submit worker =>
      simp only [Act.result] at hr
      split at hr <;> cases hr
      rename_i h
      exact ⟨hq.nodup, by simp [Act.queue, hout, h.1], by simp⟩
  | renew worker deadline =>
      simp only [Act.result] at hr
      split at hr <;> cases hr
      rename_i h
      exact ⟨hq.nodup, by simp [Act.queue, hout, h.1], hold⟩
  | requeue =>
      simp only [Act.result] at hr
      split at hr <;> cases hr
      rename_i h
      exact ⟨hpush (hout (by simp [h])), by simp [Act.queue, Task.requeued],
        by simp [Task.requeued]⟩
  | replicate drop =>
      simp only [Act.result] at hr
      split at hr <;> cases hr
      rename_i h
      exact ⟨hpush (hout (by simp [h])), by simp [Act.queue], by simp⟩
  | record submission =>
      cases hr
      exact ⟨hq.nodup, ⟨fun h => by_contra fun hn => hout hn h, hin⟩, hold⟩
  | finish accepted =>
      simp only [Act.result] at hr
      split at hr <;> cases hr
      rename_i h
      rw [h] at hold
      refine ⟨hq.nodup, ?_, ?_⟩
      · cases accepted <;> simp [Act.queue, hout, h]
      · cases accepted <;> simp_all
  | cancel =>
      simp only [Act.result] at hr
      split at hr <;> cases hr
      exact ⟨hq.nodup.filter _, by simp [Act.queue], by simp⟩

theorem move (hq : m.QueueInv) (hm : m.Minted) (h : Move m l m') (hl : l.HandsToSomeone) :
    m'.QueueInv where
  nodup := by
    rw [h.queue_eq]
    cases h with
    | act id a t t' hfind hresult hqueue => exact (act_queue hq hfind hresult hqueue hl).1
    | create => exact hq.nodup
    | edit => exact hq.nodup
    | mint => exact hq.nodup
    | carve => exact hq.nodup
    | probe => exact hq.nodup
    | replica => exact hq.nodup
    | aux => exact hq.nodup
    | flush => exact hq.nodup
  queued := by
    intro i
    rw [h.queue_eq]
    rcases h.find_eq hm i with ⟨heq, -, hne⟩ | ⟨a, t, t', rfl, hf, hr, hfinds, hf'⟩ |
      ⟨t, he, hborn, rfl, hnone, hf'⟩
    · rw [heq, ← hq.queued i]
      cases h with
      | act id a t t' hfind hresult hqueue =>
          exact mem_queue_ne hqueue fun hi => hne a (hi ▸ rfl)
      | create => rfl
      | edit => rfl
      | mint => rfl
      | carve => rfl
      | probe => rfl
      | replica => rfl
      | aux => rfl
      | flush => rfl
    · rw [hf']
      have hmem : i ∈ a.queue i m.queue ↔ t'.state = .queued :=
        (act_queue hq hf hr hfinds hl).2.1
      simpa [Label.queue] using hmem
    · have hnot : t.id ∉ m.queue := by
        intro hmem
        obtain ⟨s, hs, -⟩ := (hq.queued _).mp hmem
        rw [hnone] at hs
        cases hs
      have hsame : l.queue m.queue = m.queue := by
        cases l <;> first | rfl | cases he
      rw [hsame, hf']
      simp [hnot, hborn.state]
  holder := by
    intro i s hs
    rcases h.find_eq hm i with ⟨heq, -, -⟩ | ⟨a, t, t', rfl, hf, hr, hfinds, hf'⟩ |
      ⟨t, he, hborn, rfl, hnone, hf'⟩
    · exact hq.holder (heq ▸ hs)
    · rw [hs] at hf'
      cases hf'
      exact (act_queue hq hf hr hfinds hl).2.2
    · rw [hs] at hf'
      cases hf'
      have hsome : s.holder ≠ Id.nil := by
        cases l <;> first | (cases he; exact hl) | cases he
      simp [hsome, hborn.state]

theorem moves {guard : JobManager → Label → Prop}
    (hguard : ∀ m l, guard m l → l.HandsToSomeone) (h : Moves guard m m') (hm : m.Minted)
    (hq : m.QueueInv) : m'.QueueInv := by
  have hinv := h.invariant (fun n => n.Minted ∧ n.QueueInv) ⟨hm, hq⟩ fun s l _ hi hg hmove =>
    ⟨hmove.minted hi.1, hi.2.move hi.1 hmove (hguard s l hg)⟩
  exact hinv.2

end QueueInv

section Runs

variable {F : Type} [Double F]

omit [Double F] in
theorem takes_handsToSomeone {o : Operation F} (hw : ¬ o.handsTo Id.nil) (m : JobManager)
    (l : Label) (h : Takes o m l) : l.HandsToSomeone := by
  cases o with
  | createJob => exact h ▸ trivial
  | seedRender => exact h.elim
  | mutableJob => exact h ▸ trivial
  | grant => exact Label.handsToSomeone_of_grants h hw
  | issueKnownRange => exact Label.handsToSomeone_of_grants h hw
  | issueSpeculative => exact Label.handsToSomeone_of_grants h hw
  | clearDirty => exact h ▸ trivial
  | _ => exact Label.handsToSomeone_of_settles h

-- What every operation keeps, each of them through the moves it takes.
theorem step_queueInv {m m' : JobManager} {o : Operation F} (h : Step m o m')
    (hreq : o.requeuesLeased) (hw : ¬ o.handsTo Id.nil) (hm : m.Minted) (hq : m.QueueInv) :
    m'.Minted ∧ m'.QueueInv := by
  have hrun : (o.run m).Minted ∧ (o.run m).QueueInv := by
    by_cases hseed : ∃ render inputRef, o = .seedRender render inputRef
    · obtain ⟨render, inputRef, rfl⟩ := hseed
      obtain ⟨n, hcreate, hedit⟩ := seedRender_moves m render inputRef
      have hn := hcreate.minted hm
      exact ⟨hedit.minted hn, (hq.move hm hcreate trivial).move hn hedit trivial⟩
    · have hmoves := run_moves (m := m) o hreq fun render inputRef he =>
        hseed ⟨render, inputRef, he⟩
      exact ⟨hmoves.minted hm, QueueInv.moves (takes_handsToSomeone hw) hmoves hm hq⟩
  have hrows := Move.aux _ _ h.sameRows
  exact ⟨hrows.minted hrun.1, hrun.2.move hrun.1 hrows trivial⟩

-- Whatever the operations were and whatever they returned.
theorem queue_invariant {m : JobManager}
    (h : Reach Step (fun _ (o : Operation F) => o.requeuesLeased ∧ ¬ o.handsTo Id.nil) {} m) :
    m.queue.Nodup ∧
      (∀ id, id ∈ m.queue ↔ ∃ t, m.find id = some t ∧ t.state = .queued) ∧
      ∀ id t, m.find id = some t → (t.holder ≠ Id.nil ↔ t.state = .leased) := by
  have hinv := h.invariant (fun n => n.Minted ∧ n.QueueInv) ⟨Minted.empty, QueueInv.empty⟩
    fun _ _ _ hi hg hstep => step_queueInv hstep hg.1 hg.2 hi.1 hi.2
  exact ⟨hinv.2.nodup, hinv.2.queued, fun _ _ => hinv.2.holder⟩

-- A task that is carved and then swept is back in the queue, held by nobody.
theorem queue_invariant_sweep :
    let m := runAll {} ([.createJob "brute_search_v1" 8 42 0, .grant ⟨1, 1⟩ 0 10 8 [],
      .sweepExpiredLeases 10] : List (Operation Rat))
    m.queue = [⟨0, 2⟩] ∧ m.queue.Nodup := by
  refine ⟨by decide, (queue_invariant (reach_runAll _ _ ?_)).1⟩
  intro o ho n
  simp only [List.mem_cons, List.not_mem_nil, or_false] at ho
  rcases ho with rfl | rfl | rfl
  · exact ⟨trivial, nofun⟩
  · exact ⟨trivial, fun h => by cases h⟩
  · exact ⟨trivial, nofun⟩

end Runs

end JobManager

end P2pGpu.Coordinator
