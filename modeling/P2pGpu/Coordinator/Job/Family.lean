import P2pGpu.Coordinator.Job.Answer

namespace P2pGpu.Coordinator

open P2pGpu.Protocol

namespace JobManager

-- A replica and its original are in the list of their job.
def Enrolled (m : JobManager) : Prop :=
  ∀ id t, m.find id = some t → t.replicaOf ≠ Id.nil →
    ∃ job, m.findJob t.job = some job ∧ id ∈ job.tasks ∧ t.replicaOf ∈ job.tasks

-- Nothing is rejected, and what is cancelled was done by one of its family.
def Vindicated (m : JobManager) : Prop :=
  ∀ id t, m.find id = some t → t.state ≠ .rejected ∧
    (t.state = .cancelled → ∃ i s, m.find i = some s ∧ s.state = .accepted ∧ s.family = t.family)

section

variable {m m' : JobManager} {l : Label} {id i : TaskId} {t s : Task} {jobId : JobId} {job : Job}
  {good : JobId → Prop} {deadline : Option UInt64}

theorem Enrolled.empty : Enrolled {} := by
  intro id t h
  cases h

theorem Vindicated.empty : Vindicated {} := by
  intro id t h
  cases h

-- The list of a job only grows.
theorem Move.tasks_mono (h : Move m l m') (hp : m.Partition good) (hl : m.SeedsOnly l)
    (hf : m.findJob jobId = some job) :
    ∃ job', m'.findJob jobId = some job' ∧ job.tasks ⊆ job'.tasks := by
  obtain ⟨job', hf'⟩ := h.findJob_mono hp.fresh hf
  refine ⟨job', hf', ?_⟩
  rcases h.findJob_some hp.fresh hf' with hsame | ⟨-, -, hnone, -⟩ | ⟨_, edit, rfl, hsame, rfl⟩ |
    ⟨_, tile, u, units, -, -, hsame, rfl, -⟩ | ⟨_, u, original, -, -, hsame, rfl, -⟩
  · rw [hf] at hsame
    cases hsame
    exact List.Subset.refl _
  · rw [hnone] at hf
    cases hf
  · obtain ⟨render, inputRef, _, rfl, -⟩ := hl
    rw [hf] at hsame
    cases hsame
    exact List.Subset.refl _
  · rw [hf] at hsame
    cases hsame
    exact List.subset_append_left _ _
  · rw [hf] at hsame
    cases hsame
    exact List.subset_append_left _ _

theorem Enrolled.move (he : m.Enrolled) (hm : m.Minted) (hp : m.Partition good) (h : Move m l m')
    (hl : m.SeedsOnly l) : m'.Enrolled := by
  have hkept : ∀ {id : TaskId} {s t : Task}, s.job = t.job → s.replicaOf = t.replicaOf →
      (∃ job, m.findJob s.job = some job ∧ id ∈ job.tasks ∧ s.replicaOf ∈ job.tasks) →
      ∃ job, m'.findJob t.job = some job ∧ id ∈ job.tasks ∧ t.replicaOf ∈ job.tasks := by
    rintro id s t hjob hreplica ⟨job, hf, hid, hroot⟩
    obtain ⟨job', hf', hsub⟩ := h.tasks_mono hp hl hf
    rw [hjob] at hf'
    rw [hreplica] at hroot
    exact ⟨job', hf', hsub hid, hsub hroot⟩
  intro id t hf hne
  rcases h.find_eq hm id with ⟨heq, -⟩ | ⟨a, s, t', -, hs, hr, -, hf'⟩ |
    ⟨u, hent, hborn, hid, -, hf'⟩
  · exact hkept rfl rfl (he id t (heq ▸ hf) hne)
  · rw [hf] at hf'
    cases hf'
    obtain ⟨-, hjob, -, hreplica⟩ := Act.result_shape hr
    exact hkept hjob.symm hreplica.symm (he id s hs (hreplica ▸ hne))
  · rw [hf] at hf'
    cases hf'
    cases h with
    | carve job tile t units hjob hleft hborn horig =>
        cases hent
        exact absurd horig hne
    | probe job t hjob hborn horig =>
        cases hent
        exact absurd horig hne
    | replica job original t hjob hmem hfind horig hborn hstart hcount hrace =>
        cases hent
        have hmove := Move.replica m job original t hjob hmem hfind horig hborn hstart hcount hrace
        obtain ⟨job', hf', hlisted⟩ := hmove.entered_listed rfl nofun
        obtain ⟨job'', hf'', hsub⟩ := hmove.tasks_mono hp trivial hjob
        rw [hf'] at hf''
        cases hf''
        exact ⟨job', hf', hid ▸ hlisted, hsub hmem⟩
    | create => cases hent
    | edit => cases hent
    | mint => cases hent
    | act => cases hent
    | aux => cases hent
    | flush => cases hent

theorem family_result {a : Act} {t' : Task} (h : a.result t = some t') : t'.family = t.family := by
  obtain ⟨hid, -, -, hreplica⟩ := Act.result_shape h
  rw [Task.family, Task.family, hid, hreplica]

-- A task that is done stays done.
theorem result_terminal {a : Act} {t' : Task} (hr : a.result t = some t')
    (hs : isTerminal t.state = true) : t'.state = t.state := by
  cases a with
  | record submission =>
      cases hr
      rfl
  | cancel =>
      simp only [Act.result] at hr
      split at hr
      · rename_i hstate
        rcases hstate with hstate | hstate | hstate <;> rw [hstate] at hs <;> cases hs
      · cases hr
  | _ =>
      -- Every other step starts from one state, which is not final.
      simp only [Act.result] at hr
      split at hr
      · rename_i hstate
        simp_all [isTerminal]
      · cases hr

theorem Move.terminal_stays (h : Move m l m') (hm : m.Minted) (hf : m.find i = some s)
    (hs : isTerminal s.state = true) :
    ∃ s', m'.find i = some s' ∧ s'.state = s.state ∧ s'.family = s.family := by
  rcases h.find_some hm hf with hsame | ⟨a, s', -, hr, -, hf'⟩
  · exact ⟨s, hsame, rfl, rfl⟩
  · exact ⟨s', hf', result_terminal hr hs, family_result hr⟩

theorem Vindicated.result {a : Act} {t' : Task} (hr : a.result t = some t')
    (ha : ∀ accepted, a = .finish accepted → accepted = true) :
    (t'.state = .rejected → t.state = .rejected) ∧
      (t'.state = .cancelled → t.state = .cancelled ∨ a = .cancel) := by
  cases a with
  | record submission =>
      cases hr
      exact ⟨id, .inl⟩
  | finish accepted =>
      simp only [Act.result] at hr
      split at hr <;> cases hr
      rw [ha accepted rfl]
      exact ⟨fun h => (by cases h), fun h => (by cases h)⟩
  | cancel =>
      simp only [Act.result] at hr
      split at hr <;> cases hr
      exact ⟨fun h => (by cases h), fun _ => .inr rfl⟩
  | grant place worker deadline =>
      simp only [Act.result] at hr
      split at hr <;> cases hr
      exact ⟨fun h => (by cases h), fun h => (by cases h)⟩
  | submit worker =>
      simp only [Act.result] at hr
      split at hr <;> cases hr
      exact ⟨fun h => (by cases h), fun h => (by cases h)⟩
  | renew worker deadline =>
      simp only [Act.result] at hr
      split at hr <;> cases hr
      exact ⟨fun h => h, .inl⟩
  | requeue =>
      simp only [Act.result] at hr
      split at hr <;> cases hr
      exact ⟨fun h => (by cases h), fun h => (by cases h)⟩
  | replicate drop =>
      simp only [Act.result] at hr
      split at hr <;> cases hr
      exact ⟨fun h => (by cases h), fun h => (by cases h)⟩

theorem Vindicated.move (hv : m.Vindicated) (hm : m.Minted) (hl : Legal deadline m l)
    (h : Move m l m') : m'.Vindicated := by
  have hkept : ∀ {f : TaskId}, (∃ i s, m.find i = some s ∧ s.state = .accepted ∧ s.family = f) →
      ∃ i s, m'.find i = some s ∧ s.state = .accepted ∧ s.family = f := by
    rintro f ⟨i, s, hf, hs, rfl⟩
    obtain ⟨s', hf', hs', hfamily⟩ := h.terminal_stays hm hf (by rw [hs]; rfl)
    exact ⟨i, s', hf', hs'.trans hs, hfamily⟩
  intro id t hf
  rcases h.find_eq hm id with ⟨heq, -⟩ | ⟨a, s, t', rfl, hs, hr, -, hf'⟩ |
    ⟨u, -, hborn, -, -, hf'⟩
  · obtain ⟨hrejected, hcancelled⟩ := hv id t (heq ▸ hf)
    exact ⟨hrejected, fun hc => hkept (hcancelled hc)⟩
  · rw [hf] at hf'
    cases hf'
    obtain ⟨hrejected, hcancelled⟩ := hv id s hs
    obtain ⟨hback, hcases⟩ := Vindicated.result hr fun accepted he =>
      hl.accepts id accepted (by rw [he])
    refine ⟨fun hc => hrejected (hback hc), fun hc => ?_⟩
    rw [family_result hr]
    rcases hcases hc with hold | rfl
    · exact hkept (hcancelled hold)
    · exact hkept (hl.cancels id s rfl hs)
  · rw [hf] at hf'
    cases hf'
    rw [hborn.state]
    exact ⟨nofun, nofun⟩

-- A job that is complete has an accepted answer for every unit.
theorem covered_of_complete (hm : m.Minted) (hp : m.Partition good) (hv : m.Vindicated)
    (hgood : good jobId) (hjob : m.findJob jobId = some job) (hfits : job.Fits)
    (hcomplete : m.jobComplete jobId = true) (u : Nat) (hu : u < job.totalUnits.toNat) :
    ∃ id t, m.find id = some t ∧ t.job = jobId ∧ (id ∈ job.tasks ∨ t.replicaOf ∈ job.tasks) ∧
      t.state = .accepted ∧ u ∈ t.span.units := by
  unfold jobComplete at hcomplete
  rw [hjob] at hcomplete
  obtain ⟨hexhausted, hterminal⟩ := (Bool.and_eq_true _ _).mp hcomplete
  obtain ⟨hcarvable, htiles⟩ := hp.tiles hgood hjob hfits
  have hcarved : u ∈ job.carvedUnits := by
    rw [hcarvable.carvedUnits_exhausted hexhausted]
    exact hu
  obtain ⟨t, ht, hut⟩ := mem_originals_units.mpr ((htiles.cover u).mpr hcarved)
  obtain ⟨hmem, horig⟩ := List.mem_filter.mp ht
  obtain ⟨id, hid, hfind⟩ := List.mem_filterMap.mp hmem
  have hroot : t.replicaOf = Id.nil := of_decide_eq_true horig
  have hown := (hp.member hjob hid hfind).own
  have hdone : isTerminal t.state = true := by
    have hall := List.all_eq_true.mp hterminal id hid
    rw [hfind] at hall
    exact hall
  obtain ⟨hrejected, hcancelled⟩ := hv id t hfind
  cases hstate : t.state with
  | accepted => exact ⟨id, t, hfind, hown, .inl hid, hstate, hut⟩
  | cancelled =>
      obtain ⟨i, s, hs, haccepted, hfamily⟩ := hcancelled hstate
      have htid : t.family = id := by rw [Task.family, if_pos hroot, hm.id_eq hfind]
      rw [htid, Task.family] at hfamily
      by_cases hsroot : s.replicaOf = Id.nil
      · -- An original is alone of its kind in its family.
        rw [if_pos hsroot, hm.id_eq hs] at hfamily
        rw [hfamily, hfind] at hs
        cases hs
        rw [hstate] at haccepted
        cases haccepted
      · rw [if_neg hsroot] at hfamily
        obtain ⟨o, ho, -, hojob, hspan⟩ := hp.family hs hsroot
        rw [hfamily, hfind] at ho
        cases ho
        refine ⟨i, s, hs, hojob.symm.trans hown, .inr ?_, haccepted, ?_⟩
        · rw [hfamily]
          exact hid
        · rw [← hspan]
          exact hut
  | rejected => exact absurd hstate hrejected
  | queued =>
      rw [hstate] at hdone
      cases hdone
  | leased =>
      rw [hstate] at hdone
      cases hdone
  | validating =>
      rw [hstate] at hdone
      cases hdone
  | needsReplica =>
      rw [hstate] at hdone
      cases hdone

-- The two ways to tell a sibling.
theorem sibling_root (hm : m.Minted) (ht : m.find id = some t) (hs : m.find i = some s)
    (hfamily : s.family = t.family) :
    i = (if t.replicaOf = Id.nil then id else t.replicaOf) ∨
      s.replicaOf = if t.replicaOf = Id.nil then id else t.replicaOf := by
  have htid := hm.id_eq ht
  have hsid := hm.id_eq hs
  rw [Task.family, Task.family, htid, hsid] at hfamily
  by_cases hroot : s.replicaOf = Id.nil
  · rw [if_pos hroot] at hfamily
    exact .inl hfamily
  · rw [if_neg hroot] at hfamily
    exact .inr hfamily

-- The members of a family of more than one are all in the list of one job.
theorem sibling_listed (hm : m.Minted) (hp : m.Partition good) (he : m.Enrolled)
    (ht : m.find id = some t) (hs : m.find i = some s) (hfamily : s.family = t.family)
    (hne : i ≠ id) : ∃ job, m.findJob t.job = some job ∧ i ∈ job.tasks := by
  by_cases hroot : s.replicaOf = Id.nil
  · have hreplica : t.replicaOf = i := by
      have htid := hm.id_eq ht
      have hsid := hm.id_eq hs
      rw [Task.family, Task.family, if_pos hroot, htid, hsid] at hfamily
      by_cases horig : t.replicaOf = Id.nil
      · rw [if_pos horig] at hfamily
        exact absurd hfamily hne
      · rw [if_neg horig] at hfamily
        exact hfamily.symm
    have hnot : t.replicaOf ≠ Id.nil := hreplica ▸ hm.ne_nil hs
    obtain ⟨job, hjob, -, hmem⟩ := he id t ht hnot
    exact ⟨job, hjob, hreplica ▸ hmem⟩
  · obtain ⟨job, hjob, hmem, -⟩ := he i s hs hroot
    have hown : s.job = t.job := by
      obtain ⟨o, ho, -, hojob, -⟩ := hp.family hs hroot
      have htid := hm.id_eq ht
      rw [Task.family, Task.family, if_neg hroot, htid] at hfamily
      by_cases horig : t.replicaOf = Id.nil
      · rw [if_pos horig] at hfamily
        rw [hfamily, ht] at ho
        cases ho
        exact hojob.symm
      · rw [if_neg horig] at hfamily
        obtain ⟨o', ho', -, hojob', -⟩ := hp.family ht horig
        rw [hfamily, ho'] at ho
        cases ho
        exact hojob.symm.trans hojob'
    exact ⟨job, hown ▸ hjob, hmem⟩

-- What cancelling a list of tasks does to each of them.
theorem find_cancelFrom (winner root : TaskId) (ids : List TaskId) (hnodup : ids.Nodup)
    (m : JobManager) (hi : i ∈ ids) (hne : i ≠ winner) (hs : m.find i = some s)
    (hfamily : i = root ∨ s.replicaOf = root) (hlive : s.live) :
    (cancelFrom winner root ids m).2.find i = some s.cancelled := by
  have hstep : ∀ {n n' : JobManager}, Moves (Cancels winner root) n n' →
      n.find i = some s.cancelled → n'.find i = some s.cancelled := by
    intro n n' hmoves hn
    refine hmoves.invariant (fun k => k.find i = some s.cancelled) hn ?_
    intro k l k' hk hl hmove
    rcases hl with rfl | ⟨j, u, rfl, -, hu, -⟩
    · cases hmove with
      | aux _ hrows => exact (hrows.find_eq i).trans hk
    · cases hmove with
      | act _ _ w w' hw hr =>
          rw [find_perform hw]
          by_cases hij : i = j
          · rw [← hij, hk] at hw
            cases hw
            simp [Act.result, Task.cancelled] at hr
          · rw [if_neg hij]
            exact hk
  induction ids generalizing m with
  | nil => cases hi
  | cons id ids ih =>
      have hrest := (List.nodup_cons.mp hnodup).2
      by_cases hid : i = id
      · subst hid
        have happly : m.apply i s .cancel = .ok ({ s with state := .cancelled },
            (m.put i { s with state := .cancelled }).markTaskDirty i) :=
          apply_ok.mpr ⟨.cancelled, advance_cancel.mpr ⟨hlive, rfl⟩, rfl⟩
        have hopen : isTerminal s.state = false := by
          rcases hlive with h | h | h <;> rw [h] <;> rfl
        unfold cancelFrom
        rw [if_neg hne, hs]
        dsimp only
        rw [if_neg (by simp [hfamily, hopen]), happly]
        dsimp only
        refine hstep (cancelFrom_moves winner root ids _) ?_
        have hput : (m.put i { s with state := .cancelled }).find i =
            some { s with state := .cancelled } := by
          rw [find_put, if_pos rfl, hs]
          rfl
        change ((m.put i { s with state := .cancelled }).put i s.cancelled).find i = _
        rw [find_put, if_pos rfl, hput]
        rfl
      · have hmem : i ∈ ids := (List.mem_cons.mp hi).resolve_left hid
        unfold cancelFrom
        split
        · exact ih hrest m hmem hs
        · split
          · exact ih hrest m hmem hs
          · rename_i sibling hsibling
            split
            · exact ih hrest m hmem hs
            · cases happly : m.apply id sibling .cancel with
              | error e => exact ih hrest m hmem hs
              | ok r =>
                  obtain ⟨next, hnext, rfl⟩ := apply_ok.mp happly
                  refine ih hrest _ hmem ?_
                  change ((m.put id { sibling with state := next }).put id _).find i = some s
                  rw [find_put, if_neg hid, find_put, if_neg hid]
                  exact hs

-- Once one of a family was accepted, the others are done and were not.
def Decided (m : JobManager) : Prop :=
  ∀ i s j t, m.find i = some s → s.state = .accepted → m.find j = some t → j ≠ i →
    t.family = s.family → isTerminal t.state = true ∧ t.state ≠ .accepted

theorem Decided.empty : Decided {} := by
  intro i s j t h
  cases h

-- A lease is given, renewed or taken back, and nothing is judged.
def loans : Act → Prop
  | .grant _ _ _ | .renew _ _ | .requeue => True
  | .submit _ | .record _ | .replicate _ | .finish _ | .cancel => False

def Spares (_ : JobManager) (l : Label) : Prop := ∀ id a, l = .act id a → loans a

theorem result_spares {a : Act} {t' : Task} (hr : a.result t = some t') (ha : loans a) :
    t'.submissions = t.submissions ∧ t'.priorWorkers = t.priorWorkers ∧
      isTerminal t'.state = false ∧
      (t'.state = .leased →
        (t.state = .leased ∧ t'.holder = t.holder) ∨ t'.holder ∉ t.priorWorkers) := by
  cases a with
  | grant place worker deadline =>
      simp only [Act.result] at hr
      split at hr <;> cases hr
      rename_i hfree
      exact ⟨rfl, rfl, rfl, fun _ => .inr hfree.2⟩
  | renew worker deadline =>
      simp only [Act.result] at hr
      split at hr <;> cases hr
      rename_i hheld
      exact ⟨rfl, rfl, by rw [hheld.1]; rfl, fun h => .inl ⟨h, rfl⟩⟩
  | requeue =>
      simp only [Act.result] at hr
      split at hr <;> cases hr
      exact ⟨rfl, rfl, rfl, fun h => by cases h⟩
  | submit worker => exact ha.elim
  | record submission => exact ha.elim
  | replicate drop => exact ha.elim
  | finish accepted => exact ha.elim
  | cancel => exact ha.elim

-- What is final afterwards was there before as it is, unless a move made it so.
theorem Move.terminal_was (h : Move m l m') (hm : m.Minted) (hl : m.Spares l)
    {t' : Task} (hf : m'.find i = some t') (hs : isTerminal t'.state = true) :
    m.find i = some t' := by
  rcases h.find_eq hm i with ⟨heq, -⟩ | ⟨a, t, u, rfl, ht, hr, -, hf'⟩ | ⟨u, -, hborn, -, -, hf'⟩
  · exact heq ▸ hf
  · rw [hf] at hf'
    cases hf'
    obtain ⟨-, -, hlive, -⟩ := result_spares hr (hl i a rfl)
    rw [hlive] at hs
    cases hs
  · rw [hf] at hf'
    cases hf'
    rw [hborn.state] at hs
    cases hs

theorem Decided.move (hd : m.Decided) (hm : m.Minted) (hp : m.Partition good) (hl : m.Spares l)
    (h : Move m l m') : m'.Decided := by
  intro i s j t hi hs hj hne hfamily
  have hi₀ : m.find i = some s := h.terminal_was hm hl hi (by rw [hs]; rfl)
  rcases h.find_eq hm j with ⟨heq, -⟩ | ⟨a, u, u', rfl, hu, hr, -, hf'⟩ |
    ⟨u, hent, hborn, hid, hnone, hf'⟩
  · exact hd i s j t hi₀ hs (heq ▸ hj) hne hfamily
  · rw [hj] at hf'
    cases hf'
    have hsame : u.family = s.family := (family_result hr).symm.trans hfamily
    obtain ⟨hterminal, hnot⟩ := hd i s j u hi₀ hs hu hne hsame
    rw [result_terminal hr hterminal]
    exact ⟨hterminal, hnot⟩
  · -- A race is only started while the original is leased.
    rw [hj] at hf'
    cases hf'
    refine absurd hfamily ?_
    have hfresh : t.id ≠ s.family := by
      intro he
      rw [Task.family] at he
      by_cases hroot : s.replicaOf = Id.nil
      · rw [if_pos hroot, hm.id_eq hi₀] at he
        exact hne (hid.symm.trans he)
      · rw [if_neg hroot] at he
        obtain ⟨o, ho, -⟩ := hp.family hi₀ hroot
        rw [← he, hid, hnone] at ho
        cases ho
    cases h with
    | carve job tile t units hjob hleft hborn horig =>
        cases hent
        rw [Task.family, if_pos horig]
        exact hfresh
    | probe job t hjob hborn horig =>
        cases hent
        rw [Task.family, if_pos horig]
        exact hfresh
    | replica job original t hjob hmem hfind horig hborn hstart hcount hrace =>
        cases hent
        obtain ⟨-, hleased, -⟩ := speculable_some hrace
        have hof : original.family = t.family := by
          have hnot := hm.ne_nil hfind
          rw [Task.family, Task.family, if_pos horig, if_neg hnot, hm.id_eq hfind]
        intro he
        have hother : t.replicaOf ≠ i := by
          intro heq
          rw [heq, hi₀] at hfind
          cases hfind
          rw [hs] at hleased
          cases hleased
        obtain ⟨hterminal, -⟩ := hd i s _ original hi₀ hs hfind hother (hof.trans he)
        rw [hleased] at hterminal
        cases hterminal
    | create => cases hent
    | edit => cases hent
    | mint => cases hent
    | act => cases hent
    | aux => cases hent
    | flush => cases hent

theorem Decided.moves {guard : JobManager → Label → Prop}
    (hguard : ∀ n l, guard n l → n.SeedsOnly l ∧ n.Spares l) (h : Moves guard m m')
    (hm : m.Minted) (hp : m.Partition good) (hd : m.Decided) : m'.Decided := by
  have hinv := h.invariant (fun n => (n.Minted ∧ n.Partition good) ∧ n.Decided)
    ⟨⟨hm, hp⟩, hd⟩ fun n l n' hn hg hmove =>
      ⟨⟨hmove.minted hn.1.1, hn.1.2.move hn.1.1 hmove (hguard n l hg).1⟩,
        hn.2.move hn.1.1 hn.1.2 (hguard n l hg).2 hmove⟩
  exact hinv.2

theorem Spares.was {guard : JobManager → Label → Prop} (hguard : ∀ n l, guard n l → n.Spares l)
    (h : Moves guard m m') (hm : m.Minted) {t' : Task} (hf : m'.find i = some t')
    (hs : isTerminal t'.state = true) : m.find i = some t' := by
  have hinv := h.invariant (fun n => n.Minted ∧ ∀ u, n.find i = some u →
    isTerminal u.state = true → m.find i = some u) ⟨hm, fun u hu _ => hu⟩ ?_
  · exact hinv.2 t' hf hs
  · rintro n l n' ⟨hn, hold⟩ hg hmove
    refine ⟨hmove.minted hn, fun u hu hterminal => ?_⟩
    exact hold u (hmove.terminal_was hn (hguard n l hg) hu hterminal) hterminal

theorem Light.spares {asked : Prop} {worker : WorkerId} {until_ : UInt64}
    (h : Light asked worker until_ m l) : m.Spares l := by
  rintro id a rfl
  rcases h with he | ⟨-, issue, h⟩ | ⟨i, t, he, -⟩ | ⟨i, he⟩
  · cases he
  · cases a with
    | grant => trivial
    | _ => exact h.elim
  · cases he
    trivial
  · cases he
    trivial

theorem Requeues.spares {p : Task → Prop} (h : Requeues p m l) : m.Spares l := by
  obtain ⟨i, t, rfl, -⟩ := h
  rintro id a he
  cases he
  trivial

end

end JobManager

end P2pGpu.Coordinator
