import P2pGpu.Coordinator.Job.Sweeps
import P2pGpu.Coordinator.Session.Result
import P2pGpu.Data.Since

namespace P2pGpu.Coordinator

open P2pGpu.Protocol

-- What the record of a worker holds for its next correction.
structure Estimate (F : Type) where
  correction : F
  predictedMs : F
  grantedAtMs : UInt64

-- A task that was handed out, as it was predicted then.
structure Grant (F : Type) where
  worker : WorkerId
  task : TaskId
  predictedMs : F
  atMs : UInt64
deriving DecidableEq

-- What a correction is moved by. A task that expired was done at no time.
structure Sample (F : Type) where
  worker : WorkerId
  task : TaskId
  predictedMs : F
  actualMs : F
  doneMs : Option UInt64
deriving DecidableEq

inductive Note (F : Type) where
  | granted (g : Grant F)
  | observed (s : Sample F)
deriving DecidableEq

namespace Note

variable {F : Type}

def worker : Note F → WorkerId
  | .granted g => g.worker
  | .observed s => s.worker

def task : Note F → TaskId
  | .granted g => g.task
  | .observed s => s.task

def revise [Double F] : Note F → Estimate F → Estimate F
  | .granted g, e => { e with predictedMs := g.predictedMs, grantedAtMs := g.atMs }
  | .observed s, e =>
      { e with
        correction := updateCorrection e.correction s.predictedMs s.actualMs Session.kAlpha
        predictedMs := 0.0 }

end Note

section

variable {F : Type} {worker : WorkerId} {task : TaskId} {as : List (Note F)}

-- The last that was noted of a task and a worker.
def lastNote (worker : WorkerId) (task : TaskId) (notes : List (Note F)) : Option (Note F) :=
  (notes.filter fun n => n.worker = worker ∧ n.task = task).getLast?

theorem lastNote_append (worker : WorkerId) (task : TaskId) (as bs : List (Note F)) :
    lastNote worker task (as ++ bs) = (lastNote worker task bs).or (lastNote worker task as) := by
  unfold lastNote
  rw [List.filter_append, List.getLast?_append]

theorem lastNote_some {n : Note F} (h : lastNote worker task as = some n) :
    n ∈ as ∧ n.worker = worker ∧ n.task = task := by
  have hmem := List.mem_of_getLast? h
  simpa using List.mem_filter.mp hmem

theorem lastNote_none (h : ∀ n ∈ as, n.worker = worker → n.task ≠ task) :
    lastNote worker task as = none := by
  unfold lastNote
  rw [List.getLast?_eq_none_iff, List.filter_eq_nil_iff]
  intro n hn hboth
  obtain ⟨hworker, htask⟩ := of_decide_eq_true hboth
  exact h n hn hworker htask

theorem lastNote_isSome {n : Note F} (hn : n ∈ as) (hworker : n.worker = worker)
    (htask : n.task = task) : ∃ m, lastNote worker task as = some m := by
  cases h : lastNote worker task as with
  | some m => exact ⟨m, rfl⟩
  | none =>
      unfold lastNote at h
      rw [List.getLast?_eq_none_iff, List.filter_eq_nil_iff] at h
      exact absurd (decide_eq_true ⟨hworker, htask⟩) (h n hn)

end

section

variable {F : Type} [Double F]

def WorkerRecord.estimate (r : WorkerRecord F) : Estimate F :=
  ⟨r.correction, r.predictedMs, r.grantedAtMs⟩

namespace Estimate

-- The one that a worker is entered with.
def initial : Estimate F := ⟨1.0, 0.0, 0⟩

-- What the notes about one worker make of its estimate.
def after (e : Estimate F) (worker : WorkerId) (notes : List (Note F)) : Estimate F :=
  notes.foldl (fun e n => if n.worker = worker then n.revise e else e) e

@[simp] theorem after_nil (e : Estimate F) (worker : WorkerId) : e.after worker [] = e := rfl

@[simp] theorem after_append (e : Estimate F) (worker : WorkerId) (notes more : List (Note F)) :
    e.after worker (notes ++ more) = (e.after worker notes).after worker more :=
  List.foldl_append

theorem after_own {worker : WorkerId} {n : Note F} (h : n.worker = worker) (e : Estimate F) :
    e.after worker [n] = n.revise e := if_pos h

theorem after_others {e : Estimate F} {worker : WorkerId} {notes : List (Note F)}
    (h : ∀ n ∈ notes, n.worker ≠ worker) : e.after worker notes = e := by
  induction notes with
  | nil => rfl
  | cons n notes ih =>
      have hfirst : e.after worker (n :: notes) = e.after worker notes := by
        unfold after
        rw [List.foldl_cons, if_neg (h n List.mem_cons_self)]
      rw [hfirst]
      exact ih fun m hm => h m (List.mem_cons_of_mem n hm)

end Estimate

-- Every record that is there afterwards is what the notes make of the one before.
def Fleet.Revised (notes : List (Note F)) (f f' : Fleet F) : Prop :=
  ∀ id r', f'.find id = some r' →
    ∃ r, f.find id = some r ∧ r'.estimate = r.estimate.after id notes

-- The same, but for a worker that is entered anew.
def Fleet.Follows (notes : List (Note F)) (f f' : Fleet F) : Prop :=
  ∀ id r', f'.find id = some r' → r'.estimate = .initial ∨
    ∃ r, f.find id = some r ∧ r'.estimate = r.estimate.after id notes

theorem Fleet.Revised.follows {notes : List (Note F)} {f f' : Fleet F} (h : f.Revised notes f') :
    f.Follows notes f' := fun id r' hr' => .inr (h id r' hr')

namespace Fleet.Revised

variable {f f' f'' : Fleet F} {notes more : List (Note F)}

theorem refl (f : Fleet F) : f.Revised [] f := fun _ r' hr => ⟨r', hr, rfl⟩

theorem trans (h : f.Revised notes f') (h' : f'.Revised more f'') :
    f.Revised (notes ++ more) f'' := by
  intro id r'' hr''
  obtain ⟨r', hr', hlast⟩ := h' id r'' hr''
  obtain ⟨r, hr, hfirst⟩ := h id r' hr'
  refine ⟨r, hr, ?_⟩
  rw [hlast, hfirst, Estimate.after_append]

-- A step that leaves the estimates alone goes before any other, or after it.
theorem keep (h : f.Revised [] f') (h' : f'.Revised notes f'') : f.Revised notes f'' := h.trans h'

theorem kept (h : f.Revised notes f') (h' : f'.Revised [] f'') : f.Revised notes f'' := by
  simpa using h.trans h'

theorem note (f : Fleet F) (n : Note F) {edit : WorkerRecord F → WorkerRecord F}
    (h : ∀ r, f.find n.worker = some r → (edit r).estimate = n.revise r.estimate) :
    f.Revised [n] (f.mutable n.worker edit) := by
  intro id r' hr'
  rw [find_mutable] at hr'
  by_cases hid : id = n.worker
  · subst hid
    rw [if_pos rfl] at hr'
    obtain ⟨r, hr, rfl⟩ := Option.map_eq_some_iff.mp hr'
    refine ⟨r, hr, ?_⟩
    rw [Estimate.after_own rfl]
    exact h r hr
  · rw [if_neg hid] at hr'
    exact ⟨r', hr', (if_neg (Ne.symm hid)).symm⟩

theorem «mutable» (f : Fleet F) (id : WorkerId) {edit : WorkerRecord F → WorkerRecord F}
    (h : ∀ r, f.find id = some r → (edit r).estimate = r.estimate) :
    f.Revised [] (f.mutable id edit) := by
  intro i r' hr'
  rw [find_mutable] at hr'
  by_cases hi : i = id
  · subst hi
    rw [if_pos rfl] at hr'
    obtain ⟨r, hr, rfl⟩ := Option.map_eq_some_iff.mp hr'
    exact ⟨r, hr, h r hr⟩
  · rw [if_neg hi] at hr'
    exact ⟨r', hr', rfl⟩

theorem leave (f : Fleet F) (id : WorkerId) : f.Revised [] (f.leave id) := by
  intro i r' hr'
  by_cases hi : i = id
  · rw [hi] at hr'
    have hgone : (f.leave id).find id = none := AList.lookup_erase _ _
    rw [hgone] at hr'
    cases hr'
  · rw [find_leave_ne f id i hi] at hr'
    exact ⟨r', hr', rfl⟩

theorem foldl {α : Type} {step : Fleet F → α → Fleet F}
    (h : ∀ (f : Fleet F) a, f.Revised [] (step f a)) (as : List α) (f : Fleet F) :
    f.Revised [] (as.foldl step f) := by
  induction as generalizing f with
  | nil => exact refl f
  | cons a as ih => exact (h f a).keep (ih (step f a))

end Fleet.Revised

end

section

variable {F : Type} [Double F] {worker : WorkerId} {as : List (Note F)}

-- A sample belongs to the grant that is the last that was noted of its task and its
-- worker. So it is the only one, too: after it the last is the sample itself.
def Matches (before : List (Note F)) : Note F → Prop
  | .granted _ => True
  | .observed s =>
      ∃ g, lastNote s.worker s.task before = some (.granted g) ∧
        s.predictedMs = g.predictedMs ∧
        ∀ nowMs, s.doneMs = some nowMs → s.actualMs = Double.ofUInt64 (nowMs - g.atMs)

def Paired (notes : List (Note F)) : Prop := Throughout Matches notes

-- What a record predicts, it predicts of every task that its worker holds.
def Backed (notes : List (Note F)) (f : Fleet F) (m : JobManager) : Prop :=
  ∀ worker task r, task ∈ m.heldBy worker → f.find worker = some r → 0.0 < r.predictedMs →
    ∃ g, lastNote worker task notes = some (.granted g) ∧ r.predictedMs = g.predictedMs ∧
      r.grantedAtMs = g.atMs

theorem Estimate.after_cons (e : Estimate F) (n : Note F) :
    e.after worker (n :: as) =
      (if n.worker = worker then n.revise e else e).after worker as := rfl

-- The last grant is the one that a record keeps.
theorem Estimate.after_granted (e : Estimate F) (gs : List (Grant F)) (worker : WorkerId) :
    (∀ g ∈ gs, g.worker ≠ worker) ∨
      ∃ g ∈ gs, g.worker = worker ∧ (e.after worker (gs.map .granted)).predictedMs = g.predictedMs ∧
        (e.after worker (gs.map .granted)).grantedAtMs = g.atMs := by
  induction gs generalizing e with
  | nil => exact .inl fun g hg => absurd hg List.not_mem_nil
  | cons g gs ih =>
      rw [List.map_cons, Estimate.after_cons]
      rcases ih (if (Note.granted g).worker = worker then (Note.granted g).revise e else e) with
        hnone | ⟨last, hlast, hrest⟩
      · by_cases hown : g.worker = worker
        · refine .inr ⟨g, List.mem_cons_self, hown, ?_⟩
          have hothers : ∀ n ∈ gs.map Note.granted, n.worker ≠ worker := by
            intro n hn
            obtain ⟨other, hother, rfl⟩ := List.mem_map.mp hn
            exact hnone other hother
          have hnote : (Note.granted g).worker = worker := hown
          rw [Estimate.after_others hothers, if_pos hnote]
          exact ⟨rfl, rfl⟩
        · refine .inl fun other hother => ?_
          rcases List.mem_cons.mp hother with rfl | hrest
          · exact hown
          · exact hnone other hrest
      · exact .inr ⟨last, List.mem_cons_of_mem g hlast, hrest⟩

-- What was observed is predicted no more.
theorem Estimate.after_observed (e : Estimate F) (has : ∀ n ∈ as, ∃ s, n = .observed s) :
    (∀ n ∈ as, n.worker ≠ worker) ∨ (e.after worker as).predictedMs = 0.0 := by
  induction as generalizing e with
  | nil => exact .inl fun n hn => absurd hn List.not_mem_nil
  | cons n as ih =>
      rw [Estimate.after_cons]
      have hrest := fun m hm => has m (List.mem_cons_of_mem n hm)
      rcases ih (if n.worker = worker then n.revise e else e) hrest with hnone | hzeroed
      · by_cases hown : n.worker = worker
        · right
          obtain ⟨s, rfl⟩ := has n List.mem_cons_self
          rw [Estimate.after_others hnone, if_pos hown]
          rfl
        · left
          intro m hm
          rcases List.mem_cons.mp hm with rfl | hm
          · exact hown
          · exact hnone m hm
      · exact .inr hzeroed

section

variable {notes more : List (Note F)} {f f' : Fleet F} {m m' : JobManager} {gs : List (Grant F)}
  {s : Sample F}

theorem Paired.append (h : Paired notes) (hmatches : ∀ n ∈ more, ∀ before, Matches before n) :
    Paired (notes ++ more) := Throughout.append h hmatches

-- Grants that all predict the same, and the same as the record of a worker that holds
-- tasks already.
structure Agree (gs : List (Grant F)) (f : Fleet F) (m : JobManager) : Prop where
  alike : ∀ g ∈ gs, ∀ g' ∈ gs, g'.worker = g.worker →
    g'.predictedMs = g.predictedMs ∧ g'.atMs = g.atMs
  standing : ∀ g ∈ gs, ∀ i ∈ m.heldBy g.worker, ∀ r ∈ f.find g.worker,
    r.predictedMs = g.predictedMs ∧ r.grantedAtMs = g.atMs

instance [DecidableEq F] : Decidable (Agree gs f m) :=
  decidable_of_iff
    ((∀ g ∈ gs, ∀ g' ∈ gs, g'.worker = g.worker →
        g'.predictedMs = g.predictedMs ∧ g'.atMs = g.atMs) ∧
      ∀ g ∈ gs, ∀ i ∈ m.heldBy g.worker, ∀ r ∈ f.find g.worker,
        r.predictedMs = g.predictedMs ∧ r.grantedAtMs = g.atMs)
    ⟨fun h => ⟨h.1, h.2⟩, fun h => ⟨h.alike, h.standing⟩⟩

namespace Backed

theorem sample (h : Backed notes f m) (hheld : s.task ∈ m.heldBy s.worker) {r : WorkerRecord F}
    (hr : f.find s.worker = some r) (hpositive : 0.0 < r.predictedMs)
    (hpredicted : s.predictedMs = r.predictedMs)
    (hactual : ∀ nowMs, s.doneMs = some nowMs →
      s.actualMs = Double.ofUInt64 (nowMs - r.grantedAtMs)) : Matches notes (.observed s) := by
  obtain ⟨g, hlast, hsame, hat⟩ := h s.worker s.task r hheld hr hpositive
  refine ⟨g, hlast, hpredicted.trans hsame, fun nowMs hdone => ?_⟩
  rw [hactual nowMs hdone, hat]

-- Samples use up what is predicted.
theorem observed (hzero : ¬ (0.0 : F) < 0.0) (h : Backed notes f m)
    (hmore : ∀ n ∈ more, ∃ s, n = .observed s) (hf : f.Follows more f')
    (hheld : ∀ x i, i ∈ m'.heldBy x → i ∈ m.heldBy x) : Backed (notes ++ more) f' m' := by
  intro x i r' hi hr' hpositive
  rcases hf x r' hr' with hfresh | ⟨r, hr, hrevised⟩
  · have hnew : r'.predictedMs = 0.0 := congrArg Estimate.predictedMs hfresh
    rw [hnew] at hpositive
    exact absurd hpositive hzero
  · have hpredicted : r'.predictedMs = (r.estimate.after x more).predictedMs :=
      congrArg Estimate.predictedMs hrevised
    rcases r.estimate.after_observed hmore with hothers | hzeroed
    · rw [Estimate.after_others hothers] at hrevised hpredicted
      have hat : r'.grantedAtMs = r.grantedAtMs := congrArg Estimate.grantedAtMs hrevised
      have hsame : r'.predictedMs = r.predictedMs := hpredicted
      rw [hsame] at hpositive
      obtain ⟨g, hlast, hrest⟩ := h x i r (hheld x i hi) hr hpositive
      refine ⟨g, ?_, ?_⟩
      · rw [lastNote_append, lastNote_none fun n hn hown => absurd hown (hothers n hn)]
        exact hlast
      · rw [hsame, hat]
        exact hrest
    · rw [hpredicted, hzeroed] at hpositive
      exact absurd hpositive hzero

theorem granted (hzero : ¬ (0.0 : F) < 0.0) (h : Backed notes f m) (hagree : Agree gs f m)
    (hf : f.Follows (gs.map .granted) f')
    (hheld : ∀ x i, i ∈ m'.heldBy x →
      i ∈ m.heldBy x ∨ ∃ g ∈ gs, g.worker = x ∧ g.task = i) :
    Backed (notes ++ gs.map .granted) f' m' := by
  intro x i r' hi hr' hpositive
  rcases hf x r' hr' with hfresh | ⟨r, hr, hrevised⟩
  · have hnew : r'.predictedMs = 0.0 := congrArg Estimate.predictedMs hfresh
    rw [hnew] at hpositive
    exact absurd hpositive hzero
  · have hpredicted : r'.predictedMs = (r.estimate.after x (gs.map .granted)).predictedMs :=
      congrArg Estimate.predictedMs hrevised
    have hat : r'.grantedAtMs = (r.estimate.after x (gs.map .granted)).grantedAtMs :=
      congrArg Estimate.grantedAtMs hrevised
    rcases r.estimate.after_granted gs x with hnone | ⟨last, hmem, hown, hlast, hlastAt⟩
    · -- the worker was handed nothing
      have hothers : ∀ n ∈ gs.map Note.granted, n.worker ≠ x := by
        intro n hn
        obtain ⟨g, hg, rfl⟩ := List.mem_map.mp hn
        exact hnone g hg
      have hold : i ∈ m.heldBy x := by
        rcases hheld x i hi with hold | ⟨g, hg, hgx, -⟩
        · exact hold
        · exact absurd hgx (hnone g hg)
      rw [Estimate.after_others hothers] at hpredicted hat
      have hsame : r'.predictedMs = r.predictedMs := hpredicted
      rw [hsame] at hpositive
      obtain ⟨g, hnote, hrest⟩ := h x i r hold hr hpositive
      refine ⟨g, ?_, ?_⟩
      · rw [lastNote_append, lastNote_none fun n hn hxn => absurd hxn (hothers n hn)]
        exact hnote
      · rw [hsame, hat]
        exact hrest
    · by_cases hgiven : ∃ g ∈ gs, g.worker = x ∧ g.task = i
      · obtain ⟨g, hg, hgx, hgi⟩ := hgiven
        obtain ⟨n, hnote⟩ := lastNote_isSome (List.mem_map_of_mem (f := Note.granted) hg) hgx hgi
        obtain ⟨hn, hnx, -⟩ := lastNote_some hnote
        obtain ⟨g', hg', rfl⟩ := List.mem_map.mp hn
        obtain ⟨hp, ha⟩ := hagree.alike g' hg' last hmem (hown.trans (Eq.symm hnx))
        refine ⟨g', ?_, ?_, ?_⟩
        · rw [lastNote_append, hnote]
          rfl
        · exact hpredicted.trans (hlast.trans hp)
        · exact hat.trans (hlastAt.trans ha)
      · have hold : i ∈ m.heldBy x := (hheld x i hi).resolve_right hgiven
        subst hown
        obtain ⟨hp, ha⟩ := hagree.standing last hmem i hold r hr
        have hsame : r'.predictedMs = r.predictedMs := hpredicted.trans (hlast.trans hp.symm)
        rw [hsame] at hpositive
        obtain ⟨g, hnote, hrest⟩ := h last.worker i r hold hr hpositive
        refine ⟨g, ?_, ?_⟩
        · rw [lastNote_append, lastNote_none ?_]
          · exact hnote
          · intro n hn hnx hni
            obtain ⟨g', hg', rfl⟩ := List.mem_map.mp hn
            exact hgiven ⟨g', hg', hnx, hni⟩
        · rw [hsame, hat.trans (hlastAt.trans ha.symm)]
          exact hrest

end Backed

end

end

end P2pGpu.Coordinator
