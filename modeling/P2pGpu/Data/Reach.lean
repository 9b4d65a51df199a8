import Mathlib.Logic.Relation
import P2pGpu.Data.Since

namespace P2pGpu

universe u v

-- Runs of a labelled step relation whose steps all pass a guard. The guard sees
-- the state the step leaves.
section

variable {σ : Type u} {ℓ : Type v}

def Reach (step : σ → ℓ → σ → Prop) (guard : σ → ℓ → Prop) : σ → σ → Prop :=
  Relation.ReflTransGen fun s t => ∃ l, guard s l ∧ step s l t

namespace Reach

variable {step : σ → ℓ → σ → Prop} {guard other : σ → ℓ → Prop} {s t r : σ}

theorem refl (s : σ) : Reach step guard s s := Relation.ReflTransGen.refl

theorem single {l : ℓ} (hg : guard s l) (h : step s l t) : Reach step guard s t :=
  Relation.ReflTransGen.single ⟨l, hg, h⟩

theorem trans (h : Reach step guard s t) (h' : Reach step guard t r) :
    Reach step guard s r := Relation.ReflTransGen.trans h h'

theorem tail {l : ℓ} (h : Reach step guard s t) (hg : guard t l) (h' : step t l r) :
    Reach step guard s r := Relation.ReflTransGen.tail h ⟨l, hg, h'⟩

theorem head {l : ℓ} (hg : guard s l) (h : step s l t) (h' : Reach step guard t r) :
    Reach step guard s r := Relation.ReflTransGen.head ⟨l, hg, h⟩ h'

theorem mono (hm : ∀ s l, guard s l → other s l) (h : Reach step guard s t) :
    Reach step other s t := by
  induction h with
  | refl => exact refl s
  | tail _ hlast ih =>
      obtain ⟨l, hg, hst⟩ := hlast
      exact ih.tail (hm _ l hg) hst

-- The run rule: what every guarded step keeps, every run keeps.
theorem invariant (h : Reach step guard s t) (inv : σ → Prop) (hs : inv s)
    (hstep : ∀ s l t, inv s → guard s l → step s l t → inv t) : inv t := by
  induction h with
  | refl => exact hs
  | tail _ hlast ih =>
      obtain ⟨l, hg, hst⟩ := hlast
      exact hstep _ l _ ih hg hst

-- A list of labels, each taken by one function that is a step, is a run.
theorem foldl {next : σ → ℓ → σ} (hstep : ∀ s l, step s l (next s l)) (ls : List ℓ)
    (h : ∀ l ∈ ls, ∀ t, guard t l) : Reach step guard s (ls.foldl next s) := by
  induction ls generalizing s with
  | nil => exact refl s
  | cons l ls ih =>
      have hfirst := h l List.mem_cons_self s
      exact head hfirst (hstep s l) (ih fun k hk => h k (List.mem_cons_of_mem _ hk))

-- A guard that only holds under an invariant may be checked along the way.
theorem strengthen (h : Reach step guard s t) (inv : σ → Prop) (hs : inv s)
    (hstep : ∀ s l t, inv s → guard s l → step s l t → inv t) :
    Reach step (fun s l => inv s ∧ guard s l) s t := by
  induction h with
  | refl => exact refl s
  | tail hrun hlast ih =>
      obtain ⟨l, hg, hst⟩ := hlast
      exact ih.tail ⟨invariant hrun inv hs hstep, hg⟩ hst

end Reach

-- A run that remembers what came before: each state it left, and the step it took
-- there.
def Recalling (step : σ → ℓ → σ → Prop) (s : σ × List (σ × ℓ)) (l : ℓ) (t : σ × List (σ × ℓ)) :
    Prop :=
  step s.1 l t.1 ∧ t.2 = s.2 ++ [(s.1, l)]

namespace Recalling

variable {step : σ → ℓ → σ → Prop} {guard : σ × List (σ × ℓ) → ℓ → Prop} {s : σ}
  {t r : σ × List (σ × ℓ)}

theorem forget (h : Reach (Recalling step) guard (s, []) t) :
    Reach step (fun _ _ => True) s t.1 := by
  induction h with
  | refl => exact Reach.refl s
  | tail _ hlast ih =>
      obtain ⟨l, -, hstep, -⟩ := hlast
      exact ih.tail trivial hstep

-- A guard that sees no further back than the state is one of the run itself.
theorem forget_guarded {now : σ → ℓ → Prop} (h : Reach (Recalling step) guard t r)
    (hguard : ∀ x l, guard x l → now x.1 l) : Reach step now t.1 r.1 := by
  induction h with
  | refl => exact Reach.refl t.1
  | tail _ hlast ih =>
      obtain ⟨l, hg, hstep, -⟩ := hlast
      exact ih.tail (hguard _ l hg) hstep

-- What is remembered was reached.
theorem past (h : Reach (Recalling step) guard (s, []) t) :
    ∀ e ∈ t.2, Reach step (fun _ _ => True) s e.1 := by
  induction h with
  | refl => exact fun e he => absurd he List.not_mem_nil
  | tail hrun hlast ih =>
      obtain ⟨l, -, -, hpast⟩ := hlast
      intro e he
      rw [hpast] at he
      rcases List.mem_append.mp he with hold | hnew
      · exact ih e hold
      · rw [List.mem_singleton.mp hnew]
        exact forget hrun

-- The run rule, for what is said of a state and of all that is remembered there.
theorem invariant (h : Reach (Recalling step) guard (s, []) t) (inv : σ → List (σ × ℓ) → Prop)
    (hs : inv s []) (hstep : ∀ r past l r', Reach (Recalling step) guard (s, []) (r, past) →
      guard (r, past) l → inv r past → step r l r' → inv r' (past ++ [(r, l)])) :
    inv t.1 t.2 := by
  induction h with
  | refl => exact hs
  | @tail r t hrun hlast ih =>
      obtain ⟨l, hg, hnext, hpast⟩ := hlast
      rw [hpast]
      exact hstep r.1 r.2 l t.1 hrun hg ih hnext

-- What is said of every state that was left, and of the one that is reached.
def Along (inv : σ → List (σ × ℓ) → Prop) (t : σ × List (σ × ℓ)) : Prop :=
  (∀ before e after, t.2 = before ++ e :: after → inv e.1 before) ∧ inv t.1 t.2

theorem along_mono {inv inv' : σ → List (σ × ℓ) → Prop} (hinv : ∀ s past, inv s past → inv' s past)
    (h : Along inv t) : Along inv' t :=
  ⟨fun before e after heq => hinv e.1 before (h.1 before e after heq), hinv t.1 t.2 h.2⟩

-- Where every step that keeps to a condition keeps what is said, and no other step does,
-- a run satisfies it throughout just where all of its steps keep to the condition.
theorem along_iff (h : Reach (Recalling step) guard (s, []) t) (inv : σ → List (σ × ℓ) → Prop)
    (ok : List (σ × ℓ) → σ → ℓ → Prop) (hs : inv s [])
    (hstep : ∀ r past l r', Reach (Recalling step) guard (s, []) (r, past) → inv r past →
      guard (r, past) l → step r l r' → (inv r' (past ++ [(r, l)]) ↔ ok past r l)) :
    Along inv t ↔ ∀ before e after, t.2 = before ++ e :: after → ok before e.1 e.2 := by
  induction h with
  | refl =>
      have hnone : ∀ before (e : σ × ℓ) after, ([] : List (σ × ℓ)) ≠ before ++ e :: after :=
        fun before e after heq =>
          List.append_ne_nil_of_right_ne_nil before (List.cons_ne_nil e after) heq.symm
      exact ⟨fun _ before e after heq => absurd heq (hnone before e after),
        fun _ => ⟨fun before e after heq => absurd heq (hnone before e after), hs⟩⟩
  | @tail r t hrun hlast ih =>
      obtain ⟨l, hg, hnext, hpast⟩ := hlast
      have hlocal := fun hinv => hstep r.1 r.2 l t.1 hrun hinv hg hnext
      unfold Along at ih ⊢
      rw [hpast]
      constructor
      · rintro ⟨hleft, hreached⟩ before e after heq
        have hold : ∀ before e after, r.2 = before ++ e :: after → inv e.1 before :=
          fun before e after hr => hleft before e (after ++ [(r.1, l)]) (by rw [hr]; simp)
        have hlatest : inv r.1 r.2 := hleft r.2 (r.1, l) [] rfl
        rcases split_concat heq with ⟨rfl, rfl⟩ | ⟨rest, -, hr⟩
        · exact (hlocal hlatest).mp hreached
        · exact ih.mp ⟨hold, hlatest⟩ before e rest hr
      · intro hok
        have hold := ih.mpr fun before e after hr =>
          hok before e (after ++ [(r.1, l)]) (by rw [hr]; simp)
        refine ⟨fun before e after heq => ?_, (hlocal hold.2).mpr (hok r.2 (r.1, l) [] rfl)⟩
        rcases split_concat heq with ⟨rfl, rfl⟩ | ⟨rest, -, hr⟩
        · exact hold.2
        · exact hold.1 before e rest hr

-- What is remembered of a list of steps, each taken by one function.
def history (next : σ → ℓ → σ) : σ → List ℓ → List (σ × ℓ)
  | _, [] => []
  | s, l :: ls => (s, l) :: history next (next s l) ls

-- Every step of the list passes a check, which sees what came before.
def passes (next : σ → ℓ → σ) (check : List (σ × ℓ) → σ → ℓ → Bool) :
    List (σ × ℓ) → σ → List ℓ → Bool
  | _, _, [] => true
  | past, s, l :: ls => check past s l && passes next check (past ++ [(s, l)]) (next s l) ls

theorem foldl_passes {next : σ → ℓ → σ} {check : List (σ × ℓ) → σ → ℓ → Bool}
    (hstep : ∀ s l, step s l (next s l))
    (hcheck : ∀ past s l, check past s l = true → guard (s, past) l) (ls : List ℓ)
    (past : List (σ × ℓ)) (s : σ) (h : passes next check past s ls = true) :
    Reach (Recalling step) guard (s, past) (ls.foldl next s, past ++ history next s ls) := by
  induction ls generalizing s past with
  | nil =>
      rw [history, List.append_nil]
      exact Reach.refl (s, past)
  | cons l ls ih =>
      obtain ⟨hhead, htail⟩ := Bool.and_eq_true_iff.mp h
      have hfirst : Recalling step (s, past) l (next s l, past ++ [(s, l)]) := ⟨hstep s l, rfl⟩
      have hrest := ih (past ++ [(s, l)]) (next s l) htail
      rw [List.append_assoc, List.singleton_append] at hrest
      exact Reach.head (hcheck past s l hhead) hfirst hrest

theorem passes_true {next : σ → ℓ → σ} (past : List (σ × ℓ)) (s : σ) (ls : List ℓ) :
    passes next (fun _ _ _ => true) past s ls = true := by
  induction ls generalizing past s with
  | nil => rfl
  | cons l ls ih => exact ih (past ++ [(s, l)]) (next s l)

theorem foldl {next : σ → ℓ → σ} (hstep : ∀ s l, step s l (next s l)) (ls : List ℓ)
    (past : List (σ × ℓ)) (s : σ) :
    Reach (Recalling step) (fun _ _ => True) (s, past)
      (ls.foldl next s, past ++ history next s ls) :=
  foldl_passes hstep (fun _ _ _ _ => trivial) ls past s (passes_true past s ls)

end Recalling

end

end P2pGpu
