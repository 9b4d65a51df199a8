import Mathlib.Data.List.Basic

namespace P2pGpu

universe u v

-- What a statement comes to. One that fails may take its transaction with it.
inductive Outcome where
  | done
  | fails (detail : String) (aborts : Bool)
deriving DecidableEq, Repr

-- A connection to a database: what is committed, the transaction that is open on it,
-- and what its next statements come to. When those are spent, nothing fails.
structure Link (σ : Type u) where
  committed : σ
  pending : Option σ := none
  ahead : List Outcome := []

namespace Link

section

variable {σ : Type u}

-- What the connection reads. It sees its own transaction.
def visible (c : Link σ) : σ := c.pending.getD c.committed

def draw (c : Link σ) : Outcome × Link σ :=
  match c.ahead with
  | [] => (.done, c)
  | outcome :: rest => (outcome, { c with ahead := rest })

def abort (c : Link σ) (aborts : Bool) : Link σ :=
  if aborts then { c with pending := none } else c

def beginTransaction (c : Link σ) : Except String Unit × Link σ :=
  match c.draw with
  | (.fails detail _, c) => (.error detail, c)
  | (.done, c) =>
      match c.pending with
      | some _ => (.error "cannot start a transaction within a transaction", c)
      | none => (.ok (), { c with pending := some c.committed })

-- A statement, which may find nothing that it is allowed to write.
def write (c : Link σ) (f : σ → Except String σ) : Except String Unit × Link σ :=
  match c.draw with
  | (.fails detail aborts, c) => (.error detail, c.abort aborts)
  | (.done, c) =>
      match f c.visible with
      | .error detail => (.error detail, c)
      | .ok s =>
          match c.pending with
          | some _ => (.ok (), { c with pending := some s })
          | none => (.ok (), { c with committed := s })

def commit (c : Link σ) : Except String Unit × Link σ :=
  match c.draw with
  | (.fails detail aborts, c) => (.error detail, c.abort aborts)
  | (.done, c) =>
      match c.pending with
      | some s => (.ok (), { c with committed := s, pending := none })
      | none => (.error "cannot commit - no transaction is active", c)

def rollback (c : Link σ) : Link σ := { c with pending := none }

end

section

variable {σ : Type u} {ε : Type v} {c : Link σ} {s s' : σ} {f g : σ → Except String σ}
  {n m : Nat} {run run' : Link σ → Except ε Unit × Link σ}

-- The next so many statements do not fail.
def Healthy (c : Link σ) (n : Nat) : Prop := ∀ outcome ∈ c.ahead.take n, outcome = .done

theorem healthy_zero (c : Link σ) : c.Healthy 0 := by simp [Healthy]

theorem healthy_of_nil (h : c.ahead = []) (n : Nat) : c.Healthy n := by simp [Healthy, h]

theorem draw_healthy (h : c.Healthy 1) : c.draw = (.done, { c with ahead := c.ahead.drop 1 }) := by
  obtain ⟨committed, pending, ahead⟩ := c
  cases ahead with
  | nil => rfl
  | cons outcome rest =>
      have hdone : outcome = .done := h outcome (by simp)
      simp [draw, hdone]

theorem draw_unhealthy (h : ¬ c.Healthy 1) : ∃ detail aborts rest,
    c.ahead = .fails detail aborts :: rest ∧
      c.draw = (.fails detail aborts, { c with ahead := rest }) := by
  unfold draw
  cases ha : c.ahead with
  | nil => exact absurd (healthy_of_nil ha 1) h
  | cons outcome rest =>
      cases outcome with
      | done => exact absurd (by simp [Healthy, ha]) h
      | fails detail aborts => exact ⟨detail, aborts, rest, rfl, rfl⟩

theorem healthy_add : c.Healthy (n + m) ↔
    c.Healthy n ∧ ({ c with ahead := c.ahead.drop n } : Link σ).Healthy m := by
  simp only [Healthy, List.take_add, List.mem_append]
  constructor
  · exact fun h => ⟨fun o ho => h o (.inl ho), fun o ho => h o (.inr ho)⟩
  · rintro ⟨hfirst, hrest⟩ o (ho | ho)
    · exact hfirst o ho
    · exact hrest o ho

-- Statements inside a transaction: they take it from one state to another, or else they
-- fail and it is rolled back.
structure Block (f : σ → Except String σ) (n : Nat) (run : Link σ → Except ε Unit × Link σ) :
    Prop where
  succeeds : ∀ c s s', c.pending = some s → c.Healthy n → f s = .ok s' →
    run c = (.ok (), { c with pending := some s', ahead := c.ahead.drop n })
  fails : ∀ c s, c.pending = some s → ¬ (c.Healthy n ∧ ∃ s', f s = .ok s') →
    ∃ e, (run c).1 = .error e ∧ (run c).2.pending = none ∧ (run c).2.committed = c.committed

-- One block after the other.
def andThen (run run' : Link σ → Except ε Unit × Link σ) (c : Link σ) : Except ε Unit × Link σ :=
  match run c with
  | (.error e, c) => (.error e, c)
  | (.ok _, c) => run' c

-- A statement, with a rollback where it fails.
def attempt (f : σ → Except String σ) (refuse : String → ε) (c : Link σ) :
    Except ε Unit × Link σ :=
  match c.write f with
  | (.error detail, c) => (.error (refuse detail), c.rollback)
  | (.ok _, c) => (.ok (), c)

namespace Block

theorem nil : Block .ok 0 fun c : Link σ => ((.ok () : Except ε Unit), c) where
  succeeds c s s' hs _ hf := by
    cases hf
    simp [← hs]
  fails c s _ h := absurd ⟨healthy_zero c, s, rfl⟩ h

theorem seq (h : Block f n run) (h' : Block g m run') :
    Block (fun s => f s >>= g) (n + m) (andThen run run') where
  succeeds c s s' hs hc hfg := by
    obtain ⟨hn, hm⟩ := healthy_add.mp hc
    cases hf : f s with
    | error e =>
        rw [hf] at hfg
        cases hfg
    | ok t =>
        rw [hf] at hfg
        have hfirst := h.succeeds c s t hs hn hf
        unfold andThen
        rw [hfirst]
        refine (h'.succeeds { c with pending := some t, ahead := c.ahead.drop n } t s' rfl hm
        hfg).trans ?_
        simp [List.drop_drop]
  fails c s hs hc := by
    by_cases hfirst : c.Healthy n ∧ ∃ t, f s = .ok t
    · obtain ⟨hn, t, hf⟩ := hfirst
      have hrest : ¬ (({ c with pending := some t, ahead := c.ahead.drop n } : Link σ).Healthy m ∧
          ∃ s', g t = .ok s') := by
        rintro ⟨hm, s', hg⟩
        refine hc ⟨healthy_add.mpr ⟨hn, hm⟩, s', ?_⟩
        show f s >>= g = .ok s'
        rw [hf]
        exact hg
      unfold andThen
      rw [h.succeeds c s t hs hn hf]
      exact h'.fails _ t rfl hrest
    · obtain ⟨e, he, hpending, hcommitted⟩ := h.fails c s hs hfirst
      unfold andThen
      cases hr : run c with
      | mk r c' =>
          rw [hr] at he hpending hcommitted
          dsimp only at he
          subst he
          exact ⟨e, rfl, hpending, hcommitted⟩

theorem attempt (f : σ → Except String σ) (refuse : String → ε) :
    Block f 1 (attempt f refuse) where
  succeeds c s s' hs hc hf := by
    have hvisible : c.visible = s := by simp [visible, hs]
    have hwrite : c.write f = (.ok (), { c with pending := some s', ahead := c.ahead.drop 1 }) := by
      unfold Link.write
      rw [draw_healthy hc]
      have hsame : ({ c with ahead := c.ahead.drop 1 } : Link σ).visible = s := hvisible
      dsimp only
      rw [hsame, hf, hs]
    unfold Link.attempt
    rw [hwrite]
  fails c s hs hc := by
    unfold Link.attempt
    by_cases hdraw : c.Healthy 1
    · have hnone : ∀ s', f s ≠ .ok s' := fun s' hf => hc ⟨hdraw, s', hf⟩
      cases hf : f s with
      | ok s' => exact absurd hf (hnone s')
      | error detail =>
          have hsame : ({ c with ahead := c.ahead.drop 1 } : Link σ).visible = s := by
            simp [visible, hs]
          have hwrite : c.write f = (.error detail, { c with ahead := c.ahead.drop 1 }) := by
            unfold Link.write
            rw [draw_healthy hdraw]
            dsimp only
            rw [hsame, hf]
          rw [hwrite]
          exact ⟨refuse detail, rfl, rfl, rfl⟩
    · obtain ⟨detail, aborts, rest, -, hdrawn⟩ := draw_unhealthy hdraw
      have hwrite : c.write f =
          (.error detail, ({ c with ahead := rest } : Link σ).abort aborts) := by
        unfold Link.write
        rw [hdrawn]
      rw [hwrite]
      refine ⟨refuse detail, rfl, rfl, ?_⟩
      cases aborts <;> rfl

end Block

-- BEGIN, a block, and COMMIT. Where the last fails that is all there is to it.
def transacted (refuse : String → ε) (run : Link σ → Except ε Unit × Link σ) (c : Link σ) :
    Except ε Unit × Link σ :=
  match c.beginTransaction with
  | (.error detail, c) => (.error (refuse detail), c)
  | (.ok _, c) =>
      match run c with
      | (.error e, c) => (.error e, c)
      | (.ok _, c) =>
          match c.commit with
          | (.error detail, c) => (.error (refuse detail), c)
          | (.ok _, c) => (.ok (), c)

-- The commit is what fails, and it leaves the transaction open.
def HangsAt (c : Link σ) (n : Nat) : Prop :=
  c.Healthy n ∧ ∃ detail rest, c.ahead.drop n = .fails detail false :: rest

-- The statements before the commit succeed, and the commit takes nothing with it.
def Keeps (c : Link σ) (n : Nat) : Prop :=
  c.Healthy n ∧ ∀ detail rest, c.ahead.drop n ≠ .fails detail true :: rest

theorem HangsAt.keeps (h : c.HangsAt n) : c.Keeps n := by
  obtain ⟨hn, detail, rest, hlast⟩ := h
  refine ⟨hn, fun detail' rest' hlast' => ?_⟩
  rw [hlast] at hlast'
  cases hlast'

theorem keeps_of_nil (h : c.ahead = []) (n : Nat) : c.Keeps n :=
  ⟨healthy_of_nil h n, by simp [h]⟩

theorem beginTransaction_healthy (hfirst : c.Healthy 1) (hc : c.pending = none) :
    c.beginTransaction =
      (.ok (), { c with pending := some c.committed, ahead := c.ahead.drop 1 }) := by
  unfold beginTransaction
  rw [draw_healthy hfirst]
  dsimp only
  rw [hc]

-- Where not all before the commit succeeds, nothing comes of it.
theorem transacted_undone (h : Block f n run) (refuse : String → ε) (hc : c.pending = none)
    (hfails : ¬ (c.Healthy (1 + n) ∧ ∃ s, f c.committed = .ok s)) :
    ∃ e, (transacted refuse run c).1 = .error e ∧
      (transacted refuse run c).2.committed = c.committed ∧
      (transacted refuse run c).2.pending = none := by
  by_cases hfirst : c.Healthy 1
  · have hblock : ¬ (({ c with ahead := c.ahead.drop 1 } : Link σ).Healthy n ∧
        ∃ s, f c.committed = .ok s) :=
      fun hboth => hfails ⟨healthy_add.mpr ⟨hfirst, hboth.1⟩, hboth.2⟩
    obtain ⟨e, he, hpending, hcommitted⟩ :=
      h.fails { c with pending := some c.committed, ahead := c.ahead.drop 1 } c.committed rfl
        hblock
    have hrun : transacted refuse run c = (.error e,
        (run { c with pending := some c.committed, ahead := c.ahead.drop 1 }).2) := by
      unfold transacted
      rw [beginTransaction_healthy hfirst hc]
      dsimp only
      cases hr : run { c with pending := some c.committed, ahead := c.ahead.drop 1 } with
      | mk r c' =>
          rw [hr] at he
          dsimp only at he
          subst he
          rfl
    rw [hrun]
    exact ⟨e, rfl, hcommitted, hpending⟩
  · obtain ⟨detail, aborts, rest, -, hdrawn⟩ := draw_unhealthy hfirst
    have hrun : transacted refuse run c = (.error (refuse detail), { c with ahead := rest }) := by
      unfold transacted beginTransaction
      rw [hdrawn]
    rw [hrun]
    exact ⟨refuse detail, rfl, rfl, hc⟩

-- Where all of that succeeds, it comes down to the commit.
theorem transacted_written (h : Block f n run) (refuse : String → ε) (hc : c.pending = none)
    (hall : c.Healthy (1 + n)) (hf : f c.committed = .ok s) :
    transacted refuse run c =
      match ({ c with pending := some s, ahead := c.ahead.drop (1 + n) } : Link σ).commit with
      | (.error detail, c) => (.error (refuse detail), c)
      | (.ok _, c) => (.ok (), c) := by
  obtain ⟨hfirst, hn⟩ := healthy_add.mp hall
  have hrun := h.succeeds { c with pending := some c.committed, ahead := c.ahead.drop 1 }
    c.committed s rfl hn hf
  have hahead : (c.ahead.drop 1).drop n = c.ahead.drop (1 + n) := List.drop_drop
  dsimp only at hrun
  rw [hahead] at hrun
  unfold transacted
  rw [beginTransaction_healthy hfirst hc]
  dsimp only
  rw [hrun]

-- What can become of a transaction that begins with none open: all of it is committed, or
-- none of it, or it stays open.
theorem transacted_cases (h : Block f n run) (refuse : String → ε) (hc : c.pending = none) :
    (∃ s, ¬ c.HangsAt (1 + n) ∧ f c.committed = .ok s ∧ (transacted refuse run c).1 = .ok () ∧
        (transacted refuse run c).2.committed = s ∧ (transacted refuse run c).2.pending = none) ∨
      (∃ e, ¬ (c.Keeps (1 + n) ∧ ∃ s, f c.committed = .ok s) ∧
        (transacted refuse run c).1 = .error e ∧
        (transacted refuse run c).2.committed = c.committed ∧
        (transacted refuse run c).2.pending = none) ∨
      ∃ e s, (c.HangsAt (1 + n) ∧ f c.committed = .ok s) ∧
        (transacted refuse run c).1 = .error e ∧
        (transacted refuse run c).2.committed = c.committed ∧
        (transacted refuse run c).2.pending = some s := by
  by_cases hwrites : c.Healthy (1 + n) ∧ ∃ s, f c.committed = .ok s
  · obtain ⟨hall, s, hf⟩ := hwrites
    rw [transacted_written h refuse hc hall hf]
    unfold commit draw
    cases hlast : c.ahead.drop (1 + n) with
    | nil => exact .inl ⟨s, by simp [HangsAt, hlast], hf, rfl, rfl, rfl⟩
    | cons outcome rest =>
        cases outcome with
        | done => exact .inl ⟨s, by simp [HangsAt, hlast], hf, rfl, rfl, rfl⟩
        | fails detail aborts =>
            cases aborts with
            | true =>
                refine .inr (.inl ⟨refuse detail, ?_, rfl, rfl, rfl⟩)
                rintro ⟨⟨-, hkept⟩, -⟩
                exact hkept detail rest hlast
            | false =>
                exact .inr (.inr ⟨refuse detail, s, ⟨⟨hall, detail, rest, hlast⟩, hf⟩, rfl, rfl,
                  rfl⟩)
  · obtain ⟨e, he, hcommitted, hpending⟩ := transacted_undone h refuse hc hwrites
    refine .inr (.inl ⟨e, ?_, he, hcommitted, hpending⟩)
    rintro ⟨⟨hall, -⟩, hstored⟩
    exact hwrites ⟨hall, hstored⟩

end

end Link

end P2pGpu
