import Mathlib.Algebra.Group.Nat.Defs
import Mathlib.Data.List.Basic

namespace P2pGpu

-- How a computation ends that does not return: it refuses its input, or it reads
-- outside of an array or computes a number that wraps.
inductive Stop (ε : Type) where
  | refused (e : ε)
  | fault
deriving DecidableEq, Repr

abbrev Checked (ε α : Type) : Type := Except (Stop ε) α

namespace Checked

variable {ε α β : Type}

def refuse (e : ε) : Checked ε α := .error (.refused e)

def fault : Checked ε α := .error .fault

def refuseIf (c : Prop) [Decidable c] (e : ε) : Checked ε Unit :=
  if c then refuse e else .ok ()

def read (xs : List α) (i : Nat) : Checked ε α :=
  match xs[i]? with
  | some a => .ok a
  | none => fault

def write (xs : List α) (i : Nat) (a : α) : Checked ε (List α) :=
  if i < xs.length then .ok (xs.set i a) else fault

-- A copy of `len` elements.
def slice (xs : List α) (start len : Nat) : Checked ε (List α) :=
  if start + len ≤ xs.length then .ok ((xs.drop start).take len) else fault

def addU32 (a b : UInt32) : Checked ε UInt32 :=
  if a.toNat + b.toNat < 2 ^ 32 then .ok (a + b) else fault

def addU64 (a b : UInt64) : Checked ε UInt64 :=
  if a.toNat + b.toNat < 2 ^ 64 then .ok (a + b) else fault

def mulU64 (a b : UInt64) : Checked ε UInt64 :=
  if a.toNat * b.toNat < 2 ^ 64 then .ok (a * b) else fault

def loop (n : Nat) (body : β → Nat → Checked ε β) (b : β) : Checked ε β :=
  (List.range n).foldlM body b

-- There is no fault, what is refused may be refused, and what is returned is as said.
def Meets (may : Prop) (x : Checked ε α) (post : α → Prop) : Prop :=
  match x with
  | .ok a => post a
  | .error (.refused _) => may
  | .error .fault => False

namespace Meets

variable {may : Prop} {x : Checked ε α} {post mid : α → Prop}

theorem ok {a : α} (h : post a) : Meets may (.ok a : Checked ε α) post := h

theorem no_fault (h : Meets may x post) : x ≠ .error .fault := by
  rintro rfl
  exact h

theorem of_ok {a : α} (h : Meets may x post) (hx : x = .ok a) : post a := by
  subst hx
  exact h

-- Where nothing may be refused, there is a result.
theorem returns (h : Meets False x post) : ∃ a, x = .ok a ∧ post a := by
  cases x with
  | ok a => exact ⟨a, rfl, h⟩
  | error stop => cases stop <;> exact h.elim

theorem mono (h : Meets may x mid) (himp : ∀ a, mid a → post a) : Meets may x post := by
  cases x with
  | ok a => exact himp a h
  | error stop =>
      cases stop with
      | refused e => exact h
      | fault => exact h

theorem bind {f : α → Checked ε β} {after : β → Prop} (h : Meets may x mid)
    (hf : ∀ a, mid a → Meets may (f a) after) : Meets may (x >>= f) after := by
  cases x with
  | ok a => exact hf a h
  | error stop =>
      cases stop with
      | refused e => exact h
      | fault => exact h.elim

theorem refuseIf {c : Prop} [Decidable c] {e : ε} (h : c → may) :
    Meets may (refuseIf c e) fun _ => ¬ c := by
  unfold Checked.refuseIf
  by_cases hc : c
  · rw [if_pos hc]
    exact h hc
  · rw [if_neg hc]
    exact hc

theorem read {xs : List α} {i : Nat} (h : i < xs.length) :
    Meets may (read xs i : Checked ε α) fun a => xs[i]? = some a := by
  unfold Checked.read
  rw [List.getElem?_eq_getElem h]
  rfl

theorem write {xs : List α} {i : Nat} {a : α} (h : i < xs.length) :
    Meets may (write xs i a : Checked ε (List α)) fun ys => ys = xs.set i a := by
  unfold Checked.write
  rw [if_pos h]
  rfl

theorem slice {xs : List α} {start len : Nat} (h : start + len ≤ xs.length) :
    Meets may (slice xs start len : Checked ε (List α)) fun ys =>
      ys = (xs.drop start).take len := by
  unfold Checked.slice
  rw [if_pos h]
  rfl

theorem addU32 {a b : UInt32} (h : a.toNat + b.toNat < 2 ^ 32) :
    Meets may (addU32 a b : Checked ε UInt32) fun c => c.toNat = a.toNat + b.toNat := by
  unfold Checked.addU32
  rw [if_pos h]
  show (a + b).toNat = _
  rw [UInt32.toNat_add, Nat.mod_eq_of_lt h]

theorem addU64 {a b : UInt64} (h : a.toNat + b.toNat < 2 ^ 64) :
    Meets may (addU64 a b : Checked ε UInt64) fun c => c.toNat = a.toNat + b.toNat := by
  unfold Checked.addU64
  rw [if_pos h]
  show (a + b).toNat = _
  rw [UInt64.toNat_add, Nat.mod_eq_of_lt h]

theorem mulU64 {a b : UInt64} (h : a.toNat * b.toNat < 2 ^ 64) :
    Meets may (mulU64 a b : Checked ε UInt64) fun c => c.toNat = a.toNat * b.toNat := by
  unfold Checked.mulU64
  rw [if_pos h]
  show (a * b).toNat = _
  rw [UInt64.toNat_mul, Nat.mod_eq_of_lt h]

-- The loop rule: what holds before a turn and after it holds at the end.
theorem loop {n : Nat} {body : β → Nat → Checked ε β} {b : β} (inv : Nat → β → Prop)
    (hstart : inv 0 b) (hbody : ∀ i < n, ∀ b, inv i b → Meets may (body b i) (inv (i + 1))) :
    Meets may (loop n body b) (inv n) := by
  unfold Checked.loop
  induction n with
  | zero => exact hstart
  | succ n ih =>
      rw [List.range_succ, List.foldlM_append]
      refine bind (ih fun i hi => hbody i (Nat.lt_succ_of_lt hi)) fun b' hb' => ?_
      have hlast := hbody n (Nat.lt_succ_self n) b' hb'
      exact bind hlast fun b'' hb'' => hb''

end Meets

-- A loop that returns has returned from each of its turns.
theorem loop_turn {n : Nat} {body : β → Nat → Checked ε β} {b out : β}
    (h : loop n body b = .ok out) {i : Nat} (hi : i < n) : ∃ b' b'', body b' i = .ok b'' := by
  unfold loop at h
  induction n generalizing out with
  | zero => exact absurd hi (Nat.not_lt_zero i)
  | succ n ih =>
      rw [List.range_succ, List.foldlM_append] at h
      cases hbefore : (List.range n).foldlM body b with
      | error stop =>
          rw [hbefore] at h
          cases h
      | ok b' =>
          rw [hbefore] at h
          rcases Nat.lt_succ_iff_lt_or_eq.mp hi with hlt | rfl
          · exact ih hbefore hlt
          · cases hlast : body b' i with
            | error stop =>
                have hstop : (body b' i >>= pure) = .ok out := h
                rw [hlast] at hstop
                cases hstop
            | ok b'' => exact ⟨b', b'', hlast⟩

theorem read_getD {xs : List α} {i : Nat} (h : i < xs.length) (d : α) :
    (read xs i : Checked ε α) = .ok (xs.getD i d) := by
  unfold read
  rw [List.getD_eq_getElem?_getD, List.getElem?_eq_getElem h]
  rfl

-- What is refused, and nothing else that may stop it.
def lift : Except ε α → Checked ε α
  | .ok a => .ok a
  | .error e => refuse e

theorem loop_lift {n : Nat} {body : β → Nat → Checked ε β} {step : β → Nat → Except ε β}
    (h : ∀ i < n, ∀ b, body b i = lift (step b i)) (b : β) :
    loop n body b = lift ((List.range n).foldlM step b) := by
  unfold loop
  induction n generalizing b with
  | zero => rfl
  | succ n ih =>
      rw [List.range_succ, List.foldlM_append, List.foldlM_append,
        ih fun i hi => h i (Nat.lt_succ_of_lt hi)]
      cases (List.range n).foldlM step b with
      | error e => rfl
      | ok b' =>
          show (body b' n >>= pure) = lift (step b' n >>= pure)
          rw [h n (Nat.lt_succ_self n) b']
          cases step b' n <;> rfl

-- A loop whose turns all return.
theorem loop_pure {n : Nat} {body : β → Nat → Checked ε β} {step : β → Nat → β}
    (h : ∀ i < n, ∀ b, body b i = .ok (step b i)) (b : β) :
    loop n body b = .ok ((List.range n).foldl step b) := by
  unfold loop
  induction n generalizing b with
  | zero => rfl
  | succ n ih =>
      rw [List.range_succ, List.foldlM_append, List.foldl_append,
        ih fun i hi => h i (Nat.lt_succ_of_lt hi)]
      show (body _ n >>= pure) = _
      rw [h n (Nat.lt_succ_self n)]
      rfl

-- What every turn that returns keeps, holds where the loop returns.
theorem foldlM_invariant {n : Nat} {step : β → Nat → Except ε β} (inv : Nat → β → Prop) {b out : β}
    (hstart : inv 0 b) (hstep : ∀ i < n, ∀ b b', inv i b → step b i = .ok b' → inv (i + 1) b')
    (h : (List.range n).foldlM step b = .ok out) : inv n out := by
  induction n generalizing out with
  | zero =>
      cases h
      exact hstart
  | succ n ih =>
      rw [List.range_succ, List.foldlM_append] at h
      cases hbefore : (List.range n).foldlM step b with
      | error e =>
          rw [hbefore] at h
          cases h
      | ok b' =>
          rw [hbefore] at h
          have hinv := ih (fun i hi => hstep i (Nat.lt_succ_of_lt hi)) hbefore
          cases hlast : step b' n with
          | error e =>
              have hstop : (step b' n >>= pure) = .ok out := h
              rw [hlast] at hstop
              cases hstop
          | ok b'' =>
              have hdone : (step b' n >>= pure) = .ok out := h
              rw [hlast] at hdone
              cases hdone
              exact hstep n (Nat.lt_succ_self n) b' _ hinv hlast

-- Where no turn is refused, the loop returns.
theorem foldlM_returns {n : Nat} {step : β → Nat → Except ε β} (inv : Nat → β → Prop) {b : β}
    (hstart : inv 0 b) (hstep : ∀ i < n, ∀ b, inv i b → ∃ b', step b i = .ok b' ∧ inv (i + 1) b') :
    ∃ out, (List.range n).foldlM step b = .ok out ∧ inv n out := by
  induction n with
  | zero => exact ⟨b, rfl, hstart⟩
  | succ n ih =>
      obtain ⟨b', hbefore, hinv⟩ := ih fun i hi => hstep i (Nat.lt_succ_of_lt hi)
      obtain ⟨b'', hlast, hnext⟩ := hstep n (Nat.lt_succ_self n) b' hinv
      refine ⟨b'', ?_, hnext⟩
      rw [List.range_succ, List.foldlM_append, hbefore]
      show (step b' n >>= pure) = _
      rw [hlast]
      rfl

end Checked

end P2pGpu
