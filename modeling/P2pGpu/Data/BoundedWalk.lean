import P2pGpu.Data.IndexTree

namespace P2pGpu.IndexTree

-- How many nodes wait on the stack of a depth-first walk under a node that is popped: the
-- kids after it, and those after each of its ancestors.
inductive Under (kids : Nat → List Nat) : Nat → Nat → Prop where
  | root : Under kids 0 0
  | kid {i j w : Nat} {before after : List Nat} (h : Under kids i w)
      (hkids : kids i = before ++ j :: after) : Under kids j (w + after.length)

-- Of which nodes is said that they pass, and so are all of their ancestors.
inductive Open (kids : Nat → List Nat) (passes : Nat → Bool) : Nat → Prop where
  | root (h : passes 0 = true) : Open kids passes 0
  | kid {i j : Nat} (h : Open kids passes i) (hj : j ∈ kids i) (hpass : passes j = true) :
      Open kids passes j

-- The stack after a node was popped, and its kids pushed if it passes. Where they do not
-- all fit, none of them is.
def pushed (cap : Nat) (kids : Nat → List Nat) (i : Nat) (rest : List Nat) (passes : Bool) :
    List Nat :=
  if passes = true ∧ rest.length + (kids i).length ≤ cap then kids i ++ rest else rest

-- The walks with a bounded stack: the nodes that were popped, each with what its test said,
-- and the stack that is left.
inductive Walked (cap : Nat) (kids : Nat → List Nat) : List (Nat × Bool) → List Nat → Prop where
  | start : Walked cap kids [] [0]
  | visit {log : List (Nat × Bool)} {i : Nat} {rest : List Nat} (passes : Bool)
      (h : Walked cap kids log (i :: rest)) :
      Walked cap kids (log ++ [(i, passes)]) (pushed cap kids i rest passes)

-- The kids of a node find room.
def Roomy (cap : Nat) (kids : Nat → List Nat) (i : Nat) : Prop :=
  ∀ w, Under kids i w → w + (kids i).length ≤ cap

-- Each of its ancestors found room for its kids.
inductive Housed (cap : Nat) (kids : Nat → List Nat) : Nat → Prop where
  | root : Housed cap kids 0
  | kid {i j : Nat} (h : Housed cap kids i) (hroom : Roomy cap kids i) (hj : j ∈ kids i) :
      Housed cap kids j

-- What is known of a walk at each of its turns.
structure Trail (n cap : Nat) (kids : Nat → List Nat) (log : List (Nat × Bool))
    (stack : List Nat) : Prop where
  nodup : (log.map Prod.fst ++ stack).Nodup
  inside : ∀ j ∈ log.map Prod.fst ++ stack, j < n
  root : 0 ∈ log.map Prod.fst ++ stack
  level : ∀ above j below, stack = above ++ j :: below → Under kids j below.length
  closed : ∀ i, (i, true) ∈ log → Roomy cap kids i → ∀ j ∈ kids i, j ∈ log.map Prod.fst ++ stack
  entered : ∀ j ∈ log.map Prod.fst ++ stack,
    j = 0 ∨ ∃ i, (i, true) ∈ log ∧ Roomy cap kids i ∧ j ∈ kids i

variable {n cap : Nat} {kids : Nat → List Nat} {i j w w' : Nat} {log : List (Nat × Bool)}
  {stack rest : List Nat} {passes : Nat → Bool}

-- In a list without repetition, what follows an element is determined.
theorem after_unique {xs before after before' after' : List Nat} (hnodup : xs.Nodup)
    (h : xs = before ++ j :: after) (h' : xs = before' ++ j :: after') : after = after' := by
  have hindex : ∀ {b a : List Nat}, xs = b ++ j :: a → xs.idxOf j = b.length := by
    intro b a hsplit
    have hnot : j ∉ b := by
      rw [hsplit] at hnodup
      intro hmem
      exact List.disjoint_of_nodup_append hnodup hmem List.mem_cons_self
    rw [hsplit, List.idxOf_append_of_notMem hnot, List.idxOf_cons_self, Nat.add_zero]
  have hlength : before.length = before'.length := (hindex h).symm.trans (hindex h')
  have hboth := List.append_inj (h.symm.trans h') hlength
  exact (List.cons.inj hboth.2).2

theorem Under.lt (ht : IndexTree n kids) (h : Under kids j w) : j < n := by
  induction h with
  | root => exact ht.pos
  | kid _ hkids ih => exact (ht.increases _ ih _ (by rw [hkids]; simp)).2

theorem Under.unique (ht : IndexTree n kids) (h : Under kids j w) (h' : Under kids j w') :
    w = w' := by
  induction h generalizing w' with
  | root =>
      generalize hzero : 0 = z at h'
      cases h' with
      | root => rfl
      | kid h' hkids =>
          subst hzero
          exact absurd (ht.increases _ (h'.lt ht) 0 (by rw [hkids]; simp)).1 (Nat.not_lt_zero _)
  | @kid i j w before after h hkids ih =>
      have hmem : j ∈ kids i := by
        rw [hkids]
        simp
      cases h' with
      | root => exact absurd (ht.increases i (h.lt ht) 0 hmem).1 (Nat.not_lt_zero _)
      | @kid i' _ w'' before' after' h' hkids' =>
          have hsame := ht.unique i (h.lt ht) i' (h'.lt ht) j hmem (by rw [hkids']; simp)
          subst hsame
          rw [ih h', after_unique (ht.nodup i (h.lt ht)) hkids hkids']

theorem roomy_iff (ht : IndexTree n kids) (h : Under kids i w) :
    Roomy cap kids i ↔ w + (kids i).length ≤ cap := by
  constructor
  · exact fun hroomy => hroomy w h
  · intro hle w' h'
    rw [← h.unique ht h']
    exact hle

theorem Trail.start (ht : IndexTree n kids) : Trail n cap kids [] [0] where
  nodup := List.nodup_singleton 0
  inside j hj := by
    rw [List.map_nil, List.nil_append, List.mem_singleton] at hj
    rw [hj]
    exact ht.pos
  root := List.mem_singleton_self 0
  level above j below h := by
    cases above with
    | nil =>
        obtain ⟨rfl, rfl⟩ := List.cons.inj h
        exact .root
    | cons a above =>
        have hlength := congrArg List.length h
        simp at hlength
  closed _ hi := by cases hi
  entered j hj := by
    rw [List.map_nil, List.nil_append, List.mem_singleton] at hj
    exact .inl hj

-- The stack under the kids of a node is as deep as the paths to them say.
theorem level_pushed {r : Bool} (hi : Under kids i rest.length)
    (hlevel : ∀ above j below, rest = above ++ j :: below → Under kids j below.length)
    (above : List Nat) (j : Nat) (below : List Nat)
    (h : pushed cap kids i rest r = above ++ j :: below) : Under kids j below.length := by
  unfold pushed at h
  split at h
  · rcases List.append_eq_append_iff.mp h with ⟨mid, habove, hrest⟩ | ⟨mid, hkids, hbelow⟩
    · exact hlevel mid j below hrest
    · cases mid with
      | nil =>
          rw [List.nil_append] at hbelow
          exact hlevel [] j below hbelow.symm
      | cons a mid =>
          obtain ⟨rfl, rfl⟩ := List.cons.inj hbelow
          have hunder := hi.kid hkids
          show Under kids j (mid ++ rest).length
          rw [List.length_append, Nat.add_comm]
          exact hunder
  · exact hlevel above j below h

theorem mem_pushed {r : Bool} : j ∈ pushed cap kids i rest r ↔
    j ∈ rest ∨ (r = true ∧ rest.length + (kids i).length ≤ cap ∧ j ∈ kids i) := by
  unfold pushed
  split
  · rename_i h
    rw [List.mem_append, or_comm]
    simp [h.1, h.2]
  · rename_i h
    constructor
    · exact .inl
    · rintro (hj | ⟨hr, hle, -⟩)
      · exact hj
      · exact absurd ⟨hr, hle⟩ h

theorem Trail.visit (h : Trail n cap kids log (i :: rest)) (ht : IndexTree n kids) (r : Bool) :
    Trail n cap kids (log ++ [(i, r)]) (pushed cap kids i rest r) := by
  have hi : i < n := h.inside i (by simp)
  have hunder : Under kids i rest.length := h.level [] i rest rfl
  have hroomy : Roomy cap kids i ↔ rest.length + (kids i).length ≤ cap := roomy_iff ht hunder
  have hlog : (log ++ [(i, r)]).map Prod.fst = log.map Prod.fst ++ [i] := by simp
  -- A kid of `i` was not seen before: its parent would have been.
  have hfresh : ∀ j ∈ kids i, j ∉ log.map Prod.fst ++ i :: rest := by
    intro j hj hold
    rcases h.entered j hold with rfl | ⟨i', hi', -, hj'⟩
    · exact absurd (ht.increases i hi 0 hj).1 (Nat.not_lt_zero _)
    · have hseen : i' ∈ log.map Prod.fst := List.mem_map_of_mem hi'
      have hin := h.inside i' (List.mem_append_left _ hseen)
      have hsame := ht.unique i hi i' hin j hj hj'
      subst hsame
      exact List.disjoint_of_nodup_append h.nodup hseen List.mem_cons_self
  have hmem : ∀ j, j ∈ (log ++ [(i, r)]).map Prod.fst ++ pushed cap kids i rest r ↔
      j ∈ log.map Prod.fst ++ i :: rest ∨ (r = true ∧ Roomy cap kids i ∧ j ∈ kids i) := by
    intro j
    rw [hlog, hroomy]
    simp only [List.mem_append, List.mem_cons, List.not_mem_nil, or_false, mem_pushed, or_assoc]
  refine ⟨?_, fun j hj => ?_, ?_, level_pushed hunder ?_, fun i' hi' hroom j hj => ?_,
    fun j hj => ?_⟩
  · rw [hlog]
    unfold pushed
    split
    · have hperm : (log.map Prod.fst ++ [i] ++ (kids i ++ rest)).Perm
          (kids i ++ (log.map Prod.fst ++ i :: rest)) := by
        have hswap : (log.map Prod.fst ++ [i] ++ kids i).Perm
            (kids i ++ (log.map Prod.fst ++ [i])) := List.perm_append_comm
        have hall := hswap.append_right rest
        simpa [List.append_assoc] using hall
      rw [hperm.nodup_iff, List.nodup_append']
      exact ⟨ht.nodup i hi, h.nodup, fun j hj hold => hfresh j hj hold⟩
    · simpa [List.append_assoc] using h.nodup
  · rcases (hmem j).mp hj with hold | ⟨-, -, hkid⟩
    · exact h.inside j hold
    · exact (ht.increases i hi j hkid).2
  · exact (hmem 0).mpr (.inl h.root)
  · intro above j below hrest
    exact h.level (i :: above) j below (by rw [hrest]; rfl)
  · rcases List.mem_append.mp hi' with hold | hnew
    · exact (hmem j).mpr (.inl (h.closed i' hold hroom j hj))
    · rw [List.mem_singleton, Prod.mk.injEq] at hnew
      obtain ⟨rfl, hr⟩ := hnew
      exact (hmem j).mpr (.inr ⟨hr.symm, hroom, hj⟩)
  · rcases (hmem j).mp hj with hold | ⟨rfl, hroom, hkid⟩
    · rcases h.entered j hold with hzero | ⟨i', hi', hroom, hj'⟩
      · exact .inl hzero
      · exact .inr ⟨i', List.mem_append_left _ hi', hroom, hj'⟩
    · exact .inr ⟨i, by simp, hroom, hkid⟩

theorem Walked.trail (ht : IndexTree n kids) (h : Walked cap kids log stack) :
    Trail n cap kids log stack := by
  induction h with
  | start => exact .start ht
  | visit r _ ih => exact ih.visit ht r

-- A walk takes no more turns than there are nodes.
theorem Walked.length_le (ht : IndexTree n kids) (h : Walked cap kids log stack) :
    log.length + stack.length ≤ n := by
  have htrail := h.trail ht
  have hsub : log.map Prod.fst ++ stack ⊆ List.range n := fun j hj =>
    List.mem_range.mpr (htrail.inside j hj)
  have hle := (htrail.nodup.subperm hsub).length_le
  rw [List.length_range, List.length_append, List.length_map] at hle
  exact hle

theorem Open.pass (h : Open kids passes j) : passes j = true := by
  cases h with
  | root h => exact h
  | kid _ _ h => exact h

theorem Open.lt (ht : IndexTree n kids) (h : Open kids passes j) : j < n := by
  induction h with
  | root => exact ht.pos
  | kid _ hj _ ih => exact (ht.increases _ ih _ hj).2

theorem Housed.lt (ht : IndexTree n kids) (h : Housed cap kids j) : j < n := by
  induction h with
  | root => exact ht.pos
  | kid _ _ hj ih => exact (ht.increases _ ih _ hj).2

theorem open_all (ht : IndexTree n kids) (hj : j < n) : Open kids (fun _ => true) j := by
  obtain ⟨d, hd⟩ := ht.exists_pathTo hj
  clear hj
  induction hd with
  | root => exact .root rfl
  | kid _ hkid ih => exact ih.kid hkid rfl

theorem Housed.parent (ht : IndexTree n kids) (h : Housed cap kids j) (hi : i < n)
    (hj : j ∈ kids i) : Housed cap kids i ∧ Roomy cap kids i := by
  cases h with
  | root => exact absurd (ht.increases i hi 0 hj).1 (Nat.not_lt_zero _)
  | @kid i' _ hhoused hroom hj' =>
      have hsame := ht.unique i' (hhoused.lt ht) i hi j hj' hj
      subst hsame
      exact ⟨hhoused, hroom⟩

-- Under every node there is one without kids, and with it the node is housed.
theorem exists_childless (ht : IndexTree n kids) (hi : i < n) :
    ∃ j < n, kids j = [] ∧ (Housed cap kids j → Housed cap kids i) := by
  obtain ⟨k, hk⟩ : ∃ k, n - i = k := ⟨_, rfl⟩
  induction k using Nat.strong_induction_on generalizing i with
  | _ k ih =>
      cases hkids : kids i with
      | nil => exact ⟨i, hi, hkids, id⟩
      | cons c rest =>
          have hc : c ∈ kids i := by
            rw [hkids]
            exact List.mem_cons_self
          obtain ⟨hlow, hhigh⟩ := ht.increases i hi c hc
          obtain ⟨j, hj, hnone, hup⟩ := ih (n - c) (by omega) hhigh rfl
          exact ⟨j, hj, hnone, fun h => ((hup h).parent ht hi hc).1⟩

-- At its end, it popped of the nodes that are open those for which there was room.
theorem Walked.popped_iff (ht : IndexTree n kids) (h : Walked cap kids log [])
    (hagree : ∀ e ∈ log, e.2 = passes e.1) (hopen : Open kids passes j) :
    j ∈ log.map Prod.fst ↔ Housed cap kids j := by
  have htrail := h.trail ht
  constructor
  · intro hpopped
    -- The parent of what was popped was popped before it, and had room.
    induction hopen with
    | root => exact .root
    | @kid i j hopen hj _ ih =>
        rcases htrail.entered j (List.mem_append_left _ hpopped) with rfl | ⟨i', hi', hroom, hj'⟩
        · exact .root
        · have hseen : i' ∈ log.map Prod.fst := List.mem_map_of_mem hi'
          have hin := htrail.inside i' (List.mem_append_left _ hseen)
          have hsame := ht.unique i' hin i (hopen.lt ht) j hj' hj
          subst hsame
          exact (ih hseen).kid hroom hj
  · intro hhoused
    induction hopen with
    | root => simpa using htrail.root
    | @kid i j hopen hj _ ih =>
        cases hhoused with
        | root => exact absurd (ht.increases i (hopen.lt ht) 0 hj).1 (Nat.not_lt_zero _)
        | @kid i' _ hhoused hroom hj' =>
            have hsame := ht.unique i' (hhoused.lt ht) i (hopen.lt ht) j hj' hj
            subst hsame
            obtain ⟨e, he, hfst⟩ := List.mem_map.mp (ih hhoused)
            have hpass : e.2 = true := by
              rw [hagree e he, hfst]
              exact hopen.pass
            have htrue : (i', true) ∈ log := by
              rw [← hfst, ← hpass]
              exact he
            simpa using htrail.closed i' htrue hroom j hj

end P2pGpu.IndexTree
