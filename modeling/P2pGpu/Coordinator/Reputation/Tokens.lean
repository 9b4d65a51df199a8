import P2pGpu.Coordinator.Reputation
import Mathlib.Data.List.Induction

namespace P2pGpu.Coordinator

open P2pGpu.Protocol

-- A word as a stream prints it in base 16. Nothing fills it up to its width.
def hexDigits (word : UInt64) : Token :=
  (Nat.toDigits 16 word.toNat).map fun c => UInt8.ofNat c.toNat

-- The token of one draw.
def drawToken (hi lo : UInt64) : Token := hexDigits hi ++ hexDigits lo

namespace ReputationTable

-- Standing that was stored, with its token.
def adopt {F : Type} [Double F] (t : ReputationTable F) (id : WorkerId) (rep : Reputation F)
    (token : Token) : ReputationTable F :=
  let t := t.put id rep
  if token = [] then t
  else { t with byToken := t.byToken.insert token id, tokens := t.tokens.insert id token }

end ReputationTable

-- The calls that hand out tokens.
inductive TokenCall (F : Type) where
  | mintToken (id : WorkerId) (hi lo : UInt64)
  | adopt (id : WorkerId) (rep : Reputation F) (token : Token)

namespace TokenCall

variable {F : Type} [Double F]

def run (t : ReputationTable F) : TokenCall F → ReputationTable F
  | .mintToken id hi lo => t.mintToken id (drawToken hi lo)
  | .adopt id rep token => t.adopt id rep token

def runAll (cfg : ReputationConfig F) (calls : List (TokenCall F)) : ReputationTable F :=
  calls.foldl run { cfg }

def gives : TokenCall F → Option (Token × WorkerId)
  | .mintToken id hi lo => some (drawToken hi lo, id)
  | .adopt id _ token => if token = [] then none else some (token, id)

-- Every token that was handed out, with the worker it was handed out for.
def given (calls : List (TokenCall F)) : List (Token × WorkerId) := calls.filterMap gives

def draws (calls : List (TokenCall F)) : List (UInt64 × UInt64) :=
  calls.filterMap fun
    | .mintToken _ hi lo => some (hi, lo)
    | .adopt _ _ _ => none

def adopted (calls : List (TokenCall F)) : List Token :=
  calls.filterMap fun
    | .mintToken _ _ _ => none
    | .adopt _ _ token => if token = [] then none else some token

end TokenCall

-- The last token that was handed out for a worker.
def latest (given : List (Token × WorkerId)) (id : WorkerId) : Option Token :=
  (given.filter fun e => e.2 = id).getLast?.map Prod.fst

theorem latest_concat (given : List (Token × WorkerId)) (e : Token × WorkerId) (id : WorkerId) :
    latest (given ++ [e]) id = if e.2 = id then some e.1 else latest given id := by
  unfold latest
  rw [List.filter_append]
  by_cases h : e.2 = id
  · simp [h]
  · simp [h]

theorem mem_of_latest {given : List (Token × WorkerId)} {id : WorkerId} {token : Token}
    (h : latest given id = some token) : (token, id) ∈ given := by
  obtain ⟨e, he, rfl⟩ := Option.map_eq_some_iff.mp h
  obtain ⟨hmem, hid⟩ := List.mem_filter.mp (List.mem_of_getLast? he)
  rw [decide_eq_true_eq] at hid
  rw [← hid]
  exact hmem

section

variable {F : Type} {calls : List (TokenCall F)} {call : TokenCall F}

-- Nobody is given a stored token that has another one already.
def AdoptsOnce (calls : List (TokenCall F)) : Prop :=
  ∀ before id rep token after, calls = before ++ .adopt id rep token :: after → token ≠ [] →
    ∀ previous, latest (TokenCall.given before) id = some previous → previous = token

theorem AdoptsOnce.left {more : List (TokenCall F)} (h : AdoptsOnce (calls ++ more)) :
    AdoptsOnce calls := by
  intro before id rep token after heq
  apply h before id rep token (after ++ more)
  rw [heq, List.append_assoc, List.cons_append]

theorem hexDigits_ne_nil (word : UInt64) : hexDigits word ≠ [] := by
  intro h
  rw [hexDigits, List.map_eq_nil_iff] at h
  exact Nat.toDigits_ne_nil h

theorem gives_ne_nil {e : Token × WorkerId} (h : call.gives = some e) : e.1 ≠ [] := by
  cases call with
  | mintToken id hi lo =>
      cases h
      intro hnil
      exact hexDigits_ne_nil hi (List.append_eq_nil_iff.mp hnil).1
  | adopt id rep token =>
      simp only [TokenCall.gives] at h
      split at h
      · cases h
      · rename_i hne
        cases h
        exact hne

theorem given_ne_nil {e : Token × WorkerId} (h : e ∈ TokenCall.given calls) : e.1 ≠ [] := by
  obtain ⟨call, -, hgives⟩ := List.mem_filterMap.mp h
  exact gives_ne_nil hgives

theorem given_concat (calls : List (TokenCall F)) (call : TokenCall F) :
    TokenCall.given (calls ++ [call]) = TokenCall.given calls ++ call.gives.toList := by
  rw [TokenCall.given, TokenCall.given, List.filterMap_append]
  cases hgives : call.gives <;> simp [hgives]

end

section

variable {F : Type} [Double F] {t : ReputationTable F} {given : List (Token × WorkerId)}
  {calls : List (TokenCall F)} {call : TokenCall F} {cfg : ReputationConfig F}

-- A token stands for the worker it was handed out for, and a worker for its last token.
structure OneWorker (given : List (Token × WorkerId)) (t : ReputationTable F) : Prop where
  sole : ∀ token id w, (token, id) ∈ given → t.resolveToken token = some w → w = id
  current : ∀ token id, t.resolveToken token = some id → latest given id = some token

-- No token was handed out for two workers.
def Unshared (given : List (Token × WorkerId)) : Prop :=
  ∀ token id w, (token, id) ∈ given → (token, w) ∈ given → id = w

theorem runAll_concat (cfg : ReputationConfig F) (calls : List (TokenCall F))
    (call : TokenCall F) :
    TokenCall.runAll cfg (calls ++ [call]) = call.run (TokenCall.runAll cfg calls) := by
  simp only [TokenCall.runAll, List.foldl_append, List.foldl_cons, List.foldl_nil]

-- What a call does to both maps.
theorem run_cases (t : ReputationTable F) (call : TokenCall F) :
    (call.gives = none ∧ (call.run t).byToken = t.byToken ∧ (call.run t).tokens = t.tokens) ∨
      ∃ token id, call.gives = some (token, id) ∧
        (call.run t).tokens = t.tokens.insert id token ∧
        (((∃ hi lo, call = .mintToken id hi lo) ∧ (call.run t).byToken =
            ((t.tokens.lookup id).elim t.byToken t.byToken.erase).insert token id) ∨
          ((∃ rep, call = .adopt id rep token) ∧
            (call.run t).byToken = t.byToken.insert token id)) := by
  cases call with
  | mintToken id hi lo =>
      refine .inr ⟨drawToken hi lo, id, rfl, rfl, .inl ⟨⟨hi, lo, rfl⟩, ?_⟩⟩
      simp only [TokenCall.run, ReputationTable.mintToken]
      cases t.tokens.lookup id <;> rfl
  | adopt id rep token =>
      simp only [TokenCall.gives, TokenCall.run, ReputationTable.adopt]
      by_cases h : token = []
      · rw [if_pos h, if_pos h]
        exact .inl ⟨rfl, rfl, rfl⟩
      · rw [if_neg h, if_neg h]
        exact .inr ⟨token, id, rfl, rfl, .inr ⟨⟨rep, rfl⟩, rfl⟩⟩

-- What is known of the two maps after any calls.
structure Recorded (given : List (Token × WorkerId)) (t : ReputationTable F) : Prop where
  tokens : ∀ id, t.tokens.lookup id = latest given id
  origin : ∀ {token id}, t.byToken.lookup token = some id → (token, id) ∈ given

theorem Recorded.run (h : Recorded given t) (call : TokenCall F) :
    Recorded (given ++ call.gives.toList) (call.run t) := by
  rcases run_cases t call with ⟨hnone, hby, htokens⟩ | ⟨token, id, hgives, htokens, hcase⟩
  · rw [hnone, Option.toList_none, List.append_nil]
    exact ⟨fun i => by rw [htokens]; exact h.tokens i, fun hl => h.origin (hby ▸ hl)⟩
  · rw [hgives, Option.toList_some]
    constructor
    · intro i
      rw [htokens, Table.lookup_insert_eq, latest_concat, h.tokens i]
      simp only [eq_comm]
    · intro tok i hl
      have hback : tok = token ∧ i = id ∨ t.byToken.lookup tok = some i := by
        rcases hcase with ⟨-, hby⟩ | ⟨-, hby⟩
        · rw [hby, Table.lookup_insert_eq] at hl
          split at hl
          · rename_i he
            exact .inl ⟨he, (Option.some.inj hl).symm⟩
          · refine .inr ?_
            cases hprevious : t.tokens.lookup id with
            | none =>
                rw [hprevious] at hl
                exact hl
            | some previous =>
                rw [hprevious, Option.elim_some] at hl
                by_cases he : tok = previous
                · rw [he, AList.lookup_erase] at hl
                  cases hl
                · rwa [AList.lookup_erase_ne he] at hl
        · rw [hby, Table.lookup_insert_eq] at hl
          split at hl
          · rename_i he
            exact .inl ⟨he, (Option.some.inj hl).symm⟩
          · exact .inr hl
      rcases hback with ⟨rfl, rfl⟩ | hold
      · simp
      · exact List.mem_append_left _ (h.origin hold)

theorem recorded_runAll (cfg : ReputationConfig F) (calls : List (TokenCall F)) :
    Recorded (TokenCall.given calls) (TokenCall.runAll cfg calls) := by
  induction calls using List.reverseRecOn with
  | nil => exact ⟨fun _ => rfl, nofun⟩
  | append_singleton calls call ih =>
      rw [given_concat, runAll_concat]
      exact ih.run call

theorem resolveToken_iff {token : Token} {id : WorkerId} (h : token ≠ []) :
    t.resolveToken token = some id ↔ t.byToken.lookup token = some id := by
  unfold ReputationTable.resolveToken
  rw [if_neg h]

theorem lookup_of_resolve {token : Token} {id : WorkerId} (h : t.resolveToken token = some id) :
    token ≠ [] ∧ t.byToken.lookup token = some id := by
  unfold ReputationTable.resolveToken at h
  split at h
  · cases h
  · rename_i hne
    exact ⟨hne, h⟩

-- What was handed out just now resolves.
theorem resolves_run {token : Token} {id : WorkerId} (h : call.gives = some (token, id)) :
    (call.run t).resolveToken token = some id := by
  rw [resolveToken_iff (gives_ne_nil h)]
  rcases run_cases t call with ⟨hnone, -⟩ | ⟨token', id', hgives, -, hcase⟩
  · rw [hnone] at h
    cases h
  · rw [hgives] at h
    cases h
    rcases hcase with ⟨-, hby⟩ | ⟨-, hby⟩
    · rw [hby, Table.lookup_insert_eq, if_pos rfl]
    · rw [hby, Table.lookup_insert_eq, if_pos rfl]

theorem Unshared.left {more : List (Token × WorkerId)} (h : Unshared (given ++ more)) :
    Unshared given := fun token id w hid hw =>
  h token id w (List.mem_append_left _ hid) (List.mem_append_left _ hw)

-- Where no token is shared, the last one of a worker goes on resolving.
theorem latest_resolves (h : Unshared (TokenCall.given calls)) {id : WorkerId} {token : Token}
    (hlatest : latest (TokenCall.given calls) id = some token) :
    (TokenCall.runAll cfg calls).resolveToken token = some id := by
  induction calls using List.reverseRecOn generalizing id token with
  | nil => cases hlatest
  | append_singleton calls call ih =>
      have hne := given_ne_nil (mem_of_latest hlatest)
      rw [given_concat] at h hlatest
      rw [runAll_concat]
      rcases run_cases (TokenCall.runAll cfg calls) call with
        ⟨hnone, hby, -⟩ | ⟨token', id', hgives, -, hcase⟩
      · rw [hnone, Option.toList_none, List.append_nil] at h hlatest
        rw [resolveToken_iff hne, hby, ← resolveToken_iff hne]
        exact ih h hlatest
      · rw [hgives, Option.toList_some] at h hlatest
        rw [latest_concat] at hlatest
        by_cases hid : id' = id
        · rw [if_pos hid] at hlatest
          cases hlatest
          rw [← hid]
          exact resolves_run hgives
        · rw [if_neg hid] at hlatest
          have hold := ih h.left hlatest
          rw [resolveToken_iff hne] at hold ⊢
          -- Neither the token that is new nor the one that it replaces is this one.
          have hother : token ≠ token' := by
            rintro rfl
            exact hid (h token id' id (by simp) (List.mem_append_left _ (mem_of_latest hlatest)))
          rcases hcase with ⟨-, hby⟩ | ⟨-, hby⟩
          · rw [hby, Table.lookup_insert_eq, if_neg hother]
            cases hprevious : (TokenCall.runAll cfg calls).tokens.lookup id' with
            | none => exact hold
            | some previous =>
                rw [(recorded_runAll cfg calls).tokens] at hprevious
                have hkept : token ≠ previous := by
                  rintro rfl
                  exact hid (h.left token id' id (mem_of_latest hprevious) (mem_of_latest hlatest))
                rw [Option.elim_some, AList.lookup_erase_ne hkept]
                exact hold
          · rw [hby, Table.lookup_insert_eq, if_neg hother]
            exact hold

-- A worker answers to its last token alone.
theorem resolves_latest (h : Unshared (TokenCall.given calls)) (honce : AdoptsOnce calls)
    {id : WorkerId} {token : Token}
    (hresolve : (TokenCall.runAll cfg calls).resolveToken token = some id) :
    latest (TokenCall.given calls) id = some token := by
  induction calls using List.reverseRecOn generalizing id token with
  | nil =>
      obtain ⟨-, hl⟩ := lookup_of_resolve hresolve
      cases hl
  | append_singleton calls call ih =>
      obtain ⟨hne, hl⟩ := lookup_of_resolve hresolve
      rw [given_concat] at h ⊢
      rw [runAll_concat] at hl
      have hrecorded := (recorded_runAll cfg calls).tokens
      rcases run_cases (TokenCall.runAll cfg calls) call with
        ⟨hnone, hby, -⟩ | ⟨token', id', hgives, -, hcase⟩
      · rw [hnone, Option.toList_none, List.append_nil] at h ⊢
        rw [hby, ← resolveToken_iff hne] at hl
        exact ih h honce.left hl
      · rw [hgives, Option.toList_some] at h ⊢
        rw [latest_concat]
        rcases hcase with ⟨-, hby⟩ | ⟨⟨rep, rfl⟩, hby⟩
        · rw [hby, Table.lookup_insert_eq] at hl
          split at hl
          · rename_i he
            rw [if_pos (Option.some.inj hl), he]
          · cases hprevious : (TokenCall.runAll cfg calls).tokens.lookup id' with
            | none =>
                rw [hprevious, Option.elim_none, ← resolveToken_iff hne] at hl
                have hold := ih h.left honce.left hl
                rw [hrecorded] at hprevious
                have hid : id' ≠ id := by
                  rintro rfl
                  rw [hprevious] at hold
                  cases hold
                rw [if_neg hid]
                exact hold
            | some previous =>
                rw [hprevious, Option.elim_some] at hl
                by_cases he : token = previous
                · rw [he, AList.lookup_erase] at hl
                  cases hl
                · rw [AList.lookup_erase_ne he, ← resolveToken_iff hne] at hl
                  have hold := ih h.left honce.left hl
                  rw [hrecorded] at hprevious
                  have hid : id' ≠ id := by
                    rintro rfl
                    rw [hprevious] at hold
                    exact he (Option.some.inj hold).symm
                  rw [if_neg hid]
                  exact hold
        · rw [hby, Table.lookup_insert_eq] at hl
          split at hl
          · rename_i he
            rw [if_pos (Option.some.inj hl), he]
          · rename_i hother
            rw [← resolveToken_iff hne] at hl
            have hold := ih h.left honce.left hl
            have hid : id' ≠ id := by
              rintro rfl
              have hsame := honce calls id' rep token' [] rfl (gives_ne_nil hgives) token hold
              exact hother hsame
            rw [if_neg hid]
            exact hold

theorem OneWorker.unshared
    (hall : ∀ before after, calls = before ++ after →
      OneWorker (TokenCall.given before) (TokenCall.runAll cfg before)) :
    Unshared (TokenCall.given calls) := by
  induction calls using List.reverseRecOn with
  | nil => exact fun _ _ _ h => absurd h List.not_mem_nil
  | append_singleton calls call ih =>
      have hold := ih fun before after heq => hall before (after ++ [call]) (by
        rw [heq, List.append_assoc])
      have hlast := hall (calls ++ [call]) [] (List.append_nil _).symm
      rw [given_concat, runAll_concat] at hlast
      rw [given_concat]
      cases hgives : call.gives with
      | none =>
          rw [Option.toList_none, List.append_nil]
          exact hold
      | some e =>
          rw [hgives, Option.toList_some] at hlast
          rw [Option.toList_some]
          -- The new token resolves to the worker it is for, and to nobody else.
          have hsole : ∀ id, (e.1, id) ∈ TokenCall.given calls ++ [e] → e.2 = id := by
            intro id hid
            exact hlast.sole e.1 id e.2 hid (resolves_run hgives)
          intro token id w hid hw
          by_cases he : token = e.1
          · rw [he] at hid hw
            rw [← hsole id hid, ← hsole w hw]
          · have hback : ∀ i, (token, i) ∈ TokenCall.given calls ++ [e] →
                (token, i) ∈ TokenCall.given calls := by
              intro i hi
              rcases List.mem_append.mp hi with hi | hi
              · exact hi
              · exact absurd (congrArg Prod.fst (List.mem_singleton.mp hi)) he
            exact hold token id w (hback id hid) (hback w hw)

-- Every token stands for one worker, and every worker for its last token, just where no
-- token is drawn for two workers and none is stored beside another.
theorem one_worker_iff (cfg : ReputationConfig F) (calls : List (TokenCall F)) :
    (∀ before after, calls = before ++ after →
      OneWorker (TokenCall.given before) (TokenCall.runAll cfg before)) ↔
      Unshared (TokenCall.given calls) ∧ AdoptsOnce calls := by
  constructor
  · intro hall
    refine ⟨OneWorker.unshared hall, fun before id rep token after heq hne previous hprevious => ?_⟩
    by_contra hother
    have hbefore : Unshared (TokenCall.given before) := OneWorker.unshared fun first rest hfirst =>
      hall first (rest ++ .adopt id rep token :: after) (by rw [heq, hfirst, List.append_assoc])
    have hadopted := hall (before ++ [.adopt id rep token]) after (by
      rw [heq, List.append_assoc, List.singleton_append])
    have hgives : (TokenCall.adopt id rep token).gives = some (token, id) := if_neg hne
    rw [given_concat, runAll_concat, hgives, Option.toList_some] at hadopted
    -- The token from before still resolves, beside the one that was stored.
    have hresolves : (TokenCall.runAll cfg before).resolveToken previous = some id :=
      latest_resolves hbefore hprevious
    have hpne := given_ne_nil (mem_of_latest hprevious)
    have hboth : ((TokenCall.adopt id rep token).run (TokenCall.runAll cfg before)).resolveToken
        previous = some id := by
      rw [resolveToken_iff hpne] at hresolves ⊢
      simp only [TokenCall.run, ReputationTable.adopt]
      rw [if_neg hne, Table.lookup_insert_eq, if_neg hother]
      exact hresolves
    have hlatest := hadopted.current previous id hboth
    rw [latest_concat, if_pos rfl] at hlatest
    exact hother (Option.some.inj hlatest).symm
  · rintro ⟨hunshared, honce⟩ before after rfl
    have hgiven : TokenCall.given (before ++ after) =
        TokenCall.given before ++ TokenCall.given after := List.filterMap_append
    rw [hgiven] at hunshared
    have hshared := hunshared.left
    constructor
    · intro token id w hid hresolve
      obtain ⟨-, hl⟩ := lookup_of_resolve hresolve
      exact hshared token w id ((recorded_runAll cfg before).origin hl) hid
    · intro token id hresolve
      exact resolves_latest hshared honce.left hresolve

end

-- Two draws that are printed alike.
def alike : List (TokenCall Rat) := [.mintToken ⟨1, 0⟩ 0x1 0x23, .mintToken ⟨2, 0⟩ 0x12 0x3]

-- The second worker has the token of the first one, and its standing with it.
theorem token_shared : ¬ ∀ calls : List (TokenCall Rat), (TokenCall.draws calls).Nodup →
    (TokenCall.adopted calls).Nodup →
    (∀ token ∈ TokenCall.adopted calls, ∀ draw ∈ TokenCall.draws calls,
      token ≠ drawToken draw.1 draw.2) →
    OneWorker (TokenCall.given calls) (TokenCall.runAll {} calls) := by
  intro hall
  have hone := hall alike (by decide) (by decide) (fun _ h => absurd h List.not_mem_nil)
  have hresolve : (TokenCall.runAll {} alike).resolveToken (drawToken 0x1 0x23) =
      some ⟨2, 0⟩ := by decide
  have hid := hone.sole (drawToken 0x1 0x23) ⟨1, 0⟩ ⟨2, 0⟩ (by decide) hresolve
  exact absurd hid (by decide)

end P2pGpu.Coordinator
