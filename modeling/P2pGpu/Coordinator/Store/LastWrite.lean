import Mathlib.Data.List.TakeWhile
import P2pGpu.Coordinator.Store.Rollback

namespace P2pGpu.Coordinator

open P2pGpu.Protocol

theorem cString_cString (s : Token) : cString (cString s) = cString s := List.takeWhile_idem

section

variable {F : Type}

-- The columns are narrowed to the fields that they are read into.
def ReputationRow.toRecovered (id : WorkerId) (row : ReputationRow F) : RecoveredReputation F where
  id := id
  alpha := row.alpha
  beta := row.beta
  accepted := row.accepted.toUInt32
  rejected := row.rejected.toUInt32
  spotCheckFailures := row.spotFailures.toUInt32
  blacklistedUntilMs := row.blacklistedUntilMs
  onProbation := row.onProbation ≠ 0
  token := cString row.token

def File.loadReputation (file : File F) : List (RecoveredReputation F) :=
  file.reputation.entries.map fun e => e.2.toRecovered e.1

-- What one row does to the table: all of it is new, but not the token.
def putReputation (t : Table WorkerId (ReputationRow F)) (r : RecoveredReputation F) :
    Table WorkerId (ReputationRow F) :=
  t.upsert r.id r.toRow fun row => { r.toRow with token := row.token }

def rowsOf (rows : List (RecoveredReputation F)) (id : WorkerId) : List (RecoveredReputation F) :=
  rows.filter fun r => r.id = id

-- What is stored of a worker: its last row under the token of its first.
def storedRow (rows : List (RecoveredReputation F)) (id : WorkerId) : Option (ReputationRow F) :=
  (rowsOf rows id).head?.bind fun first =>
    (rowsOf rows id).getLast?.map fun last => { last.toRow with token := cString first.token }

-- Everything comes back but the token, and that is the one of another row.
theorem toRecovered_toRow (r : RecoveredReputation F) (token : Token) :
    ({ r.toRow with token := token } : ReputationRow F).toRecovered r.id =
      { r with token := cString token } := by
  simp [ReputationRow.toRecovered, RecoveredReputation.toRow]

theorem rowsOf_concat (rows : List (RecoveredReputation F)) (r : RecoveredReputation F)
    (id : WorkerId) :
    rowsOf (rows ++ [r]) id = rowsOf rows id ++ if r.id = id then [r] else [] := by
  by_cases h : r.id = id <;> simp [rowsOf, List.filter_append, h]

theorem lookup_foldl_putReputation (rows : List (RecoveredReputation F)) (id : WorkerId) :
    (rows.foldl putReputation ∅).lookup id = storedRow rows id := by
  induction rows using List.reverseRecOn with
  | nil => rfl
  | append_singleton rows r ih =>
      rw [List.foldl_append, List.foldl_cons, List.foldl_nil, putReputation, Table.lookup_upsert,
        ih]
      unfold storedRow
      rw [rowsOf_concat]
      by_cases hr : id = r.id
      · rw [if_pos hr, if_pos hr.symm]
        cases hrows : rowsOf rows id with
        | nil => simp [RecoveredReputation.toRow]
        | cons first rest =>
            cases hlast : (first :: rest).getLast? with
            | none => simp at hlast
            | some last =>
                have hend : (first :: (rest ++ [r])).getLast? = some r := by
                  rw [← List.cons_append, List.getLast?_concat]
                simp [hend]
      · rw [if_neg hr, if_neg (Ne.symm hr), List.append_nil]

theorem filter_loadReputation (file : File F) (id : WorkerId) :
    file.loadReputation.filter (fun r => r.id = id) =
      ((file.reputation.lookup id).map (ReputationRow.toRecovered id)).toList := by
  have hkey : (file.reputation.entries.filter fun e => e.1 = id) =
      (file.reputation.lookup id).toList.map (Sigma.mk id) :=
    Table.filter_entries file.reputation id
  unfold File.loadReputation
  rw [List.filter_map]
  have hsame : ((fun r : RecoveredReputation F => decide (r.id = id)) ∘
      fun e : Sigma fun _ : WorkerId => ReputationRow F => e.2.toRecovered e.1) =
        fun e => decide (e.1 = id) := rfl
  rw [hsame, hkey]
  cases file.reputation.lookup id <;> rfl

-- What is read back of a worker.
theorem recovered_storedRow (rows : List (RecoveredReputation F)) (id : WorkerId) :
    (storedRow rows id).map (ReputationRow.toRecovered id) =
      (rowsOf rows id).head?.bind fun first =>
        (rowsOf rows id).getLast?.map fun last => { last with token := cString first.token } := by
  unfold storedRow
  cases hfirst : (rowsOf rows id).head? with
  | none => rfl
  | some first =>
      cases hlast : (rowsOf rows id).getLast? with
      | none => rfl
      | some last =>
          have hid : last.id = id := by
            have hmem := List.mem_of_getLast? hlast
            simpa [rowsOf] using (List.mem_filter.mp hmem).2
          subst hid
          have hrow := toRecovered_toRow last (cString first.token)
          rw [cString_cString] at hrow
          exact congrArg some hrow

end

section

variable {F : Type} [Double F]

-- The rows that a call brings of the reputation.
def Call.reputation : Call F → List (RecoveredReputation F)
  | .flush _ _ => []
  | .flushReputation rows => rows

theorem foldlM_reputation (rows : List (RecoveredReputation F)) {file file' : File F}
    (h : rows.foldlM File.upsertReputation file = .ok file') :
    file'.reputation = rows.foldl putReputation file.reputation := by
  induction rows generalizing file with
  | nil =>
      cases h
      rfl
  | cons r rows ih =>
      rw [List.foldlM_cons] at h
      by_cases hr : r.storable = true
      · have hstep : file.upsertReputation r =
            .ok { file with reputation := putReputation file.reputation r } := by
          simp [File.upsertReputation, putReputation, hr]
        rw [hstep] at h
        exact ih h
      · have hstep : file.upsertReputation r = .error "NOT NULL constraint failed" := by
          simp [File.upsertReputation, hr]
        rw [hstep] at h
        cases h

theorem Call.rows_reputation (call : Call F) {file file' : File F}
    (h : call.rows file = .ok file') :
    file'.reputation = call.reputation.foldl putReputation file.reputation := by
  cases call with
  | flush jobs tasks =>
      cases h
      rfl
  | flushReputation rows => exact foldlM_reputation rows h

theorem calls_reputation (calls : List (Call F × List Outcome)) {file file' : File F}
    (h : calls.foldlM (fun file x => x.1.rows file) file = .ok file') :
    file'.reputation =
      (calls.flatMap fun x => x.1.reputation).foldl putReputation file.reputation := by
  induction calls generalizing file with
  | nil =>
      cases h
      rfl
  | cons x calls ih =>
      rw [List.foldlM_cons] at h
      cases hx : x.1.rows file with
      | error e =>
          rw [hx] at h
          cases h
      | ok file₁ =>
          rw [hx] at h
          rw [ih h, List.flatMap_cons, List.foldl_append, x.1.rows_reputation hx]

-- A worker that comes back under another token keeps the one of its first row.
theorem loadReputation_last_iff (store : Store) (calls : List (Call F × List Outcome))
    (h : ∀ done x rest, calls = done ++ x :: rest →
      ((Database.afterCalls { store := store } done).next x).1 = .ok ()) :
    (∀ id, (Database.afterCalls { store := store } calls).committed.loadReputation.filter
          (fun r => r.id = id) =
        (rowsOf (calls.flatMap fun x => x.1.reputation) id).getLast?.toList) ↔
      ∀ id first last, (rowsOf (calls.flatMap fun x => x.1.reputation) id).head? = some first →
        (rowsOf (calls.flatMap fun x => x.1.reputation) id).getLast? = some last →
          cString first.token = last.token := by
  have hrows := (Database.afterCalls_rows _ calls h).2
  have htable := calls_reputation calls hrows
  generalize Database.afterCalls { store := store } calls = db at htable ⊢
  generalize (calls.flatMap fun x => x.1.reputation) = rows at htable ⊢
  have hread : ∀ id, db.committed.loadReputation.filter (fun r => r.id = id) =
      ((rowsOf rows id).head?.bind fun first => (rowsOf rows id).getLast?.map fun last =>
        { last with token := cString first.token }).toList := by
    intro id
    rw [filter_loadReputation, htable, ← recovered_storedRow]
    congr 2
    exact lookup_foldl_putReputation rows id
  constructor
  · intro hlast id first last hhead hend
    have heq := hlast id
    rw [hread, hhead, hend] at heq
    have hsame : ({ last with token := cString first.token } : RecoveredReputation F) = last := by
      simpa using heq
    exact congrArg RecoveredReputation.token hsame
  · intro htokens id
    rw [hread]
    cases hend : (rowsOf rows id).getLast? with
    | none =>
        rw [List.getLast?_eq_none_iff] at hend
        rw [hend]
        rfl
    | some last =>
        cases hhead : (rowsOf rows id).head? with
        | none =>
            rw [List.head?_eq_none_iff] at hhead
            rw [hhead] at hend
            cases hend
        | some first =>
            have htoken := htokens id first last hhead hend
            simp [htoken]

end

-- What is known of one worker, under the token of its last connection.
def returning (token : Token) : RecoveredReputation Rat where
  id := ⟨0, 7⟩
  alpha := 2
  beta := 1
  accepted := 3
  rejected := 0
  spotCheckFailures := 0
  blacklistedUntilMs := 0
  onProbation := true
  token := token

def flushed (token : Token) : Call Rat × List Outcome := (.flushReputation [returning token], [])

theorem loadReputation_last_kept :
    rowsOf [returning [1], returning [1]] ⟨0, 7⟩ ≠ [] ∧ ∀ id,
      (Database.afterCalls { store := {} }
          [flushed [1], flushed [1]]).committed.loadReputation.filter (fun r => r.id = id) =
        (rowsOf [returning [1], returning [1]] id).getLast?.toList := by
  refine ⟨by simp [rowsOf, returning],
    (loadReputation_last_iff {} [flushed [1], flushed [1]] ?_).mpr ?_⟩
  · intro done x rest hsplit
    rcases done with _ | ⟨y, _ | ⟨z, done⟩⟩
    · cases hsplit
      rfl
    · cases hsplit
      rfl
    · simp at hsplit
  · intro id first last hhead hlast
    have hmem : ∀ r ∈ rowsOf [returning [1], returning [1]] id, r = returning [1] := by
      intro r hr
      simpa using (List.mem_filter.mp hr).1
    rw [hmem first (List.mem_of_head? hhead), hmem last (List.mem_of_getLast? hlast)]
    rfl

-- It comes back under another token, and the file keeps the old one.
theorem new_token_lost :
    ¬ ∀ id, (Database.afterCalls { store := {} }
          [flushed [1], flushed [2]]).committed.loadReputation.filter (fun r => r.id = id) =
        (rowsOf [returning [1], returning [2]] id).getLast?.toList := by
  intro h
  have htokens := congrArg (fun rows => rows.map RecoveredReputation.token) (h ⟨0, 7⟩)
  revert htokens
  decide +kernel

end P2pGpu.Coordinator
