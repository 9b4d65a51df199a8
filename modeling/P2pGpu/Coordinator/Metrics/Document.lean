import P2pGpu.Coordinator.Metrics
import P2pGpu.Data.Json.Reading
import P2pGpu.Data.Json.Writing

namespace P2pGpu.Coordinator

open Json

-- What a snapshot is to be read as.
def field (name : String) (v : Json) : List UInt16 × Json := (units name.toList, v)

def count (n : Nat) : Json := .number (Nat.toDigits 10 n)

def charsOf (v : List UInt8) : List Char := v.map fun u => Char.ofNat u.toNat

-- A label without the bytes that are not printable ASCII.
def printable (v : List UInt8) : List UInt16 :=
  (v.filter fun u => 0x20 ≤ u ∧ u < 0x7F).map UInt8.toUInt16

section

variable {F : Type} [Double F] (print : F → List UInt8)

def real (v : F) : Json := if Double.isFinite v then .number (charsOf (print v)) else .null

def workerDocument (w : WorkerMetrics F) : Json :=
  .object
    [field "worker_id" (count w.workerId.toNat),
      field "tasks_completed" (count w.tasksCompleted.toNat),
      field "score_ops_per_sec" (real print w.scoreOpsPerSec),
      field "correction" (real print w.correction),
      field "throttle" (real print w.throttle),
      field "observed_units_per_sec" (real print w.observedUnitsPerSec),
      field "adapter_vendor" (.string (printable w.adapterVendor)),
      field "adapter_device" (.string (printable w.adapterDevice)),
      field "adapter_backend" (.string (printable w.adapterBackend)),
      field "ice_gathered" (count w.iceGathered.toNat),
      field "ice_host" (.bool (w.iceGathered &&& 1 ≠ 0)),
      field "ice_srflx" (.bool (w.iceGathered &&& 2 ≠ 0)),
      field "ice_relay" (.bool (w.iceGathered &&& 4 ≠ 0)),
      field "ms_to_first_grant" (real print w.msToFirstGrant),
      field "ms_to_first_result" (real print w.msToFirstResult)]

def stateName (i : Nat) : Json :=
  .string (units (TaskState.toString (TaskState.ofByte (UInt8.ofNat i))).toList)

def document (snap : Snapshot F) : Json :=
  .object
    [field "timestamp_ms" (count snap.timestampMs.toNat),
      field "workers" (count snap.workers.toNat),
      field "queue_depth" (count snap.queueDepth.toNat),
      field "total_tasks" (count snap.totalTasks.toNat),
      field "units_total" (count snap.unitsTotal.toNat),
      field "units_remaining" (count snap.unitsRemaining.toNat),
      field "wasted_units" (count snap.wastedUnits.toNat),
      field "asset_grants" (count snap.assetGrants.toNat),
      field "asset_grants_hit" (count snap.assetGrantsHit.toNat),
      field "asset_from_peer" (count snap.assetFromPeer.toNat),
      field "asset_from_coordinator" (count snap.assetFromCoordinator.toNat),
      field "asset_from_cache" (count snap.assetFromCache.toNat),
      field "coordinator_asset_egress" (count snap.coordinatorAssetEgress.toNat),
      field "ice_fetches" (count snap.iceFetches.toNat),
      field "ice_connected" (count snap.iceConnected.toNat),
      field "ice_host" (count snap.iceHost.toNat),
      field "ice_srflx" (count snap.iceSrflx.toNat),
      field "ice_relay" (count snap.iceRelay.toNat),
      field "rejected_frames" (count snap.rejectedFrames.toNat),
      field "tasks_by_state" (.array (snap.tasksByState.map fun n => count n.toNat)),
      field "state_names" (.array ((List.range snap.tasksByState.length).map stateName)),
      field "fleet" (.array (snap.fleet.map (workerDocument print)))]

end

def Ascii (l : List Char) : Prop := ∀ c ∈ l, c.toNat < 0x80

instance (l : List Char) : Decidable (Ascii l) :=
  List.decidableBAll (fun c : Char => c.toNat < 0x80) l

theorem ascii_nil : Ascii [] := by decide

theorem Ascii.cons {c : Char} {l : List Char} (h : Ascii l) (hc : c.toNat < 0x80) :
    Ascii (c :: l) :=
  List.forall_mem_cons.mpr ⟨hc, h⟩

theorem Ascii.append {l l' : List Char} (h : Ascii l) (h' : Ascii l') : Ascii (l ++ l') :=
  List.forall_mem_append.mpr ⟨h, h'⟩

-- Bytes that are the ASCII text of something.
def Writes {α : Type} (item : List Char → α → List Char → Prop) (w : List UInt8) (a : α) : Prop :=
  ∃ l : List Char, w = bytes l ∧ Ascii l ∧ Spells item l a

theorem bytes_append (l l' : List Char) : bytes (l ++ l') = bytes l ++ bytes l' :=
  List.map_append

theorem literal_append (s s' : String) : literal (s ++ s') = literal s ++ literal s' := by
  unfold literal
  rw [String.toList_append, bytes_append]

theorem charsOf_bytes {l : List Char} (h : Ascii l) : charsOf (bytes l) = l := by
  induction l with
  | nil => rfl
  | cons c l ih =>
      obtain ⟨hc, hl⟩ := List.forall_mem_cons.mp h
      have hbyte : (UInt8.ofNat c.toNat).toNat = c.toNat := by
        rw [UInt8.toNat_ofNat']
        exact Nat.mod_eq_of_lt (by omega)
      show Char.ofNat (UInt8.ofNat c.toNat).toNat :: charsOf (bytes l) = c :: l
      rw [ih hl, hbyte, Char.ofNat_toNat]

theorem ascii_number {l : List Char} (h : Number l) : Ascii l := by
  intro c hc
  have hnumeric := h.numeric c hc
  simp only [isNumeric, Bool.or_eq_true, decide_eq_true_eq] at hnumeric
  rcases hnumeric with ((((hdigit | rfl) | rfl) | rfl) | rfl) | rfl
  · have hnine : c.toNat ≤ 57 := (Char.isDigit_iff_toNat.mp hdigit).2
    omega
  all_goals decide

theorem writes_number {l : List Char} (h : Number l) : Writes Value (bytes l) (.number l) :=
  ⟨l, rfl, ascii_number h, spells_number h⟩

theorem writes_decimal (n : Nat) : Writes Value (decimal n) (count n) := by
  have hdecimal : decimal n = bytes (Nat.toDigits 10 n) := congrArg bytes Nat.toList_repr
  rw [hdecimal]
  exact writes_number (number_toDigits n)

section

variable {F : Type} [Double F] {print : F → List UInt8}

-- Of a finite `double` the format prints a number of the grammar.
def PrintsNumbers (print : F → List UInt8) : Prop :=
  ∀ v, Double.isFinite v = true → ∃ l, print v = bytes l ∧ Number l

theorem writes_num (hprint : PrintsNumbers print) (v : F) :
    Writes Value (num print v) (real print v) := by
  unfold num real
  cases hv : Double.isFinite v with
  | false => exact ⟨['n', 'u', 'l', 'l'], rfl, by decide, spells_null⟩
  | true =>
      obtain ⟨l, hl, hnumber⟩ := hprint v hv
      obtain ⟨c, t, rfl, -⟩ := hnumber.head
      have hlength : 0 < (print v).length := by
        rw [hl]
        exact Nat.succ_pos _
      simp only [Bool.not_true, Bool.false_eq_true, if_false, if_true, hlength]
      rw [hl, charsOf_bytes (ascii_number hnumber)]
      exact writes_number hnumber

end

def quoteByte (c : UInt8) : List UInt8 :=
  if c = 34 ∨ c = 92 then [92, c] else if 0x20 ≤ c ∧ c < 0x7F then [c] else []

theorem quote_eq (v : List UInt8) :
    quote v = literal "\"" ++ (v.flatMap quoteByte ++ literal "\"") := by
  have hloop : ∀ out, v.foldl (fun out c =>
      if c = 34 ∨ c = 92 then out ++ [92] ++ [c]
      else if 0x20 ≤ c ∧ c < 0x7F then out ++ [c]
      else out) out = out ++ v.flatMap quoteByte := by
    induction v with
    | nil => intro out; simp
    | cons c v ih =>
        intro out
        rw [List.foldl_cons, ih, List.flatMap_cons, ← List.append_assoc]
        congr 1
        unfold quoteByte
        split_ifs <;> simp
  unfold quote
  rw [hloop, List.append_assoc]

theorem toNat_ofNat_byte (c : UInt8) : (Char.ofNat c.toNat).toNat = c.toNat := by
  have hvalid : c.toNat < 0xD800 := by
    have := c.toNat_lt
    omega
  rw [Char.ofNat, dif_pos (Or.inl hvalid)]
  rfl

theorem inside_quoteByte (c : UInt8) :
    ∃ l, quoteByte c = bytes l ∧ Ascii l ∧ Inside l (printable [c]) := by
  unfold quoteByte
  by_cases hquote : c = 34
  · subst hquote
    exact ⟨['\\', '"'], rfl, by decide, inside_escape rfl⟩
  · by_cases hslash : c = 92
    · subst hslash
      exact ⟨['\\', '\\'], rfl, by decide, inside_escape rfl⟩
    · rw [if_neg (not_or.mpr ⟨hquote, hslash⟩)]
      by_cases hshown : 0x20 ≤ c ∧ c < 0x7F
      · have hchar := toNat_ofNat_byte c
        have hlow : 0x20 ≤ c.toNat := UInt8.le_iff_toNat_le.mp hshown.1
        have hhigh : c.toNat < 0x7F := UInt8.lt_iff_toNat_lt.mp hshown.2
        have hplain : Plain (Char.ofNat c.toNat) := by
          refine ⟨hchar.symm ▸ hlow, fun heq => hquote ?_, fun heq => hslash ?_⟩
          · rw [heq] at hchar
            exact UInt8.toNat_inj.mp hchar.symm
          · rw [heq] at hchar
            exact UInt8.toNat_inj.mp hchar.symm
        have hunits : utf16 (Char.ofNat c.toNat) = printable [c] := by
          have hbmp : (Char.ofNat c.toNat).toNat < 0x10000 := by omega
          have hkept : printable [c] = [c.toUInt16] := by
            rw [printable, List.filter_cons_of_pos (by simpa using hshown)]
            rfl
          have hunit : UInt16.ofNat c.toNat = c.toUInt16 := by
            apply UInt16.toNat_inj.mp
            rw [UInt16.toNat_ofNat', UInt8.toNat_toUInt16]
            exact Nat.mod_eq_of_lt (by omega)
          rw [utf16, if_pos hbmp, hchar, hkept, hunit]
        refine ⟨[Char.ofNat c.toNat], ?_, ?_, ?_⟩
        · rw [if_pos hshown]
          show [c] = [UInt8.ofNat (Char.ofNat c.toNat).toNat]
          rw [hchar, UInt8.ofNat_toNat]
        · intro d hd
          rw [List.mem_singleton.mp hd, hchar]
          omega
        · rw [← hunits]
          exact inside_plain hplain
      · refine ⟨[], if_neg hshown, ascii_nil, ?_⟩
        have hdropped : printable [c] = [] := by
          unfold printable
          rw [List.filter_cons_of_neg (by simpa using hshown)]
          rfl
        rw [hdropped]
        exact inside_nil

theorem inside_quoted (v : List UInt8) :
    ∃ l, v.flatMap quoteByte = bytes l ∧ Ascii l ∧ Inside l (printable v) := by
  induction v with
  | nil => exact ⟨[], rfl, ascii_nil, inside_nil⟩
  | cons c v ih =>
      obtain ⟨l, hl, hascii, hinside⟩ := ih
      obtain ⟨l', hl', hascii', hinside'⟩ := inside_quoteByte c
      refine ⟨l' ++ l, ?_, hascii'.append hascii, ?_⟩
      · rw [List.flatMap_cons, hl, hl', bytes_append]
      · have hunits : printable (c :: v) = printable [c] ++ printable v := by
          unfold printable
          rw [← List.map_append, ← List.filter_append]
          rfl
        rw [hunits]
        exact hinside'.append hinside

theorem writes_string {l : List Char} {u : List UInt16} (hascii : Ascii l) (h : Inside l u) :
    Writes Value (literal "\"" ++ (bytes l ++ literal "\"")) (.string u) := by
  refine ⟨'"' :: (l ++ ['"']), ?_, ?_, spells_string h⟩
  · show _ = literal "\"" ++ bytes (l ++ ['"'])
    rw [bytes_append]
    rfl
  · have hend : Ascii ['"'] := by decide
    exact (hascii.append hend).cons (by decide)

theorem writes_quote (v : List UInt8) : Writes Value (quote v) (.string (printable v)) := by
  obtain ⟨l, hl, hascii, hinside⟩ := inside_quoted v
  rw [quote_eq, hl]
  exact writes_string hascii hinside

theorem writes_bool (b : Bool) :
    Writes Value (literal (if b then "true" else "false")) (.bool b) := by
  cases b with
  | true => exact ⟨['t', 'r', 'u', 'e'], rfl, by decide, spells_bool true⟩
  | false => exact ⟨['f', 'a', 'l', 's', 'e'], rfl, by decide, spells_bool false⟩

-- Text that needs no escape.
def Clean (l : List Char) : Prop := ∀ c ∈ l, Plain c ∧ c.toNat < 0x80

instance (l : List Char) : Decidable (Clean l) :=
  List.decidableBAll (fun c : Char => Plain c ∧ c.toNat < 0x80) l

def Name (s : String) : Prop := Clean s.toList

-- A literal is checked character by character, with no string to decode.
theorem name_ofList {s : String} {l : List Char} (hs : s = String.ofList l) (h : Clean l) :
    Name s := by
  rw [Name, hs, String.toList_ofList]
  exact h

theorem Clean.ascii {l : List Char} (h : Clean l) : Ascii l := fun c hc => (h c hc).2

theorem Clean.inside {l : List Char} (h : Clean l) : Inside l (units l) :=
  inside_units fun c hc => (h c hc).1

theorem writes_name {s : String} (h : Name s) :
    Writes Value (literal "\"" ++ literal s ++ literal "\"") (.string (units s.toList)) := by
  rw [List.append_assoc]
  exact writes_string (Clean.ascii h) (Clean.inside h)

section

variable {key l : String} {w w' : List UInt8} {v : Json} {members : List (List UInt16 × Json)}

theorem Writes.member (h : Writes Value w v) (hkey : Name key) :
    Writes (Member Value) (literal "\"" ++ (literal key ++ (literal "\":" ++ w)))
      (field key v) := by
  obtain ⟨t, rfl, hascii, hspells⟩ := h
  have hmember := spells_member (Clean.inside hkey) hspells
  refine ⟨'"' :: (key.toList ++ '"' :: ':' :: t), ?_, ?_, hmember⟩
  · show _ = literal "\"" ++ bytes (key.toList ++ '"' :: ':' :: t)
    rw [bytes_append]
    rfl
  · have hvalue : Ascii ('"' :: ':' :: t) := (hascii.cons (by decide)).cons (by decide)
    exact ((Clean.ascii hkey).append hvalue).cons (by decide)

end

section

variable {α : Type} {item : List Char → α → List Char → Prop} {w w' : List UInt8} {a : α}
  {as : List α}

theorem Writes.next {closing : Char} (h : Writes item w a) (h' : Writes (Rest item closing) w' as) :
    Writes (Rest item closing) (literal "," ++ (w ++ w')) (a :: as) := by
  obtain ⟨t, rfl, hascii, hspells⟩ := h
  obtain ⟨t', rfl, hascii', hspells'⟩ := h'
  refine ⟨',' :: (t ++ t'), ?_, ?_, spells_next hspells hspells'⟩
  · rw [← bytes_append]
    rfl
  · exact (hascii.append hascii').cons (by decide)

theorem Writes.first (opening : Char) {closing : Char} (hopening : opening.toNat < 0x80)
    (h : Writes item w a) (h' : Writes (Rest item closing) w' as) :
    Writes (Sequence item opening closing) (bytes [opening] ++ (w ++ w')) (a :: as) := by
  obtain ⟨t, rfl, hascii, hspells⟩ := h
  obtain ⟨t', rfl, hascii', hspells'⟩ := h'
  refine ⟨opening :: (t ++ t'), ?_, ?_, spells_first hspells hspells'⟩
  · rw [← bytes_append, ← bytes_append]
    rfl
  · exact (hascii.append hascii').cons hopening

end

theorem Writes.array {w : List UInt8} {items : List Json}
    (h : Writes (Sequence Value '[' ']') w items) : Writes Value w (.array items) := by
  obtain ⟨l, hl, hascii, hspells⟩ := h
  exact ⟨l, hl, hascii, spells_array hspells⟩

theorem Writes.object {w : List UInt8} {members : List (List UInt16 × Json)}
    (h : Writes (Sequence (Member Value) '{' '}') w members) :
    Writes Value w (.object members) := by
  obtain ⟨l, hl, hascii, hspells⟩ := h
  exact ⟨l, hl, hascii, spells_object hspells⟩

theorem writes_end {α : Type} {item : List Char → α → List Char → Prop} :
    Writes (Rest item '}') (literal "\x7d") [] :=
  ⟨['}'], rfl, by decide, spells_close⟩

section

variable {key l : String} {w w' : List UInt8} {v : Json} {members : List (List UInt16 × Json)}

theorem Writes.firstField (h : Writes Value w v) (h' : Writes (Rest (Member Value) '}') w' members)
    (hl : l = "\x7b\"" ++ key ++ "\":") (hkey : Name key) :
    Writes Value (literal l ++ (w ++ w')) (.object (field key v :: members)) := by
  have hfirst := (h.member hkey).first '{' (by decide) h'
  have hopen : literal "\x7b\"" = bytes ['{'] ++ literal "\"" := rfl
  rw [hl, literal_append, literal_append, hopen]
  simp only [List.append_assoc] at hfirst ⊢
  exact hfirst.object

theorem Writes.nextField (h : Writes Value w v) (h' : Writes (Rest (Member Value) '}') w' members)
    (hl : l = ",\"" ++ key ++ "\":") (hkey : Name key) :
    Writes (Rest (Member Value) '}') (literal l ++ (w ++ w')) (field key v :: members) := by
  have hnext := (h.member hkey).next h'
  have hcomma : literal ",\"" = literal "," ++ literal "\"" := rfl
  rw [hl, literal_append, literal_append, hcomma]
  simp only [List.append_assoc] at hnext ⊢
  exact hnext

theorem Writes.nextList (h : Writes Value (literal "[" ++ (w ++ literal "]")) v)
    (h' : Writes (Rest (Member Value) '}') w' members)
    (hl : l = ",\"" ++ key ++ "\":[") (hkey : Name key) :
    Writes (Rest (Member Value) '}') (literal l ++ (w ++ (literal "]" ++ w')))
      (field key v :: members) := by
  have hnext := (h.member hkey).next h'
  have hcomma : literal ",\"" = literal "," ++ literal "\"" := rfl
  have hopen : literal "\":[" = literal "\":" ++ literal "[" := rfl
  rw [hl, literal_append, literal_append, hcomma, hopen]
  simp only [List.append_assoc] at hnext ⊢
  exact hnext

end

section

variable {α : Type} {write : Nat → α → List UInt8} {tree : Nat → α → Json}

theorem writes_turns (h : ∀ i a, Writes Value (write i a) (tree i a)) (items : List α) (k : Nat) :
    ∃ w, (∀ out, (items.zipIdx (k + 1)).foldl (fun out e =>
        (if 0 < e.2 then out ++ literal "," else out) ++ write e.2 e.1) out = out ++ w) ∧
      Writes (Rest Value ']') (w ++ literal "]")
        ((items.zipIdx (k + 1)).map fun e => tree e.2 e.1) := by
  induction items generalizing k with
  | nil => exact ⟨[], fun out => (List.append_nil out).symm, [']'], rfl, by decide, spells_close⟩
  | cons a items ih =>
      obtain ⟨w, hw, hwrites⟩ := ih (k + 1)
      refine ⟨literal "," ++ (write (k + 1) a ++ w), fun out => ?_, ?_⟩
      · rw [List.zipIdx_cons, List.foldl_cons, hw]
        simp only [Nat.succ_pos, if_true, List.append_assoc]
      · rw [List.append_assoc, List.append_assoc]
        exact (h (k + 1) a).next hwrites

theorem writes_separated (h : ∀ i a, Writes Value (write i a) (tree i a)) (items : List α) :
    ∃ w, (∀ out, separated write out items = out ++ w) ∧
      Writes Value (literal "[" ++ (w ++ literal "]"))
        (.array (items.zipIdx.map fun e => tree e.2 e.1)) := by
  cases items with
  | nil =>
      refine ⟨[], fun out => (List.append_nil out).symm, Writes.array ?_⟩
      exact ⟨['[', ']'], rfl, by decide, spells_empty⟩
  | cons a items =>
      obtain ⟨w, hw, hwrites⟩ := writes_turns h items 0
      refine ⟨write 0 a ++ w, fun out => ?_, Writes.array ?_⟩
      · rw [separated, List.zipIdx_cons, List.foldl_cons, hw]
        simp only [Nat.lt_irrefl, if_false, List.append_assoc]
      · rw [List.append_assoc]
        exact (h 0 a).first '[' (by decide) hwrites

end

theorem map_zipIdx_fst {α β : Type} (f : α → β) (l : List α) :
    (l.zipIdx.map fun e => f e.1) = l.map f := by
  have h := congrArg (List.map f) (List.zipIdx_map_fst 0 l)
  rwa [List.map_map] at h

theorem map_zipIdx_snd {α β : Type} (f : Nat → β) (l : List α) :
    (l.zipIdx.map fun e => f e.2) = (List.range l.length).map f := by
  have h := congrArg (List.map f) (List.zipIdx_map_snd 0 l)
  rwa [List.map_map, ← List.range_eq_range'] at h

section

variable {F : Type} [Double F] {print : F → List UInt8}

theorem writes_worker (hprint : PrintsNumbers print) (w : WorkerMetrics F) :
    Writes Value (workerToJson print w) (workerDocument print w) := by
  have hnum := writes_num hprint
  have hbool : ∀ p : Prop, [Decidable p] →
      Writes Value (literal (if p then "true" else "false")) (.bool p) := by
    intro p _
    have h := writes_bool (decide p)
    simpa only [decide_eq_true_eq] using h
  unfold workerToJson workerDocument
  simp only [List.append_assoc]
  refine (writes_decimal _).firstField ?_ rfl (name_ofList rfl (by decide))
  refine (writes_decimal _).nextField ?_ rfl (name_ofList rfl (by decide))
  iterate 4 refine (hnum _).nextField ?_ rfl (name_ofList rfl (by decide))
  iterate 3 refine (writes_quote _).nextField ?_ rfl (name_ofList rfl (by decide))
  refine (writes_decimal _).nextField ?_ rfl (name_ofList rfl (by decide))
  iterate 3 refine (hbool _).nextField ?_ rfl (name_ofList rfl (by decide))
  iterate 2 refine (hnum _).nextField ?_ rfl (name_ofList rfl (by decide))
  exact writes_end

theorem writes_stateName (i : Nat) :
    Writes Value (literal "\"" ++ literal (TaskState.toString (TaskState.ofByte (UInt8.ofNat i))) ++
      literal "\"") (stateName i) := by
  apply writes_name
  cases TaskState.ofByte (UInt8.ofNat i) with
  | none => exact name_ofList rfl (by decide)
  | some state => cases state <;> exact name_ofList rfl (by decide)

theorem writes_toJson (hprint : PrintsNumbers print) (snap : Snapshot F) :
    Writes Value (toJson print snap) (document print snap) := by
  have hcount : ∀ (_ : Nat) (n : UInt64), Writes Value (decimal n.toNat) (count n.toNat) :=
    fun _ n => writes_decimal n.toNat
  obtain ⟨states, hstates, hwstates⟩ := writes_separated hcount snap.tasksByState
  rw [map_zipIdx_fst fun n : UInt64 => count n.toNat] at hwstates
  have hname : ∀ (i : Nat) (_ : UInt64), Writes Value (literal "\"" ++
      literal (TaskState.toString (TaskState.ofByte (UInt8.ofNat i))) ++ literal "\"")
      (stateName i) := fun i _ => writes_stateName i
  obtain ⟨names, hnames, hwnames⟩ := writes_separated hname snap.tasksByState
  rw [map_zipIdx_snd stateName] at hwnames
  have hworker : ∀ (_ : Nat) (w : WorkerMetrics F),
      Writes Value (workerToJson print w) (workerDocument print w) :=
    fun _ w => writes_worker hprint w
  obtain ⟨workers, hworkers, hwworkers⟩ := writes_separated hworker snap.fleet
  rw [map_zipIdx_fst (workerDocument print)] at hwworkers
  have hopen : ∀ w, literal "\x7b" ++ (literal "\"timestamp_ms\":" ++ w) =
      literal ("\x7b" ++ "\"timestamp_ms\":") ++ w := by
    intro w
    rw [literal_append, List.append_assoc]
  have hend : literal "]\x7d" = literal "]" ++ literal "\x7d" := rfl
  unfold toJson document
  simp only [hstates, hnames, hworkers]
  simp only [List.append_assoc, hopen, hend]
  refine (writes_decimal _).firstField ?_ rfl (name_ofList rfl (by decide))
  iterate 18 refine (writes_decimal _).nextField ?_ rfl (name_ofList rfl (by decide))
  refine hwstates.nextList ?_ rfl (name_ofList rfl (by decide))
  refine hwnames.nextList ?_ rfl (name_ofList rfl (by decide))
  exact hwworkers.nextList writes_end rfl (name_ofList rfl (by decide))

end

theorem utf8_bytes {l : List Char} (h : Ascii l) :
    (String.ofList l).toByteArray.data.toList = bytes l := by
  rw [String.toByteArray_ofList, List.utf8Encode, List.toList_data_toByteArray]
  induction l with
  | nil => rfl
  | cons c l ih =>
      obtain ⟨hc, hl⟩ := List.forall_mem_cons.mp h
      have hsize : c.utf8Size = 1 :=
        Char.utf8Size_eq_one_iff.mpr (UInt32.le_iff_toNat_le.mpr (Nat.le_of_lt_succ hc))
      rw [List.flatMap_cons, String.utf8EncodeChar_eq_singleton hsize, ih hl]
      rfl

-- The whole of what is written is one document, and there is no other way to read it.
theorem toJson_reads {F : Type} [Double F] (print : F → List UInt8)
    (hprint : PrintsNumbers print) (snap : Snapshot F) :
    ∃ text : String, text.toByteArray.data.toList = toJson print snap ∧
      ∀ v, Text text.toList v ↔ v = document print snap := by
  obtain ⟨l, hl, hascii, hspells⟩ := writes_toJson hprint snap
  refine ⟨String.ofList l, ?_, fun v => ⟨fun hv => ?_, fun hv => ?_⟩⟩
  · rw [utf8_bytes hascii, hl]
  · rw [String.toList_ofList] at hv
    exact hv.unique hspells.text
  · rw [hv, String.toList_ofList]
    exact hspells.text

-- Whole numbers of up to six digits, as they are printed. What is behind the point is left out.
def printWhole (v : Rat) : List UInt8 :=
  bytes ((if v.floor < 0 then ['-'] else []) ++ Nat.toDigits 10 v.floor.natAbs)

theorem printWhole_number (v : Rat) : ∃ l, printWhole v = bytes l ∧ Number l := by
  have hsign : (if v.floor < 0 then ['-'] else []) = [] ∨
      (if v.floor < 0 then ['-'] else []) = ['-'] := by
    by_cases hneg : v.floor < 0
    · exact .inr (if_pos hneg)
    · exact .inl (if_neg hneg)
  have h := Number.mk hsign (whole_toDigits v.floor.natAbs) .none .none
  rw [List.append_nil, List.append_nil] at h
  exact ⟨_, rfl, h⟩

-- A vendor that tries to close its string, and a score that is not finite.
def hostile : Snapshot Rat where
  tasksByState := [3, 1, 0, 0, 2, 0, 0]
  fleet := [{ scoreOpsPerSec := 2 ^ 1024, adapterVendor := [34, 44, 92, 10, 200, 65, 92] }]

theorem toJson_reads_hostile :
    (∃ text : String, text.toByteArray.data.toList = toJson printWhole hostile ∧
      ∀ v, Text text.toList v ↔ v = document printWhole hostile) ∧
      printable [34, 44, 92, 10, 200, 65, 92] = [34, 44, 92, 65, 92] :=
  ⟨toJson_reads printWhole (fun v _ => printWhole_number v) hostile, by decide⟩

end P2pGpu.Coordinator
