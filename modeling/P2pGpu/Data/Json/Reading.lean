import Mathlib.Data.List.TakeDrop
import P2pGpu.Data.Json

namespace P2pGpu.Json

def isNumeric (c : Char) : Bool :=
  c.isDigit || c = '-' || c = '+' || c = '.' || c = 'e' || c = 'E'

-- A number does not run on into such a text.
def Stops (s : List Char) : Prop := ∀ c ∈ s.head?, isNumeric c = false

def Solid (s : List Char) : Prop := ∀ c ∈ s.head?, isBlank c = false

theorem Blank.eq_dropWhile {s r : List Char} (h : Blank s r) (hr : Solid r) :
    r = s.dropWhile isBlank := by
  obtain ⟨b, hb, rfl⟩ := h
  rw [List.dropWhile_append_of_pos hb]
  cases r with
  | nil => rfl
  | cons c r =>
      have hc : isBlank c = false := hr c rfl
      rw [List.dropWhile_cons_of_neg (by rw [hc]; exact Bool.false_ne_true)]

theorem Blank.unique {s r r' : List Char} (h : Blank s r) (h' : Blank s r') (hr : Solid r)
    (hr' : Solid r') : r = r' :=
  (h.eq_dropWhile hr).trans (h'.eq_dropWhile hr').symm

theorem Blank.length_le {s r : List Char} (h : Blank s r) : r.length ≤ s.length := by
  obtain ⟨b, -, rfl⟩ := h
  rw [List.length_append]
  exact Nat.le_add_left _ _

theorem Blank.stops {s r : List Char} (h : Blank s r) (hr : Stops r) : Stops s := by
  obtain ⟨b, hb, rfl⟩ := h
  cases b with
  | nil => exact hr
  | cons c b =>
      intro d hd
      cases hd
      have hc := hb c List.mem_cons_self
      simp only [isBlank, Bool.or_eq_true, decide_eq_true_eq] at hc
      rcases hc with ((rfl | rfl) | rfl) | rfl <;> decide

theorem isNumeric_of_isDigit {c : Char} (h : c.isDigit = true) : isNumeric c = true := by
  simp only [isNumeric, h, Bool.true_or]

theorem Digits.numeric {l : List Char} (h : Digits l) : ∀ c ∈ l, isNumeric c = true := by
  obtain ⟨hc, hl⟩ := h
  intro d hd
  rcases List.mem_cons.mp hd with rfl | hd
  · exact isNumeric_of_isDigit hc
  · exact isNumeric_of_isDigit (hl d hd)

theorem Whole.head {l : List Char} (h : Whole l) : ∃ c t, l = c :: t ∧ c.isDigit = true := by
  cases h with
  | zero => exact ⟨'0', [], rfl, rfl⟩
  | nonzero h _ =>
      obtain ⟨hc, -⟩ := h
      exact ⟨_, _, rfl, hc⟩

theorem Number.numeric {l : List Char} (h : Number l) : ∀ c ∈ l, isNumeric c = true := by
  obtain ⟨hsign, hwhole, hfraction, hexponent⟩ := h
  intro c hc
  simp only [List.mem_append] at hc
  rcases hc with hc | hc | hc | hc
  · rcases hsign with rfl | rfl
    · cases hc
    · rw [List.mem_singleton.mp hc]
      decide
  · cases hwhole with
    | zero =>
        rw [List.mem_singleton.mp hc]
        decide
    | nonzero h _ => exact h.numeric c hc
  · cases hfraction with
    | none => cases hc
    | some h =>
        rcases List.mem_cons.mp hc with rfl | hc
        · decide
        · exact h.numeric c hc
  · cases hexponent with
    | none => cases hc
    | some he hsign h =>
        rcases List.mem_cons.mp hc with rfl | hc
        · rcases he with rfl | rfl <;> decide
        · rcases List.mem_append.mp hc with hc | hc
          · rcases hsign with rfl | rfl | rfl
            · cases hc
            · rw [List.mem_singleton.mp hc]
              decide
            · rw [List.mem_singleton.mp hc]
              decide
          · exact h.numeric c hc

theorem Number.head {l : List Char} (h : Number l) :
    ∃ c t, l = c :: t ∧ (c = '-' ∨ c.isDigit = true) := by
  obtain ⟨hsign, hwhole, -, -⟩ := h
  obtain ⟨c, t, rfl, hc⟩ := hwhole.head
  rcases hsign with rfl | rfl
  · exact ⟨c, _, rfl, .inr hc⟩
  · exact ⟨'-', _, rfl, .inl rfl⟩

theorem takeWhile_numeric {l r : List Char} (hl : ∀ c ∈ l, isNumeric c = true) (hr : Stops r) :
    (l ++ r).takeWhile isNumeric = l := by
  rw [List.takeWhile_append_of_pos hl]
  cases r with
  | nil => exact List.append_nil l
  | cons c r =>
      have hc : isNumeric c = false := hr c rfl
      rw [List.takeWhile_cons_of_neg (by rw [hc]; exact Bool.false_ne_true), List.append_nil]

theorem Number.unique {l l' r r' : List Char} (h : Number l) (h' : Number l') (hr : Stops r)
    (hr' : Stops r') (heq : l ++ r = l' ++ r') : l = l' ∧ r = r' := by
  have hl : l = l' := by
    rw [← takeWhile_numeric h.numeric hr, heq, takeWhile_numeric h'.numeric hr']
  subst hl
  exact ⟨rfl, List.append_cancel_left heq⟩

theorem Body.shrinks {s r : List Char} {units : List UInt16} (h : Body s units r) :
    r.length < s.length := by
  induction h with
  | close => exact Nat.lt_succ_self _
  | plain _ _ _ _ ih =>
      rw [List.length_cons]
      omega
  | escape _ _ ih =>
      simp only [List.length_cons]
      omega
  | hex _ _ _ _ _ ih =>
      simp only [List.length_cons]
      omega

theorem Body.unique {s r r' : List Char} {units units' : List UInt16} (h : Body s units r)
    (h' : Body s units' r') : units = units' ∧ r = r' := by
  induction h generalizing units' with
  | close =>
      cases h' with
      | close => exact ⟨rfl, rfl⟩
      | plain _ hquote _ _ => exact absurd rfl hquote
  | plain _ hquote hslash _ ih =>
      cases h' with
      | close => exact absurd rfl hquote
      | plain _ _ _ hrest =>
          obtain ⟨rfl, rfl⟩ := ih hrest
          exact ⟨rfl, rfl⟩
      | escape _ _ => exact absurd rfl hslash
      | hex _ _ _ _ _ => exact absurd rfl hslash
  | escape hunit _ ih =>
      cases h' with
      | plain _ _ hslash _ => exact absurd rfl hslash
      | escape hunit' hrest =>
          obtain ⟨rfl, rfl⟩ := ih hrest
          rw [hunit] at hunit'
          rw [Option.some.inj hunit']
          exact ⟨rfl, rfl⟩
      | hex _ _ _ _ _ => cases hunit
  | hex ha hb hc hd _ ih =>
      cases h' with
      | plain _ _ hslash _ => exact absurd rfl hslash
      | escape hunit _ => cases hunit
      | hex ha' hb' hc' hd' hrest =>
          obtain ⟨rfl, rfl⟩ := ih hrest
          rw [ha] at ha'
          rw [hb] at hb'
          rw [hc] at hc'
          rw [hd] at hd'
          rw [Option.some.inj ha', Option.some.inj hb', Option.some.inj hc', Option.some.inj hd']
          exact ⟨rfl, rfl⟩

-- What the readings of the texts of a bounded length are used for.
structure Regular {α : Type} (item : List Char → α → List Char → Prop) (n : Nat) : Prop where
  shrinks : ∀ {s a r}, s.length ≤ n → item s a r → r.length < s.length
  unique : ∀ {s a b r r'}, s.length ≤ n → item s a r → item s b r' → Stops r → Stops r' →
    a = b ∧ r = r'
  leads : ∀ {s a r}, item s a r →
    ∃ c t, s = c :: t ∧ isBlank c = false ∧ c ≠ ']' ∧ c ≠ '}'

section

variable {α : Type} {item : List Char → α → List Char → Prop} {closing opening : Char} {n : Nat}

theorem Regular.solid (h : Regular item n) {s r : List Char} {a : α} (hs : item s a r) :
    Solid s := by
  obtain ⟨c, t, rfl, hc, -⟩ := h.leads hs
  intro d hd
  cases hd
  exact hc

theorem solid_cons {c : Char} {s : List Char} (h : isBlank c = false) : Solid (c :: s) := by
  intro d hd
  cases hd
  exact h

theorem stops_cons {c : Char} {s : List Char} (h : isNumeric c = false) : Stops (c :: s) := by
  intro d hd
  cases hd
  exact h

theorem Rest.stops {s r : List Char} {as : List α} (h : Rest item closing s as r)
    (hclosing : closing = ']' ∨ closing = '}') : Stops s := by
  cases h with
  | close hblank => exact hblank.stops (stops_cons (by rcases hclosing with rfl | rfl <;> decide))
  | next hblank _ _ _ => exact hblank.stops (stops_cons (by decide))

theorem Rest.shrinks (hitem : Regular item n) {s r : List Char} {as : List α}
    (h : Rest item closing s as r) (hn : s.length ≤ n) : r.length < s.length := by
  induction h with
  | close hblank =>
      have := hblank.length_le
      rw [List.length_cons] at this
      omega
  | next hcomma hblank ha _ ih =>
      have hfirst := hcomma.length_le
      rw [List.length_cons] at hfirst
      have hsecond := hblank.length_le
      have hthird := hitem.shrinks (by omega) ha
      have hlast := ih (by omega)
      omega

theorem Rest.unique (hitem : Regular item n) (hclosing : closing = ']' ∨ closing = '}')
    {s r r' : List Char} {as bs : List α} (h : Rest item closing s as r)
    (h' : Rest item closing s bs r') (hn : s.length ≤ n) : as = bs ∧ r = r' := by
  have hsolid : ∀ t : List Char, Solid (closing :: t) := fun t =>
    solid_cons (by rcases hclosing with rfl | rfl <;> decide)
  have hcommas : ∀ t : List Char, Solid (',' :: t) := fun t => solid_cons (by decide)
  induction h generalizing bs with
  | close hblank =>
      cases h' with
      | close hblank' =>
          have heq := hblank.unique hblank' (hsolid _) (hsolid _)
          exact ⟨rfl, (List.cons.inj heq).2⟩
      | next hcomma' _ _ _ =>
          have heq := hblank.unique hcomma' (hsolid _) (hcommas _)
          have hbad := (List.cons.inj heq).1
          rcases hclosing with rfl | rfl <;> cases hbad
  | next hcomma hblank ha hrest ih =>
      cases h' with
      | close hblank' =>
          have heq := hcomma.unique hblank' (hcommas _) (hsolid _)
          have hbad := (List.cons.inj heq).1
          rcases hclosing with rfl | rfl <;> cases hbad
      | next hcomma' hblank' hb hrest' =>
          have heq := hcomma.unique hcomma' (hcommas _) (hcommas _)
          obtain ⟨-, rfl⟩ := List.cons.inj heq
          obtain rfl := hblank.unique hblank' (hitem.solid ha) (hitem.solid hb)
          have hfirst := hcomma.length_le
          rw [List.length_cons] at hfirst
          have hsecond := hblank.length_le
          obtain ⟨rfl, rfl⟩ := hitem.unique (by omega) ha hb (hrest.stops hclosing)
            (hrest'.stops hclosing)
          have hthird := hitem.shrinks (by omega) ha
          obtain ⟨rfl, rfl⟩ := ih hrest' (by omega)
          exact ⟨rfl, rfl⟩

theorem Sequence.shrinks (hitem : Regular item n) {s r : List Char} {as : List α}
    (h : Sequence item opening closing s as r) (hn : s.length ≤ n + 1) :
    r.length < s.length := by
  cases h with
  | empty hblank =>
      have := hblank.length_le
      rw [List.length_cons] at this
      rw [List.length_cons]
      omega
  | first hblank ha hrest =>
      rw [List.length_cons] at hn ⊢
      have hfirst := hblank.length_le
      have hsecond := hitem.shrinks (by omega) ha
      have hlast := hrest.shrinks hitem (by omega)
      omega

theorem Sequence.unique (hitem : Regular item n) (hclosing : closing = ']' ∨ closing = '}')
    {s r r' : List Char} {as bs : List α} (h : Sequence item opening closing s as r)
    (h' : Sequence item opening closing s bs r') (hn : s.length ≤ n + 1) : as = bs ∧ r = r' := by
  have hsolid : ∀ t : List Char, Solid (closing :: t) := fun t =>
    solid_cons (by rcases hclosing with rfl | rfl <;> decide)
  have hopens : ∀ {t u : List Char} {a : α}, item (closing :: t) a u → False := by
    intro t u a ha
    obtain ⟨c, v, heq, -, hsquare, hcurly⟩ := hitem.leads ha
    obtain ⟨rfl, -⟩ := List.cons.inj heq
    rcases hclosing with rfl | rfl
    · exact hsquare rfl
    · exact hcurly rfl
  cases h with
  | empty hblank =>
      cases h' with
      | empty hblank' =>
          have heq := hblank.unique hblank' (hsolid _) (hsolid _)
          exact ⟨rfl, (List.cons.inj heq).2⟩
      | first hblank' hb _ =>
          obtain rfl := hblank.unique hblank' (hsolid _) (hitem.solid hb)
          exact (hopens hb).elim
  | first hblank ha hrest =>
      cases h' with
      | empty hblank' =>
          obtain rfl := hblank.unique hblank' (hitem.solid ha) (hsolid _)
          exact (hopens ha).elim
      | first hblank' hb hrest' =>
          obtain rfl := hblank.unique hblank' (hitem.solid ha) (hitem.solid hb)
          rw [List.length_cons] at hn
          have hfirst := hblank.length_le
          obtain ⟨rfl, rfl⟩ := hitem.unique (by omega) ha hb (hrest.stops hclosing)
            (hrest'.stops hclosing)
          have hsecond := hitem.shrinks (by omega) ha
          obtain ⟨rfl, rfl⟩ := hrest.unique hitem hclosing hrest' (by omega)
          exact ⟨rfl, rfl⟩

theorem Regular.member (hitem : Regular item n) : Regular (Member item) n where
  shrinks := by
    intro s a r hn h
    obtain ⟨hkey, hcolon, hblank, ha⟩ := h
    rw [List.length_cons] at hn ⊢
    have hfirst := hkey.shrinks
    have hsecond := hcolon.length_le
    rw [List.length_cons] at hsecond
    have hthird := hblank.length_le
    have hlast := hitem.shrinks (by omega) ha
    omega
  unique := by
    intro s a b r r' hn h h' hr hr'
    obtain ⟨hkey, hcolon, hblank, ha⟩ := h
    obtain ⟨hkey', hcolon', hblank', hb⟩ := h'
    rw [List.length_cons] at hn
    obtain ⟨rfl, rfl⟩ := hkey.unique hkey'
    have heq := hcolon.unique hcolon' (solid_cons (by decide)) (solid_cons (by decide))
    obtain ⟨-, rfl⟩ := List.cons.inj heq
    obtain rfl := hblank.unique hblank' (hitem.solid ha) (hitem.solid hb)
    have hfirst := hkey.shrinks
    have hsecond := hcolon.length_le
    rw [List.length_cons] at hsecond
    have hthird := hblank.length_le
    obtain ⟨rfl, rfl⟩ := hitem.unique (by omega) ha hb hr hr'
    exact ⟨rfl, rfl⟩
  leads := by
    intro s a r h
    cases h
    exact ⟨'"', _, rfl, by decide, by decide, by decide⟩

end

-- What a value is can be seen at its first character.
inductive Shape where
  | null
  | bool (b : Bool)
  | number
  | string
  | array
  | object

def shape : Json → Shape
  | null => .null
  | bool b => .bool b
  | number _ => .number
  | string _ => .string
  | array _ => .array
  | object _ => .object

def begins : List Char → Shape
  | 'n' :: _ => .null
  | 't' :: _ => .bool true
  | 'f' :: _ => .bool false
  | '"' :: _ => .string
  | '[' :: _ => .array
  | '{' :: _ => .object
  | _ => .number

theorem begins_number {c : Char} {s : List Char} (hc : c = '-' ∨ c.isDigit = true) :
    begins (c :: s) = .number := by
  unfold begins
  split
  case h_7 => rfl
  all_goals
    rename_i heq
    obtain ⟨rfl, -⟩ := List.cons.inj heq
    exact absurd hc (by decide)

theorem Value.shape_eq {s r : List Char} {v : Json} (h : Value s v r) : v.shape = begins s := by
  cases h with
  | null => rfl
  | boolTrue => rfl
  | boolFalse => rfl
  | number h =>
      obtain ⟨c, t, rfl, hc⟩ := h.head
      exact (begins_number hc).symm
  | string _ => rfl
  | array h => cases h <;> rfl
  | object h => cases h <;> rfl

theorem Value.leads {s r : List Char} {v : Json} (h : Value s v r) :
    ∃ c t, s = c :: t ∧ isBlank c = false ∧ c ≠ ']' ∧ c ≠ '}' := by
  cases h with
  | null => exact ⟨'n', _, rfl, by decide, by decide, by decide⟩
  | boolTrue => exact ⟨'t', _, rfl, by decide, by decide, by decide⟩
  | boolFalse => exact ⟨'f', _, rfl, by decide, by decide, by decide⟩
  | number h =>
      obtain ⟨c, t, rfl, hc⟩ := h.head
      refine ⟨c, _, rfl, ?_, ?_, ?_⟩
      · by_contra hblank
        simp only [isBlank, Bool.not_eq_false, Bool.or_eq_true, decide_eq_true_eq] at hblank
        rcases hblank with ((rfl | rfl) | rfl) | rfl <;> revert hc <;> decide
      · rintro rfl
        revert hc
        decide
      · rintro rfl
        revert hc
        decide
  | string _ => exact ⟨'"', _, rfl, by decide, by decide, by decide⟩
  | array h => cases h <;> exact ⟨'[', _, rfl, by decide, by decide, by decide⟩
  | object h => cases h <;> exact ⟨'{', _, rfl, by decide, by decide, by decide⟩

theorem Value.shrinks {n : Nat} (ih : Regular Value n) {s r : List Char} {v : Json}
    (h : Value s v r) (hn : s.length ≤ n + 1) : r.length < s.length := by
  cases h with
  | number h =>
      obtain ⟨c, t, rfl, -⟩ := h.head
      rw [List.length_append, List.length_cons]
      omega
  | string h =>
      have := h.shrinks
      rw [List.length_cons]
      omega
  | array h => exact h.shrinks ih hn
  | object h => exact h.shrinks ih.member hn
  | _ =>
      simp only [List.length_cons]
      omega

-- A derivation, by the value it is of.
def Spelled (s : List Char) : Json → List Char → Prop
  | null, r => s = 'n' :: 'u' :: 'l' :: 'l' :: r
  | bool true, r => s = 't' :: 'r' :: 'u' :: 'e' :: r
  | bool false, r => s = 'f' :: 'a' :: 'l' :: 's' :: 'e' :: r
  | number l, r => Number l ∧ s = l ++ r
  | string units, r => ∃ t, s = '"' :: t ∧ Body t units r
  | array items, r => Sequence Value '[' ']' s items r
  | object members, r => Sequence (Member Value) '{' '}' s members r

theorem Value.spelled {s r : List Char} {v : Json} (h : Value s v r) : Spelled s v r := by
  cases h with
  | null => rfl
  | boolTrue => rfl
  | boolFalse => rfl
  | number h => exact ⟨h, rfl⟩
  | string h => exact ⟨_, rfl, h⟩
  | array h => exact h
  | object h => exact h

theorem Value.unique {n : Nat} (ih : Regular Value n) {s r r' : List Char} {v w : Json}
    (h : Value s v r) (h' : Value s w r') (hn : s.length ≤ n + 1) (hr : Stops r)
    (hr' : Stops r') : v = w ∧ r = r' := by
  have hshape : v.shape = w.shape := h.shape_eq.trans h'.shape_eq.symm
  have hv := h.spelled
  have hw := h'.spelled
  cases v with
  | null =>
      cases w with
      | null =>
          cases hv.symm.trans hw
          exact ⟨rfl, rfl⟩
      | _ => cases hshape
  | bool b =>
      cases w with
      | bool b' =>
          cases hshape
          cases b with
          | true =>
              cases hv.symm.trans hw
              exact ⟨rfl, rfl⟩
          | false =>
              cases hv.symm.trans hw
              exact ⟨rfl, rfl⟩
      | _ => cases hshape
  | number l =>
      cases w with
      | number l' =>
          obtain ⟨hl, rfl⟩ := hv
          obtain ⟨hl', heq⟩ := hw
          obtain ⟨rfl, rfl⟩ := hl.unique hl' hr hr' heq
          exact ⟨rfl, rfl⟩
      | _ => cases hshape
  | string units =>
      cases w with
      | string units' =>
          obtain ⟨t, rfl, hbody⟩ := hv
          obtain ⟨t', heq, hbody'⟩ := hw
          obtain ⟨-, rfl⟩ := List.cons.inj heq
          obtain ⟨rfl, rfl⟩ := hbody.unique hbody'
          exact ⟨rfl, rfl⟩
      | _ => cases hshape
  | array items =>
      cases w with
      | array items' =>
          obtain ⟨rfl, rfl⟩ := Sequence.unique ih (.inl rfl) hv hw hn
          exact ⟨rfl, rfl⟩
      | _ => cases hshape
  | object members =>
      cases w with
      | object members' =>
          obtain ⟨rfl, rfl⟩ := Sequence.unique ih.member (.inr rfl) hv hw hn
          exact ⟨rfl, rfl⟩
      | _ => cases hshape

-- By the length of the text, as what a list or an object holds is shorter than itself.
theorem regular_value (n : Nat) : Regular Value n := by
  induction n with
  | zero =>
      refine ⟨fun hn h => ?_, fun hn h _ _ _ => ?_, fun h => h.leads⟩
      all_goals
        obtain ⟨c, t, rfl, -⟩ := h.leads
        exact absurd hn (Nat.not_succ_le_zero _)
  | succ n ih => exact ⟨fun hn h => h.shrinks ih hn, fun hn h h' => h.unique ih h' hn, Value.leads⟩

theorem Text.unique {s : List Char} {v w : Json} (h : Text s v) (h' : Text s w) : v = w := by
  obtain ⟨hfront, hv, hback⟩ := h
  obtain ⟨hfront', hw, hback'⟩ := h'
  have hvalues := regular_value s.length
  obtain rfl := hfront.unique hfront' (hvalues.solid hv) (hvalues.solid hw)
  have hnil : Stops [] := fun c hc => nomatch hc
  exact (hvalues.unique hfront.length_le hv hw (hback.stops hnil) (hback'.stops hnil)).1

end P2pGpu.Json
