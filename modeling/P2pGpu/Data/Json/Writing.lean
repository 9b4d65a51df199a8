import P2pGpu.Data.Json

namespace P2pGpu.Json

-- A text that stands for one thing wherever it is put, whatever comes behind it.
def Spells {α : Type} (item : List Char → α → List Char → Prop) (w : List Char) (a : α) : Prop :=
  ∀ r, item (w ++ r) a r

-- A text that adds its units to those of the string it is put into.
def Inside (w : List Char) (units : List UInt16) : Prop :=
  ∀ s u r, Body s u r → Body (w ++ s) (units ++ u) r

def units (l : List Char) : List UInt16 := l.flatMap utf16

structure Plain (c : Char) : Prop where
  printable : 0x20 ≤ c.toNat
  quote : c ≠ '"'
  backslash : c ≠ '\\'

instance (c : Char) : Decidable (Plain c) :=
  decidable_of_iff (0x20 ≤ c.toNat ∧ c ≠ '"' ∧ c ≠ '\\')
    ⟨fun h => ⟨h.1, h.2.1, h.2.2⟩, fun h => ⟨h.printable, h.quote, h.backslash⟩⟩

theorem blank_refl (s : List Char) : Blank s s := by
  refine ⟨[], fun c hc => ?_, rfl⟩
  cases hc

section

variable {w w' : List Char} {u u' : List UInt16}

theorem inside_nil : Inside [] [] := fun _ _ _ h => h

theorem Inside.append (h : Inside w u) (h' : Inside w' u') : Inside (w ++ w') (u ++ u') := by
  intro s v r hs
  rw [List.append_assoc, List.append_assoc]
  exact h _ _ _ (h' _ _ _ hs)

theorem inside_plain {c : Char} (h : Plain c) : Inside [c] (utf16 c) :=
  fun _ _ _ hs => .plain h.printable h.quote h.backslash hs

theorem inside_escape {c : Char} {unit : UInt16} (h : escaped c = some unit) :
    Inside ['\\', c] [unit] :=
  fun _ _ _ hs => .escape h hs

theorem inside_units {l : List Char} (h : ∀ c ∈ l, Plain c) : Inside l (units l) := by
  induction l with
  | nil => exact inside_nil
  | cons c l ih =>
      have hc := inside_plain (h c List.mem_cons_self)
      exact hc.append (ih fun d hd => h d (List.mem_cons_of_mem c hd))

theorem spells_null : Spells Value ['n', 'u', 'l', 'l'] null := fun _ => .null

theorem spells_bool (b : Bool) :
    Spells Value (if b then ['t', 'r', 'u', 'e'] else ['f', 'a', 'l', 's', 'e']) (bool b) := by
  intro r
  cases b with
  | true => exact .boolTrue
  | false => exact .boolFalse

theorem spells_number {l : List Char} (h : Number l) : Spells Value l (number l) :=
  fun _ => .number h

theorem spells_string (h : Inside w u) : Spells Value ('"' :: (w ++ ['"'])) (string u) := by
  intro r
  have hbody := h _ _ _ (.close : Body ('"' :: r) [] r)
  rw [List.append_nil] at hbody
  have htext : '"' :: (w ++ ['"']) ++ r = '"' :: (w ++ '"' :: r) := by
    rw [List.cons_append, List.append_assoc]
    rfl
  rw [htext]
  exact .string hbody

end

section

variable {α : Type} {item : List Char → α → List Char → Prop} {opening closing : Char}
  {w w' : List Char} {a : α} {as : List α}

theorem spells_close : Spells (Rest item closing) [closing] [] := fun _ => .close (blank_refl _)

theorem spells_next (h : Spells item w a) (h' : Spells (Rest item closing) w' as) :
    Spells (Rest item closing) (',' :: (w ++ w')) (a :: as) := by
  intro r
  have hitem := h (w' ++ r)
  rw [← List.append_assoc] at hitem
  exact .next (blank_refl _) (blank_refl _) hitem (h' r)

theorem spells_empty : Spells (Sequence item opening closing) [opening, closing] [] :=
  fun _ => .empty (blank_refl _)

theorem spells_first (h : Spells item w a) (h' : Spells (Rest item closing) w' as) :
    Spells (Sequence item opening closing) (opening :: (w ++ w')) (a :: as) := by
  intro r
  have hitem := h (w' ++ r)
  rw [← List.append_assoc] at hitem
  exact .first (blank_refl _) hitem (h' r)

theorem spells_member {key : List Char} {u : List UInt16} (hkey : Inside key u)
    (h : Spells item w a) :
    Spells (Member item) ('"' :: (key ++ '"' :: ':' :: w)) (u, a) := by
  intro r
  have hbody := hkey _ _ _ (.close : Body ('"' :: ':' :: (w ++ r)) [] (':' :: (w ++ r)))
  rw [List.append_nil] at hbody
  have htext : '"' :: (key ++ '"' :: ':' :: w) ++ r = '"' :: (key ++ '"' :: ':' :: (w ++ r)) := by
    rw [List.cons_append, List.append_assoc]
    rfl
  rw [htext]
  exact .mk hbody (blank_refl _) (blank_refl _) (h r)

end

theorem spells_array {w : List Char} {items : List Json}
    (h : Spells (Sequence Value '[' ']') w items) : Spells Value w (array items) :=
  fun r => .array (h r)

theorem spells_object {w : List Char} {members : List (List UInt16 × Json)}
    (h : Spells (Sequence (Member Value) '{' '}') w members) : Spells Value w (object members) :=
  fun r => .object (h r)

theorem Spells.text {w : List Char} {v : Json} (h : Spells Value w v) : Text w v := by
  have hvalue := h []
  rw [List.append_nil] at hvalue
  exact .mk (blank_refl w) hvalue (blank_refl [])

theorem head_toDigits {n : Nat} (h : 0 < n) : (Nat.toDigits 10 n).head? ≠ some '0' := by
  induction n using Nat.strong_induction_on with
  | h n ih =>
      by_cases hn : n < 10
      · have hdigit : ∀ d < 10, 0 < d → [Nat.digitChar d].head? ≠ some '0' := by decide
        rw [Nat.toDigits_of_lt_base hn]
        exact hdigit n hn h
      · intro hzero
        rw [Nat.toDigits_of_base_le (by decide) (Nat.le_of_not_lt hn), List.head?_append,
          Option.or_eq_some_iff] at hzero
        rcases hzero with hzero | ⟨hempty, -⟩
        · exact ih (n / 10) (Nat.div_lt_self h (by decide)) (by omega) hzero
        · exact Nat.toDigits_ne_nil (List.head?_eq_none_iff.mp hempty)

theorem digits_toDigits (n : Nat) : Digits (Nat.toDigits 10 n) := by
  have hdigits : ∀ c ∈ Nat.toDigits 10 n, c.isDigit = true :=
    fun c hc => Nat.isDigit_of_mem_toDigits (by decide) (by decide) hc
  cases hl : Nat.toDigits 10 n with
  | nil => exact absurd hl Nat.toDigits_ne_nil
  | cons c l =>
      rw [hl] at hdigits
      exact ⟨hdigits c List.mem_cons_self, fun d hd => hdigits d (List.mem_cons_of_mem c hd)⟩

theorem whole_toDigits (n : Nat) : Whole (Nat.toDigits 10 n) := by
  cases n with
  | zero => exact .zero
  | succ n => exact .nonzero (digits_toDigits _) (head_toDigits (Nat.succ_pos n))

theorem number_toDigits (n : Nat) : Number (Nat.toDigits 10 n) := by
  have h := Number.mk (.inl rfl) (whole_toDigits n) .none .none
  rwa [List.append_nil, List.append_nil] at h

end P2pGpu.Json
