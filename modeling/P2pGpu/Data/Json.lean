import Mathlib.Data.List.TakeWhile

namespace P2pGpu

-- A document as it is read. A number keeps the text it is written in, and a string is the
-- UTF-16 code units that its text stands for.
inductive Json where
  | null
  | bool (b : Bool)
  | number (lexeme : List Char)
  | string (units : List UInt16)
  | array (items : List Json)
  | object (members : List (List UInt16 × Json))

namespace Json

def isBlank (c : Char) : Bool := c = ' ' || c = '\t' || c = '\n' || c = '\r'

-- White space, and what stands behind it.
def Blank (s r : List Char) : Prop := ∃ b, (∀ c ∈ b, isBlank c = true) ∧ s = b ++ r

inductive Digits : List Char → Prop where
  | mk {c : Char} {l : List Char} : c.isDigit = true → (∀ d ∈ l, d.isDigit = true) → Digits (c :: l)

inductive Whole : List Char → Prop where
  | zero : Whole ['0']
  | nonzero {l : List Char} : Digits l → l.head? ≠ some '0' → Whole l

inductive Fraction : List Char → Prop where
  | none : Fraction []
  | some {l : List Char} : Digits l → Fraction ('.' :: l)

inductive Exponent : List Char → Prop where
  | none : Exponent []
  | some {e : Char} {sign l : List Char} : e = 'e' ∨ e = 'E' →
      sign = [] ∨ sign = ['+'] ∨ sign = ['-'] → Digits l → Exponent (e :: (sign ++ l))

inductive Number : List Char → Prop where
  | mk {sign whole fraction exponent : List Char} : sign = [] ∨ sign = ['-'] → Whole whole →
      Fraction fraction → Exponent exponent → Number (sign ++ (whole ++ (fraction ++ exponent)))

def utf16 (c : Char) : List UInt16 :=
  if c.toNat < 0x10000 then [UInt16.ofNat c.toNat]
  else
    [UInt16.ofNat (0xD800 + (c.toNat - 0x10000) / 0x400),
      UInt16.ofNat (0xDC00 + (c.toNat - 0x10000) % 0x400)]

def escaped : Char → Option UInt16
  | '"' => some 0x22
  | '\\' => some 0x5C
  | '/' => some 0x2F
  | 'b' => some 0x08
  | 'f' => some 0x0C
  | 'n' => some 0x0A
  | 'r' => some 0x0D
  | 't' => some 0x09
  | _ => none

def hexDigit (c : Char) : Option Nat :=
  if c.isDigit then some (c.toNat - 48)
  else if 'a' ≤ c ∧ c ≤ 'f' then some (c.toNat - 87)
  else if 'A' ≤ c ∧ c ≤ 'F' then some (c.toNat - 55)
  else none

-- The rest of a string, from behind its opening quote. Each relation here holds of a text, what
-- a first part of it stands for, and what is left of the text.
inductive Body : List Char → List UInt16 → List Char → Prop where
  | close {r : List Char} : Body ('"' :: r) [] r
  | plain {c : Char} {s r : List Char} {units : List UInt16} : 0x20 ≤ c.toNat → c ≠ '"' →
      c ≠ '\\' → Body s units r → Body (c :: s) (utf16 c ++ units) r
  | escape {c : Char} {unit : UInt16} {s r : List Char} {units : List UInt16} :
      escaped c = some unit → Body s units r → Body ('\\' :: c :: s) (unit :: units) r
  | hex {a b c d : Char} {i j k l : Nat} {s r : List Char} {units : List UInt16} :
      hexDigit a = some i → hexDigit b = some j → hexDigit c = some k → hexDigit d = some l →
      Body s units r →
      Body ('\\' :: 'u' :: a :: b :: c :: d :: s)
        (UInt16.ofNat (((i * 16 + j) * 16 + k) * 16 + l) :: units) r

section

variable {α : Type} (item : List Char → α → List Char → Prop)

-- What follows an item of a list: the end of the list, or a comma and the next item.
inductive Rest (closing : Char) : List Char → List α → List Char → Prop where
  | close {s r : List Char} : Blank s (closing :: r) → Rest closing s [] r
  | next {s t u v r : List Char} {a : α} {as : List α} : Blank s (',' :: t) → Blank t u →
      item u a v → Rest closing v as r → Rest closing s (a :: as) r

inductive Sequence (opening closing : Char) : List Char → List α → List Char → Prop where
  | empty {s r : List Char} : Blank s (closing :: r) →
      Sequence opening closing (opening :: s) [] r
  | first {s t u r : List Char} {a : α} {as : List α} : Blank s t → item t a u →
      Rest item closing u as r → Sequence opening closing (opening :: s) (a :: as) r

inductive Member : List Char → List UInt16 × α → List Char → Prop where
  | mk {s t u v r : List Char} {key : List UInt16} {a : α} : Body s key t → Blank t (':' :: u) →
      Blank u v → item v a r → Member ('"' :: s) (key, a) r

end

inductive Value : List Char → Json → List Char → Prop where
  | null {r : List Char} : Value ('n' :: 'u' :: 'l' :: 'l' :: r) null r
  | boolTrue {r : List Char} : Value ('t' :: 'r' :: 'u' :: 'e' :: r) (bool true) r
  | boolFalse {r : List Char} : Value ('f' :: 'a' :: 'l' :: 's' :: 'e' :: r) (bool false) r
  | number {l r : List Char} : Number l → Value (l ++ r) (number l) r
  | string {s r : List Char} {units : List UInt16} : Body s units r →
      Value ('"' :: s) (string units) r
  | array {s r : List Char} {items : List Json} : Sequence Value '[' ']' s items r →
      Value s (array items) r
  | object {s r : List Char} {members : List (List UInt16 × Json)} :
      Sequence (Member Value) '{' '}' s members r → Value s (object members) r

inductive Text : List Char → Json → Prop where
  | mk {s t r : List Char} {v : Json} : Blank s t → Value t v r → Blank r [] → Text s v

end Json

end P2pGpu
