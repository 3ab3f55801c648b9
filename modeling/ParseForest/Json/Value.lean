/-!
# JSON values

A value holds all that its text says, apart from blanks and the spelling of
strings: numbers keep the form in which they were written, objects keep the
order of their fields, and a field may occur twice.
-/

namespace ParseForest.Json

/-- What a string literal stands for. An escape for one half of a surrogate pair
without the other half leaves a literal that stands for no text. -/
inductive Literal where
  | text (s : String)
  | unpaired
deriving DecidableEq, Repr

/-- A number as it is written: a sign, the whole part, the decimal places behind the
point if there is one, and the exponent if there is one. -/
structure Number where
  negative : Bool
  whole : Nat
  places : List Char
  exponent : Option Int
deriving DecidableEq, Repr

namespace Number

def ofNat (n : Nat) : Number :=
  ⟨false, n, [], none⟩

/-- The natural number that is written without sign, point and exponent. -/
def natural? (n : Number) : Option Nat :=
  if n.negative = false ∧ n.places = [] ∧ n.exponent = none then some n.whole else none

end Number

/-- A value without parts. -/
inductive Scalar where
  | null
  | bool (b : Bool)
  | number (n : Number)
  | string (l : Literal)
deriving DecidableEq, Repr

inductive Value where
  | scalar (s : Scalar)
  | array (items : List Value)
  | object (fields : List (Literal × Value))
deriving Repr

namespace Value

@[match_pattern] abbrev text (s : String) : Value :=
  .scalar (.string (.text s))

@[match_pattern] abbrev bool (b : Bool) : Value :=
  .scalar (.bool b)

abbrev natural (n : Nat) : Value :=
  .scalar (.number (.ofNat n))

def texts (l : List String) : Value :=
  .array (l.map text)

def record (fields : List (String × Value)) : Value :=
  .object (fields.map fun (key, value) => (.text key, value))

end Value

end ParseForest.Json
