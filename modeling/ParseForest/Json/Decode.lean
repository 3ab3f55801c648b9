import ParseForest.Json.Double
import ParseForest.Json.Reader

/-!
# Decoding JSON values

A decoder turns a value into a value of the domain, if it has the right shape. It
is given the number of arrays and objects that may still be opened one inside
the other. A part that is skipped, because nothing asks for its field, may nest
deeper and hold any numbers and strings.
-/

namespace ParseForest.Json

/-- How deep the decoded part of a text may nest. -/
def maxDepth : Nat := 127

/-- A decoder, given the levels of nesting that are left. -/
abbrev Decoder (α : Type) := Nat → Value → Option α

namespace Decoder

/-- A string that stands for a text. -/
def text : Decoder String
  | _, .text s => some s
  | _, _ => none

/-- A truth value. -/
def bool : Decoder Bool
  | _, .bool b => some b
  | _, _ => none

/-- A number below a bound, written without sign, fraction and exponent. -/
def natural (bound : Nat) : Decoder Nat
  | _, .scalar (.number n) => n.natural?.filter (· < bound)
  | _, _ => none

/-- An array of like items. -/
def list {α : Type} (item : Decoder α) : Decoder (List α)
  | room + 1, .array items => items.mapM (item room)
  | _, _ => none

/-- An object whose fields are all alike, as the list of its fields. -/
def dictionary {α : Type} (field : Decoder α) : Decoder (List (String × α))
  | room + 1, .object fields => fields.mapM fun (key, value) =>
    match key with
    | .text key => (field room value).map (key, ·)
    | .unpaired => none
  | _, _ => none

/-- The only value of a field, or none if there is no such field. -/
def lookup? (fields : List (Literal × Value)) (name : String) : Option (Option Value) :=
  match fields.filter (·.1 = .text name) with
  | [] => some none
  | [(_, value)] => some (some value)
  | _ => none

/-- The values of named fields, as far as they are there. An object may have other
fields, but each named one at most once. An array gives the fields in order. -/
def record (names : List String) : Decoder (List (Option Value))
  | _ + 1, .object fields =>
    if fields.any (·.1 = .unpaired) then none else names.mapM (lookup? fields)
  | _ + 1, .array items =>
    if items.length ≤ names.length then some (names.mapIdx fun i _ => items[i]?) else none
  | _, _ => none

/-- The value of a field that has to be there. -/
def required {α : Type} (decoder : Decoder α) (room : Nat) (field : Option Value) : Option α :=
  field.bind (decoder room)

/-- The value of a field that need not be there. -/
def optional {α : Type} (default : α) (decoder : Decoder α) (room : Nat) :
    Option Value → Option α
  | none => some default
  | some value => decoder room value

end Decoder

/-! ## Values that are decoded before their shape is known -/

/-- Whether a part without parts can be decoded: a string to a text, a number to a double. -/
def Scalar.isPlain : Scalar → Bool
  | .number n => n.isFinite
  | .string l => l ≠ .unpaired
  | _ => true

mutual

/-- Whether all of a value can be decoded and it nests no deeper than `room`. -/
def Value.isPlain (room : Nat) : Value → Bool
  | .scalar s => s.isPlain
  | .array items => 1 ≤ room && plainItems (room - 1) items
  | .object fields => 1 ≤ room && plainFields (room - 1) fields

/-- Whether all items of an array are plain. -/
def plainItems (room : Nat) : List Value → Bool
  | [] => true
  | item :: rest => item.isPlain room && plainItems room rest

/-- Whether all fields of an object are plain. -/
def plainFields (room : Nat) : List (Literal × Value) → Bool
  | [] => true
  | (key, value) :: rest => key ≠ .unpaired && value.isPlain room && plainFields room rest

end

/-- A decoder that takes plain values only. -/
def Decoder.plain {α : Type} (decoder : Decoder α) : Decoder α := fun room value =>
  if value.isPlain room then decoder room value else none

def decode? {α : Type} (decoder : Decoder α) (text : String) : Option α :=
  (Value.ofText? text).bind (decoder maxDepth)

end ParseForest.Json
