import ParseForest.Error
import ParseForest.Grammar.Basic
import ParseForest.Json.Decode
import ParseForest.Json.Printer

/-!
# Grammars as JSON

A grammar is an object with its rules and its terminals. A rule is written as an
object with its two sides, and read also from an array of the two.
-/

namespace ParseForest

open Json (Value Decoder)

namespace Symbol

def listToJson (symbols : List Symbol) : Value :=
  .texts (symbols.map name)

def decoder : Decoder Symbol := fun room value =>
  (Decoder.text room value).map Symbol.mk

end Symbol

namespace Rule

def toJson (rule : Rule) : Value :=
  .record [("lhs", .text rule.lhs.name), ("rhs", Symbol.listToJson rule.rhs)]

/-- A rule from an object or an array of two. -/
def decoder : Decoder Rule := Decoder.plain fun room value =>
  match Decoder.record ["lhs", "rhs"] room value with
  | some [lhs, rhs] => do
    return ⟨← Decoder.required Symbol.decoder (room - 1) lhs,
      ← Decoder.required (.list Symbol.decoder) (room - 1) rhs⟩
  | _ => none

/-- The rule of a JSON text. It is not checked. -/
def ofJson? (text : String) : Except Error Rule :=
  match Json.decode? decoder text with
  | some rule => .ok rule
  | none => .error .serialization

end Rule

namespace Grammar

def toJson (g : Grammar) : Value :=
  .record [("rules", .array (g.rules.map Rule.toJson)),
    ("terminals", Symbol.listToJson g.terminals.toList)]

/-- The JSON text of a grammar, over several lines. -/
def toJsonText (g : Grammar) : String :=
  g.toJson.pretty

def tablesDecoder : Decoder (List Rule × List Symbol) := fun room value =>
  match Decoder.record ["rules", "terminals"] room value with
  | some [rules, terminals] => do
    return (← Decoder.required (.list Rule.decoder) (room - 1) rules,
      ← Decoder.required (.list Symbol.decoder) (room - 1) terminals)
  | _ => none

def ofJson? (text : String) : Except Error Grammar :=
  match Json.decode? tablesDecoder text with
  | some (rules, terminals) => (ofTables? rules terminals).mapError .configuration
  | none => .error .serialization

end Grammar

end ParseForest
