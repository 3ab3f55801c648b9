import ParseForest.Json.Decode
import ParseForest.Json.Printer
import ParseForest.Tree.Basic

/-!
# Trees as JSON

A node is an object. Attributes are written only if there are any, and the mark of
an empty node only if it is one; a reader takes their absence for that, and the
absence of children for none. Each level of a tree opens an object and an array, so
half of the levels of nesting that a text may have is left to the trees in it.
-/

namespace ParseForest

open Json (Value Decoder)

namespace Attributes

def toJson (a : Attributes) : Value :=
  .record (a.entries.map fun (key, value) => (key, .text value))

def decoder : Decoder Attributes := fun room value =>
  (Decoder.dictionary Decoder.text room value).map ofList

end Attributes

namespace Tree

mutual

def toJson : Tree → Value
  | ⟨name, children, attributes, empty⟩ =>
    .record ([("name", .text name), ("children", .array (listToJson children))] ++
      (if attributes.isEmpty then [] else [("attributes", attributes.toJson)]) ++
      (if empty then [("empty", .bool true)] else []))

def listToJson : List Tree → List Value
  | [] => []
  | t :: ts => t.toJson :: listToJson ts

end

/-- The JSON text of a tree, without blanks. -/
def toJsonText (t : Tree) : String :=
  t.toJson.compact

def listToJsonText (pretty : Bool) (trees : List Tree) : String :=
  let value := Value.array (listToJson trees)
  if pretty then value.pretty else value.compact

/-- A tree from an object or an array of its fields. -/
def decoder : Decoder Tree
  | 0, _ => none
  | room + 1, value =>
    match Decoder.record ["name", "children", "attributes", "empty"] (room + 1) value with
    | some [name, children, attributes, empty] => do
      let name ← Decoder.required Decoder.text room name
      let children ← match room, children with
        | _, none => some []
        | inner + 1, some (.array items) => items.mapM (decoder inner)
        | _, _ => none
      let attributes ← Decoder.optional ∅ Attributes.decoder room attributes
      let empty ← Decoder.optional false Decoder.bool room empty
      return ⟨name, children, attributes, empty⟩
    | _ => none

def ofJson? (text : String) : Option Tree :=
  Json.decode? decoder text

end Tree

end ParseForest
