import ParseForest.Error
import ParseForest.Grammar.Basic
import ParseForest.Text.Reader

/-!
# Grammars from texts
-/

namespace ParseForest.Grammar

def ofDeclarations? (items : List Text.Declaration) : Except Error Grammar :=
  let (rules, terminals) := Text.tables items
  (ofTables? rules terminals).mapError .configuration

/-- The grammar that a text declares: the text is cut into tokens, the tokens are read
as items, and the tables of the items are checked. -/
def ofText? (text : String) : Except Error Grammar := do
  let tokens ← (Text.scan text).mapError .text
  let items ← (Text.readDeclarations tokens).mapError .text
  ofDeclarations? items

end ParseForest.Grammar
