import ParseForest.Files
import ParseForest.Grammar.Json
import ParseForest.Grammar.Text

/-!
# Grammars from files
-/

namespace ParseForest.Grammar

/-- Whether a path names a JSON file, by its extension in any case of letters. -/
def isJsonPath (path : String) : Bool :=
  (extension? path).any fun e => e.toLower = "json"

/-- The grammar of a file: JSON if its extension says so, and a grammar text otherwise. -/
def ofFile? (files : Files) (path : String) : Except Error Grammar := do
  let content ← (files path).mapError (.unreadableGrammar path)
  if isJsonPath path then ofJson? content else ofText? content

end ParseForest.Grammar
