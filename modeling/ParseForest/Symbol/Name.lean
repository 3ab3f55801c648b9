import ParseForest.Symbol.Basic
import ParseForest.Character.Alphanumeric

/-!
# Names that can be written

The text form of a grammar writes symbols as bare words, so a name is made of
name characters and is none of the two words with a meaning of their own.
-/

namespace ParseForest

namespace Symbol

/-- Letters, digits, `_`, the apostrophe, `.` and `$`. -/
def isNameChar (c : Char) : Bool :=
  Character.isAlphanumeric c || c == '_' || c == '\x27' || c == '.' || c == '$'

/-- The word that opens a declaration of terminals. -/
def terminalsWord : String := "terminals"

/-- The word for an empty right-hand side. -/
def emptyWord : String := "ε"

/-- The words that cannot name a symbol. -/
def reservedWords : List String := [terminalsWord, emptyWord]

end Symbol

end ParseForest
