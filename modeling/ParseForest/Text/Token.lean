import ParseForest.Symbol.Name

/-!
# Tokens of a grammar text

A text is cut into words and marks, each with the place where it stands.
-/

namespace ParseForest.Text

/-- A place in a text. Lines and columns count from 1 and columns count characters;
the offset counts bytes of the UTF-8 form from 0. -/
structure Position where
  line : Nat
  column : Nat
  offset : Nat
deriving DecidableEq, Repr, Inhabited

namespace Position

def start : Position := ⟨1, 1, 0⟩

def advance (p : Position) (c : Char) : Position :=
  if c = '\n' then ⟨p.line + 1, 1, p.offset + c.utf8Size⟩
  else ⟨p.line, p.column + 1, p.offset + c.utf8Size⟩

def advanceAll (p : Position) (text : List Char) : Position :=
  text.foldl advance p

instance : ToString Position := ⟨fun p => s!"{p.line}:{p.column}"⟩

end Position

/-- The words and marks of a grammar text, and its end. -/
inductive Token where
  | terminals
  | empty
  | symbol (name : String)
  | arrow
  | bar
  | colon
  | endOfInput
deriving DecidableEq, Repr, Inhabited

namespace Token

/-- The token that a run of name characters stands for. -/
def ofWord (word : String) : Token :=
  if word = Symbol.terminalsWord then terminals
  else if word = Symbol.emptyWord then empty
  else symbol word

def describe : Token → String
  | terminals => "`terminals`"
  | empty => "`ε`"
  | symbol name => s!"symbol `{name}`"
  | arrow => "`->`"
  | bar => "`|`"
  | colon => "`:`"
  | endOfInput => "end of input"

end Token

/-- A token with the place of its first character. -/
structure Located where
  token : Token
  position : Position
deriving DecidableEq, Repr, Inhabited

inductive Fault where
  | unexpectedCharacter (c : Char) (position : Position)
  | unexpectedItem (found : Located)
  | missingColon (found : Located)
  | missingArrow (lhs : Symbol) (found : Located)
  | emptyNotAlone (lhs : Symbol) (position : Position)
  | noAlternative (lhs : Symbol) (position : Position)
deriving DecidableEq, Repr

namespace Fault

def position : Fault → Position
  | unexpectedCharacter _ p | emptyNotAlone _ p | noAlternative _ p => p
  | unexpectedItem t | missingColon t | missingArrow _ t => t.position

/-- The end of a message that names the token found and its place. -/
private def found (t : Located) : String :=
  s!" at {t.position}, found " ++ t.token.describe

def message : Fault → String
  | unexpectedCharacter c p => s!"Unexpected character '{c}' at {p}"
  | unexpectedItem t => "Expected a rule or `terminals:`" ++ found t
  | missingColon t => "Expected `:` after `terminals`" ++ found t
  | missingArrow lhs t => s!"Expected `->` after `{lhs}`" ++ found t
  | emptyNotAlone lhs p => s!"`ε` must stand alone in an alternative for `{lhs}` at {p}"
  | noAlternative lhs p =>
    s!"Empty alternative for `{lhs}` at {p} (write `ε` for an empty right-hand side)"

end Fault

end ParseForest.Text
