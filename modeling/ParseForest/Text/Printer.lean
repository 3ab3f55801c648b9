import ParseForest.Grammar.Basic
import ParseForest.Text.Column

/-!
# The canonical text of a grammar

The terminals come first, in increasing order, then the rules, one a line. The
arrows stand in one column, and neighbouring rules for the same symbol share its
name: the later ones begin with a bar.
-/

namespace ParseForest.Grammar

/-- The line that declares the terminals, if there are any. -/
def terminalsLine (g : Grammar) : List String :=
  if g.terminals.toList.isEmpty then []
  else [Symbol.terminalsWord ++ ": " ++ Symbol.join " " g.terminals.toList]

def headWidth (g : Grammar) : Nat :=
  (g.rules.map (·.lhs.name.length)).foldr max 0

/-- The lines of rules that follow a rule for `previous`. -/
def ruleLines (width : Nat) (previous : Option Symbol) : List Rule → List String
  | [] => []
  | rule :: rest =>
    let line :=
      if previous = some rule.lhs then Text.fill ' ' width ++ "  | " ++ rule.rhsText
      else Text.alignLeft width rule.lhs.name ++ " -> " ++ rule.rhsText
    line :: ruleLines width (some rule.lhs) rest

/-- The canonical text: two grammars have the same text only if they are equal. -/
def toText (g : Grammar) : String :=
  String.join ((g.terminalsLine ++ ruleLines g.headWidth none g.rules).map (· ++ "\n"))

end ParseForest.Grammar
