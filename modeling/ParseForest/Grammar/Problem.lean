import ParseForest.Rule
import ParseForest.Character.Quoted

/-!
# Problems of a grammar

The reasons for which a table of rules is refused.
-/

namespace ParseForest

/-- Why a table of rules and a set of terminals do not make a grammar. -/
inductive Problem where
  | noRules
  | emptyStart (lhs : Symbol)
  | emptyName
  | badCharacter (symbol : Symbol) (c : Char)
  | keyword (symbol : Symbol)
  | terminalDefined (symbol : Symbol) (id : RuleId)
  | undefined (symbol : Symbol) (id : RuleId) (rule : Rule)
  | cycle (path : List Symbol)
deriving DecidableEq, Repr

namespace Problem

def message : Problem → String
  | noRules => "grammar has no rules"
  | emptyStart lhs => s!"start rule `{lhs}` has an empty right-hand side"
  | emptyName => "empty symbol name"
  | badCharacter symbol c =>
    s!"symbol `{symbol}` contains {Character.quoted c}" ++
      "; names use letters, digits, `_`, `'`, `.` and `$`"
  | keyword symbol => s!"`{symbol}` is a keyword and cannot name a symbol"
  | terminalDefined symbol id => s!"terminal `{symbol}` is the left-hand side of rule {id}"
  | undefined symbol id rule =>
    s!"non-terminal `{symbol}` in rule {id} (`{rule}`) has no defining rule"
  | cycle path => "derivation cycle: " ++ Symbol.join " -> " path

end Problem

end ParseForest
