import ParseForest.Symbol.Name

/-!
# Rules

A rule replaces its left-hand side by the symbols of its right-hand side.
-/

namespace ParseForest

/-- A rule `lhs → rhs`; the right-hand side may be empty. -/
structure Rule where
  lhs : Symbol
  rhs : List Symbol
deriving DecidableEq, Repr, Inhabited

/-- The number of a rule: its place in the table, counted from 0. -/
abbrev RuleId := Nat

namespace Rule

/-- The right-hand side as text, an empty one as `ε`. -/
def rhsText (rule : Rule) : String :=
  if rule.rhs.isEmpty then Symbol.emptyWord else Symbol.join " " rule.rhs

instance : ToString Rule := ⟨fun rule => rule.lhs.name ++ " -> " ++ rule.rhsText⟩

end Rule

end ParseForest
