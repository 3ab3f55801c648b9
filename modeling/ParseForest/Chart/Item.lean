import ParseForest.Grammar.Basic

/-!
# Items

An item is a rule with a dot in its right-hand side: what stands before the dot
has been found from the start position on, what stands behind it is still to come.
-/

namespace ParseForest

/-- A rule, the number of its right-hand symbols found, and the position of the first. -/
structure Item where
  rule : RuleId
  dot : Nat
  start : Nat
deriving DecidableEq, Repr, Inhabited

namespace Item

/-- The start rule at position 0, with nothing found. -/
def initial : Item := ⟨0, 0, 0⟩

def advance (item : Item) : Item :=
  { item with dot := item.dot + 1 }

def next? (g : Grammar) (item : Item) : Option Symbol := do
  (← g.rule? item.rule).rhs[item.dot]?

/-- The left-hand side of the rule of an item that has been found as a whole. -/
def found? (g : Grammar) (item : Item) : Option Symbol := do
  let rule ← g.rule? item.rule
  if item.dot = rule.rhs.length then some rule.lhs else none

def describe (item : Item) : String :=
  s!"Item \x7b rule: {item.rule}, dot: {item.dot}, start: {item.start} \x7d"

/-- An item of a set at a position, with a bullet for the dot. -/
def render (g : Grammar) (position : Nat) (item : Item) : String :=
  let rule := (g.rule? item.rule).getD ⟨⟨""⟩, []⟩
  let (found, missing) := rule.rhs.splitAt item.dot
  let parts := found.map Symbol.name ++ "•" :: missing.map Symbol.name
  s!"[{position}] {rule.lhs} -> " ++ " ".intercalate parts ++ s!"  ({item.start})"

end Item

end ParseForest
