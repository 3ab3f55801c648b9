import ParseForest.Chart.Spans
import ParseForest.Tree.Basic

/-!
# Forests

The forest of an input is the list of all its derivations, each as a tree of its
own. Derivations are read off the index of spans: a rule is expanded from left to
right, a terminal takes the input symbol that it names, and a non-terminal takes
the part of the input that an entry of the index says one of its rules covers. What
follows a non-terminal must still fit behind it, so with derivation cycles ruled
out no non-terminal is expanded over the same part of the input inside itself.
-/

namespace ParseForest

/-- Trees for the last symbols of a rule, and the number of input symbols they cover. -/
structure Candidate where
  trees : List Tree
  width : Nat
deriving DecidableEq

namespace Forest

variable (g : Grammar) (index : SpanIndex) (input : List Symbol)

/-- The candidates that put a subtree of an entry in front of others, as long as the
subtree has a child for each symbol of its rule and the widths add up to the part. -/
def combine (symbols width total : Nat) (subtrees : List Tree) (rest : List Candidate) :
    List Candidate :=
  (subtrees.filter (·.children.length = symbols)).flatMap fun subtree =>
    (rest.filter (width + ·.width = total)).map fun candidate =>
      ⟨subtree :: candidate.trees, width + candidate.width⟩

/-- The ways to expand the last symbols of a rule over a part of the input, given the
trees for a rule over a part. -/
def candidates (trees : RuleId → Nat → Nat → List Tree) :
    List Symbol → Nat → Nat → List Candidate
  | [], start, stop => if start = stop then [⟨[], 0⟩] else []
  | symbol :: rest, start, stop =>
    if stop < start + g.leastLength (symbol :: rest) then []
    else if symbol ∈ g.terminals then
      if input[start]? = some symbol then
        (candidates trees rest (start + 1) stop).map fun candidate =>
          ⟨.leaf symbol.name :: candidate.trees, 1 + candidate.width⟩
      else []
    else
      (index.startingAt start).flatMap fun entry =>
        match g.rule? entry.rule with
        | none => []
        | some rule =>
          if rule.lhs ≠ symbol ∨ stop < entry.stop + g.leastLength rest then []
          else match trees entry.rule start entry.stop with
            | [] => []
            | subtrees =>
              combine rule.rhs.length (entry.stop - start) (stop - start) subtrees
                (candidates trees rest entry.stop stop)

/-- The trees for a rule over a part of the input, with a bound on how deep rules nest. -/
def ruleTrees : Nat → RuleId → Nat → Nat → List Tree
  | 0, _, _, _ => []
  | depth + 1, id, start, stop =>
    match g.rule? id with
    | none => []
    | some rule =>
      if rule.rhs.isEmpty then [.emptyNode rule.lhs.name]
      else
        ((candidates g index input (ruleTrees depth) rule.rhs start stop).filter
          (·.width = stop - start)).map fun candidate => .branch rule.lhs.name candidate.trees

/-- How deep rules can nest. A part of the input inside another one is smaller or the same,
and over the same part no non-terminal is expanded inside itself. -/
def depthBound : Nat :=
  g.nonterminals.size * (input.length + 1)

/-- The trees of the start rule over the whole input, if the index has it there. -/
def ofIndex : List Tree :=
  if (index.startingAt 0).any fun entry => entry.rule = 0 ∧ entry.stop = input.length then
    ruleTrees g index input (depthBound g input) 0 0 input.length
  else []

end Forest

namespace Grammar

/-- The forest of an input: all trees in which the start rule derives it. An input that
the grammar does not derive has an empty forest. -/
def parse (g : Grammar) (input : List Symbol) : List Tree :=
  let chart := Chart.build g input
  if chart.accepts g then Forest.ofIndex g (.ofChart g chart) input else []

end Grammar

end ParseForest
