import ParseForest.Rule
import ParseForest.Symbol.Set

/-!
# Nullable symbols

A symbol is nullable if it derives the empty string. The nullable symbols are
the limit of passes over the rule table, each of which adds the left-hand sides
whose right-hand sides hold known nullable symbols only.
-/

namespace ParseForest

/-- One pass over the table: the left-hand side of a rule joins the known nullable
symbols once its right-hand side holds nothing else. -/
def nullablePass (rules : List Rule) (known : SymbolSet) : SymbolSet :=
  rules.foldl (fun known rule => if rule.rhs.all (· ∈ known) then known.insert rule.lhs else known)
    known

/-- Passes over the table until one adds nothing, at most `passes` of them. -/
def nullableFrom (rules : List Rule) : Nat → SymbolSet → SymbolSet
  | 0, known => known
  | passes + 1, known =>
    let next := nullablePass rules known
    if next.size = known.size then known else nullableFrom rules passes next

/-- The nullable symbols of a table. A pass that is not the last adds a left-hand
side, so there are no more passes than rules. -/
def nullableOf (rules : List Rule) : SymbolSet :=
  nullableFrom rules rules.length ∅

end ParseForest
