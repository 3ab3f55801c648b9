import ParseForest.Rule
import ParseForest.Symbol.Set

/-!
# Derivation cycles

A non-terminal steps to another one if some rule for it holds the other at one
position and nullable symbols at all others: then it can derive the other one
alone. A cycle of steps would give some inputs infinitely many derivations. The
search goes depth first, from each non-terminal in increasing order.
-/

namespace ParseForest

/-- The non-terminals that a rule can derive alone: those whose neighbours in the
right-hand side are all nullable, in order of position. -/
def Rule.unitSymbols (terminals nullable : SymbolSet) (rule : Rule) : List Symbol :=
  rule.rhs.zipIdx.filterMap fun (symbol, i) =>
    if symbol ∉ terminals ∧ ∀ other ∈ rule.rhs.eraseIdx i, other ∈ nullable then some symbol
    else none

/-- The steps of a non-terminal, in order of rule and position. -/
def unitSteps (rules : List Rule) (terminals nullable : SymbolSet) (lhs : Symbol) : List Symbol :=
  (rules.filter (·.lhs = lhs)).flatMap (Rule.unitSymbols terminals nullable)

/-- Searches below `symbol` for a symbol that is on the path to it, the path being
listed from its end. The answer is a cycle, with its first symbol again at the end,
or else the symbols known to lead to no cycle. The path holds no symbol twice, so
`depth` need not pass the number of non-terminals. -/
def cycleBelow (steps : Symbol → List Symbol) :
    Nat → List Symbol → List Symbol → Symbol → Except (List Symbol) (List Symbol)
  | 0, _, done, _ => .ok done
  | depth + 1, path, done, symbol =>
    if symbol ∈ done then .ok done
    else if symbol ∈ path then
      .error (symbol :: (path.takeWhile (· ≠ symbol)).reverse ++ [symbol])
    else do
      let done ← (steps symbol).foldlM (cycleBelow steps depth (symbol :: path)) done
      return symbol :: done

/-- The first derivation cycle that the search meets, if there is one. -/
def derivationCycle? (rules : List Rule) (terminals nullable : SymbolSet) : Option (List Symbol) :=
  let starts := SymbolSet.ofList (rules.map Rule.lhs)
  let search := cycleBelow (unitSteps rules terminals nullable) (starts.size + 1) []
  match starts.toList.foldlM search [] with
  | .error cycle => some cycle
  | .ok _ => none

end ParseForest
