import ParseForest.Grammar.Cycle
import ParseForest.Grammar.Nullable
import ParseForest.Grammar.Problem

/-!
# Grammars

A grammar is a table of rules with a set of terminals that has none of the
problems below. Rule 0 is the start rule. The order of the rules matters: it is
the order in which derivations are listed.
-/

namespace ParseForest

/-! ## Problems of a table -/

def nameProblem? (symbol : Symbol) : Option Problem :=
  if symbol.name.isEmpty then some .emptyName
  else match symbol.name.toList.find? (fun c => !Symbol.isNameChar c) with
    | some c => some (.badCharacter symbol c)
    | none => if symbol.name ∈ Symbol.reservedWords then some (.keyword symbol) else none

/-- What is wrong with a rule whose symbols are well named: its left-hand side is a
terminal, or a symbol of its right-hand side is neither a terminal nor defined. -/
def definitionProblem? (terminals defined : SymbolSet) (rule : Rule) (id : RuleId) :
    Option Problem :=
  if rule.lhs ∈ terminals then some (.terminalDefined rule.lhs id)
  else (rule.rhs.find? fun s => s ∉ terminals ∧ s ∉ defined).map (.undefined · id rule)

/-- The first problem of a definition. The set of the symbols defined is the same for all rules. -/
def definitionsProblem? (rules : List Rule) (terminals : SymbolSet) : Option Problem :=
  let defined := SymbolSet.ofList (rules.map Rule.lhs)
  rules.zipIdx.findSome? fun (rule, id) => definitionProblem? terminals defined rule id

def startProblem? : List Rule → Option Problem
  | [] => some .noRules
  | start :: _ => if start.rhs.isEmpty then some (.emptyStart start.lhs) else none

/-- The first problem of a table: of the start rule, of the names of the terminals and
of the rules, of the definitions, and last a derivation cycle. -/
def problem? (rules : List Rule) (terminals : SymbolSet) : Option Problem :=
  startProblem? rules <|>
  terminals.toList.findSome? nameProblem? <|>
  rules.findSome? (fun rule => (rule.lhs :: rule.rhs).findSome? nameProblem?) <|>
  definitionsProblem? rules terminals <|>
  (derivationCycle? rules terminals (nullableOf rules)).map .cycle

/-! ## Grammars -/

/-- A table of rules and a set of terminals without problems, with the set of its
nullable symbols. -/
structure Grammar where
  rules : List Rule
  terminals : SymbolSet
  nullable : SymbolSet
  nullable_eq : nullable = nullableOf rules
  valid : problem? rules terminals = none
deriving DecidableEq

namespace Grammar

def ofTables? (rules : List Rule) (terminals : List Symbol) : Except Problem Grammar :=
  match h : problem? rules (.ofList terminals) with
  | some problem => .error problem
  | none => .ok ⟨rules, .ofList terminals, nullableOf rules, rfl, h⟩

theorem rules_ne_nil (g : Grammar) : g.rules ≠ [] := by
  intro h
  have := g.valid
  rw [h] at this
  exact absurd this (by simp [problem?, startProblem?])

/-- Rule 0, at which every derivation begins. -/
def startRule (g : Grammar) : Rule :=
  g.rules.head g.rules_ne_nil

def rule? (g : Grammar) (id : RuleId) : Option Rule :=
  g.rules[id]?

/-- The numbers of the rules for a symbol, in increasing order. -/
def rulesOf (g : Grammar) (symbol : Symbol) : List RuleId :=
  g.rules.zipIdx.filterMap fun (rule, id) => if rule.lhs = symbol then some id else none

def nonterminals (g : Grammar) : SymbolSet :=
  .ofList (g.rules.map Rule.lhs)

/-- The least number of terminals that symbols can derive, as far as it is seen from
the nullable symbols: every other symbol needs one at least. -/
def leastLength (g : Grammar) (symbols : List Symbol) : Nat :=
  symbols.countP (· ∉ g.nullable)

end Grammar

end ParseForest
