import ParseForest.Digest.Sha256
import ParseForest.Json.Printer
import ParseForest.Text.Printer

/-!
# Summary of a grammar

The counts and the fingerprint by which grammars are compared at a glance.
-/

namespace ParseForest

/-- The size of a grammar, its start symbol and its fingerprint. -/
structure Summary where
  rules : Nat
  terminals : Nat
  nonterminals : Nat
  start : Symbol
  fingerprint : String
deriving DecidableEq, Repr

namespace Summary

def fields (s : Summary) : List (String × Json.Value) :=
  [("rules", .natural s.rules), ("terminals", .natural s.terminals),
   ("nonterminals", .natural s.nonterminals), ("start", .text s.start.name),
   ("fingerprint", .text s.fingerprint)]

def toJson (s : Summary) : Json.Value :=
  .record s.fields

end Summary

namespace Grammar

/-- The digest of the canonical text. -/
def fingerprint (g : Grammar) : String :=
  Sha256.ofText g.toText

def summary (g : Grammar) : Summary where
  rules := g.rules.length
  terminals := g.terminals.size
  nonterminals := g.nonterminals.size
  start := g.startRule.lhs
  fingerprint := g.fingerprint

end Grammar

end ParseForest
