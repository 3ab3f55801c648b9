import ParseForest.Grammar.Basic

/-!
# A small English grammar

Phrase structure over part-of-speech tags: noun, verb, clause, adjective and
prepositional phrases.
-/

namespace ParseForest.Grammar

def englishTags : List Symbol :=
  Symbol.ofNames ["Det", "N", "V", "C", "Adv", "A", "P"]

/-- The phrase structure rules, with the sentence first. -/
def englishRules : List Rule :=
  [("S", ["NP", "VP"]),
   ("NP", ["N"]),
   ("NP", ["Det", "N"]),
   ("NP", ["AP", "N"]),
   ("NP", ["Det", "AP", "N"]),
   ("NP", ["N", "PP"]),
   ("NP", ["Det", "N", "PP"]),
   ("NP", ["AP", "N", "PP"]),
   ("NP", ["Det", "AP", "N", "PP"]),
   ("VP", ["V"]),
   ("VP", ["V", "NP"]),
   ("VP", ["V", "CP"]),
   ("VP", ["V", "PP"]),
   ("VP", ["V", "NP", "PP"]),
   ("VP", ["V", "CP", "PP"]),
   ("CP", ["C", "S"]),
   ("AP", ["Adv", "A"]),
   ("AP", ["A"]),
   ("PP", ["P", "NP"])].map fun (lhs, rhs) => ⟨⟨lhs⟩, Symbol.ofNames rhs⟩

/-- The built-in grammar of English sentences as lists of tags. -/
def english : Grammar where
  rules := englishRules
  terminals := .ofList englishTags
  nullable := nullableOf englishRules
  nullable_eq := rfl
  valid := by decide +kernel

end ParseForest.Grammar
