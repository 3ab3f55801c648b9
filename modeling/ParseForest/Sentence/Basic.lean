import ParseForest.Forest
import ParseForest.Sentence.Lattice
import ParseForest.Sentence.Limits
import ParseForest.Tree.Words

/-!
# Parsing sentences

A sentence is parsed once for each combination of the tags that its words may have,
and the words take the place of the tags in the trees.
-/

namespace ParseForest

structure Attempt where
  tags : List Symbol
  forest : List Tree
deriving DecidableEq

namespace Grammar

/-- The forests of combinations in order, at most `count` of them, up to the one whose
trees are more than there is room for. -/
def attempts (g : Grammar) : Nat → Nat → Combinations → List Attempt
  | 0, _, _ => []
  | count + 1, room, combinations =>
    match combinations.next? with
    | none => []
    | some (tags, rest) =>
      let forest := g.parse tags
      ⟨tags, forest⟩ ::
        if room < forest.length then [] else attempts g count (room - forest.length) rest

/-- The number of combinations to try for a sentence, if its words have a list of tags
each and neither they nor their combinations are too many. -/
def sentenceSize? (wordCount : Nat) (lattice : Lattice) (limits : Limits) : Except Error Nat :=
  if wordCount ≠ lattice.size then .error (.columnCount wordCount lattice.size)
  else if limits.maxWords < wordCount then .error (.tooManyWords wordCount limits.maxWords)
  else match lattice.count? with
    | some count =>
      if count ≤ limits.maxCombinations then .ok count
      else .error (.tooManyCombinations limits.maxCombinations)
    | none => .error (.tooManyCombinations limits.maxCombinations)

def sentenceAttempts (g : Grammar) (count : Nat) (lattice : Lattice) (limits : Limits) :
    List Attempt :=
  g.attempts count limits.maxTrees lattice.combinations

/-- All trees of a sentence over all combinations of its tags, with the words as leaves. -/
def parseWords (g : Grammar) (words : List String) (lattice : Lattice) (limits : Limits) :
    Except Error (List Tree) := do
  let count ← sentenceSize? words.length lattice limits
  let trees := (g.sentenceAttempts count lattice limits).flatMap (·.forest)
  if limits.maxTrees < trees.length then throw (.tooManyTrees limits.maxTrees)
  trees.mapM (·.withWords words)

end Grammar

end ParseForest
