import ParseForest.Error
import ParseForest.Json.Decode

/-!
# Limits on sentences

A sentence may have exponentially many combinations of tags and exponentially many
trees, so a parse is bounded by the number of words, combinations and trees.
-/

namespace ParseForest

structure Limits where
  maxWords : Nat := 24
  maxCombinations : Nat := 4096
  maxTrees : Nat := 10000
deriving DecidableEq, Repr

namespace Limits

/-- Limits from an object or an array, where what is left out has its default. -/
def decoder : Json.Decoder Limits := fun room value =>
  let default : Limits := {}
  let number (d : Nat) := Json.Decoder.optional d (.natural UInt64.size) room
  match Json.Decoder.record ["max_words", "max_combinations", "max_trees"] room value with
  | some [words, combinations, trees] => do
    return ⟨← number default.maxWords words, ← number default.maxCombinations combinations,
      ← number default.maxTrees trees⟩
  | _ => none

def ofJson? (text : String) : Except Error Limits :=
  match Json.decode? decoder text with
  | some limits => .ok limits
  | none => .error .serialization

end Limits

end ParseForest
