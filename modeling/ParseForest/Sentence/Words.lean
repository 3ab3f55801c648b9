import ParseForest.Character.Blank

/-!
# Words of a sentence
-/

namespace ParseForest

/-- The runs of characters that a test tells apart from their separators. -/
def splitRuns (separates : Char → Bool) : List Char → List (List Char)
  | [] => []
  | c :: rest =>
    let runs := splitRuns separates rest
    if separates c then runs
    else match rest, runs with
      | d :: _, run :: more => if separates d then [c] :: run :: more else (c :: run) :: more
      | _, runs => [c] :: runs

/-- The words of a sentence: what stands between blanks. -/
def wordsOf (sentence : String) : List String :=
  (splitRuns Character.isBlank sentence.toList).map String.ofList

end ParseForest
