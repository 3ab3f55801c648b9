/-!
# Ranges of code points

A property of characters is a list of disjoint closed ranges of code points,
in increasing order. A look-up stops at the first range that begins behind the
code point.
-/

namespace ParseForest.Character

/-- Closed ranges of code points, disjoint and in increasing order. -/
abbrev Ranges := List (Nat × Nat)

def Ranges.contains : Ranges → Nat → Bool
  | [], _ => false
  | (first, last) :: rest, n =>
    if n < first then false
    else n ≤ last || contains rest n

end ParseForest.Character
