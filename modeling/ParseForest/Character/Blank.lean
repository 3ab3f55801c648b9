import ParseForest.Character.Ranges

/-!
# Blank characters

A character is blank if it has the property White_Space.
-/

namespace ParseForest.Character

/-- The code points with the property White_Space. -/
def blankRanges : Ranges :=
  [(0x9, 0xd), (0x20, 0x20), (0x85, 0x85), (0xa0, 0xa0), (0x1680, 0x1680), (0x2000, 0x200a),
   (0x2028, 0x2029), (0x202f, 0x202f), (0x205f, 0x205f), (0x3000, 0x3000)]

/-- Spaces, tabs and line ends of every kind. -/
def isBlank (c : Char) : Bool :=
  blankRanges.contains c.toNat

end ParseForest.Character
