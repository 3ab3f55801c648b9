/-!
# Texts in columns

A text is set into a column of a given width, counted in characters. A text that
is wider than its column is not cut, unless cutting is what is asked for.
-/

namespace ParseForest.Text

def fill (c : Char) (count : Nat) : String :=
  String.ofList (List.replicate count c)

def alignLeft (width : Nat) (text : String) : String :=
  text ++ fill ' ' (width - text.length)

def alignRight (width : Nat) (text : String) : String :=
  fill ' ' (width - text.length) ++ text

/-- The text in the middle of the column, the odd place on the right. -/
def center (c : Char) (width : Nat) (text : String) : String :=
  let free := width - text.length
  fill c (free / 2) ++ text ++ fill c (free - free / 2)

def cut (width : Nat) (text : String) : String :=
  String.ofList (text.toList.take width)

end ParseForest.Text
