/-!
# Painted text

On a terminal some words are painted. Paint is put on and taken off by codes.
-/

namespace ParseForest.Command

inductive Paint where
  | bold
  | dimmed
  | green
  | blue
  | boldRed
  | boldGreen
deriving DecidableEq, Repr

/-- The parameters of the code that puts paint on. -/
def Paint.parameters : Paint → String
  | bold => "1"
  | dimmed => "2"
  | green => "32"
  | blue => "34"
  | boldRed => "1;31"
  | boldGreen => "1;32"

/-- A text with paint, or as it is if there is to be none. -/
def Paint.apply (paint : Paint) (color : Bool) (text : String) : String :=
  if color then "\x1b[" ++ paint.parameters ++ "m" ++ text ++ "\x1b[0m" else text

end ParseForest.Command
