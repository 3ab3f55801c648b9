import ParseForest.Text.Token
import ParseForest.Character.Blank

/-!
# Cutting a text into tokens

Blank characters separate tokens and are otherwise skipped, and so are comments:
from `#` or `//` to the end of the line. A word is a longest run of name
characters. The list of tokens ends with one for the end of the text.
-/

namespace ParseForest.Text

def startsComment : List Char → Bool
  | '#' :: _ => true
  | '/' :: '/' :: _ => true
  | _ => false

def lineRest (text : List Char) : List Char :=
  text.takeWhile (· ≠ '\n')

def lineEnd (text : List Char) : List Char :=
  text.dropWhile (· ≠ '\n')

theorem length_dropWhile_le {α : Type} (p : α → Bool) (l : List α) :
    (l.dropWhile p).length ≤ l.length :=
  (List.dropWhile_sublist p).length_le

/-- The tokens of a text whose first character stands at `position`, or the first
character that can begin no token. -/
def scanFrom (position : Position) : List Char → Except Fault (List Located)
  | [] => .ok [⟨.endOfInput, position⟩]
  | c :: rest =>
    if Character.isBlank c then scanFrom (position.advance c) rest
    else if startsComment (c :: rest) then
      scanFrom (position.advanceAll (c :: lineRest rest)) (lineEnd rest)
    else if c = '|' then do
      return ⟨.bar, position⟩ :: (← scanFrom (position.advance c) rest)
    else if c = ':' then do
      return ⟨.colon, position⟩ :: (← scanFrom (position.advance c) rest)
    else if c = '-' then
      match rest with
      | '>' :: behind => do
        return ⟨.arrow, position⟩ :: (← scanFrom (position.advanceAll ['-', '>']) behind)
      | _ => .error (.unexpectedCharacter c position)
    else if Symbol.isNameChar c then do
      let word := c :: rest.takeWhile Symbol.isNameChar
      let behind := rest.dropWhile Symbol.isNameChar
      return ⟨.ofWord (.ofList word), position⟩ :: (← scanFrom (position.advanceAll word) behind)
    else .error (.unexpectedCharacter c position)
termination_by text => text.length
decreasing_by
  all_goals simp only [List.length_cons, lineEnd]
  all_goals first
    | omega
    | exact Nat.lt_succ_of_le (length_dropWhile_le _ _)

def scan (text : String) : Except Fault (List Located) :=
  scanFrom .start text.toList

end ParseForest.Text
