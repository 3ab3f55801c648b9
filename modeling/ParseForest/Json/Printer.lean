import ParseForest.Json.Value

/-!
# Printing JSON

The compact form has no blanks. The pretty form gives each item and each field a
line of its own, two spaces further in than the brackets around it.
-/

namespace ParseForest.Json

def hexDigits (n : Nat) : String :=
  let digits := Nat.toDigits 16 n
  String.ofList (List.replicate (4 - digits.length) '0' ++ digits)

/-- How a character is written in a string: quotes, backslashes and control characters
are escaped, by a letter if there is one. -/
def escapeChar (c : Char) : String :=
  if c = '\x22' then "\\\""
  else if c = '\\' then "\\\\"
  else if c = '\x08' then "\\b"
  else if c = '\t' then "\\t"
  else if c = '\n' then "\\n"
  else if c = '\x0c' then "\\f"
  else if c = '\r' then "\\r"
  else if c.toNat < 0x20 then "\\u" ++ hexDigits c.toNat
  else c.toString

/-- A string literal. One that stands for no text is written as half a surrogate pair. -/
def Literal.print : Literal → String
  | .text s => "\"" ++ String.join (s.toList.map escapeChar) ++ "\""
  | .unpaired => "\"\\ud800\""

/-- A number, with a point if it has decimal places. -/
def Number.print (n : Number) : String :=
  (if n.negative then "-" else "") ++ toString n.whole ++
    (if n.places.isEmpty then "" else "." ++ String.ofList n.places) ++
    match n.exponent with
    | some e => "e" ++ toString e
    | none => ""

def Scalar.print : Scalar → String
  | .null => "null"
  | .bool b => if b then "true" else "false"
  | .number n => n.print
  | .string l => l.print

/-! ## Compact form -/

mutual

/-- A value without blanks. -/
def Value.compact : Value → String
  | .scalar s => s.print
  | .array items => "[" ++ ",".intercalate (compactItems items) ++ "]"
  | .object fields => "\x7b" ++ ",".intercalate (compactFields fields) ++ "\x7d"

def compactItems : List Value → List String
  | [] => []
  | item :: rest => item.compact :: compactItems rest

def compactFields : List (Literal × Value) → List String
  | [] => []
  | (key, value) :: rest => (key.print ++ ":" ++ value.compact) :: compactFields rest

end

/-! ## Pretty form -/

/-- The line break before a line that stands `depth` levels in. -/
def lineBreak (depth : Nat) : String :=
  "\n" ++ String.ofList (List.replicate (2 * depth) ' ')

/-- Parts between brackets, one a line. -/
def bracketed (opening closing : String) (depth : Nat) (parts : List String) : String :=
  if parts.isEmpty then opening ++ closing
  else
    opening ++ lineBreak (depth + 1) ++ ("," ++ lineBreak (depth + 1)).intercalate parts ++
      lineBreak depth ++ closing

mutual

/-- A value over several lines, the first of which stands `depth` levels in. -/
def Value.prettyAt (depth : Nat) : Value → String
  | .scalar s => s.print
  | .array items => bracketed "[" "]" depth (prettyItems (depth + 1) items)
  | .object fields => bracketed "\x7b" "\x7d" depth (prettyFields (depth + 1) fields)

def prettyItems (depth : Nat) : List Value → List String
  | [] => []
  | item :: rest => item.prettyAt depth :: prettyItems depth rest

def prettyFields (depth : Nat) : List (Literal × Value) → List String
  | [] => []
  | (key, value) :: rest => (key.print ++ ": " ++ value.prettyAt depth) :: prettyFields depth rest

end

/-- A value over several lines. -/
def Value.pretty (v : Value) : String :=
  v.prettyAt 0

end ParseForest.Json
