import ParseForest.Json.Token

/-!
# Reading JSON

A text is one value with blanks around its tokens.
-/

namespace ParseForest.Json

mutual

/-- The value at the front, and what follows it. Each step down uses up one of
`steps`, and a value needs no more of them than it has tokens. -/
def readValue : Nat → List Token → Option (Value × List Token)
  | 0, _ => none
  | _ + 1, .scalar s :: rest => some (.scalar s, rest)
  | _ + 1, .openArray :: .closeArray :: rest => some (.array [], rest)
  | steps + 1, .openArray :: rest => do
    let (items, behind) ← readItems steps rest
    return (.array items, behind)
  | _ + 1, .openObject :: .closeObject :: rest => some (.object [], rest)
  | steps + 1, .openObject :: rest => do
    let (fields, behind) ← readFields steps rest
    return (.object fields, behind)
  | _ + 1, _ => none

/-- The items of an array, of which there is at least one, up to the closing bracket. -/
def readItems : Nat → List Token → Option (List Value × List Token)
  | 0, _ => none
  | steps + 1, tokens => do
    let (item, behind) ← readValue steps tokens
    match behind with
    | .comma :: rest =>
      let (more, behind) ← readItems steps rest
      return (item :: more, behind)
    | .closeArray :: rest => return ([item], rest)
    | _ => none

/-- The fields of an object, of which there is at least one, up to the closing brace. -/
def readFields : Nat → List Token → Option (List (Literal × Value) × List Token)
  | 0, _ => none
  | steps + 1, .scalar (.string key) :: .colon :: tokens => do
    let (value, behind) ← readValue steps tokens
    match behind with
    | .comma :: rest =>
      let (more, behind) ← readFields steps rest
      return ((key, value) :: more, behind)
    | .closeObject :: rest => return ([(key, value)], rest)
    | _ => none
  | _ + 1, _ => none

end

def Value.ofTokens? (tokens : List Token) : Option Value :=
  match readValue tokens.length tokens with
  | some (v, []) => some v
  | _ => none

def Value.ofText? (text : String) : Option Value := do
  Value.ofTokens? (← tokens? text.toList)

end ParseForest.Json
