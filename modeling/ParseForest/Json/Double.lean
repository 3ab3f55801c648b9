import ParseForest.Json.Value

/-!
# Numbers in double precision

A double has 53 significant bits. The double of a number is the product of two
roundings: the digits of the number are taken up as long as they fit into 64 bits,
and what they write is rounded and multiplied by a rounded power of ten. A number
is out of range if the product is, although the number itself may be just below
the greatest double, and in range if the digits that are left out would take it
just beyond.
-/

namespace ParseForest.Json

/-- The number that is written by the digits that fit into 64 bits behind the digits
of `n`, and the digits that are left. -/
def takeDigits (n : Nat) : List Char → Nat × List Char
  | [] => (n, [])
  | c :: rest =>
    let next := 10 * n + (c.toNat - '0'.toNat)
    if next < UInt64.size then takeDigits next rest else (n, c :: rest)

/-- A number rounded to 53 significant bits. A number in the middle between two
neighbours goes to the even one. -/
def roundToDouble (n : Nat) : Nat :=
  let unit := Nat.pow 2 (n.log2 + 1 - 53)
  let below := n / unit
  let rest := 2 * (n % unit)
  (if unit < rest ∨ (rest = unit ∧ below % 2 = 1) then below + 1 else below) * unit

/-- The least number that is rounded beyond the greatest double: the middle between
that double and 2 ^ 1024. -/
def doubleBound : Nat :=
  Nat.pow 2 1024 - Nat.pow 2 970

/-- The greatest exponent of a power of ten that is a double. -/
def maxPowerOfTen : Nat := 308

namespace Number

/-- A significand of 64 bits and the power of ten that goes with it. Whole digits that
are left raise the exponent; decimal places that are left count for nothing. -/
def scientific (n : Number) : Nat × Int :=
  let (whole, left) := takeDigits 0 (Nat.toDigits 10 n.whole)
  let (significand, unread) := takeDigits whole n.places
  (significand, n.exponent.getD 0 + left.length - (n.places.length - unread.length : Nat))

/-- Whether a number has a double. -/
def isFinite (n : Number) : Bool :=
  let (significand, exponent) := n.scientific
  if significand = 0 ∨ exponent < 0 then true
  else if maxPowerOfTen < exponent then false
  else roundToDouble significand * roundToDouble (Nat.pow 10 exponent.toNat) < doubleBound

end Number

end ParseForest.Json
