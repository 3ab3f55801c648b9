import ParseForest.Json.Value

/-!
# Tokens of a JSON text

A text is cut into brackets, commas, colons and values without parts. Blanks are
space, tab and the line ends; they stand between tokens only. The rules are those
of the standard: no leading zeros, no control characters in strings, no comments.
-/

namespace ParseForest.Json

/-- A mark or a value without parts. -/
inductive Token where
  | openArray
  | closeArray
  | openObject
  | closeObject
  | comma
  | colon
  | scalar (s : Scalar)
deriving DecidableEq, Repr

/-! ## Strings -/

def hexDigit? (c : Char) : Option Nat :=
  if '0' ≤ c ∧ c ≤ '9' then some (c.toNat - '0'.toNat)
  else if 'a' ≤ c ∧ c ≤ 'f' then some (c.toNat - 'a'.toNat + 10)
  else if 'A' ≤ c ∧ c ≤ 'F' then some (c.toNat - 'A'.toNat + 10)
  else none

def hexUnit? (a b c d : Char) : Option Nat := do
  return ((← hexDigit? a) * 16 + (← hexDigit? b)) * 256 + (← hexDigit? c) * 16 + (← hexDigit? d)

/-- The character that an escape of one letter stands for. -/
def escaped? : Char → Option Char
  | '\x22' => some '\x22'
  | '\\' => some '\\'
  | '/' => some '/'
  | 'b' => some '\x08'
  | 'f' => some '\x0c'
  | 'n' => some '\n'
  | 'r' => some '\r'
  | 't' => some '\t'
  | _ => none

/-- The code points of a string whose opening quote has been read, and what follows its
closing quote. Escaped halves of surrogate pairs are kept apart. -/
def stringUnits : List Char → Option (List Nat × List Char)
  | [] => none
  | '\\' :: 'u' :: a :: b :: c :: d :: rest => do
    let unit ← hexUnit? a b c d
    let (units, behind) ← stringUnits rest
    return (unit :: units, behind)
  | '\\' :: c :: rest => do
    let plain ← escaped? c
    let (units, behind) ← stringUnits rest
    return (plain.toNat :: units, behind)
  | c :: rest =>
    if c = '\x22' then some ([], rest)
    else if c = '\\' ∨ c.toNat < 0x20 then none
    else do
      let (units, behind) ← stringUnits rest
      return (c.toNat :: units, behind)

def isHighSurrogate (n : Nat) : Bool :=
  0xd800 ≤ n && n ≤ 0xdbff

def isLowSurrogate (n : Nat) : Bool :=
  0xdc00 ≤ n && n ≤ 0xdfff

/-- The characters of code points, with surrogate pairs joined; none if a half of a pair
stands alone. -/
def joinSurrogates : List Nat → Option (List Char)
  | [] => some []
  | high :: low :: rest =>
    if isHighSurrogate high then
      if isLowSurrogate low then
        (joinSurrogates rest).map
          (Char.ofNat (0x10000 + (high - 0xd800) * 0x400 + (low - 0xdc00)) :: ·)
      else none
    else if isLowSurrogate high then none
    else (joinSurrogates (low :: rest)).map (Char.ofNat high :: ·)
  | [unit] =>
    if isHighSurrogate unit || isLowSurrogate unit then none else some [Char.ofNat unit]

def Literal.ofUnits (units : List Nat) : Literal :=
  match joinSurrogates units with
  | some chars => .text (.ofList chars)
  | none => .unpaired

/-! ## Numbers -/

def decimal (digits : List Char) : Nat :=
  digits.foldl (fun n c => 10 * n + (c.toNat - '0'.toNat)) 0

/-- The digits at the front, of which there is at least one, and what follows them. -/
def digits? (text : List Char) : Option (List Char × List Char) :=
  match text.takeWhile Char.isDigit with
  | [] => none
  | digits => some (digits, text.dropWhile Char.isDigit)

/-- The digits behind a decimal point, if there is a point. -/
def fraction? : List Char → Option (Option (List Char) × List Char)
  | '.' :: rest => do
    let (digits, behind) ← digits? rest
    return (some digits, behind)
  | text => some (none, text)

/-- What follows a sign, if the text begins with one of `signs`. -/
def dropSign (signs : List Char) : List Char → List Char
  | [] => []
  | c :: rest => if c ∈ signs then rest else c :: rest

/-- The number with its sign behind the letter of an exponent, if there is an exponent. -/
def exponent? : List Char → Option (Option Int × List Char)
  | [] => some (none, [])
  | c :: rest =>
    if c = 'e' ∨ c = 'E' then do
      let (digits, behind) ← digits? (dropSign ['-', '+'] rest)
      let n : Int := decimal digits
      return (some (if rest.head? = some '-' then -n else n), behind)
    else some (none, c :: rest)

/-- The number at the front, and what follows it. -/
def number? (text : List Char) : Option (Number × List Char) := do
  let (whole, rest) ← digits? (dropSign ['-'] text)
  if whole.head? = some '0' ∧ whole.length ≠ 1 then none
  else
    let (fraction, rest) ← fraction? rest
    let (exponent, rest) ← exponent? rest
    return (⟨text.head? = some '-', decimal whole, fraction.getD [], exponent⟩, rest)

/-! ## Tokens -/

/-- Whether a character may stand between tokens without meaning. -/
def isBlank (c : Char) : Bool :=
  c = ' ' || c = '\t' || c = '\n' || c = '\r'

/-- The token at the front of a text that begins with none of the blanks, and what
follows the token. -/
def token? : List Char → Option (Token × List Char)
  | '[' :: rest => some (.openArray, rest)
  | ']' :: rest => some (.closeArray, rest)
  | '\x7b' :: rest => some (.openObject, rest)
  | '\x7d' :: rest => some (.closeObject, rest)
  | ',' :: rest => some (.comma, rest)
  | ':' :: rest => some (.colon, rest)
  | 'n' :: 'u' :: 'l' :: 'l' :: rest => some (.scalar .null, rest)
  | 't' :: 'r' :: 'u' :: 'e' :: rest => some (.scalar (.bool true), rest)
  | 'f' :: 'a' :: 'l' :: 's' :: 'e' :: rest => some (.scalar (.bool false), rest)
  | '\x22' :: rest => do
    let (units, behind) ← stringUnits rest
    return (.scalar (.string (.ofUnits units)), behind)
  | text => do
    let (n, behind) ← number? text
    return (.scalar (.number n), behind)

theorem stringUnits_length {text rest : List Char} {units : List Nat}
    (h : stringUnits text = some (units, rest)) : rest.length < text.length := by
  fun_induction stringUnits text generalizing units rest with
  | case1 => cases h
  | case2 a b c d text ih =>
    simp only [bind, Option.bind_eq_some_iff, pure, Option.some.injEq, Prod.mk.injEq] at h
    obtain ⟨_, _, ⟨_, _⟩, hrest, _, rfl⟩ := h
    have := ih hrest
    simp only [List.length_cons]
    omega
  | case3 c text _ ih =>
    simp only [bind, Option.bind_eq_some_iff, pure, Option.some.injEq, Prod.mk.injEq] at h
    obtain ⟨_, _, ⟨_, _⟩, hrest, _, rfl⟩ := h
    have := ih hrest
    simp only [List.length_cons]
    omega
  | case4 => cases h; simp
  | case5 => cases h
  | case6 c text _ _ _ _ ih =>
    simp only [bind, Option.bind_eq_some_iff, pure, Option.some.injEq, Prod.mk.injEq] at h
    obtain ⟨⟨_, _⟩, hrest, _, rfl⟩ := h
    have := ih hrest
    simp only [List.length_cons]
    omega

theorem digits?_length {text rest digits : List Char} (h : digits? text = some (digits, rest)) :
    rest.length < text.length := by
  have hlen : (text.takeWhile Char.isDigit).length + (text.dropWhile Char.isDigit).length
      = text.length := by
    rw [← List.length_append, List.takeWhile_append_dropWhile]
  rw [digits?] at h
  split at h
  · cases h
  · next hne =>
    cases h
    have := List.length_pos_iff.2 hne
    omega

theorem fraction?_length {text rest : List Char} {digits : Option (List Char)}
    (h : fraction? text = some (digits, rest)) : rest.length ≤ text.length := by
  rw [fraction?.eq_def] at h
  split at h
  · simp only [bind, Option.bind_eq_some_iff, pure, Option.some.injEq, Prod.mk.injEq] at h
    obtain ⟨⟨_, _⟩, hrest, _, rfl⟩ := h
    have := digits?_length hrest
    simp only [List.length_cons]
    omega
  · cases h; exact Nat.le_refl _

theorem dropSign_length (signs text : List Char) : (dropSign signs text).length ≤ text.length := by
  cases text with
  | nil => exact Nat.le_refl _
  | cons c text =>
    rw [dropSign]
    split
    · simp
    · exact Nat.le_refl _

theorem exponent?_length {text rest : List Char} {n : Option Int}
    (h : exponent? text = some (n, rest)) : rest.length ≤ text.length := by
  rw [exponent?.eq_def] at h
  split at h
  · cases h; exact Nat.le_refl _
  · next c text =>
    split at h
    · simp only [bind, Option.bind_eq_some_iff, pure, Option.some.injEq, Prod.mk.injEq] at h
      obtain ⟨⟨_, _⟩, hrest, _, rfl⟩ := h
      have h₁ := digits?_length hrest
      have h₂ := dropSign_length ['-', '+'] text
      simp only [List.length_cons]
      omega
    · cases h; exact Nat.le_refl _

theorem number?_length {text rest : List Char} {n : Number}
    (h : number? text = some (n, rest)) : rest.length < text.length := by
  simp only [number?, bind, Option.bind_eq_some_iff, pure] at h
  obtain ⟨⟨_, _⟩, hdigits, h⟩ := h
  have h₁ := digits?_length hdigits
  have h₂ := dropSign_length ['-'] text
  split at h
  · cases h
  · simp only [Option.bind_eq_some_iff, Option.some.injEq, Prod.mk.injEq] at h
    obtain ⟨⟨_, _⟩, hfraction, ⟨_, _⟩, hexponent, _, rfl⟩ := h
    have h₃ := fraction?_length hfraction
    have h₄ := exponent?_length hexponent
    dsimp only at h₃ h₄ ⊢
    omega

theorem token?_length {text rest : List Char} {t : Token} (h : token? text = some (t, rest)) :
    rest.length < text.length := by
  rw [token?.eq_def] at h
  split at h
  all_goals first
    | cases h; simp only [List.length_cons]; omega
    | simp only [bind, Option.bind_eq_some_iff, pure, Option.some.injEq, Prod.mk.injEq] at h
      obtain ⟨⟨_, _⟩, hrest, _, rfl⟩ := h
      first
        | have := stringUnits_length hrest; simp only [List.length_cons]; omega
        | exact number?_length hrest

def tokens? : List Char → Option (List Token)
  | [] => some []
  | c :: rest =>
    if isBlank c then tokens? rest
    else match _h : token? (c :: rest) with
      | none => none
      | some (t, behind) => (tokens? behind).map (t :: ·)
termination_by text => text.length
decreasing_by
  · simp
  · exact token?_length _h

end ParseForest.Json
