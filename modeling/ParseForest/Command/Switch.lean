/-!
# Switches and words

A command line is a list of arguments. Switches have a long name behind two dashes
and some a letter behind one; letters may share a dash. A switch may take a value,
behind an equals sign, directly behind its letter or as the next argument. All other
arguments are words, and so is everything behind two dashes alone.
-/

namespace ParseForest.Command

/-- What a switch takes, and how often it may be given. -/
inductive Arity where
  /-- No value, once. -/
  | flag
  /-- No value, any number of times. -/
  | counted
  /-- A value that passes a test, once. -/
  | value (accepts : String → Bool)

structure Switch where
  long : String
  short : Option Char
  arity : Arity

/-- A switch that was given, by its long name, with its value or an empty text. -/
structure Given where
  long : String
  value : String
deriving DecidableEq, Repr

inductive Stop where
  | usage
  | help
  | version
deriving DecidableEq, Repr

/-- The word that asks for help, behind two dashes or in place of a command. -/
def helpWord : String := "help"

/-- The word that asks for the version, behind two dashes. -/
def versionWord : String := "version"

structure Line where
  given : List Given
  words : List String
deriving DecidableEq, Repr

/-- What becomes of the words of a command line. -/
inductive Words where
  /-- There may be none. -/
  | none
  /-- They are collected, and switches may stand between them. -/
  | collected
  /-- The first one ends the command line; it begins another one. -/
  | leftOver
deriving DecidableEq, Repr

/-- What a command line may hold: switches, the question for the version, and words. -/
structure Form where
  switches : List Switch
  version : Bool
  words : Words

namespace Form

/-- Takes note of a switch, unless it has been given before and may be given once. -/
def give (given : List Given) (switch : Switch) (value : String) : Except Stop (List Given) :=
  let again := given.any (·.long = switch.long)
  match switch.arity with
  | .counted => .ok (given ++ [⟨switch.long, value⟩])
  | .flag => if again then .error .usage else .ok (given ++ [⟨switch.long, value⟩])
  | .value accepts =>
    if again || !accepts value then .error .usage else .ok (given ++ [⟨switch.long, value⟩])

def takesValue (switch : Switch) : Bool :=
  match switch.arity with
  | .value _ => true
  | _ => false

/-- Whether an argument can be the value of the switch before it. -/
def isValue (argument : String) : Bool :=
  argument = "-" || argument.toList.head? ≠ some '-'

/-- A switch whose value, if it takes one, is the next argument. The answer has the
arguments behind them. -/
def giveNext (given : List Given) (switch : Switch) (rest : List String) :
    Except Stop (List Given × List String) :=
  if takesValue switch then
    match rest with
    | value :: rest =>
      if isValue value then (give given switch value).map (·, rest) else .error .usage
    | [] => .error .usage
  else (give given switch "").map (·, rest)

/-- The switches whose letters share a dash. -/
def readLetters (form : Form) (given : List Given) (rest : List String) :
    List Char → Except Stop (List Given × List String)
  | [] => .ok (given, rest)
  | c :: letters =>
    match form.switches.find? (·.short = some c) with
    | some switch =>
      if takesValue switch ∧ letters ≠ [] then
        let value := if letters.head? = some '=' then letters.tail else letters
        (give given switch (.ofList value)).map (·, rest)
      else if takesValue switch then giveNext given switch rest
      else do readLetters form (← give given switch "") rest letters
    | none =>
      if c = 'h' then .error .help
      else if form.version ∧ c = 'V' then .error .version
      else .error .usage

/-- The switch with a long name, which may have its value behind an equals sign. -/
def readLong (form : Form) (given : List Given) (rest : List String) (text : List Char) :
    Except Stop (List Given × List String) :=
  let name := String.ofList (text.takeWhile (· ≠ '='))
  match form.switches.find? (·.long = name) with
  | some switch =>
    match text.dropWhile (· ≠ '=') with
    | [] => giveNext given switch rest
    | _ :: value =>
      if takesValue switch then (give given switch (.ofList value)).map (·, rest)
      else .error .usage
  | none =>
    if text = helpWord.toList then .error .help
    else if form.version ∧ text = versionWord.toList then .error .version
    else .error .usage

/-- Reads arguments in order, with the switches given so far. No more than `steps`
arguments are read one by one. -/
def readFrom (form : Form) : Nat → List Given → List String → Except Stop Line
  | 0, given, _ => .ok ⟨given, []⟩
  | _ + 1, given, [] => .ok ⟨given, []⟩
  | steps + 1, given, argument :: rest =>
    match argument.toList with
    | ['-', '-'] =>
      if form.words = .leftOver ∨ (form.words = .none ∧ rest ≠ []) then .error .usage
      else .ok ⟨given, rest⟩
    | '-' :: '-' :: text => do
      let (given, rest) ← readLong form given rest text
      readFrom form steps given rest
    | '-' :: c :: letters => do
      let (given, rest) ← readLetters form given rest (c :: letters)
      readFrom form steps given rest
    | _ =>
      match form.words with
      | .none => .error .usage
      | .leftOver => .ok ⟨given, argument :: rest⟩
      | .collected => do
        let line ← readFrom form steps given rest
        return { line with words := argument :: line.words }

def read (form : Form) (arguments : List String) : Except Stop Line :=
  readFrom form arguments.length [] arguments

end Form

namespace Line

def has (line : Line) (long : String) : Bool :=
  line.given.any (·.long = long)

def count (line : Line) (long : String) : Nat :=
  line.given.countP (·.long = long)

def value? (line : Line) (long : String) : Option String :=
  (line.given.find? (·.long = long)).map (·.value)

end Line

end ParseForest.Command
