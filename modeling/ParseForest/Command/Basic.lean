import ParseForest.Command.Switch

/-!
# Commands

What a command line asks for: a command with its arguments, how much of the log to
show and whether to be quiet.
-/

namespace ParseForest

/-- A command with its arguments. Without a path the built-in grammar is meant. -/
inductive Command where
  | check (grammar : Option String) (json : Bool)
  | format (grammar : Option String)
  | hash (grammar : Option String)
  | parse (grammar : Option String) (json pretty : Bool) (symbols : List String)
  | chart (grammar : Option String) (symbols : List String)
  | sentence (grammar : Option String) (tags : String) (json pretty : Bool)
      (maxWords maxCombinations maxTrees : Option Nat) (words : List String)
  | version
deriving DecidableEq, Repr

namespace Command

/-- A command, how often the log was asked for, and whether to be quiet. -/
structure Invocation where
  command : Command
  verbosity : Nat
  quiet : Bool
deriving DecidableEq, Repr

/-! ## Switches -/

/-- The switches that stand before the name of a command as well as behind it. -/
def commonSwitches : List Switch :=
  [⟨"verbose", some 'v', .counted⟩, ⟨"quiet", some 'q', .flag⟩]

/-- The switch for the path of a grammar, which must not be empty. -/
def grammarSwitch : Switch :=
  ⟨"grammar", some 'g', .value (· ≠ "")⟩

/-- A number written in digits, with or without a plus sign, and below 2 ^ 64. -/
def number? (text : String) : Option Nat :=
  let digits := if text.toList.head? = some '+' then text.toList.tail else text.toList
  if digits.isEmpty ∨ !digits.all Char.isDigit then none
  else
    let n := digits.foldl (fun n c => 10 * n + (c.toNat - '0'.toNat)) 0
    if n < UInt64.size then some n else none

def numberSwitch (long : String) : Switch :=
  ⟨long, none, .value fun text => (number? text).isSome⟩

def longFlag (long : String) : Switch :=
  ⟨long, none, .flag⟩

/-- What may stand before the name of a command. -/
def topForm : Form :=
  ⟨commonSwitches, true, .leftOver⟩

/-- What may stand behind the name of a command. -/
def form? : String → Option Form
  | "check" => some ⟨commonSwitches ++ [grammarSwitch, longFlag "json"], false, .none⟩
  | "fmt" | "hash" => some ⟨commonSwitches ++ [grammarSwitch], false, .none⟩
  | "parse" =>
    some ⟨commonSwitches ++ [grammarSwitch, longFlag "json", longFlag "pretty"],
      false, .collected⟩
  | "chart" => some ⟨commonSwitches ++ [grammarSwitch], false, .collected⟩
  | "sentence" =>
    some ⟨commonSwitches ++ [grammarSwitch, ⟨"tags", none, .value fun _ => true⟩,
      longFlag "json", longFlag "pretty", numberSwitch "max-words",
      numberSwitch "max-combinations", numberSwitch "max-trees"], false, .collected⟩
  | "version" => some ⟨commonSwitches, false, .none⟩
  | _ => none

/-- The command of a name with what was read behind the name. A list of words has to
hold one at least. -/
def ofLine? (name : String) (line : Line) : Option Command :=
  let grammar := line.value? "grammar"
  let json := line.has "json"
  let pretty := line.has "pretty"
  let number (long : String) := (line.value? long).bind number?
  match name with
  | "check" => some (.check grammar json)
  | "fmt" => some (.format grammar)
  | "hash" => some (.hash grammar)
  | "parse" => if line.words.isEmpty then none else some (.parse grammar json pretty line.words)
  | "chart" => if line.words.isEmpty then none else some (.chart grammar line.words)
  | "sentence" =>
    match line.value? "tags" with
    | some tags =>
      if line.words.isEmpty then none
      else some (.sentence grammar tags json pretty (number "max-words")
        (number "max-combinations") (number "max-trees") line.words)
    | none => none
  | "version" => some .version
  | _ => none

/-- What the word `help` in place of a command asks for: the name of one command may
follow it, or the word itself. -/
def helpFor : List String → Stop
  | [] => .help
  | [name] => if (form? name).isSome ∨ name = helpWord then .help else .usage
  | _ => .usage

/-- What a command line asks for. A common switch behind the name of the command
stands instead of the same switch before it. -/
def Invocation.ofArguments (arguments : List String) : Except Stop Invocation := do
  let top ← topForm.read arguments
  match top.words with
  | [] => throw .usage
  | name :: rest =>
    match form? name with
    | none => throw (if name = helpWord then helpFor rest else .usage)
    | some form =>
      let line ← form.read rest
      match ofLine? name line with
      | none => throw .usage
      | some command =>
        return {
          command
          verbosity := (if line.has "verbose" then line else top).count "verbose"
          quiet := line.has "quiet" || top.has "quiet" }

end Command

end ParseForest
