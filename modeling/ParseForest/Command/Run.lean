import ParseForest.Command.Log
import ParseForest.Grammar.Summary
import ParseForest.Tree.Json

/-!
# Running commands

A command writes its answer to standard output and its remarks to standard error,
where the log stands in front of them. The exit code tells whether there was an
answer: 0 for yes, 1 for an input without a parse and 2 for an error.
-/

namespace ParseForest.Command

inductive ExitCode where
  | success
  | noParse
  | failure
deriving DecidableEq, Repr

def ExitCode.toNat : ExitCode → Nat
  | success => 0
  | noParse => 1
  | failure => 2

/-- What a command leaves: its exit code and what it wrote. -/
structure Outcome where
  code : ExitCode
  out : String
  err : String
deriving DecidableEq, Repr

/-- How a command is run: the files that it may read, whether to paint, whether to be
quiet. -/
structure Setting where
  files : Files
  color : Bool
  quiet : Bool

def versionNumber : String := "0.1.0"

/-! ## Parts of commands -/

/-- The grammar of a file, or the built-in one. -/
def grammarOf (files : Files) : Option String → Except Error Grammar
  | some path => Grammar.ofFile? files path
  | none => .ok .english

/-- The text of the tag guesses: the argument itself, or the file that it names behind
an at sign. -/
def tagText (files : Files) (argument : String) : Except Error String :=
  match argument.toList with
  | '@' :: path => (files (.ofList path)).mapError (.unreadableTagFile (.ofList path))
  | _ => .ok argument

def limitsWith (maxWords maxCombinations maxTrees : Option Nat) : Limits :=
  let default : Limits := {}
  ⟨maxWords.getD default.maxWords, maxCombinations.getD default.maxCombinations,
    maxTrees.getD default.maxTrees⟩

/-- The words of the arguments of a sentence, which may hold several words each. -/
def sentenceWords (arguments : List String) : List String :=
  wordsOf (" ".intercalate arguments)

def loadSentence (files : Files) (grammar : Option String) (tags : String)
    (limits : Limits) : Except Error (Grammar × Lattice × Limits) := do
  let g ← grammarOf files grammar
  let lattice ← Lattice.ofJson? (← tagText files tags)
  return (g, lattice, limits)

/-! ## Reports -/

def answer (setting : Setting) (code : ExitCode) (text : String) : Outcome :=
  ⟨code, if setting.quiet then "" else text, ""⟩

/-- The summary with the verdict, its fields in order of name. -/
def validReport (s : Summary) : Json.Value :=
  .record [("fingerprint", .text s.fingerprint), ("nonterminals", .natural s.nonterminals),
    ("rules", .natural s.rules), ("start", .text s.start.name),
    ("terminals", .natural s.terminals), ("valid", .bool true)]

/-- The error with the verdict, its fields in order of name. -/
def invalidReport (e : Error) : Json.Value :=
  .record [("error", .text e.message), ("valid", .bool false)]

def validLine (color : Bool) (s : Summary) : String :=
  Paint.boldGreen.apply color "✓" ++
    s!" grammar is valid: {s.rules} rules, {s.terminals} terminals, " ++
    s!"{s.nonterminals} non-terminals (start `{s.start}`)\n"

/-- The number of a tree with a rule behind it. -/
def treeHeading (color : Bool) (number : Nat) : String :=
  Paint.bold.apply color s!"#{number}" ++ " " ++
    Paint.dimmed.apply color (.ofList (List.replicate 30 '─')) ++ "\n"

/-- The trees of a forest, drawn or in brackets. -/
def forestText (color pretty : Bool) (trees : List Tree) : String :=
  String.join (trees.zipIdx.map fun (tree, i) =>
    if pretty then treeHeading color (i + 1) ++ tree.drawing else tree.bracket ++ "\n")

/-- The outcome of a parse: the trees as JSON, or as text with a remark on their number. -/
def forestOutcome (setting : Setting) (json pretty : Bool) (trees : List Tree) : Outcome :=
  let code := if trees.isEmpty then .noParse else .success
  if setting.quiet then ⟨code, "", ""⟩
  else if json then ⟨code, Tree.listToJsonText pretty trees ++ "\n", ""⟩
  else if trees.isEmpty then
    ⟨code, "", Paint.boldRed.apply setting.color "✗" ++ " no parse\n"⟩
  else
    ⟨code, forestText setting.color pretty trees,
      Paint.boldGreen.apply setting.color "✓" ++ s!" {trees.length} tree(s)\n"⟩

/-! ## Commands -/

/-- What a command leaves apart from its log, or its error. -/
def run (setting : Setting) : Command → Except Error Outcome
  | .check grammar json =>
    match grammarOf setting.files grammar with
    | .ok g =>
      let text := if json then (validReport g.summary).pretty ++ "\n"
        else validLine setting.color g.summary
      return answer setting .success text
    | .error e =>
      if json && !setting.quiet then
        return answer setting .failure ((invalidReport e).pretty ++ "\n")
      else throw e
  | .format grammar => do
    let g ← grammarOf setting.files grammar
    return answer setting .success g.toText
  | .hash grammar => do
    let g ← grammarOf setting.files grammar
    return answer setting .success (g.fingerprint ++ "\n")
  | .parse grammar json pretty symbols => do
    let g ← grammarOf setting.files grammar
    return forestOutcome setting json pretty (g.parse (Symbol.ofNames symbols))
  | .chart grammar symbols => do
    let g ← grammarOf setting.files grammar
    let chart := Chart.build g (Symbol.ofNames symbols)
    let accepted := chart.accepts g
    let verdict := "accepted: " ++ (if accepted then "yes" else "no") ++ "\n"
    return answer setting (if accepted then .success else .noParse) (chart.render g ++ verdict)
  | .sentence grammar tags json pretty maxWords maxCombinations maxTrees words => do
    let limits := limitsWith maxWords maxCombinations maxTrees
    let (g, lattice, limits) ← loadSentence setting.files grammar tags limits
    let trees ← g.parseWords (sentenceWords words) lattice limits
    return forestOutcome setting json pretty trees
  | .version =>
    return ⟨.success, s!"canopy {versionNumber} (canopy-core {versionNumber})\n", ""⟩

def log (verbosity : Nat) (files : Files) : Command → List LogLine
  | .check grammar _ | .format grammar | .hash grammar => loadLog verbosity grammar
  | .parse grammar _ _ symbols =>
    loadLog verbosity grammar ++
    match grammarOf files grammar with
    | .ok g => parseLog verbosity g (Symbol.ofNames symbols)
    | .error _ => []
  | .chart grammar symbols =>
    loadLog verbosity grammar ++
    match grammarOf files grammar with
    | .ok g => chartLog verbosity g (Symbol.ofNames symbols)
    | .error _ => []
  | .sentence grammar tags _ _ maxWords maxCombinations maxTrees words =>
    loadLog verbosity grammar ++
    match loadSentence files grammar tags (limitsWith maxWords maxCombinations maxTrees) with
    | .ok (g, lattice, limits) =>
      sentenceLog verbosity g (sentenceWords words).length lattice limits
    | .error _ => []
  | .version => []

/-- The outcome of an error: the message as a remark. -/
def failed (color : Bool) (e : Error) : Outcome :=
  ⟨.failure, "", Paint.boldRed.apply color "error:" ++ " " ++ e.message ++ "\n"⟩

/-- What an invocation leaves, with its log. Being quiet leaves errors only. -/
def Invocation.outcome (i : Invocation) (files : Files) (color : Bool) : Outcome :=
  let verbosity := if i.quiet then 0 else i.verbosity
  let outcome := match i.command.run ⟨files, color, i.quiet⟩ with
    | .ok outcome => outcome
    | .error e => failed color e
  let lines := (i.command.log verbosity files).map (·.render color)
  { outcome with err := String.join lines ++ outcome.err }

def paths : Command → List String
  | .check grammar _ | .format grammar | .hash grammar | .parse grammar .. | .chart grammar _ =>
    grammar.toList
  | .sentence grammar tags .. =>
    grammar.toList ++
    match tags.toList with
    | '@' :: path => [.ofList path]
    | _ => []
  | .version => []

def pathsOf (arguments : List String) : List String :=
  match Invocation.ofArguments arguments with
  | .ok invocation => invocation.command.paths
  | .error _ => []

def execute (files : Files) (color : Bool) (arguments : List String) : Outcome :=
  match Invocation.ofArguments arguments with
  | .ok invocation => invocation.outcome files color
  | .error .version => ⟨.success, s!"canopy {versionNumber}\n", ""⟩
  | .error .help => ⟨.success, usage, ""⟩
  | .error .usage => ⟨.failure, "", usage⟩
where
  usage : String :=
    "usage: canopy [-v] [-q] COMMAND [OPTIONS] [WORDS]\n" ++
    "commands: check, fmt, hash, parse, chart, sentence, version\n"

end ParseForest.Command
