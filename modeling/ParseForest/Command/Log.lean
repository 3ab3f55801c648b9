import ParseForest.Chart.Trace
import ParseForest.Command.Basic
import ParseForest.Command.Paint
import ParseForest.Character.Quoted
import ParseForest.Grammar.English
import ParseForest.Grammar.File
import ParseForest.Sentence.Basic
import ParseForest.Sentence.Words

/-!
# The log of a command

The log tells what a command does on the way to its answer. It has three levels of
detail, and each shows what the one before it shows.
-/

namespace ParseForest.Command

/-- How much detail a line of the log tells. -/
inductive Level where
  | info
  | debug
  | trace
deriving DecidableEq, Repr

namespace Level

/-- How often the log has to be asked for before lines of a level are shown. -/
def rank : Level → Nat
  | info => 1
  | debug => 2
  | trace => 3

def tag : Level → String
  | info => "info"
  | debug => "debug"
  | trace => "trace"

def paint : Level → Paint
  | info => .green
  | debug => .blue
  | trace => .dimmed

end Level

structure LogLine where
  level : Level
  text : String
deriving DecidableEq, Repr

def LogLine.render (color : Bool) (line : LogLine) : String :=
  line.level.paint.apply color line.level.tag ++ " " ++ line.text ++ "\n"

/-- The lines of a level, if they are shown. -/
def logged (verbosity : Nat) (level : Level) (texts : Unit → List String) : List LogLine :=
  if level.rank ≤ verbosity then (texts ()).map (⟨level, ·⟩) else []

def describeTag (tag : Symbol) : String :=
  "Symbol(" ++ Character.quotedText tag.name ++ ")"

def chartLog (verbosity : Nat) (g : Grammar) (input : List Symbol) : List LogLine :=
  logged verbosity .trace (fun _ => (Chart.steps g input).map (·.describe)) ++
  logged verbosity .debug fun _ =>
    let chart := Chart.build g input
    [s!"chart built: {chart.sets.length} positions, {chart.size} items"]

def parseLog (verbosity : Nat) (g : Grammar) (input : List Symbol) : List LogLine :=
  chartLog verbosity g input ++
  logged verbosity .debug fun _ =>
    if (Chart.build g input).accepts g then
      [s!"forest extracted: {(g.parse input).length} tree(s) over {input.length} symbols"]
    else [s!"input of {input.length} symbols is not derivable from `{g.startRule.lhs}`"]

def attemptLog (verbosity : Nat) (g : Grammar) (attempt : Attempt) : List LogLine :=
  parseLog verbosity g attempt.tags ++
  logged verbosity .debug fun _ =>
    if attempt.forest.isEmpty then []
    else
      let tags := ", ".intercalate (attempt.tags.map describeTag)
      [s!"{attempt.forest.length} tree(s) for tags [{tags}]"]

/-- What parsing a sentence tells, once it is known to be within its limits. -/
def sentenceLog (verbosity : Nat) (g : Grammar) (wordCount : Nat) (lattice : Lattice)
    (limits : Limits) : List LogLine :=
  match Grammar.sentenceSize? wordCount lattice limits with
  | .error _ => []
  | .ok count =>
    logged verbosity .info
      (fun _ => [s!"parsing {wordCount} words across {count} tag combination(s)"]) ++
    if verbosity < Level.rank .debug then []
    else (g.sentenceAttempts count lattice limits).flatMap (attemptLog verbosity g)

def loadLog (verbosity : Nat) (path : Option String) : List LogLine :=
  match path with
  | some path => logged verbosity .info fun _ => ["loading grammar from " ++ path]
  | none => []

end ParseForest.Command
