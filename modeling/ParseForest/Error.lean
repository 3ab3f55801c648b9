import ParseForest.Grammar.Problem
import ParseForest.Text.Token

/-!
# Errors

Everything that can go wrong, by cause. The kind of an error opens its message.
-/

namespace ParseForest

/-- Why the content of a file cannot be had as text. -/
inductive FileFault where
  | notFound
  | permissionDenied
  | notDirectory
  | isDirectory
  | nameTooLong
  | nulInName
  | notText
  | other (reason : String)
deriving DecidableEq, Repr

/-- The fault in words; those of the operating system come with its number for them. -/
def FileFault.message : FileFault → String
  | notFound => "No such file or directory (os error 2)"
  | permissionDenied => "Permission denied (os error 13)"
  | notDirectory => "Not a directory (os error 20)"
  | isDirectory => "Is a directory (os error 21)"
  | nameTooLong => "File name too long (os error 36)"
  | nulInName => "file name contained an unexpected NUL byte"
  | notText => "stream did not contain valid UTF-8"
  | other reason => reason

inductive Error where
  /-- The tables make no grammar. -/
  | configuration (problem : Problem)
  /-- The text is no grammar text. -/
  | text (fault : Text.Fault)
  | unreadableGrammar (path : String) (fault : FileFault)
  | unreadableTagFile (path : String) (fault : FileFault)
  /-- The tag guesses do not have the form that they should. -/
  | unreadableTags
  /-- There is not one list of tag guesses for each word. -/
  | columnCount (words columns : Nat)
  /-- There is not one word for each leaf of a tree. -/
  | leafCount (leaves words : Nat)
  | tooManyWords (words limit : Nat)
  | tooManyCombinations (limit : Nat)
  | tooManyTrees (limit : Nat)
  /-- A JSON text does not have the form that it should. -/
  | serialization
deriving DecidableEq, Repr

namespace Error

inductive Kind where
  | configuration
  | parse
  | input
  | limit
  | serialization
deriving DecidableEq, Repr

def kind : Error → Kind
  | configuration _ => .configuration
  | text _ => .parse
  | unreadableGrammar .. | unreadableTagFile .. | unreadableTags | columnCount ..
  | leafCount .. => .input
  | tooManyWords .. | tooManyCombinations _ | tooManyTrees _ => .limit
  | serialization => .serialization

def Kind.title : Kind → String
  | configuration => "Configuration error"
  | parse => "Parse error"
  | input => "Input error"
  | limit => "Limit exceeded"
  | serialization => "Serialization error"

/-- What a message tells beside the kind, if anything. -/
def detail? : Error → Option String
  | configuration problem => some problem.message
  | text fault => some fault.message
  | unreadableGrammar path fault => some s!"cannot read grammar {path}: {fault.message}"
  | unreadableTagFile path fault => some s!"cannot read tags {path}: {fault.message}"
  | unreadableTags => some "unreadable tag guesses"
  | columnCount words columns => some s!"{words} words but {columns} tag guess lists"
  | leafCount leaves words => some s!"tree has {leaves} leaves but {words} words were given"
  | tooManyWords words limit => some s!"sentence has {words} words (max {limit})"
  | tooManyCombinations limit => some s!"too many tag combinations (max {limit})"
  | tooManyTrees limit => some s!"more than {limit} trees"
  | serialization => none

def message (e : Error) : String :=
  match e.detail? with
  | some detail => e.kind.title ++ ": " ++ detail
  | none => e.kind.title

end Error

end ParseForest
