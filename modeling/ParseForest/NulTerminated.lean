import ParseForest.Grammar.Summary
import ParseForest.Grammar.Text
import ParseForest.Sentence.Basic
import ParseForest.Sentence.Words
import ParseForest.Tree.Json

/-!
# Entry points for NUL-terminated strings

Callers that hand over texts as NUL-terminated byte strings get an answer of the same
kind: pretty JSON text, or else the message of an error. An argument may be missing,
and it may be no UTF-8.
-/

namespace ParseForest.NulTerminated

structure Answer where
  result : Option String
  error : Option String
deriving DecidableEq, Repr

/-- A text without its NUL characters, which a NUL-terminated string cannot hold. -/
def withoutNul (text : String) : String :=
  .ofList (text.toList.filter (· ≠ '\x00'))

def Answer.ofMessage (message : String) : Answer :=
  ⟨none, some (withoutNul message)⟩

def Answer.ofResult : Except Error String → Answer
  | .ok text => ⟨some (withoutNul text), none⟩
  | .error e => ofMessage e.message

/-- The text of an argument: its bytes before the first NUL. -/
def argumentText? (argument : Option ByteArray) : Option String := do
  String.fromUTF8? ⟨((← argument).toList.takeWhile (· ≠ 0)).toArray⟩

/-- Goes on with the text of an argument, or answers that there is none. -/
def withText (name : String) (argument : Option ByteArray) (go : String → Answer) : Answer :=
  match argumentText? argument with
  | some text => go text
  | none => .ofMessage ("null or invalid UTF-8 " ++ name)

/-- The forest of a list of symbols, given between blanks. -/
def parse (grammar symbols : Option ByteArray) : Answer :=
  withText "grammar" grammar fun grammar =>
  withText "symbols" symbols fun symbols =>
  .ofResult do
    let g ← Grammar.ofText? grammar
    return Tree.listToJsonText true (g.parse (Symbol.ofNames (wordsOf symbols)))

/-- The trees of a sentence with tag guesses, under the usual limits. -/
def parseWords (grammar sentence tags : Option ByteArray) : Answer :=
  withText "grammar" grammar fun grammar =>
  withText "sentence" sentence fun sentence =>
  withText "tags" tags fun tags =>
  .ofResult do
    let g ← Grammar.ofText? grammar
    let lattice ← Lattice.ofJson? tags
    return Tree.listToJsonText true (← g.parseWords (wordsOf sentence) lattice {})

def check (grammar : Option ByteArray) : Answer :=
  withText "input" grammar fun grammar =>
  .ofResult do
    return (← Grammar.ofText? grammar).summary.toJson.pretty

end ParseForest.NulTerminated
