import ParseForest.Error
import ParseForest.Tree.Display

/-!
# Words in place of tags

The leaves of a parse of tags are given the words that were tagged. The tag stays
with its word as an attribute.
-/

namespace ParseForest.Tree

/-- A leaf with a word for a name and its name as type. -/
def withWord (t : Tree) (word : String) : Tree :=
  { t with name := word, attributes := t.attributes.insert tagAttribute t.name }

mutual

/-- Puts words into the leaves from left to right. The words that are left follow the
tree; leaves beyond the last word stay as they are. -/
def placeWords : Tree → List String → Tree × List String
  | ⟨name, children, attributes, empty⟩, words =>
    if isLeaf ⟨name, children, attributes, empty⟩ then
      match words with
      | [] => (⟨name, children, attributes, empty⟩, [])
      | word :: rest => (withWord ⟨name, children, attributes, empty⟩ word, rest)
    else
      let (children, rest) := placeWordsList children words
      (⟨name, children, attributes, empty⟩, rest)

def placeWordsList : List Tree → List String → List Tree × List String
  | [], words => ([], words)
  | t :: ts, words =>
    let (t, rest) := placeWords t words
    let (ts, rest) := placeWordsList ts rest
    (t :: ts, rest)

end

/-- The tree with the words in its leaves; there has to be one word for each leaf. -/
def withWords (t : Tree) (words : List String) : Except Error Tree :=
  if t.yield.length = words.length then .ok (t.placeWords words).1
  else .error (.leafCount t.yield.length words.length)

end ParseForest.Tree
