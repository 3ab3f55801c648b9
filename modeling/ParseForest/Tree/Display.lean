import ParseForest.Symbol.Name
import ParseForest.Tree.Basic

/-!
# Trees as text

The bracket form puts a tree into one line. The drawn form gives each node a line
and shows by guides in front of it whose child it is.
-/

namespace ParseForest.Tree

/-! ## Bracket form -/

mutual

/-- A name, with the children in brackets behind it if there are any. -/
def bracket : Tree → String
  | ⟨name, children, _, _⟩ =>
    if children.isEmpty then name else name ++ "(" ++ ", ".intercalate (bracketList children) ++ ")"

def bracketList : List Tree → List String
  | [] => []
  | t :: ts => t.bracket :: bracketList ts

end

instance : ToString Tree := ⟨bracket⟩

/-! ## Drawn form -/

/-- The attribute of a word that holds the name of the terminal it stands for. -/
def tagAttribute : String := "Type"

/-- The name of a node with its type, or with a mark if it is an empty node. -/
def label (t : Tree) : String :=
  match t.attributes.get? tagAttribute with
  | some type => t.name ++ " [" ++ type ++ "]"
  | none => if t.empty then t.name ++ " " ++ Symbol.emptyWord else t.name

/-- The lines of a child with the guides of its parent in front of them. -/
def hang (isLast : Bool) : List String → List String
  | [] => []
  | first :: rest =>
    ((if isLast then "└── " else "├── ") ++ first) ::
      rest.map ((if isLast then "    " else "│   ") ++ ·)

mutual

/-- The lines of a tree, one for each node. -/
def lines : Tree → List String
  | ⟨name, children, attributes, empty⟩ =>
    label ⟨name, children, attributes, empty⟩ :: childLines children

def childLines : List Tree → List String
  | [] => []
  | t :: ts => hang ts.isEmpty t.lines ++ childLines ts

end

def drawing (t : Tree) : String :=
  String.join (t.lines.map (· ++ "\n"))

end ParseForest.Tree
