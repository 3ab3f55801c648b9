import ParseForest.Tree.Words

/-!
# Editing trees

A node is named by the way to it: the place of a child at each step down. An edit
changes the node that a way leads to, and nothing else.
-/

namespace ParseForest.Tree

/-- The node at the end of a way. -/
def get? (t : Tree) : List Nat → Option Tree
  | [] => some t
  | i :: way => t.children[i]?.bind (get? · way)

/-- The tree with another node at the end of a way, if the way leads to a node. -/
def set (t : Tree) (node : Tree) : List Nat → Tree
  | [] => node
  | i :: way =>
    match t.children[i]? with
    | none => t
    | some child => { t with children := t.children.set i (set child node way) }

def rename (t : Tree) (name : String) : Tree :=
  { t with name := name }

def renameLeaves (t : Tree) (name : String) : Tree :=
  t.mapLeaves (rename · name)

def setAttribute (t : Tree) (key value : String) : Tree :=
  { t with attributes := t.attributes.insert key value }

def addChild (t child : Tree) : Tree :=
  { t with children := t.children ++ [child] }

def dropLastChild (t : Tree) : Tree :=
  { t with children := t.children.dropLast }

end ParseForest.Tree
