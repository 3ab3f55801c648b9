import ParseForest.Tree.Attributes

/-!
# Parse trees

A node bears the name of a symbol or of a word. An empty node stands for a symbol
that a rule replaces by nothing; it has no children but is no leaf.
-/

namespace ParseForest

/-- A node with its children in order. -/
structure Tree where
  name : String
  children : List Tree
  attributes : Attributes
  empty : Bool

namespace Tree

def branch (name : String) (children : List Tree) : Tree :=
  ⟨name, children, ∅, false⟩

def leaf (name : String) : Tree :=
  branch name []

/-- A node for a symbol that a rule replaces by nothing. -/
def emptyNode (name : String) : Tree :=
  ⟨name, [], ∅, true⟩

instance : Inhabited Tree := ⟨leaf ""⟩

/-! ## Equality -/

mutual

def decEq : (t u : Tree) → Decidable (t = u)
  | ⟨n, cs, as, e⟩, ⟨m, ds, bs, f⟩ =>
    match decEqList cs ds with
    | .isFalse h => .isFalse fun hc => h (by injection hc)
    | .isTrue h =>
      if hr : n = m ∧ as = bs ∧ e = f then
        .isTrue (by obtain ⟨rfl, rfl, rfl⟩ := hr; rw [h])
      else .isFalse fun hc => hr (by injection hc with h₁ _ h₂ h₃; exact ⟨h₁, h₂, h₃⟩)

def decEqList : (ts us : List Tree) → Decidable (ts = us)
  | [], [] => .isTrue rfl
  | [], _ :: _ => .isFalse nofun
  | _ :: _, [] => .isFalse nofun
  | t :: ts, u :: us =>
    match decEq t u, decEqList ts us with
    | .isTrue h, .isTrue hs => .isTrue (by rw [h, hs])
    | .isFalse h, _ => .isFalse fun hc => h (by injection hc)
    | _, .isFalse hs => .isFalse fun hc => hs (by injection hc)

end

instance : DecidableEq Tree := decEq

/-! ## Leaves and measures -/

/-- Whether a node is a leaf: it has no children and is not an empty node. -/
def isLeaf (t : Tree) : Bool :=
  t.children.isEmpty && !t.empty

mutual

/-- The names of the leaves from left to right. -/
def yield : Tree → List String
  | ⟨name, children, attributes, empty⟩ =>
    if isLeaf ⟨name, children, attributes, empty⟩ then [name] else yieldList children

def yieldList : List Tree → List String
  | [] => []
  | t :: ts => t.yield ++ yieldList ts

end

mutual

def size : Tree → Nat
  | ⟨_, children, _, _⟩ => 1 + sizeList children

def sizeList : List Tree → Nat
  | [] => 0
  | t :: ts => t.size + sizeList ts

end

mutual

/-- The number of nodes on the longest path down. -/
def depth : Tree → Nat
  | ⟨_, children, _, _⟩ => 1 + depthList children

def depthList : List Tree → Nat
  | [] => 0
  | t :: ts => max t.depth (depthList ts)

end

mutual

def mapLeaves (f : Tree → Tree) : Tree → Tree
  | ⟨name, children, attributes, empty⟩ =>
    if isLeaf ⟨name, children, attributes, empty⟩ then f ⟨name, children, attributes, empty⟩
    else ⟨name, mapLeavesList f children, attributes, empty⟩

def mapLeavesList (f : Tree → Tree) : List Tree → List Tree
  | [] => []
  | t :: ts => t.mapLeaves f :: mapLeavesList f ts

end

end Tree

end ParseForest
