import ParseForest.Chart.ItemSet

/-!
# Charts

The chart of an input has a state set for each position, before the first symbol
and behind each one. A set begins with the items that the symbol before it takes
from the set before, and is closed under what its items ask for: a non-terminal
behind a dot predicts its rules, and a rule found as a whole advances the items
that waited for it where it began. One pass in order of discovery closes a set.
The empty completion of a nullable non-terminal may come before an item that
waits for it, so an item is advanced over such a non-terminal at once.
-/

namespace ParseForest

namespace ItemSet

/-- The items that wait for a symbol, with the dot moved behind it. -/
def advanceOver (g : Grammar) (set : ItemSet) (symbol : Symbol) : List Item :=
  (set.items.filter (·.next? g = some symbol)).map Item.advance

end ItemSet

namespace Chart

def predictions (g : Grammar) (position : Nat) (symbol : Symbol) : List Item :=
  (g.rulesOf symbol).map (⟨·, 0, position⟩)

/-- The item with the dot behind a next symbol that derives the empty string. -/
def skips (g : Grammar) (item : Item) (symbol : Symbol) : List Item :=
  if symbol ∈ g.nullable then [item.advance] else []

/-- The items that a rule found as a whole brings. They waited in the set where the
rule began, which is either one of the earlier sets or the set under construction. -/
def completions (g : Grammar) (earlier : List ItemSet) (set : ItemSet) (item : Item) :
    List Item :=
  match item.found? g with
  | some lhs => (earlier[item.start]?.getD set).advanceOver g lhs
  | none => []

/-- The items that an item brings into its own set. -/
def additions (g : Grammar) (earlier : List ItemSet) (set : ItemSet) (item : Item) :
    List Item :=
  match item.next? g with
  | some symbol =>
    if symbol ∈ g.terminals then []
    else predictions g earlier.length symbol ++ skips g item symbol
  | none => completions g earlier set item

/-- The pass over a set from a place on, with a bound on the items to visit. -/
def closeFrom (g : Grammar) (earlier : List ItemSet) : Nat → Nat → ItemSet → ItemSet
  | 0, _, set => set
  | visits + 1, place, set =>
    match set.items[place]? with
    | none => set
    | some item => closeFrom g earlier visits (place + 1) (set.insertAll (additions g earlier set item))

/-- The number of items that a set at a position can hold: a rule, a place for the dot
and a start that is not behind the position. -/
def itemBound (g : Grammar) (position : Nat) : Nat :=
  (position + 1) * (g.rules.map (·.rhs.length + 1)).foldr (· + ·) 0

/-- The set that items generate behind the earlier sets. -/
def close (g : Grammar) (earlier : List ItemSet) (kernel : List Item) : ItemSet :=
  closeFrom g earlier (itemBound g earlier.length) 0 (.ofList kernel)

def scans (g : Grammar) (set : ItemSet) (symbol : Symbol) : List Item :=
  if symbol ∈ g.terminals then set.advanceOver g symbol else []

end Chart

/-- The state sets of the positions read so far, in order. -/
structure Chart where
  sets : List ItemSet
deriving DecidableEq

namespace Chart

def last (chart : Chart) : ItemSet :=
  chart.sets.getLast?.getD ∅

def start (g : Grammar) : Chart :=
  ⟨[close g [] [.initial]]⟩

def extend (g : Grammar) (chart : Chart) (symbol : Symbol) : Chart :=
  ⟨chart.sets ++ [close g chart.sets (scans g chart.last symbol)]⟩

def build (g : Grammar) (input : List Symbol) : Chart :=
  input.foldl (extend g) (start g)

/-- The start rule found as a whole from position 0 on. -/
def acceptingItem (g : Grammar) : Item :=
  ⟨0, g.startRule.rhs.length, 0⟩

/-- Whether the start rule derives all that has been read. -/
def accepts (g : Grammar) (chart : Chart) : Bool :=
  acceptingItem g ∈ chart.last

def length (chart : Chart) : Nat :=
  chart.sets.length - 1

def size (chart : Chart) : Nat :=
  (chart.sets.map ItemSet.size).foldr (· + ·) 0

/-- A set with a line for its position and one for each item. -/
def renderSet (g : Grammar) (position : Nat) (set : ItemSet) : List String :=
  s!"== state set {position} ({set.size} items)" :: set.items.map (·.render g position)

def render (g : Grammar) (chart : Chart) : String :=
  let lines := chart.sets.zipIdx.flatMap fun (set, position) => renderSet g position set
  String.join (lines.map (· ++ "\n"))

end Chart

end ParseForest
