import ParseForest.Chart.Basic

/-!
# Steps of the construction

The order of the items in a chart tells how it was built: visiting them in order
and asking each of them again what it brings gives the steps, one for each item
but the first.
-/

namespace ParseForest.Chart

inductive Reason where
  | scan
  | predict
  | skip
  | complete
deriving DecidableEq, Repr

structure Step where
  reason : Reason
  item : Item
  position : Nat
deriving DecidableEq, Repr

def Step.describe (step : Step) : String :=
  let item := step.item.describe
  match step.reason with
  | .scan => s!"scan {item} into set {step.position}"
  | .predict => s!"predict {item} in set {step.position}"
  | .skip => s!"skip nullable {item} in set {step.position}"
  | .complete => s!"complete {item} in set {step.position}"

/-- The steps that an item asks for, whether or not they bring anything new. -/
def askedSteps (g : Grammar) (earlier : List ItemSet) (set : ItemSet) (item : Item) :
    List Step :=
  let position := earlier.length
  match item.next? g with
  | some symbol =>
    if symbol ∈ g.terminals then []
    else (predictions g position symbol).map (⟨.predict, ·, position⟩) ++
      (skips g item symbol).map (⟨.skip, ·, position⟩)
  | none => (completions g earlier set item).map (⟨.complete, ·, position⟩)

theorem map_item_askedSteps (g : Grammar) (earlier : List ItemSet) (set : ItemSet)
    (item : Item) : (askedSteps g earlier set item).map Step.item = additions g earlier set item := by
  simp only [askedSteps, additions]
  cases item.next? g with
  | none => simp [Function.comp_def]
  | some symbol =>
    by_cases h : symbol ∈ g.terminals
    · simp [h]
    · simp [h, Function.comp_def]

/-- The step with which an item takes an input symbol, if it does. -/
def scanSteps (g : Grammar) (position : Nat) (symbol : Symbol) (item : Item) : List Step :=
  if symbol ∈ g.terminals ∧ item.next? g = some symbol then
    [⟨.scan, item.advance, position + 1⟩]
  else []

/-- The steps that bring something new into a set, and the set behind them. -/
def freshSteps (set : ItemSet) : List Step → List Step × ItemSet
  | [] => ([], set)
  | step :: rest =>
    let (steps, last) := freshSteps (set.insert step.item) rest
    (if step.item ∈ set then steps else step :: steps, last)

/-- The steps of the visits to items, beginning with the items known by then. -/
def visitSteps (g : Grammar) (earlier : List ItemSet) (symbol : Option Symbol) :
    ItemSet → List Item → List Step
  | _, [] => []
  | known, item :: rest =>
    let (steps, known) := freshSteps known (askedSteps g earlier known item)
    (symbol.map (scanSteps g earlier.length · item)).getD [] ++ steps ++
      visitSteps g earlier symbol known rest

/-- The steps that build the sets of a chart, beginning behind the earlier ones with the
items from which the first of them grows. -/
def setSteps (g : Grammar) (earlier : List ItemSet) (kernel : List Item) :
    List ItemSet → List Symbol → List Step
  | [], _ => []
  | set :: rest, input =>
    visitSteps g earlier input.head? (.ofList kernel) set.items ++
      setSteps g (earlier ++ [set]) ((input.head?.map (scans g set)).getD []) rest input.tail

def steps (g : Grammar) (input : List Symbol) : List Step :=
  setSteps g [] [.initial] (build g input).sets input

end ParseForest.Chart
