import ParseForest.Chart.Basic

/-!
# Spans of rules

A chart tells what ends at a position. The index of spans tells what begins at one:
which rules were found as a whole from there on, and where they end.
-/

namespace ParseForest

/-- A rule found as a whole, and the position behind it. -/
structure RuleSpan where
  rule : RuleId
  stop : Nat
deriving DecidableEq, Repr, Inhabited

/-- For each position the rules found as a whole from there on. -/
structure SpanIndex where
  buckets : List (List RuleSpan)
deriving DecidableEq, Repr

namespace SpanIndex

/-- The rules that a set at a position shows to be found from a start on. -/
def ofSet (g : Grammar) (start stop : Nat) (set : ItemSet) : List RuleSpan :=
  (set.items.filter fun item => item.start = start ∧ (item.found? g).isSome).map (⟨·.rule, stop⟩)

/-- The index of a chart. A bucket is in order of end, and then of discovery. -/
def ofChart (g : Grammar) (chart : Chart) : SpanIndex :=
  ⟨(List.range chart.sets.length).map fun start =>
    chart.sets.zipIdx.flatMap fun (set, stop) => ofSet g start stop set⟩

/-- The bucket of a position; it is empty behind the end of the input. -/
def startingAt (index : SpanIndex) (start : Nat) : List RuleSpan :=
  index.buckets[start]?.getD []

def size (index : SpanIndex) : Nat :=
  (index.buckets.map List.length).foldr (· + ·) 0

end SpanIndex

end ParseForest
