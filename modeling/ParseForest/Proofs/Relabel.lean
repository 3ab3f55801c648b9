import Mathlib.Logic.Equiv.Basic
import ParseForest.Forest
import ParseForest.Proofs.WellFormed

/-!
# Symbols are opaque

Charts and forests depend on symbols only as far as they are equal or not. If a grammar and an
input are renamed so that different symbols stay different, each function comes to what it
comes to without the renaming: items name no symbols, so the chart is the same
(`Relabels.build_eq`), and the trees of the forest are renamed in their places (`Relabels.parse_eq`).
-/

namespace ParseForest

open Grammar

/-- The rule with its symbols renamed. -/
def Rule.relabel (ρ : Symbol → Symbol) (rule : Rule) : Rule :=
  ⟨ρ rule.lhs, rule.rhs.map ρ⟩

mutual

/-- The tree with the name of each node renamed. -/
def Tree.relabel (ρ : Symbol → Symbol) : Tree → Tree
  | ⟨name, children, attributes, empty⟩ =>
    ⟨(ρ ⟨name⟩).name, relabelList ρ children, attributes, empty⟩

def Tree.relabelList (ρ : Symbol → Symbol) : List Tree → List Tree
  | [] => []
  | t :: ts => t.relabel ρ :: relabelList ρ ts

end

def Candidate.relabel (ρ : Symbol → Symbol) (candidate : Candidate) : Candidate :=
  ⟨Tree.relabelList ρ candidate.trees, candidate.width⟩

/-- A renaming that keeps symbols apart takes one grammar to the other. -/
structure Grammar.Relabels (ρ : Symbol → Symbol) (g g' : Grammar) : Prop where
  injective : Function.Injective ρ
  rules_eq : g'.rules = g.rules.map (Rule.relabel ρ)
  mem_terminals_iff : ∀ a, a ∈ g'.terminals ↔ ∃ b ∈ g.terminals, ρ b = a

section
variable (ρ : Symbol → Symbol)

theorem Tree.length_relabelList : ∀ ts : List Tree, (relabelList ρ ts).length = ts.length
  | [] => rfl
  | t :: ts => by simp [relabelList, length_relabelList ts]

theorem Tree.length_children_relabel (t : Tree) : (t.relabel ρ).children.length = t.children.length := by
  cases t
  simp [relabel, length_relabelList]

theorem combine_relabel (symbols width total : Nat) (subtrees : List Tree) (rest : List Candidate) :
    Forest.combine symbols width total (subtrees.map (Tree.relabel ρ)) (rest.map (Candidate.relabel ρ)) =
      (Forest.combine symbols width total subtrees rest).map (Candidate.relabel ρ) := by
  unfold Forest.combine
  simp only [List.filter_map, List.flatMap_map, List.map_flatMap, List.map_map, Function.comp_def,
    Tree.length_children_relabel]
  rfl

end

namespace Grammar.Relabels

section
variable {ρ : Symbol → Symbol} {g g' : Grammar} (h : Relabels ρ g g')
include h

/-! ## Tables -/

theorem eq_iff {a b : Symbol} : ρ a = ρ b ↔ a = b :=
  h.injective.eq_iff

theorem rule?_eq (id : RuleId) : g'.rule? id = (g.rule? id).map (Rule.relabel ρ) := by
  simp [rule?, h.rules_eq]

theorem rulesOf_eq (a : Symbol) : g'.rulesOf (ρ a) = g.rulesOf a := by
  unfold rulesOf
  rw [h.rules_eq, List.zipIdx_map, List.filterMap_map]
  simp [Rule.relabel, h.eq_iff]

theorem mem_terminals {a : Symbol} : ρ a ∈ g'.terminals ↔ a ∈ g.terminals := by
  rw [h.mem_terminals_iff]
  simp [h.eq_iff]

theorem mem_nullable {a : Symbol} : ρ a ∈ g'.nullable ↔ a ∈ g.nullable := by
  constructor
  · -- the nullable symbols of the renamed grammar are names of nullable symbols
    intro ha
    have hall : ∀ b ∈ g'.nullable, ∃ c ∈ g.nullable, ρ c = b := by
      apply nullable_induction
      intro rule' hr' hrhs
      rw [h.rules_eq] at hr'
      obtain ⟨rule, hr, rfl⟩ := List.mem_map.mp hr'
      refine ⟨rule.lhs, nullable_closed hr fun c hc => ?_, rfl⟩
      obtain ⟨d, hd, hdc⟩ := hrhs (ρ c) (List.mem_map_of_mem hc)
      rwa [← h.eq_iff.mp hdc]
    obtain ⟨c, hc, hca⟩ := hall _ ha
    rwa [← h.eq_iff.mp hca]
  · refine nullable_induction (P := fun b => ρ b ∈ g'.nullable) (fun rule hr hrhs => ?_) a
    have hr' : rule.relabel ρ ∈ g'.rules := by
      rw [h.rules_eq]
      exact List.mem_map_of_mem hr
    apply nullable_closed hr'
    simpa [Rule.relabel] using hrhs

theorem leastLength_eq (α : List Symbol) : g'.leastLength (α.map ρ) = g.leastLength α := by
  unfold leastLength
  rw [List.countP_map]
  simp [Function.comp_def, h.mem_nullable]

theorem startRule_eq : g'.startRule = g.startRule.relabel ρ := by
  have := h.rule?_eq 0
  rw [g.rule?_zero, g'.rule?_zero] at this
  exact Option.some.inj this

theorem size_nonterminals_eq : g'.nonterminals.size = g.nonterminals.size := by
  have hnodup : (g.nonterminals.toList.map ρ).Nodup := g.nonterminals.nodup_toList.map h.injective
  have hperm : g'.nonterminals.toList.Perm (g.nonterminals.toList.map ρ) := by
    apply (List.perm_ext_iff_of_nodup g'.nonterminals.nodup_toList hnodup).mpr
    intro a
    simp [mem_nonterminals, h.rules_eq, Rule.relabel]
  unfold SymbolSet.size
  rw [hperm.length_eq, List.length_map]

/-! ## Charts -/

theorem next?_eq (item : Item) : item.next? g' = (item.next? g).map ρ := by
  unfold Item.next?
  rw [h.rule?_eq]
  cases g.rule? item.rule <;> simp [Rule.relabel]

theorem found?_eq (item : Item) : item.found? g' = (item.found? g).map ρ := by
  unfold Item.found?
  rw [h.rule?_eq]
  cases g.rule? item.rule with
  | none => rfl
  | some rule => by_cases hdot : item.dot = rule.rhs.length <;> simp [Rule.relabel, hdot]

theorem advanceOver_eq (set : ItemSet) (a : Symbol) :
    set.advanceOver g' (ρ a) = set.advanceOver g a := by
  unfold ItemSet.advanceOver
  have : ∀ item : Item, item.next? g' = some (ρ a) ↔ item.next? g = some a := by
    intro item
    rw [h.next?_eq]
    cases item.next? g <;> simp [h.eq_iff]
  simp [this]

theorem additions_eq (earlier : List ItemSet) (set : ItemSet) (item : Item) :
    Chart.additions g' earlier set item = Chart.additions g earlier set item := by
  unfold Chart.additions
  rw [h.next?_eq]
  cases item.next? g with
  | none =>
    unfold Chart.completions
    rw [h.found?_eq]
    cases item.found? g with
    | none => rfl
    | some a => simp [h.advanceOver_eq]
  | some a =>
    simp [h.mem_terminals, Chart.predictions, h.rulesOf_eq, Chart.skips, h.mem_nullable]

theorem closeFrom_eq (earlier : List ItemSet) (visits place : Nat) (set : ItemSet) :
    Chart.closeFrom g' earlier visits place set = Chart.closeFrom g earlier visits place set := by
  induction visits generalizing place set with
  | zero => rfl
  | succ visits ih =>
    unfold Chart.closeFrom
    cases set.items[place]? with
    | none => rfl
    | some item => simp [h.additions_eq, ih]

theorem close_eq (earlier : List ItemSet) (kernel : List Item) :
    Chart.close g' earlier kernel = Chart.close g earlier kernel := by
  have hbound : Chart.itemBound g' earlier.length = Chart.itemBound g earlier.length := by
    simp [Chart.itemBound, h.rules_eq, Rule.relabel, Function.comp_def]
  unfold Chart.close
  rw [h.closeFrom_eq, hbound]

theorem scans_eq (set : ItemSet) (a : Symbol) : Chart.scans g' set (ρ a) = Chart.scans g set a := by
  simp [Chart.scans, h.mem_terminals, h.advanceOver_eq]

/-- The chart of the renamed input is the chart of the input: no item names a symbol. -/
theorem build_eq (input : List Symbol) : Chart.build g' (input.map ρ) = Chart.build g input := by
  unfold Chart.build
  rw [List.foldl_map]
  have hextend : (fun chart a => Chart.extend g' chart (ρ a)) = Chart.extend g := by
    funext chart a
    simp [Chart.extend, h.close_eq, h.scans_eq]
  rw [hextend, Chart.start, Chart.start, h.close_eq]

theorem accepts_eq (chart : Chart) : chart.accepts g' = chart.accepts g := by
  have hitem : Chart.acceptingItem g' = Chart.acceptingItem g := by
    simp [Chart.acceptingItem, h.startRule_eq, Rule.relabel]
  unfold Chart.accepts
  rw [hitem]

theorem ofChart_eq (chart : Chart) : SpanIndex.ofChart g' chart = SpanIndex.ofChart g chart := by
  simp [SpanIndex.ofChart, SpanIndex.ofSet, h.found?_eq]

/-! ## Forests -/

theorem candidates_eq (index : SpanIndex) (input : List Symbol)
    {trees trees' : RuleId → Nat → Nat → List Tree}
    (htrees : ∀ id start stop, trees' id start stop = (trees id start stop).map (Tree.relabel ρ))
    (α : List Symbol) : ∀ start stop : Nat,
      Forest.candidates g' index (input.map ρ) trees' (α.map ρ) start stop =
        (Forest.candidates g index input trees α start stop).map (Candidate.relabel ρ) := by
  induction α with
  | nil =>
    intro start stop
    by_cases hs : start = stop <;> simp [Forest.candidates, hs, Candidate.relabel, Tree.relabelList]
  | cons a α ih =>
    intro start stop
    rw [List.map_cons, Forest.candidates, Forest.candidates, ← List.map_cons, h.leastLength_eq]
    by_cases hm : stop < start + g.leastLength (a :: α)
    · simp [hm]
    rw [if_neg hm, if_neg hm]
    by_cases ha : a ∈ g.terminals
    · rw [if_pos ha, if_pos (h.mem_terminals.mpr ha)]
      by_cases hk : input[start]? = some a
      · simp only [List.getElem?_map, hk, Option.map_some, if_true, ih, List.map_map]
        rfl
      · simp [hk, h.eq_iff]
    · rw [if_neg ha, if_neg (mt h.mem_terminals.mp ha), List.map_flatMap]
      refine List.flatMap_congr fun entry _ => ?_
      rw [h.rule?_eq]
      cases g.rule? entry.rule with
      | none => rfl
      | some rule =>
        simp only [Option.map_some, Rule.relabel, ne_eq, h.eq_iff, h.leastLength_eq, List.length_map]
        split
        · rfl
        rw [htrees, ih]
        cases trees entry.rule start entry.stop with
        | nil => rfl
        | cons t ts => exact combine_relabel ρ _ _ _ (t :: ts) _

theorem ruleTrees_eq (index : SpanIndex) (input : List Symbol) {depth : Nat} :
    ∀ id start stop, Forest.ruleTrees g' index (input.map ρ) depth id start stop =
      (Forest.ruleTrees g index input depth id start stop).map (Tree.relabel ρ) := by
  induction depth with
  | zero => exact fun _ _ _ => rfl
  | succ depth ih =>
    intro id start stop
    rw [Forest.ruleTrees, Forest.ruleTrees, h.rule?_eq]
    cases g.rule? id with
    | none => rfl
    | some rule =>
      simp only [Option.map_some, Rule.relabel, List.isEmpty_map]
      split
      · rfl
      · rw [h.candidates_eq index input ih, List.filter_map, List.map_map, List.map_map]
        rfl

theorem ofIndex_eq (index : SpanIndex) (input : List Symbol) :
    Forest.ofIndex g' index (input.map ρ) = (Forest.ofIndex g index input).map (Tree.relabel ρ) := by
  have hdepth : Forest.depthBound g' (input.map ρ) = Forest.depthBound g input := by
    simp [Forest.depthBound, h.size_nonterminals_eq]
  unfold Forest.ofIndex
  rw [List.length_map, hdepth, h.ruleTrees_eq]
  split <;> rfl

theorem parse_eq (input : List Symbol) :
    g'.parse (input.map ρ) = (g.parse input).map (Tree.relabel ρ) := by
  simp only [parse, h.build_eq, h.accepts_eq, h.ofChart_eq, h.ofIndex_eq]
  split <;> rfl

end

end Grammar.Relabels

/-- **Symbols are opaque.** Renaming the symbols of a table and of an input so that different ones
stay different leaves the chart as it is, and renames the trees of the forest in their places. -/
theorem chart_forest_relabel {ρ : Symbol → Symbol} (hρ : Function.Injective ρ) {rules : List Rule}
    {terminals : List Symbol} {g g' : Grammar} (hg : ofTables? rules terminals = .ok g)
    (hg' : ofTables? (rules.map (Rule.relabel ρ)) (terminals.map ρ) = .ok g') (input : List Symbol) :
    Chart.build g' (input.map ρ) = Chart.build g input ∧
      g'.parse (input.map ρ) = (g.parse input).map (Tree.relabel ρ) := by
  obtain ⟨hrules, hterminals⟩ := ofTables?_ok hg
  obtain ⟨hrules', hterminals'⟩ := ofTables?_ok hg'
  have h : Relabels ρ g g' := {
    injective := hρ
    rules_eq := by rw [hrules', hrules]
    mem_terminals_iff := fun a => by simp [hterminals', hterminals] }
  exact ⟨h.build_eq input, h.parse_eq input⟩

/-- A nullable non-terminal on both sides of a left recursive one. -/
def margins : Grammar where
  rules := [⟨⟨"S"⟩, Symbol.ofNames ["A", "B", "A"]⟩, ⟨⟨"A"⟩, []⟩, ⟨⟨"A"⟩, Symbol.ofNames ["a"]⟩,
    ⟨⟨"B"⟩, Symbol.ofNames ["B", "a"]⟩, ⟨⟨"B"⟩, Symbol.ofNames ["a"]⟩]
  terminals := .ofList (Symbol.ofNames ["a"])
  nullable := .ofList (Symbol.ofNames ["A"])
  nullable_eq := by decide +kernel
  valid := by decide +kernel

/-- A terminal and a non-terminal change places. -/
def swapCase : Symbol → Symbol :=
  Equiv.swap ⟨"A"⟩ ⟨"a"⟩

def marginsSwapped : Grammar where
  rules := margins.rules.map (Rule.relabel swapCase)
  terminals := .ofList (Symbol.ofNames ["A"])
  nullable := .ofList (Symbol.ofNames ["a"])
  nullable_eq := by decide +kernel
  valid := by decide +kernel

theorem margins_relabel :
    (Function.Injective swapCase ∧ ofTables? margins.rules [⟨"a"⟩] = .ok margins ∧
      ofTables? (margins.rules.map (Rule.relabel swapCase)) [⟨"A"⟩] = .ok marginsSwapped) ∧
    Chart.build marginsSwapped (Symbol.ofNames ["A", "A", "A"]) =
      Chart.build margins (Symbol.ofNames ["a", "a", "a"]) ∧
    marginsSwapped.parse (Symbol.ofNames ["A", "A", "A"]) =
      (margins.parse (Symbol.ofNames ["a", "a", "a"])).map (Tree.relabel swapCase) ∧
    (margins.parse (Symbol.ofNames ["a", "a", "a"])).length = 4 := by
  have hswap : Function.Injective swapCase := (Equiv.swap _ _).injective
  have hg : ofTables? margins.rules [⟨"a"⟩] = .ok margins := by decide +kernel
  have hg' : ofTables? (margins.rules.map (Rule.relabel swapCase)) [⟨"A"⟩] = .ok marginsSwapped := by
    decide +kernel
  obtain ⟨hchart, hforest⟩ := chart_forest_relabel hswap hg hg' (Symbol.ofNames ["a", "a", "a"])
  exact ⟨⟨hswap, hg, hg'⟩, hchart, hforest, by decide +kernel⟩

end ParseForest
