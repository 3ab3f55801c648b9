import Mathlib.Data.Option.Basic
import ParseForest.Grammar.Basic

/-!
# Tables without problems

`problem?_eq_none_iff` lists what it means for a table that no problem is found, and
each part of it is restated for grammars.
-/

namespace ParseForest

theorem nameProblem?_eq_none_iff {a : Symbol} : nameProblem? a = none ↔
    a.name ≠ "" ∧ (∀ c ∈ a.name.toList, Symbol.isNameChar c = true) ∧ a.name ∉ Symbol.reservedWords := by
  unfold nameProblem?
  by_cases he : a.name = ""
  · simp [he]
  have he' : a.name.isEmpty = false := by simpa using he
  simp only [he', Bool.false_eq_true, if_false]
  cases hf : a.name.toList.find? (fun c => !Symbol.isNameChar c) with
  | some c =>
    have hc := List.find?_some hf
    have hm := List.mem_of_find?_eq_some hf
    refine ⟨nofun, fun ⟨_, h, _⟩ => ?_⟩
    rw [h c hm] at hc
    cases hc
  | none =>
    have h : ∀ c ∈ a.name.toList, Symbol.isNameChar c = true := by simpa using hf
    by_cases hr : a.name ∈ Symbol.reservedWords
    · simp [hr]
    · simp only [hr, if_false, not_false_eq_true, and_true, true_iff]
      exact ⟨he, h⟩

theorem definitionProblem?_eq_none_iff {terminals defined : SymbolSet} {rule : Rule} {id : RuleId} :
    definitionProblem? terminals defined rule id = none ↔
      rule.lhs ∉ terminals ∧ ∀ a ∈ rule.rhs, a ∈ terminals ∨ a ∈ defined := by
  unfold definitionProblem?
  by_cases h : rule.lhs ∈ terminals
  · simp [h]
  · simp only [h, if_false, Option.map_eq_none_iff, List.find?_eq_none, not_false_eq_true, true_and,
      decide_eq_true_eq, not_and_or, not_not]

theorem definitionsProblem?_eq_none_iff {rules : List Rule} {terminals : SymbolSet} :
    definitionsProblem? rules terminals = none ↔ ∀ rule ∈ rules, rule.lhs ∉ terminals ∧
      ∀ a ∈ rule.rhs, a ∈ terminals ∨ ∃ other ∈ rules, other.lhs = a := by
  unfold definitionsProblem?
  simp only [List.findSome?_eq_none_iff, definitionProblem?_eq_none_iff, SymbolSet.mem_ofList,
    List.mem_map]
  constructor
  · intro h rule hr
    obtain ⟨id, hid⟩ := List.mem_iff_getElem?.mp hr
    exact h (rule, id) (List.mk_mem_zipIdx_iff_getElem?.mpr hid)
  · exact fun h p hp => h p.1 (List.fst_mem_of_mem_zipIdx hp)

theorem startProblem?_eq_none_iff {rules : List Rule} :
    startProblem? rules = none ↔ ∃ start rest, rules = start :: rest ∧ start.rhs ≠ [] := by
  cases rules with
  | nil => simp [startProblem?]
  | cons start rest => simp [startProblem?]

/-- No problem is found in a table exactly if each of its parts is sound. -/
theorem problem?_eq_none_iff {rules : List Rule} {terminals : SymbolSet} :
    problem? rules terminals = none ↔
      (∃ start rest, rules = start :: rest ∧ start.rhs ≠ []) ∧
      (∀ a ∈ terminals.toList, nameProblem? a = none) ∧
      (∀ rule ∈ rules, ∀ a ∈ rule.lhs :: rule.rhs, nameProblem? a = none) ∧
      (∀ rule ∈ rules, rule.lhs ∉ terminals ∧
        ∀ a ∈ rule.rhs, a ∈ terminals ∨ ∃ other ∈ rules, other.lhs = a) ∧
      derivationCycle? rules terminals (nullableOf rules) = none := by
  unfold problem?
  simp only [Option.orElse_eq_none, startProblem?_eq_none_iff,
    definitionsProblem?_eq_none_iff, Option.map_eq_none_iff]
  simp only [List.findSome?_eq_none_iff]

namespace Grammar

section
variable (g : Grammar)

theorem startRule_rhs_ne_nil : g.startRule.rhs ≠ [] := by
  obtain ⟨⟨start, rest, hr, hne⟩, _⟩ := problem?_eq_none_iff.mp g.valid
  simpa [startRule, hr] using hne

theorem rule?_zero : g.rule? 0 = some g.startRule := by
  obtain ⟨⟨start, rest, hr, _⟩, _⟩ := problem?_eq_none_iff.mp g.valid
  simp [rule?, startRule, hr]

theorem terminal_name {a : Symbol} (ha : a ∈ g.terminals) : nameProblem? a = none :=
  (problem?_eq_none_iff.mp g.valid).2.1 a ha

theorem rule_name {rule : Rule} (hr : rule ∈ g.rules) {a : Symbol} (ha : a ∈ rule.lhs :: rule.rhs) :
    nameProblem? a = none :=
  (problem?_eq_none_iff.mp g.valid).2.2.1 rule hr a ha

theorem lhs_not_mem_terminals {rule : Rule} (hr : rule ∈ g.rules) : rule.lhs ∉ g.terminals :=
  ((problem?_eq_none_iff.mp g.valid).2.2.2.1 rule hr).1

theorem exists_rule_of_mem_rhs {rule : Rule} (hr : rule ∈ g.rules) {a : Symbol} (ha : a ∈ rule.rhs)
    (ht : a ∉ g.terminals) : ∃ other ∈ g.rules, other.lhs = a :=
  (((problem?_eq_none_iff.mp g.valid).2.2.2.1 rule hr).2 a ha).resolve_left ht

theorem derivationCycle?_eq_none : derivationCycle? g.rules g.terminals g.nullable = none := by
  rw [g.nullable_eq]
  exact (problem?_eq_none_iff.mp g.valid).2.2.2.2

theorem mem_nonterminals {a : Symbol} : a ∈ g.nonterminals ↔ ∃ rule ∈ g.rules, rule.lhs = a := by
  simp [nonterminals]

theorem mem_rulesOf {id : RuleId} {a : Symbol} :
    id ∈ g.rulesOf a ↔ ∃ rule, g.rule? id = some rule ∧ rule.lhs = a := by
  unfold rulesOf rule?
  simp only [List.mem_filterMap, Prod.exists, List.mk_mem_zipIdx_iff_getElem?,
    Option.ite_none_right_eq_some, Option.some.injEq]
  constructor
  · intro h
    obtain ⟨rule, i, hr, ha, rfl⟩ := h
    exact ⟨rule, hr, ha⟩
  · intro h
    obtain ⟨rule, hr, ha⟩ := h
    exact ⟨rule, id, hr, ha, rfl⟩

end

end Grammar

end ParseForest
