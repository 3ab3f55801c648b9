import ParseForest.Grammar.English
import ParseForest.Proofs.Forest

/-!
# Different derivations have different trees

A tree forgets the numbers of the rules that were applied. Its names tell the symbols of each
rule, because no terminal has a rule (`symbols_eq_of_toTrees_eq`), and over a table without a
repeated rule the symbols tell the number (`eq_of_toTrees_eq`). So a forest holds a tree twice
only if the table holds a rule twice (`exists_repeated_rule_of_parse`).
-/

namespace ParseForest

open ParseForest.Derivation Grammar

section
variable {g : Grammar}

theorem map_name_toTrees {α : List Symbol} {ds : List Derivation} (h : g.Derivations α ds) :
    (toTrees g ds).map Tree.name = α.map Symbol.name := by
  induction h with
  | nil => simp
  | leaf _ _ ih => simp [toTree, Tree.leaf, Tree.branch, ih]
  | node hr _ _ _ ih => simp [toTree, headName, hr, ih]

theorem symbols_eq_of_toTrees_eq {α β : List Symbol} {ds es : List Derivation} (h : g.Derivations α ds)
    (h' : g.Derivations β es) (ht : toTrees g ds = toTrees g es) : α = β := by
  have hname : Function.Injective Symbol.name := fun a b hab => congrArg Symbol.mk hab
  apply List.map_injective_iff.mpr hname
  rw [← map_name_toTrees h, ← map_name_toTrees h', ht]

theorem id_eq_of_rule?_eq (hn : g.rules.Nodup) {id id' : RuleId} {rule : Rule}
    (h : g.rule? id = some rule) (h' : g.rule? id' = some rule) : id = id' := by
  have hlt := (List.getElem?_eq_some_iff.mp h).1
  exact (List.getElem?_inj hlt hn).mp (h.trans h'.symm)

theorem eq_of_toTrees_eq (hn : g.rules.Nodup) {α : List Symbol} {ds : List Derivation}
    (h : g.Derivations α ds) : ∀ {es : List Derivation}, g.Derivations α es →
      toTrees g ds = toTrees g es → ds = es := by
  induction h with
  | nil =>
    intro es h' _
    cases h'
    rfl
  | @leaf a α ds ha _ ih =>
    intro es h' ht
    cases h' with
    | leaf _ h' =>
      rw [toTrees_cons, toTrees_cons] at ht
      rw [ih h' (List.tail_eq_of_cons_eq ht)]
    | node hr _ _ => exact absurd ha (g.lhs_not_mem_terminals (mem_rules_of_rule? hr))
  | @node id rule cs α ds hr hc _ ihc ih =>
    intro es h' ht
    generalize hβ : rule.lhs :: α = β at h'
    cases h' with
    | nil => cases hβ
    | @leaf a _ _ ha _ =>
      obtain ⟨rfl, _⟩ := List.cons.inj hβ
      exact absurd ha (g.lhs_not_mem_terminals (mem_rules_of_rule? hr))
    | @node id' rule' cs' _ es hr' hc' h' =>
      obtain ⟨hlhs, rfl⟩ := List.cons.inj hβ
      rw [toTrees_cons, toTrees_cons] at ht
      obtain ⟨hroot, hrest⟩ := List.cons.inj ht
      have hchildren : toTrees g cs = toTrees g cs' := congrArg Tree.children hroot
      have hrhs : rule.rhs = rule'.rhs := symbols_eq_of_toTrees_eq hc hc' hchildren
      -- both sides of the rules agree, so they stand at the same place of the table
      obtain rfl : rule = rule' := congrArg₂ Rule.mk hlhs hrhs
      rw [id_eq_of_rule?_eq hn hr hr', ihc hc' hchildren, ih h' hrest]

theorem nodup_parse (hn : g.rules.Nodup) (input : List Symbol) : (g.parse input).Nodup := by
  rw [parse_eq_map]
  apply List.Nodup.map_on
  · intro d hd e he ht
    obtain ⟨cs, rfl, hc, _⟩ := mem_parses_own_iff.mp hd
    obtain ⟨cs', rfl, hc', _⟩ := mem_parses_own_iff.mp he
    have hchildren : toTrees g cs = toTrees g cs' := congrArg Tree.children ht
    rw [eq_of_toTrees_eq hn hc hc' hchildren]
  · exact Forest.nodup_parses (SpanIndex.sound_build g input)

end

/-- **Equal trees come from equal rules.** A forest with equal trees at two places is that of a table
with equal rules at two places; over a table without a repeated rule all trees are different. -/
theorem exists_repeated_rule_of_parse (g : Grammar) (input : List Symbol) :
    (∀ (i j : Nat) (t : Tree), i ≠ j → (g.parse input)[i]? = some t → (g.parse input)[j]? = some t →
      ∃ id id' rule, id ≠ id' ∧ g.rule? id = some rule ∧ g.rule? id' = some rule) ∧
    (g.rules.Nodup → (g.parse input).Nodup) := by
  refine ⟨?_, fun hn => nodup_parse hn input⟩
  intro i j t hij hi hj
  by_contra hnone
  have hn : g.rules.Nodup := by
    rw [List.nodup_iff_getElem?_ne_getElem?]
    intro id id' hlt hlen he
    have hr : g.rule? id' = some g.rules[id'] := List.getElem?_eq_getElem hlen
    exact hnone ⟨id, id', _, Nat.ne_of_lt hlt, he.trans hr, hr⟩
  have hlt := (List.getElem?_eq_some_iff.mp hi).1
  exact hij ((List.getElem?_inj hlt (nodup_parse hn input)).mp (hi.trans hj.symm))

/-- A table that holds a rule twice, and an empty node beside what the rule derives. -/
def twins : Grammar where
  rules := [⟨⟨"S"⟩, Symbol.ofNames ["A", "B"]⟩, ⟨⟨"A"⟩, Symbol.ofNames ["a"]⟩, ⟨⟨"B"⟩, []⟩,
    ⟨⟨"A"⟩, Symbol.ofNames ["a"]⟩]
  terminals := .ofList (Symbol.ofNames ["a"])
  nullable := .ofList (Symbol.ofNames ["B"])
  nullable_eq := by decide +kernel
  valid := by decide +kernel

def twinTree : Tree :=
  .branch "S" [.branch "A" [.leaf "a"], .emptyNode "B"]

theorem twins_exists_repeated_rule :
    ((twins.parse [⟨"a"⟩])[0]? = some twinTree ∧ (twins.parse [⟨"a"⟩])[1]? = some twinTree ∧
      ∃ id id' rule, id ≠ id' ∧ twins.rule? id = some rule ∧ twins.rule? id' = some rule) ∧
    (english.rules.Nodup ∧ (english.parse (Symbol.ofNames ["N", "V", "Det", "N", "P", "N"])).Nodup) := by
  have h0 : (twins.parse [⟨"a"⟩])[0]? = some twinTree := by decide +kernel
  have h1 : (twins.parse [⟨"a"⟩])[1]? = some twinTree := by decide +kernel
  have hn : english.rules.Nodup := by decide +kernel
  exact ⟨⟨h0, h1, (exists_repeated_rule_of_parse twins [⟨"a"⟩]).1 0 1 twinTree (by decide) h0 h1⟩,
    hn, (exists_repeated_rule_of_parse english _).2 hn⟩

end ParseForest
