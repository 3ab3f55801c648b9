import Mathlib.Logic.Relation
import ParseForest.Grammar.Basic
import ParseForest.Tree.Basic

/-!
# Derivations

A derivation is a tree whose inner nodes apply rules and whose leaves are terminals.
`Derivations g α ds` says that the derivations `ds` are, in order, derivations of the
symbols `α`. The words that derivations have are those that rewriting one non-terminal
after the other leads to (`rewritesTo_words`, `Expands.generates`).
-/

namespace ParseForest

/-- A rule applied over the part of the input between two positions. -/
structure Application where
  rule : RuleId
  start : Nat
  stop : Nat
deriving DecidableEq, Repr

/-- A non-terminal of a list of symbols is replaced by the right-hand side of a rule of a table. -/
def Replaces (rules : List Rule) (α β : List Symbol) : Prop :=
  ∃ p q rule, rule ∈ rules ∧ α = p ++ rule.lhs :: q ∧ β = p ++ (rule.rhs ++ q)

/-- A replacement does not depend on what stands around. -/
theorem Replaces.context {rules : List Rule} {α β : List Symbol} (h : Replaces rules α β)
    (p q : List Symbol) : Replaces rules (p ++ α ++ q) (p ++ β ++ q) := by
  obtain ⟨p', q', rule, hr, rfl, rfl⟩ := h
  exact ⟨p ++ p', q' ++ q, rule, hr, by simp, by simp⟩

theorem replacesTo_context {rules : List Rule} {α β : List Symbol}
    (h : Relation.ReflTransGen (Replaces rules) α β) (p q : List Symbol) :
    Relation.ReflTransGen (Replaces rules) (p ++ α ++ q) (p ++ β ++ q) :=
  Relation.ReflTransGen.lift (fun γ => p ++ γ ++ q) (fun _ _ hs => hs.context p q) _ _ h

/-- A tree of rule applications, by number of the rule, over terminals. -/
inductive Derivation where
  | leaf (terminal : Symbol)
  | node (rule : RuleId) (children : List Derivation)

namespace Derivation

mutual

/-- The terminals at the leaves, from left to right. -/
def word : Derivation → List Symbol
  | leaf a => [a]
  | node _ ds => words ds

def words : List Derivation → List Symbol
  | [] => []
  | d :: ds => d.word ++ words ds

end

mutual

/-- The number of rules applied on the longest path down. -/
def height : Derivation → Nat
  | leaf _ => 0
  | node _ ds => heights ds + 1

def heights : List Derivation → Nat
  | [] => 0
  | d :: ds => max d.height (heights ds)

end

mutual

/-- The rules applied in a derivation that begins at a position. -/
def applications : Nat → Derivation → List Application
  | _, leaf _ => []
  | start, node id ds => ⟨id, start, start + (words ds).length⟩ :: applicationsAll start ds

def applicationsAll : Nat → List Derivation → List Application
  | _, [] => []
  | start, d :: ds => d.applications start ++ applicationsAll (start + d.word.length) ds

end

/-- The name of the left-hand side of a rule. -/
def headName (g : Grammar) (id : RuleId) : String :=
  ((g.rule? id).map (·.lhs.name)).getD ""

mutual

/-- The parse tree: a leaf for each terminal and a node with the name of the left-hand
side for each rule, an empty node if the rule has nothing on the right. -/
def toTree (g : Grammar) : Derivation → Tree
  | leaf a => .leaf a.name
  | node id ds => ⟨headName g id, toTrees g ds, ∅, ds.isEmpty⟩

def toTrees (g : Grammar) : List Derivation → List Tree
  | [] => []
  | d :: ds => d.toTree g :: toTrees g ds

end

@[simp] theorem words_nil : words [] = [] := by rw [words]

@[simp] theorem words_leaf (a : Symbol) (ds : List Derivation) :
    words (leaf a :: ds) = a :: words ds := by
  rw [words, word]; rfl

@[simp] theorem words_node (id : RuleId) (ds es : List Derivation) :
    words (node id ds :: es) = words ds ++ words es := by
  rw [words, word]

theorem words_append : ∀ ds es : List Derivation, words (ds ++ es) = words ds ++ words es
  | [], es => by simp
  | d :: ds, es => by
    rw [List.cons_append, words, words, words_append ds es, List.append_assoc]

@[simp] theorem applicationsAll_nil (k : Nat) : applicationsAll k [] = [] := by rw [applicationsAll]

@[simp] theorem applicationsAll_leaf (k : Nat) (a : Symbol) (ds : List Derivation) :
    applicationsAll k (leaf a :: ds) = applicationsAll (k + 1) ds := by
  rw [applicationsAll, applications, word]; rfl

@[simp] theorem applicationsAll_node (k : Nat) (id : RuleId) (ds es : List Derivation) :
    applicationsAll k (node id ds :: es) = ⟨id, k, k + (words ds).length⟩ ::
      (applicationsAll k ds ++ applicationsAll (k + (words ds).length) es) := by
  rw [applicationsAll, applications, word]; rfl

@[simp] theorem toTrees_nil (g : Grammar) : toTrees g [] = [] := by rw [toTrees]

@[simp] theorem toTrees_cons (g : Grammar) (d : Derivation) (ds : List Derivation) :
    toTrees g (d :: ds) = d.toTree g :: toTrees g ds := by rw [toTrees]

@[simp] theorem toTrees_length (g : Grammar) : ∀ ds, (toTrees g ds).length = ds.length
  | [] => by simp
  | d :: ds => by simp [toTrees_length g ds]

end Derivation

open ParseForest.Derivation

namespace Grammar

/-- The derivations of a list are, in order, derivations of the symbols. -/
inductive Derivations (g : Grammar) : List Symbol → List Derivation → Prop
  | nil : Derivations g [] []
  | leaf {a α ds} : a ∈ g.terminals → Derivations g α ds → Derivations g (a :: α) (leaf a :: ds)
  | node {id rule ds α es} : g.rule? id = some rule → Derivations g rule.rhs ds →
      Derivations g α es → Derivations g (rule.lhs :: α) (node id ds :: es)

/-- Symbols have derivations with the terminals of a word at the leaves. -/
def Generates (g : Grammar) (α w : List Symbol) : Prop :=
  ∃ ds, g.Derivations α ds ∧ words ds = w

/-- A derivation of an input in which the root applies rule 0. -/
def IsParse (g : Grammar) (input : List Symbol) (d : Derivation) : Prop :=
  ∃ ds, d = node 0 ds ∧ g.Derivations g.startRule.rhs ds ∧ words ds = input

/-- One non-terminal is replaced by the right-hand side of one of its rules. -/
def Rewrites (g : Grammar) (α β : List Symbol) : Prop :=
  ∃ p q rule, rule ∈ g.rules ∧ α = p ++ rule.lhs :: q ∧ β = p ++ (rule.rhs ++ q)

/-- Any number of replacements, one after the other. -/
def RewritesTo (g : Grammar) : List Symbol → List Symbol → Prop :=
  Relation.ReflTransGen g.Rewrites

/-- Replacements in the form of trees: each symbol is kept or else expanded by a rule. -/
inductive Expands (g : Grammar) : List Symbol → List Symbol → Prop
  | nil : Expands g [] []
  | keep {a α w} : Expands g α w → Expands g (a :: α) (a :: w)
  | expand {rule α v w} : rule ∈ g.rules → Expands g rule.rhs v → Expands g α w →
      Expands g (rule.lhs :: α) (v ++ w)

theorem mem_rules_of_rule? {g : Grammar} {id : RuleId} {rule : Rule} (h : g.rule? id = some rule) :
    rule ∈ g.rules :=
  List.mem_of_getElem? h

theorem exists_rule?_of_mem {g : Grammar} {rule : Rule} (h : rule ∈ g.rules) :
    ∃ id, g.rule? id = some rule :=
  List.mem_iff_getElem?.mp h

/-! ## Lists of derivations -/

section
variable {g : Grammar}

theorem Derivations.append {α β : List Symbol} {ds es : List Derivation} (h : g.Derivations α ds)
    (h' : g.Derivations β es) : g.Derivations (α ++ β) (ds ++ es) := by
  induction h with
  | nil => exact h'
  | leaf ha _ ih => exact .leaf ha ih
  | node hr hc _ _ ih => exact .node hr hc ih

theorem Derivations.split {α β : List Symbol} {ds : List Derivation}
    (h : g.Derivations (α ++ β) ds) :
    ∃ es fs, ds = es ++ fs ∧ g.Derivations α es ∧ g.Derivations β fs := by
  induction α generalizing ds with
  | nil => exact ⟨[], ds, rfl, .nil, h⟩
  | cons a α ih =>
    cases h with
    | leaf ha h =>
      obtain ⟨es, fs, rfl, he, hf⟩ := ih h
      exact ⟨.leaf a :: es, fs, rfl, .leaf ha he, hf⟩
    | @node id rule cs _ _ hr hc h =>
      obtain ⟨es, fs, rfl, he, hf⟩ := ih h
      exact ⟨.node id cs :: es, fs, rfl, .node hr hc he, hf⟩

theorem Derivations.length_eq {α : List Symbol} {ds : List Derivation} (h : g.Derivations α ds) :
    ds.length = α.length := by
  induction h with
  | nil => rfl
  | leaf _ _ ih => simp [ih]
  | node _ _ _ _ ih => simp [ih]

/-- A derivation in the middle belongs to a symbol in the middle. -/
theorem Derivations.split_middle {α : List Symbol} {ds es : List Derivation} {d : Derivation}
    (h : g.Derivations α (ds ++ d :: es)) :
    ∃ p a q, α = p ++ a :: q ∧ g.Derivations p ds ∧ g.Derivations [a] [d] ∧ g.Derivations q es := by
  have hlen := h.length_eq
  simp only [List.length_append, List.length_cons] at hlen
  obtain ⟨a, q, hq⟩ : ∃ a q, α.drop ds.length = a :: q := by
    cases hd : α.drop ds.length with
    | nil => have := List.drop_eq_nil_iff.mp hd; omega
    | cons a q => exact ⟨a, q, rfl⟩
  have hα : α = α.take ds.length ++ ([a] ++ q) := by
    rw [List.singleton_append, ← hq, List.take_append_drop]
  rw [hα] at h
  obtain ⟨es₁, fs, hds, h₁, h₂⟩ := h.split
  obtain ⟨es₂, es₃, rfl, h₂, h₃⟩ := h₂.split
  have hl : es₁.length = ds.length := by
    rw [h₁.length_eq, List.length_take]; omega
  obtain ⟨rfl, hr⟩ := List.append_inj hds.symm hl
  obtain ⟨d', rfl⟩ := List.length_eq_one_iff.mp (h₂.length_eq.trans rfl)
  obtain ⟨rfl, rfl⟩ := List.cons.inj hr
  exact ⟨_, a, q, hα, h₁, h₂, h₃⟩

theorem Derivations.rule?_of_mem {α : List Symbol} {ds : List Derivation} (h : g.Derivations α ds)
    {id : RuleId} {cs : List Derivation} (hm : .node id cs ∈ ds) :
    ∃ rule, g.rule? id = some rule := by
  obtain ⟨p, q, rfl⟩ := List.append_of_mem hm
  obtain ⟨_, _, _, _, _, hd, _⟩ := h.split_middle
  cases hd with
  | node hr _ _ => exact ⟨_, hr⟩

theorem words_mem_terminals {α : List Symbol} {ds : List Derivation} (h : g.Derivations α ds) :
    ∀ a ∈ words ds, a ∈ g.terminals := by
  induction h with
  | nil => simp
  | leaf ha _ ih => simpa [ha] using ih
  | node _ _ _ ihc ih =>
    intro a ha
    rw [words_node, List.mem_append] at ha
    exact ha.elim (ihc a) (ih a)

theorem Generates.append {α β v w : List Symbol} (h : g.Generates α v) (h' : g.Generates β w) :
    g.Generates (α ++ β) (v ++ w) := by
  obtain ⟨ds, hd, rfl⟩ := h
  obtain ⟨es, he, rfl⟩ := h'
  exact ⟨ds ++ es, hd.append he, words_append ds es⟩

theorem generates_nil : g.Generates [] [] := ⟨[], .nil, words_nil⟩

theorem generates_terminal {a : Symbol} (ha : a ∈ g.terminals) : g.Generates [a] [a] :=
  ⟨[leaf a], .leaf ha .nil, by simp⟩

theorem generates_rule {id : RuleId} {rule : Rule} {w : List Symbol} (hr : g.rule? id = some rule)
    (h : g.Generates rule.rhs w) : g.Generates [rule.lhs] w := by
  obtain ⟨ds, hd, rfl⟩ := h
  exact ⟨[node id ds], .node hr hd .nil, by simp⟩

end

/-! ## Rewriting -/

section
variable {g : Grammar}

theorem RewritesTo.refl (α : List Symbol) : g.RewritesTo α α := Relation.ReflTransGen.refl

theorem RewritesTo.trans {α β γ : List Symbol} (h : g.RewritesTo α β) (h' : g.RewritesTo β γ) :
    g.RewritesTo α γ := Relation.ReflTransGen.trans h h'

/-- Replacements do not depend on what stands around. -/
theorem RewritesTo.context {α β : List Symbol} (h : g.RewritesTo α β) (p q : List Symbol) :
    g.RewritesTo (p ++ α ++ q) (p ++ β ++ q) :=
  replacesTo_context h p q

theorem rewritesTo_rule {rule : Rule} (hr : rule ∈ g.rules) : g.RewritesTo [rule.lhs] rule.rhs :=
  Relation.ReflTransGen.single ⟨[], [], rule, hr, rfl, by simp⟩

theorem rewritesTo_append {α β v w : List Symbol} (h : g.RewritesTo α v) (h' : g.RewritesTo β w) :
    g.RewritesTo (α ++ β) (v ++ w) := by
  have h₁ := h.context [] β
  have h₂ := h'.context v []
  simp only [List.nil_append, List.append_nil] at h₁ h₂
  exact h₁.trans h₂

theorem rewritesTo_words {α : List Symbol} {ds : List Derivation} (h : g.Derivations α ds) :
    g.RewritesTo α (words ds) := by
  induction h with
  | nil => rw [words_nil]; exact .refl _
  | @leaf a α ds ha _ ih =>
    rw [words_leaf]
    exact rewritesTo_append (RewritesTo.refl [a]) ih
  | @node id rule ds α es hr _ _ ihc ih =>
    rw [words_node]
    exact rewritesTo_append ((rewritesTo_rule (mem_rules_of_rule? hr)).trans ihc) ih

theorem Expands.refl : ∀ α : List Symbol, g.Expands α α
  | [] => .nil
  | _ :: α => .keep (refl α)

/-- One more replacement at the end: it happens below a symbol that was kept or inside
what a rule was expanded to. -/
theorem Expands.tail {α β γ : List Symbol} (h : g.Expands α β) (hs : g.Rewrites β γ) :
    g.Expands α γ := by
  obtain ⟨p, q, rule, hr, rfl, rfl⟩ := hs
  generalize hβ : p ++ rule.lhs :: q = β at h
  induction h generalizing p q with
  | nil => simp at hβ
  | @keep a α w h ih =>
    rcases List.append_eq_cons_iff.mp hβ with ⟨rfl, hc⟩ | ⟨p', rfl, hc⟩
    · obtain ⟨rfl, rfl⟩ := List.cons.inj hc
      rw [List.nil_append]
      exact .expand hr (.refl _) h
    · exact .keep (ih p' q hc.symm)
  | @expand r α v w hr' hv hw ihv ihw =>
    rcases List.append_eq_append_iff.mp hβ with ⟨v', hp, hq⟩ | ⟨p', rfl, hw'⟩
    · rcases List.cons_eq_append_iff.mp hq with ⟨rfl, hw'⟩ | ⟨v'', rfl, rfl⟩
      · rw [List.append_nil] at hp
        subst hp
        exact .expand hr' hv (ihw [] q hw'.symm)
      · rw [← List.append_assoc, ← List.append_assoc, List.append_assoc p]
        exact .expand hr' (ihv p v'' hp.symm) hw
    · rw [List.append_assoc]
      exact .expand hr' hv (ihw p' q hw'.symm)

theorem RewritesTo.expands {α β : List Symbol} (h : g.RewritesTo α β) : g.Expands α β := by
  induction h with
  | refl => exact .refl α
  | tail _ hs ih => exact ih.tail hs

theorem Expands.generates {α w : List Symbol} (h : g.Expands α w) (hw : ∀ a ∈ w, a ∈ g.terminals) :
    g.Generates α w := by
  induction h with
  | nil => exact generates_nil
  | @keep a α w _ ih =>
    exact (generates_terminal (hw a (by simp))).append (ih fun b hb => hw b (by simp [hb]))
  | @expand rule α v w hr _ _ ihv ihw =>
    obtain ⟨id, hid⟩ := exists_rule?_of_mem hr
    exact (generates_rule hid (ihv fun a ha => hw a (by simp [ha]))).append
      (ihw fun a ha => hw a (by simp [ha]))

end

end Grammar

end ParseForest
