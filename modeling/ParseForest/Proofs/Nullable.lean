import Mathlib.Data.List.Perm.Subperm
import ParseForest.Proofs.Derivation
import ParseForest.Proofs.Validity

/-!
# Nullable symbols derive the empty word

Passes over a table come to an end (`settles_nullableOf`), with the least set that holds the
left-hand side of a rule once it holds the right-hand side (`nullable_closed`,
`nullable_induction`). So its members are the symbols that derive the empty word, whatever the order
of the rules (`mem_nullable_iff_exists_derivation`), and a sequence derives no word that is shorter than its
least length (`leastLength_le`).
-/

namespace ParseForest

open ParseForest.Derivation

/-! ## Sizes of sets of symbols -/

namespace SymbolSet

theorem nodup_toList (s : SymbolSet) : s.toList.Nodup :=
  s.sorted.imp fun {a b} hab => by
    rintro rfl
    exact Symbol.lt_irrefl a hab

theorem length_le_size {s : SymbolSet} {l : List Symbol} (hn : l.Nodup) (h : ∀ a ∈ l, a ∈ s) :
    l.length ≤ s.size :=
  (List.subperm_of_subset hn h).length_le

theorem size_le_size {s t : SymbolSet} (h : ∀ a ∈ s, a ∈ t) : s.size ≤ t.size :=
  length_le_size s.nodup_toList h

theorem eq_of_subset_of_size_le {s t : SymbolSet} (h : ∀ a ∈ s, a ∈ t) (hs : t.size ≤ s.size) :
    s = t := by
  have hp := (List.subperm_of_subset s.nodup_toList h).perm_of_length_le hs
  exact ext_mem fun a => hp.mem_iff

theorem size_ofList_le (l : List Symbol) : (ofList l).size ≤ l.length :=
  (List.subperm_of_subset (ofList l).nodup_toList fun _ ha => mem_ofList.mp ha).length_le

end SymbolSet

/-! ## Passes over the table -/

theorem nullablePass_cons (rule : Rule) (rules : List Rule) (known : SymbolSet) :
    nullablePass (rule :: rules) known = nullablePass rules
      (if rule.rhs.all (· ∈ known) then known.insert rule.lhs else known) := rfl

theorem mem_nullablePass_of_mem {rules : List Rule} {known : SymbolSet} {a : Symbol}
    (h : a ∈ known) : a ∈ nullablePass rules known := by
  induction rules generalizing known with
  | nil => exact h
  | cons rule rules ih =>
    rw [nullablePass_cons]
    apply ih
    split
    · exact SymbolSet.mem_insert.mpr (.inr h)
    · exact h

theorem lhs_mem_nullablePass {rules : List Rule} {known : SymbolSet} {rule : Rule}
    (hr : rule ∈ rules) (h : ∀ a ∈ rule.rhs, a ∈ known) : rule.lhs ∈ nullablePass rules known := by
  induction rules generalizing known with
  | nil => cases hr
  | cons first rules ih =>
    rw [nullablePass_cons]
    rcases List.mem_cons.mp hr with rfl | hr
    · rw [if_pos (by simpa using h)]
      exact mem_nullablePass_of_mem (SymbolSet.mem_insert.mpr (.inl rfl))
    · refine ih hr fun a ha => ?_
      split
      · exact SymbolSet.mem_insert.mpr (.inr (h a ha))
      · exact h a ha

/-- A property that rules carry from the right to the left survives a pass. -/
theorem nullablePass_induction {P : Symbol → Prop} {rules : List Rule} {known : SymbolSet}
    (hP : ∀ rule ∈ rules, (∀ a ∈ rule.rhs, P a) → P rule.lhs) (h : ∀ a ∈ known, P a) :
    ∀ a ∈ nullablePass rules known, P a := by
  induction rules generalizing known with
  | nil => exact h
  | cons rule rules ih =>
    rw [nullablePass_cons]
    refine ih (fun r hr => hP r (List.mem_cons_of_mem _ hr)) fun a ha => ?_
    split at ha
    · next hall =>
      rcases SymbolSet.mem_insert.mp ha with rfl | ha
      · exact hP rule List.mem_cons_self fun b hb => h b (by simpa using List.all_eq_true.mp hall b hb)
      · exact h a ha
    · exact h a ha

theorem mem_lhs_of_mem_nullablePass {rules : List Rule} {known : SymbolSet}
    (hk : ∀ a ∈ known, a ∈ SymbolSet.ofList (rules.map Rule.lhs)) :
    ∀ a ∈ nullablePass rules known, a ∈ SymbolSet.ofList (rules.map Rule.lhs) :=
  nullablePass_induction (fun _ hr _ => SymbolSet.mem_ofList.mpr (List.mem_map_of_mem hr)) hk

theorem nullablePass_eq_of_size_le {rules : List Rule} {known : SymbolSet}
    (h : (nullablePass rules known).size ≤ known.size) : nullablePass rules known = known :=
  (SymbolSet.eq_of_subset_of_size_le (fun _ ha => mem_nullablePass_of_mem ha) h).symm

/-! ## Passes until one adds nothing -/

/-- Passes over a table, however many there are, lead from some known symbols to others. The one
after which the set is no larger than before is the last. -/
inductive Settles (rules : List Rule) : SymbolSet → SymbolSet → Prop
  | last {known} : (nullablePass rules known).size = known.size →
      Settles rules known (nullablePass rules known)
  | next {known final} : (nullablePass rules known).size ≠ known.size →
      Settles rules (nullablePass rules known) final → Settles rules known final

section
variable {rules : List Rule} {known final : SymbolSet}

theorem Settles.unique {final' : SymbolSet} (h : Settles rules known final)
    (h' : Settles rules known final') : final = final' := by
  induction h with
  | last hs =>
    cases h' with
    | last _ => rfl
    | next hs' _ => exact absurd hs hs'
  | next hs _ ih =>
    cases h' with
    | last hs' => exact absurd hs' hs
    | next _ h' => exact ih h'

theorem Settles.closed (h : Settles rules known final) {rule : Rule} (hr : rule ∈ rules) :
    (∀ a ∈ rule.rhs, a ∈ final) → rule.lhs ∈ final := by
  induction h with
  | last hs =>
    intro hrhs
    -- the last pass adds nothing, so what it reads is all that is known in the end
    apply lhs_mem_nullablePass hr
    rwa [nullablePass_eq_of_size_le (Nat.le_of_eq hs)] at hrhs
  | next _ _ ih => exact ih

theorem Settles.induction {P : Symbol → Prop} (hP : ∀ rule ∈ rules, (∀ a ∈ rule.rhs, P a) → P rule.lhs)
    (h : Settles rules known final) : (∀ a ∈ known, P a) → ∀ a ∈ final, P a := by
  induction h with
  | last _ => exact nullablePass_induction hP
  | next _ _ ih => exact fun hk => ih (nullablePass_induction hP hk)

/-- A pass that is not the last adds a left-hand side, so passes that are as many as the left-hand
sides not yet known are enough. -/
theorem settles_nullableFrom {passes : Nat} : ∀ {known : SymbolSet},
    (∀ a ∈ known, a ∈ SymbolSet.ofList (rules.map Rule.lhs)) →
    (SymbolSet.ofList (rules.map Rule.lhs)).size ≤ known.size + passes →
    Settles rules known (nullableFrom rules passes known) := by
  induction passes with
  | zero =>
    intro known hk hn
    -- all left-hand sides are known
    have hsize := SymbolSet.size_le_size (mem_lhs_of_mem_nullablePass hk)
    have he := nullablePass_eq_of_size_le (Nat.le_trans hsize hn)
    have hlast := Settles.last (congrArg SymbolSet.size he)
    rwa [he] at hlast
  | succ passes ih =>
    intro known hk hn
    simp only [nullableFrom]
    by_cases hs : (nullablePass rules known).size = known.size
    · have hlast := Settles.last hs
      rw [if_pos hs]
      rwa [nullablePass_eq_of_size_le (Nat.le_of_eq hs)] at hlast
    · have hlt : known.size ≤ (nullablePass rules known).size :=
        SymbolSet.size_le_size fun a ha => mem_nullablePass_of_mem ha
      rw [if_neg hs]
      exact .next hs (ih (mem_lhs_of_mem_nullablePass hk) (by omega))

theorem settles_nullableOf (rules : List Rule) : Settles rules ∅ (nullableOf rules) := by
  apply settles_nullableFrom
  · intro a ha
    exact absurd ha SymbolSet.not_mem_empty
  · have := SymbolSet.size_ofList_le (rules.map Rule.lhs)
    rw [List.length_map] at this
    omega

theorem settles_iff : Settles rules ∅ final ↔ final = nullableOf rules := by
  constructor
  · intro h
    exact h.unique (settles_nullableOf rules)
  · rintro rfl
    exact settles_nullableOf rules

theorem nullableOf_induction {P : Symbol → Prop} (hP : ∀ rule ∈ rules, (∀ a ∈ rule.rhs, P a) → P rule.lhs) :
    ∀ a ∈ nullableOf rules, P a :=
  (settles_nullableOf rules).induction hP fun _ ha => absurd ha SymbolSet.not_mem_empty

theorem mem_nullableOf_of_subset {rules' : List Rule} (h : ∀ rule ∈ rules, rule ∈ rules') :
    ∀ a ∈ nullableOf rules, a ∈ nullableOf rules' :=
  nullableOf_induction fun rule hr => (settles_nullableOf rules').closed (h rule hr)

/-- The limit depends on which rules there are, and not on where they stand in the table. -/
theorem nullableOf_congr {rules' : List Rule} (h : ∀ rule, rule ∈ rules ↔ rule ∈ rules') :
    nullableOf rules = nullableOf rules' := by
  apply SymbolSet.ext_mem
  intro a
  constructor
  · exact mem_nullableOf_of_subset (fun rule => (h rule).mp) a
  · exact mem_nullableOf_of_subset (fun rule => (h rule).mpr) a

end

namespace Grammar

section
variable {g : Grammar}

theorem nullable_closed {rule : Rule} (hr : rule ∈ g.rules) (h : ∀ a ∈ rule.rhs, a ∈ g.nullable) :
    rule.lhs ∈ g.nullable := by
  rw [g.nullable_eq] at h ⊢
  exact (settles_nullableOf g.rules).closed hr h

theorem nullable_induction {P : Symbol → Prop}
    (hP : ∀ rule ∈ g.rules, (∀ a ∈ rule.rhs, P a) → P rule.lhs) : ∀ a ∈ g.nullable, P a := by
  rw [g.nullable_eq]
  exact nullableOf_induction hP

/-! ## Derivations of the empty word -/

theorem mem_nullable_of_words_eq_nil {α : List Symbol} {ds : List Derivation}
    (h : g.Derivations α ds) (hw : words ds = []) : ∀ a ∈ α, a ∈ g.nullable := by
  induction h with
  | nil => simp
  | leaf _ _ _ => simp at hw
  | node hr _ _ ihc ih =>
    rw [words_node, List.append_eq_nil_iff] at hw
    intro a ha
    rcases List.mem_cons.mp ha with rfl | ha
    · exact nullable_closed (mem_rules_of_rule? hr) (ihc hw.1)
    · exact ih hw.2 a ha

theorem generates_nil_of_forall {α : List Symbol} (h : ∀ a ∈ α, g.Generates [a] []) :
    g.Generates α [] := by
  induction α with
  | nil => exact generates_nil
  | cons a α ih =>
    exact (h a List.mem_cons_self).append (ih fun b hb => h b (List.mem_cons_of_mem _ hb))

theorem generates_nil_of_mem_nullable : ∀ a ∈ g.nullable, g.Generates [a] [] :=
  nullable_induction fun rule hr h => by
    obtain ⟨id, hid⟩ := exists_rule?_of_mem hr
    exact generates_rule hid (generates_nil_of_forall h)

theorem mem_nonterminals_of_mem_nullable : ∀ a ∈ g.nullable, a ∈ g.nonterminals :=
  nullable_induction fun rule hr _ => g.mem_nonterminals.mpr ⟨rule, hr, rfl⟩

/-- **The nullable symbols are exact.** They are the non-terminals with a derivation of the empty word.
For the table in any order, passes until one adds nothing come to an end, which is this set. -/
theorem mem_nullable_iff_exists_derivation (g : Grammar) :
    (∀ a, a ∈ g.nullable ↔ a ∈ g.nonterminals ∧ ∃ d, g.Derivations [a] [d] ∧ d.word = []) ∧
    ∀ rules, rules.Perm g.rules → ∀ final, Settles rules ∅ final ↔ final = g.nullable := by
  constructor
  · intro a
    constructor
    · intro ha
      obtain ⟨ds, hd, hw⟩ := generates_nil_of_mem_nullable a ha
      obtain ⟨d, rfl⟩ := List.length_eq_one_iff.mp (hd.length_eq.trans rfl)
      rw [words, words_nil, List.append_nil] at hw
      exact ⟨mem_nonterminals_of_mem_nullable a ha, d, hd, hw⟩
    · rintro ⟨_, d, hd, hw⟩
      have hwords : words [d] = [] := by rw [words, hw, words_nil, List.append_nil]
      exact mem_nullable_of_words_eq_nil hd hwords a (List.mem_singleton_self a)
  · intro rules hperm final
    rw [settles_iff, nullableOf_congr fun rule => hperm.mem_iff, ← g.nullable_eq]

/-- Each pass over this table finds one more nullable symbol, and the first pass over the reversed one
finds all. -/
def descent : Grammar where
  rules := [⟨⟨"S"⟩, Symbol.ofNames ["A", "b"]⟩, ⟨⟨"A"⟩, Symbol.ofNames ["B", "C"]⟩,
    ⟨⟨"B"⟩, Symbol.ofNames ["C"]⟩, ⟨⟨"C"⟩, []⟩]
  terminals := .ofList (Symbol.ofNames ["b"])
  nullable := .ofList (Symbol.ofNames ["A", "B", "C"])
  nullable_eq := by decide +kernel
  valid := by decide +kernel

theorem descent_nullable :
    (descent.rules.reverse.Perm descent.rules ∧ Settles descent.rules.reverse ∅ descent.nullable) ∧
    (⟨"A"⟩ ∈ descent.nullable ∧ ∃ d, descent.Derivations [⟨"A"⟩] [d] ∧ d.word = []) ∧
    ¬∃ d, descent.Derivations [⟨"S"⟩] [d] ∧ d.word = [] := by
  obtain ⟨hexact, horder⟩ := mem_nullable_iff_exists_derivation descent
  have hperm := List.reverse_perm descent.rules
  have hA : ⟨"A"⟩ ∈ descent.nullable := by decide +kernel
  have hS : ⟨"S"⟩ ∉ descent.nullable := by decide +kernel
  have hlhs : ⟨"S"⟩ ∈ descent.nonterminals := by decide +kernel
  refine ⟨⟨hperm, (horder _ hperm _).mpr rfl⟩, ⟨hA, ((hexact _).mp hA).2⟩, ?_⟩
  intro h
  exact hS ((hexact _).mpr ⟨hlhs, h⟩)

/-! ## Least lengths -/

theorem leastLength_cons (g : Grammar) (a : Symbol) (α : List Symbol) :
    g.leastLength (a :: α) = g.leastLength α + if a ∈ g.nullable then 0 else 1 := by
  rw [leastLength, List.countP_cons, ← leastLength]
  by_cases h : a ∈ g.nullable <;> simp [h]

theorem leastLength_le {α : List Symbol} {ds : List Derivation} (h : g.Derivations α ds) :
    g.leastLength α ≤ (words ds).length := by
  induction h with
  | nil => simp [leastLength]
  | leaf _ _ ih =>
    rw [leastLength_cons, words_leaf, List.length_cons]
    split <;> omega
  | @node id rule ds α es hr hc _ _ ih =>
    rw [leastLength_cons, words_node, List.length_append]
    split
    · omega
    · next hn =>
      have : words ds ≠ [] := fun hw =>
        hn (nullable_closed (mem_rules_of_rule? hr) (mem_nullable_of_words_eq_nil hc hw))
      have := List.length_pos_iff.mpr this
      omega

end

end Grammar

end ParseForest
