import ParseForest.Proofs.Nullable
import ParseForest.Proofs.Validity

/-!
# Without a cycle, rules nest in bounded depth

A search that meets no cycle leaves the non-terminals in an order in which every step
leads to an earlier one (`cycleBelow_explored`), so the steps of a grammar lower a rank
(`exists_rank`). A rule applied inside another over the same part of the input is a
step, which bounds the height of all derivations (`height_le`).
-/

namespace ParseForest

open ParseForest.Derivation

/-! ## Search for a cycle -/

theorem foldlM_ok_induction {α β ε : Type} {P : β → Prop} {Q : α → β → Prop}
    {f : β → α → Except ε β} {l : List α}
    (step : ∀ x ∈ l, ∀ b b', P b → f b x = .ok b' → P b' ∧ Q x b' ∧ ∀ y, Q y b → Q y b') :
    ∀ {b b' : β}, P b → l.foldlM f b = .ok b' → P b' ∧ (∀ x ∈ l, Q x b') ∧ ∀ y, Q y b → Q y b' := by
  induction l with
  | nil =>
    intro b b' hb h
    cases h
    exact ⟨hb, nofun, fun _ hy => hy⟩
  | cons x l ih =>
    intro b b' hb h
    rw [List.foldlM_cons] at h
    cases hx : f b x with
    | error e => rw [hx] at h; cases h
    | ok c =>
      rw [hx] at h
      obtain ⟨hc, hxc, hmono⟩ := step x List.mem_cons_self b c hb hx
      obtain ⟨hb', hl, hmono'⟩ := ih (fun y hy => step y (List.mem_cons_of_mem _ hy)) hc h
      refine ⟨hb', fun y hy => ?_, fun y hy => hmono' y (hmono y hy)⟩
      rcases List.mem_cons.mp hy with rfl | hy
      · exact hmono' _ hxc
      · exact hl y hy

/-- Each symbol of a list stands once in it, and its steps lead further into the list. -/
inductive Ordered (steps : Symbol → List Symbol) : List Symbol → Prop
  | nil : Ordered steps []
  | cons {a l} : a ∉ l → (∀ b ∈ steps a, b ∈ l) → Ordered steps l → Ordered steps (a :: l)

/-- What is known of the finished symbols `done` while the search stands at the end of a path. -/
structure Explored (steps : Symbol → List Symbol) (U : SymbolSet) (path done : List Symbol) :
    Prop where
  ordered : Ordered steps done
  subset : ∀ a ∈ done, a ∈ U
  disjoint : ∀ a ∈ path, a ∉ done

section
variable {steps : Symbol → List Symbol} {U : SymbolSet} (hU : ∀ a ∈ U, ∀ b ∈ steps a, b ∈ U)
include hU

/-- A search without a cycle finishes its symbol. The path holds no symbol twice, so the
bound on its length is never reached. -/
theorem cycleBelow_explored {depth : Nat} : ∀ {path done done' : List Symbol} {a : Symbol},
    path.Nodup → (∀ b ∈ path, b ∈ U) → U.size < depth + path.length → a ∈ U →
    Explored steps U path done → cycleBelow steps depth path done a = .ok done' →
    Explored steps U path done' ∧ a ∈ done' ∧ ∀ b, b ∈ done → b ∈ done' := by
  induction depth with
  | zero =>
    intro path done done' a hn hp hlt
    have := SymbolSet.length_le_size hn hp
    omega
  | succ depth ih =>
    intro path done done' a hn hp hlt ha he h
    unfold cycleBelow at h
    by_cases hd : a ∈ done
    · rw [if_pos hd] at h
      cases h
      exact ⟨he, hd, fun _ hb => hb⟩
    rw [if_neg hd] at h
    by_cases hpath : a ∈ path
    · rw [if_pos hpath] at h; cases h
    rw [if_neg hpath] at h
    cases hf : (steps a).foldlM (cycleBelow steps depth (a :: path)) done with
    | error e => rw [hf] at h; cases h
    | ok mid =>
      rw [hf] at h
      cases h
      have hstart : Explored steps U (a :: path) done :=
        ⟨he.ordered, he.subset, List.forall_mem_cons.mpr ⟨hd, he.disjoint⟩⟩
      have hstep : ∀ b ∈ steps a, ∀ d d', Explored steps U (a :: path) d →
          cycleBelow steps depth (a :: path) d b = .ok d' →
          Explored steps U (a :: path) d' ∧ b ∈ d' ∧ ∀ c, c ∈ d → c ∈ d' := by
        intro b hb d d'
        refine ih (List.nodup_cons.mpr ⟨hpath, hn⟩) (List.forall_mem_cons.mpr ⟨ha, hp⟩) ?_ (hU a ha b hb)
        rw [List.length_cons]
        omega
      obtain ⟨hmid, hsteps, hmono⟩ := foldlM_ok_induction hstep hstart hf
      obtain ⟨hamid, hdis⟩ := List.forall_mem_cons.mp hmid.disjoint
      refine ⟨⟨.cons hamid hsteps hmid.ordered, List.forall_mem_cons.mpr ⟨ha, hmid.subset⟩, ?_⟩,
        List.mem_cons_self, fun b hb => List.mem_cons_of_mem _ (hmono b hb)⟩
      intro b hb hm
      rcases List.mem_cons.mp hm with rfl | hm
      · exact hpath hb
      · exact hdis b hb hm

end

theorem Ordered.nodup {steps : Symbol → List Symbol} {l : List Symbol} (h : Ordered steps l) :
    l.Nodup := by
  induction h with
  | nil => exact List.nodup_nil
  | cons ha _ _ ih => exact List.nodup_cons.mpr ⟨ha, ih⟩

theorem Ordered.mem_of_step {steps : Symbol → List Symbol} {l : List Symbol} (h : Ordered steps l)
    {a b : Symbol} (ha : a ∈ l) (hb : b ∈ steps a) : b ∈ l := by
  induction h with
  | nil => cases ha
  | cons _ hsteps _ ih =>
    rcases List.mem_cons.mp ha with rfl | ha
    · exact List.mem_cons_of_mem _ (hsteps b hb)
    · exact List.mem_cons_of_mem _ (ih ha)

/-- The place of a symbol in a list, counted from the end. -/
def rank : List Symbol → Symbol → Nat
  | [], _ => 0
  | a :: l, b => if b = a then l.length + 1 else rank l b

theorem rank_le : ∀ (l : List Symbol) (b : Symbol), rank l b ≤ l.length
  | [], _ => Nat.le_refl _
  | a :: l, b => by
    have := rank_le l b
    simp only [rank, List.length_cons]
    split <;> omega

theorem rank_pos {l : List Symbol} {b : Symbol} (h : b ∈ l) : 0 < rank l b := by
  induction l with
  | nil => cases h
  | cons a l ih =>
    simp only [rank]
    split
    · omega
    · next hb => exact ih ((List.mem_cons.mp h).resolve_left hb)

theorem Ordered.rank_lt {steps : Symbol → List Symbol} {l : List Symbol} (h : Ordered steps l)
    {a b : Symbol} (ha : a ∈ l) (hb : b ∈ steps a) : rank l b < rank l a := by
  induction h with
  | nil => cases ha
  | @cons c l hc hsteps ho ih =>
    have hmem : b ∈ l → b ≠ c := fun hbl e => hc (e ▸ hbl)
    simp only [rank]
    by_cases hac : a = c
    · subst hac
      rw [if_pos rfl, if_neg (hmem (hsteps b hb))]
      have := rank_le l b
      omega
    · have hal := (List.mem_cons.mp ha).resolve_left hac
      rw [if_neg hac, if_neg (hmem (ho.mem_of_step hal hb))]
      exact ih hal

/-! ## Steps of a grammar -/

theorem mem_unitSymbols {terminals nullable : SymbolSet} {rule : Rule} {b : Symbol} :
    b ∈ rule.unitSymbols terminals nullable ↔ b ∉ terminals ∧
      ∃ p q, rule.rhs = p ++ b :: q ∧ ∀ a ∈ p ++ q, a ∈ nullable := by
  unfold Rule.unitSymbols
  simp only [List.mem_filterMap, Prod.exists, List.mk_mem_zipIdx_iff_getElem?,
    Option.ite_none_right_eq_some, Option.some.injEq]
  constructor
  · intro h
    obtain ⟨a, i, hi, ⟨ha, hall⟩, rfl⟩ := h
    obtain ⟨hlt, rfl⟩ := List.getElem?_eq_some_iff.mp hi
    refine ⟨ha, rule.rhs.take i, rule.rhs.drop (i + 1), ?_, ?_⟩
    · rw [← List.drop_eq_getElem_cons hlt, List.take_append_drop]
    · rw [← List.eraseIdx_eq_take_drop_succ]
      exact hall
  · intro h
    obtain ⟨hb, p, q, hr, hall⟩ := h
    refine ⟨b, p.length, ?_, ⟨hb, ?_⟩, rfl⟩
    · rw [hr, List.getElem?_append_right (Nat.le_refl _), Nat.sub_self, List.getElem?_cons_zero]
    · rw [hr, List.eraseIdx_append_of_length_le (Nat.le_refl _), Nat.sub_self, List.eraseIdx_cons_zero]
      exact hall

theorem mem_unitSteps {rules : List Rule} {terminals nullable : SymbolSet} {a b : Symbol} :
    b ∈ unitSteps rules terminals nullable a ↔
      ∃ rule ∈ rules, rule.lhs = a ∧ b ∈ rule.unitSymbols terminals nullable := by
  unfold unitSteps
  simp only [List.mem_flatMap, List.mem_filter, decide_eq_true_eq, and_assoc]

namespace Grammar

section
variable (g : Grammar)

/-- The non-terminals that a non-terminal can derive alone by one of its rules. -/
def steps : Symbol → List Symbol :=
  unitSteps g.rules g.terminals g.nullable

theorem steps_mem_nonterminals : ∀ a ∈ g.nonterminals, ∀ b ∈ g.steps a, b ∈ g.nonterminals := by
  intro a _ b hb
  obtain ⟨rule, hr, rfl, hu⟩ := mem_unitSteps.mp hb
  obtain ⟨ht, p, q, hrhs, _⟩ := mem_unitSymbols.mp hu
  exact g.mem_nonterminals.mpr (g.exists_rule_of_mem_rhs hr (by simp [hrhs]) ht)

/-- A grammar has no derivation cycle, so the steps of its non-terminals lower a rank. -/
theorem exists_rank : ∃ r : Symbol → Nat,
    (∀ a ∈ g.nonterminals, 0 < r a ∧ r a ≤ g.nonterminals.size) ∧
      ∀ a ∈ g.nonterminals, ∀ b ∈ g.steps a, r b < r a := by
  have hnone := g.derivationCycle?_eq_none
  unfold derivationCycle? at hnone
  simp only at hnone
  split at hnone
  · cases hnone
  next done hdone =>
  have hstart : Explored g.steps g.nonterminals [] [] := ⟨.nil, nofun, nofun⟩
  have hstep : ∀ a ∈ g.nonterminals.toList, ∀ d d', Explored g.steps g.nonterminals [] d →
      cycleBelow g.steps (g.nonterminals.size + 1) [] d a = .ok d' →
      Explored g.steps g.nonterminals [] d' ∧ a ∈ d' ∧ ∀ b, b ∈ d → b ∈ d' :=
    fun a ha d d' => cycleBelow_explored g.steps_mem_nonterminals List.nodup_nil nofun
      (Nat.lt_succ_self _) ha
  obtain ⟨he, hall, _⟩ := foldlM_ok_induction hstep hstart hdone
  have hlen : done.length ≤ g.nonterminals.size := SymbolSet.length_le_size he.ordered.nodup he.subset
  exact ⟨rank done, fun a ha => ⟨rank_pos (hall a ha), Nat.le_trans (rank_le done a) hlen⟩,
    fun a ha b hb => he.ordered.rank_lt (hall a ha) hb⟩

end

end Grammar

/-! ## Heights -/

theorem heights_le_iff {n : Nat} : ∀ {ds : List Derivation}, heights ds ≤ n ↔ ∀ d ∈ ds, d.height ≤ n
  | [] => by simp [heights]
  | d :: ds => by
    rw [heights, Nat.max_le, List.forall_mem_cons, heights_le_iff]

section
variable {g : Grammar}

theorem length_word_le_of_mem {d : Derivation} {ds : List Derivation} (h : d ∈ ds) :
    d.word.length ≤ (words ds).length := by
  obtain ⟨p, q, rfl⟩ := List.append_of_mem h
  rw [words_append, words, List.length_append, List.length_append]
  omega

/-- A child that covers all that its parent covers is a step away from it. -/
theorem mem_steps_of_length_eq {rule id : _} {cs ds : List Derivation} {child : Rule}
    (hr : rule ∈ g.rules) (h : g.Derivations rule.rhs ds) (hm : node id cs ∈ ds)
    (hc : g.rule? id = some child) (hw : (words cs).length = (words ds).length) :
    child.lhs ∈ g.steps rule.lhs := by
  obtain ⟨p, q, rfl⟩ := List.append_of_mem hm
  rw [words_append, words_node, List.length_append, List.length_append] at hw
  have hp : words p = [] := List.eq_nil_of_length_eq_zero (by omega)
  have hq : words q = [] := List.eq_nil_of_length_eq_zero (by omega)
  obtain ⟨α, a, β, hα, h₁, h₂, h₃⟩ := h.split_middle
  obtain rfl : a = child.lhs := by
    cases h₂ with
    | node hc' _ _ => exact congrArg _ (Option.some.inj (hc'.symm.trans hc))
  refine mem_unitSteps.mpr ⟨rule, hr, rfl, mem_unitSymbols.mpr ⟨?_, α, β, hα, ?_⟩⟩
  · exact g.lhs_not_mem_terminals (Grammar.mem_rules_of_rule? hc)
  · intro b hb
    rcases List.mem_append.mp hb with hb | hb
    · exact Grammar.mem_nullable_of_words_eq_nil h₁ hp b hb
    · exact Grammar.mem_nullable_of_words_eq_nil h₃ hq b hb

section
variable {r : Symbol → Nat} (hr : ∀ a ∈ g.nonterminals, 0 < r a ∧ r a ≤ g.nonterminals.size)
  (hs : ∀ a ∈ g.nonterminals, ∀ b ∈ g.steps a, r b < r a)
include hr hs

/-- To cover less makes up for any rank, and to cover the same takes a lower rank. -/
theorem rank_add_lt {a b : Symbol} {m n : Nat} (ha : a ∈ g.nonterminals) (hb : b ∈ g.nonterminals)
    (hle : m ≤ n) (hstep : m = n → b ∈ g.steps a) :
    g.nonterminals.size * m + r b < g.nonterminals.size * n + r a := by
  rcases Nat.eq_or_lt_of_le hle with heq | hlt
  · have := hs a ha b (hstep heq)
    rw [heq]
    omega
  · have hmul : g.nonterminals.size * (m + 1) ≤ g.nonterminals.size * n := Nat.mul_le_mul_left _ hlt
    have hpos := (hr a ha).1
    have hbound := (hr b hb).2
    rw [Nat.mul_succ] at hmul
    omega

/-- A child covers fewer terminals than its parent, or it covers the same and has a lower rank. -/
theorem rank_child_lt {rule id : _} {cs ds : List Derivation} {child : Rule} (hmem : rule ∈ g.rules)
    (h : g.Derivations rule.rhs ds) (hm : node id cs ∈ ds) (hc : g.rule? id = some child) :
    g.nonterminals.size * (words cs).length + r child.lhs <
      g.nonterminals.size * (words ds).length + r rule.lhs := by
  have hle : (words cs).length ≤ (words ds).length := by
    have := length_word_le_of_mem hm
    rwa [word] at this
  exact rank_add_lt hr hs (g.mem_nonterminals.mpr ⟨rule, hmem, rfl⟩)
    (g.mem_nonterminals.mpr ⟨child, Grammar.mem_rules_of_rule? hc, rfl⟩) hle
    (mem_steps_of_length_eq hmem h hm hc)

/-- The height of a derivation is bounded by a full set of ranks for each terminal that it
covers and by the rank of its root. -/
theorem height_node_le {α : List Symbol} {ds : List Derivation} (h : g.Derivations α ds) :
    ∀ id cs rule, node id cs ∈ ds → g.rule? id = some rule →
      heights cs + 1 ≤ g.nonterminals.size * (words cs).length + r rule.lhs := by
  induction h with
  | nil => intro id cs rule hm; cases hm
  | leaf _ _ ih =>
    intro id cs rule hm
    cases List.mem_cons.mp hm with
    | inl hm => cases hm
    | inr hm => exact ih id cs rule hm
  | @node id rule ds α es hid hds _ ihds ih =>
    intro id' cs' rule' hm hid'
    rcases List.mem_cons.mp hm with hm | hm
    · cases hm
      obtain rfl : rule = rule' := Option.some.inj (hid.symm.trans hid')
      have hmem := Grammar.mem_rules_of_rule? hid
      have hpos := (hr rule.lhs (g.mem_nonterminals.mpr ⟨rule, hmem, rfl⟩)).1
      suffices heights ds ≤ g.nonterminals.size * (words ds).length + r rule.lhs - 1 by omega
      refine heights_le_iff.mpr fun d hd => ?_
      cases d with
      | leaf a => simp [height]
      | node i cs =>
        obtain ⟨child, hi⟩ : ∃ child, g.rule? i = some child := hds.rule?_of_mem hd
        have hle := ihds i cs child hd hi
        have hlt := rank_child_lt hr hs hmem hds hd hi
        rw [height]
        omega
    · exact ih id' cs' rule' hm hid'

end

/-- Rules nest no deeper than non-terminals times positions. -/
theorem height_le {input : List Symbol} {d : Derivation} (h : g.IsParse input d) :
    d.height ≤ g.nonterminals.size * (input.length + 1) := by
  obtain ⟨ds, rfl, hd, rfl⟩ := h
  obtain ⟨r, hr, hs⟩ := g.exists_rank
  have hz := g.rule?_zero
  have hle := height_node_le hr hs (.node hz hd .nil) 0 ds g.startRule List.mem_cons_self hz
  have hlhs : g.startRule.lhs ∈ g.nonterminals :=
    g.mem_nonterminals.mpr ⟨_, Grammar.mem_rules_of_rule? hz, rfl⟩
  have := (hr _ hlhs).2
  rw [height, Nat.mul_succ]
  omega

end

end ParseForest
