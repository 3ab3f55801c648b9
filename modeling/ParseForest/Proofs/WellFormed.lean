import Mathlib.Data.List.Chain
import Mathlib.Data.List.Nodup
import ParseForest.Proofs.Cycle

/-!
# Tables that make a grammar

`WellFormed` says what a table of rules has to be like, without a search: in particular no
non-terminal derives itself alone. A cycle that the search reports is one of steps
(`isCycle_of_derivationCycle?`), each of which rewriting can follow, and rewriting a
non-terminal to itself takes such steps in turn (`Grammar.not_derives_self`), so exactly
the well-formed tables are accepted.
-/

namespace ParseForest

open Grammar

/-! ## A reported cycle is one -/

/-- A cycle of steps: its first symbol stands again at its end, and before that no symbol twice. -/
def IsCycle (steps : Symbol → List Symbol) (cycle : List Symbol) : Prop :=
  ∃ a l, cycle = a :: l ++ [a] ∧ (a :: l).Nodup ∧ cycle.IsChain (fun b c => c ∈ steps b)

theorem exists_error_of_foldlM {α β ε : Type} {f : β → α → Except ε β} {e : ε} {l : List α} :
    ∀ {b : β}, l.foldlM f b = .error e → ∃ x ∈ l, ∃ b', f b' x = .error e := by
  induction l with
  | nil => intro b h; cases h
  | cons x l ih =>
    intro b h
    rw [List.foldlM_cons] at h
    cases hx : f b x with
    | error e' =>
      rw [hx] at h
      cases h
      exact ⟨x, List.mem_cons_self, b, hx⟩
    | ok c =>
      rw [hx] at h
      obtain ⟨y, hy, hc⟩ := ih h
      exact ⟨y, List.mem_cons_of_mem _ hy, hc⟩

section
variable {steps : Symbol → List Symbol}

theorem takeWhile_ne_append_cons {a : Symbol} {p q : List Symbol} (hp : a ∉ p) :
    (p ++ a :: q).takeWhile (· ≠ a) = p := by
  have hne : ∀ b ∈ p, decide (b ≠ a) = true := fun b hb => decide_eq_true (ne_of_mem_of_not_mem hb hp)
  rw [List.takeWhile_append_of_pos hne, List.takeWhile_cons_of_neg (by simp), List.append_nil]

/-- What stands on a path behind the last place of a symbol leads back to the symbol. -/
theorem isCycle_of_mem_path {path : List Symbol} {a : Symbol} (hn : path.Nodup)
    (hchain : (a :: path).IsChain (fun c b => c ∈ steps b)) (ha : a ∈ path) :
    IsCycle steps (a :: (path.takeWhile (· ≠ a)).reverse ++ [a]) := by
  obtain ⟨p, q, rfl, hp⟩ := List.eq_append_cons_of_mem ha
  rw [takeWhile_ne_append_cons hp]
  have hrev : a :: p.reverse ++ [a] = (a :: p ++ [a]).reverse := by simp
  refine ⟨a, p.reverse, rfl, ?_, ?_⟩
  · rw [List.nodup_cons, List.mem_reverse, List.nodup_reverse]
    exact ⟨hp, (List.nodup_append.mp hn).1⟩
  · have hsplit : ((a :: p ++ [a]) ++ q).IsChain (fun c b => c ∈ steps b) := by simpa using hchain
    rw [hrev, List.isChain_reverse]
    exact hsplit.left_of_append

theorem isCycle_of_cycleBelow {depth : Nat} : ∀ {path done cycle : List Symbol} {a : Symbol},
    path.Nodup → (a :: path).IsChain (fun c b => c ∈ steps b) →
    cycleBelow steps depth path done a = .error cycle → IsCycle steps cycle := by
  induction depth with
  | zero => intro path done cycle a _ _ h; cases h
  | succ depth ih =>
    intro path done cycle a hn hchain h
    unfold cycleBelow at h
    by_cases hd : a ∈ done
    · rw [if_pos hd] at h; cases h
    rw [if_neg hd] at h
    by_cases hpath : a ∈ path
    · rw [if_pos hpath] at h
      cases h
      exact isCycle_of_mem_path hn hchain hpath
    rw [if_neg hpath] at h
    cases hf : (steps a).foldlM (cycleBelow steps depth (a :: path)) done with
    | ok mid => rw [hf] at h; cases h
    | error e =>
      rw [hf] at h
      cases h
      obtain ⟨b, hb, done', hc⟩ := exists_error_of_foldlM hf
      exact ih (List.nodup_cons.mpr ⟨hpath, hn⟩) (List.isChain_cons_cons.mpr ⟨hb, hchain⟩) hc

theorem isCycle_of_derivationCycle? {rules : List Rule} {terminals nullable : SymbolSet}
    {cycle : List Symbol} (h : derivationCycle? rules terminals nullable = some cycle) :
    IsCycle (unitSteps rules terminals nullable) cycle := by
  unfold derivationCycle? at h
  simp only at h
  split at h
  · next cycle' hs =>
    cases h
    obtain ⟨a, _, done, hc⟩ := exists_error_of_foldlM hs
    exact isCycle_of_cycleBelow List.nodup_nil (.singleton a) hc
  · cases h

theorem IsCycle.exists_transGen {cycle : List Symbol} (h : IsCycle steps cycle) :
    ∃ a, Relation.TransGen (fun b c => c ∈ steps b) a a := by
  obtain ⟨a, l, rfl, _, hchain⟩ := h
  have hpath : (a :: l ++ [a]).IsChain (Relation.TransGen fun b c => c ∈ steps b) :=
    hchain.imp fun _ _ hs => .single hs
  exact ⟨a, List.rel_of_pairwise_cons hpath.pairwise (by simp)⟩

end

/-! ## Steps are derivations -/

section
variable {rules : List Rule}

theorem replacesTo_nil {α : List Symbol}
    (h : ∀ a ∈ α, Relation.ReflTransGen (Replaces rules) [a] []) :
    Relation.ReflTransGen (Replaces rules) α [] := by
  induction α with
  | nil => exact .refl
  | cons a α ih =>
    have hfirst := replacesTo_context (h a List.mem_cons_self) [] α
    exact .trans hfirst (ih fun b hb => h b (List.mem_cons_of_mem _ hb))

theorem replaces_rule {rule : Rule} (hr : rule ∈ rules) : Replaces rules [rule.lhs] rule.rhs :=
  ⟨[], [], rule, hr, rfl, by simp⟩

theorem replacesTo_nil_of_mem_nullableOf : ∀ a ∈ nullableOf rules,
    Relation.ReflTransGen (Replaces rules) [a] [] :=
  nullableOf_induction fun _ hr h => .head (replaces_rule hr) (replacesTo_nil h)

/-- To take a step is to apply a rule and let the symbols beside the one that is kept vanish. -/
theorem replaces_of_mem_unitSteps {terminals : SymbolSet} {a b : Symbol}
    (h : b ∈ unitSteps rules terminals (nullableOf rules) a) :
    Relation.TransGen (Replaces rules) [a] [b] := by
  obtain ⟨rule, hr, rfl, hu⟩ := mem_unitSteps.mp h
  obtain ⟨_, p, q, hrhs, hnull⟩ := mem_unitSymbols.mp hu
  refine .head' (replaces_rule hr) ?_
  have hp := replacesTo_nil fun c hc => replacesTo_nil_of_mem_nullableOf c
    (hnull c (List.mem_append_left q hc))
  have hq := replacesTo_nil fun c hc => replacesTo_nil_of_mem_nullableOf c
    (hnull c (List.mem_append_right p hc))
  have h₁ := replacesTo_context hp [] (b :: q)
  have h₂ := replacesTo_context hq [b] []
  simp only [List.nil_append, List.append_nil, List.singleton_append] at h₁ h₂
  rw [hrhs]
  exact h₁.trans h₂

end

/-! ## Derivations of one symbol are steps -/

namespace Grammar

section
variable {g : Grammar}

theorem Expands.mem_nullable {α : List Symbol} (h : g.Expands α []) : ∀ a ∈ α, a ∈ g.nullable := by
  obtain ⟨ds, hd, hw⟩ := h.generates nofun
  exact mem_nullable_of_words_eq_nil hd hw

/-- What expands to a non-terminal alone holds a symbol that leads to it by steps, beside
nullable ones. -/
theorem Expands.exists_steps {α w : List Symbol} {b : Symbol} (h : g.Expands α w) (hw : w = [b])
    (hb : b ∉ g.terminals) : ∃ p a q, α = p ++ a :: q ∧ (∀ c ∈ p ++ q, c ∈ g.nullable) ∧
      a ∉ g.terminals ∧ Relation.ReflTransGen (fun c d => d ∈ g.steps c) a b := by
  induction h with
  | nil => cases hw
  | @keep a α w h _ =>
    obtain ⟨rfl, rfl⟩ := List.cons.inj hw
    exact ⟨[], a, α, rfl, h.mem_nullable, hb, .refl⟩
  | @expand rule α v w hr hv hα ihv ihα =>
    have hlhs := g.lhs_not_mem_terminals hr
    rcases List.append_eq_singleton_iff.mp hw with ⟨rfl, rfl⟩ | ⟨rfl, rfl⟩
    · -- the rule vanishes, and what follows gives the symbol
      obtain ⟨p, a, q, rfl, hnull, ha, hsteps⟩ := ihα rfl
      exact ⟨rule.lhs :: p, a, q, rfl,
        List.forall_mem_cons.mpr ⟨nullable_closed hr hv.mem_nullable, hnull⟩, ha, hsteps⟩
    · obtain ⟨p, a, q, hrhs, hnull, ha, hsteps⟩ := ihv rfl
      refine ⟨[], rule.lhs, α, rfl, hα.mem_nullable, hlhs, .head ?_ hsteps⟩
      exact mem_unitSteps.mpr ⟨rule, hr, rfl, mem_unitSymbols.mpr ⟨ha, p, q, hrhs, hnull⟩⟩

theorem transGen_steps_of_replaces {rule : Rule} (hr : rule ∈ g.rules)
    (h : Relation.TransGen (Replaces g.rules) [rule.lhs] [rule.lhs]) :
    Relation.TransGen (fun c d => d ∈ g.steps c) rule.lhs rule.lhs := by
  obtain ⟨β, ⟨p, q, first, hf, hlhs, rfl⟩, hrest⟩ := Relation.TransGen.head'_iff.mp h
  obtain ⟨rfl, hcons⟩ | ⟨_, hnil⟩ := List.append_eq_singleton_iff.mp hlhs.symm
  · obtain ⟨hsame, rfl⟩ := List.cons.inj hcons
    rw [List.nil_append, List.append_nil] at hrest
    have hexp : g.Expands first.rhs [rule.lhs] := RewritesTo.expands hrest
    obtain ⟨s, a, t, hrhs, hnull, ha, hsteps⟩ := hexp.exists_steps rfl (g.lhs_not_mem_terminals hr)
    refine .head' ?_ hsteps
    exact mem_unitSteps.mpr ⟨first, hf, hsame, mem_unitSymbols.mpr ⟨ha, s, t, hrhs, hnull⟩⟩
  · cases hnil

theorem not_derives_self {rule : Rule} (hr : rule ∈ g.rules) :
    ¬Relation.TransGen (Replaces g.rules) [rule.lhs] [rule.lhs] := by
  intro h
  obtain ⟨r, _, hlt⟩ := g.exists_rank
  have hstep : ∀ a b, b ∈ g.steps a → r b < r a := by
    intro a b hb
    obtain ⟨other, ho, rfl, _⟩ := mem_unitSteps.mp hb
    exact hlt _ (g.mem_nonterminals.mpr ⟨other, ho, rfl⟩) b hb
  have hrank : ∀ a b, Relation.TransGen (fun c d => d ∈ g.steps c) a b → r b < r a := by
    intro a b hab
    induction hab with
    | single hs => exact hstep _ _ hs
    | tail _ hs ih => exact Nat.lt_trans (hstep _ _ hs) ih
  exact Nat.lt_irrefl _ (hrank _ _ (transGen_steps_of_replaces hr h))

end

end Grammar

/-! ## Accepted tables -/

/-- A name that can be written: not empty, of name characters, and none of the reserved words. -/
def Symbol.IsName (a : Symbol) : Prop :=
  a.name ≠ "" ∧ (∀ c ∈ a.name.toList, Symbol.isNameChar c = true) ∧
    a.name ≠ "terminals" ∧ a.name ≠ "ε"

/-- What makes a table of rules and a list of terminals a grammar. -/
structure WellFormed (rules : List Rule) (terminals : List Symbol) : Prop where
  start : ∃ first rest, rules = first :: rest ∧ first.rhs ≠ []
  terminal_name : ∀ a ∈ terminals, a.IsName
  rule_name : ∀ rule ∈ rules, ∀ a ∈ rule.lhs :: rule.rhs, a.IsName
  lhs_not_terminal : ∀ rule ∈ rules, rule.lhs ∉ terminals
  defined : ∀ rule ∈ rules, ∀ a ∈ rule.rhs, a ∈ terminals ∨ ∃ other ∈ rules, other.lhs = a
  not_derives_self : ∀ rule ∈ rules, ¬Relation.TransGen (Replaces rules) [rule.lhs] [rule.lhs]

theorem isName_iff {a : Symbol} : a.IsName ↔ nameProblem? a = none := by
  rw [nameProblem?_eq_none_iff]
  simp [Symbol.IsName, Symbol.reservedWords, Symbol.terminalsWord, Symbol.emptyWord]

theorem ofTables?_ok {rules : List Rule} {terminals : List Symbol} {g : Grammar}
    (h : ofTables? rules terminals = .ok g) :
    g.rules = rules ∧ g.terminals = .ofList terminals := by
  unfold ofTables? at h
  split at h
  · cases h
  · cases h
    exact ⟨rfl, rfl⟩

theorem exists_ofTables?_iff {rules : List Rule} {terminals : List Symbol} :
    (∃ g, ofTables? rules terminals = .ok g) ↔ problem? rules (.ofList terminals) = none := by
  unfold ofTables?
  split
  · next hp => simp [hp]
  · next hp => simp [hp]

theorem derivationCycle?_eq_none_of_wellFormed {rules : List Rule} {terminals : List Symbol}
    (h : WellFormed rules terminals) (set : SymbolSet) :
    derivationCycle? rules set (nullableOf rules) = none := by
  refine Option.eq_none_iff_forall_ne_some.mpr fun cycle hc => ?_
  obtain ⟨a, ha⟩ := (isCycle_of_derivationCycle? hc).exists_transGen
  obtain ⟨b, hb, _⟩ := Relation.TransGen.head'_iff.mp ha
  obtain ⟨rule, hr, rfl, _⟩ := mem_unitSteps.mp hb
  exact h.not_derives_self rule hr
    (Relation.TransGen.lift' (fun c => [c]) (fun _ _ => replaces_of_mem_unitSteps) _ _ ha)

theorem problem?_eq_none_iff_wellFormed {rules : List Rule} {terminals : List Symbol} :
    problem? rules (.ofList terminals) = none ↔ WellFormed rules terminals := by
  constructor
  · intro hp
    obtain ⟨g, hg⟩ := exists_ofTables?_iff.mpr hp
    obtain ⟨rfl, _⟩ := ofTables?_ok hg
    obtain ⟨hstart, hterm, hrule, hdef, _⟩ := problem?_eq_none_iff.mp hp
    simp only [SymbolSet.mem_toList, SymbolSet.mem_ofList] at hterm hdef
    exact ⟨hstart, fun a ha => isName_iff.mpr (hterm a ha),
      fun rule hr a ha => isName_iff.mpr (hrule rule hr a ha), fun rule hr => (hdef rule hr).1,
      fun rule hr => (hdef rule hr).2, fun rule hr => not_derives_self hr⟩
  · intro h
    refine problem?_eq_none_iff.mpr ⟨h.start, ?_,
      fun rule hr a ha => isName_iff.mp (h.rule_name rule hr a ha), ?_,
      derivationCycle?_eq_none_of_wellFormed h _⟩
    · simp only [SymbolSet.mem_toList, SymbolSet.mem_ofList]
      exact fun a ha => isName_iff.mp (h.terminal_name a ha)
    · simp only [SymbolSet.mem_ofList]
      exact fun rule hr => ⟨h.lhs_not_terminal rule hr, h.defined rule hr⟩

theorem pairwise_rulesOf (g : Grammar) (a : Symbol) : (g.rulesOf a).Pairwise (· < ·) := by
  have hzip : g.rules.zipIdx.Pairwise (·.2 < ·.2) := by
    rw [← List.pairwise_map (f := Prod.snd), List.zipIdx_map_snd]
    exact List.pairwise_lt_range'
  unfold rulesOf
  refine List.pairwise_filterMap.mpr (hzip.imp fun {p q} hpq id hid id' hid' => ?_)
  simp only [Option.ite_none_right_eq_some, Option.some.injEq] at hid hid'
  obtain ⟨_, rfl⟩ := hid
  obtain ⟨_, rfl⟩ := hid'
  exact hpq

/-- **Exactly the well-formed tables are accepted.** A grammar has the rules of its table in their
order, the terminals as a set, and for each symbol the numbers of its rules in increasing order. -/
theorem exists_ofTables?_iff_wellFormed (rules : List Rule) (terminals : List Symbol) :
    ((∃ g, ofTables? rules terminals = .ok g) ↔ WellFormed rules terminals) ∧
    ∀ g, ofTables? rules terminals = .ok g → g.rules = rules ∧
      (∀ a, a ∈ g.terminals ↔ a ∈ terminals) ∧
      ∀ a, (g.rulesOf a).Pairwise (· < ·) ∧
        ∀ id, id ∈ g.rulesOf a ↔ ∃ rule, rules[id]? = some rule ∧ rule.lhs = a := by
  refine ⟨exists_ofTables?_iff.trans problem?_eq_none_iff_wellFormed, fun g hg => ?_⟩
  obtain ⟨rfl, hterm⟩ := ofTables?_ok hg
  refine ⟨rfl, fun a => ?_, fun a => ⟨pairwise_rulesOf g a, fun id => g.mem_rulesOf⟩⟩
  rw [hterm, SymbolSet.mem_ofList]

end ParseForest
