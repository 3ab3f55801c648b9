import Mathlib.Data.List.Nodup
import ParseForest.Forest
import ParseForest.Proofs.Cycle

/-!
# The derivations behind a forest

`expansions` and `ruleDerivations` list derivations where the extraction of a forest lists
trees: in the same order, but without its checks of widths and numbers of children, which
never refuse anything (`candidates_eq_map`, `ruleTrees_eq_map`). Each derivation of the input
that an index allows is listed once (`mem_parses_iff`, `nodup_parses`).
-/

namespace ParseForest

open ParseForest.Derivation Grammar

/-- What an extraction relies on: no entry is listed twice, no rule ends before it begins, and
a rule with nothing on the right ends where it begins. -/
structure SpanIndex.Sound (g : Grammar) (index : SpanIndex) : Prop where
  nodup : ∀ start, (index.startingAt start).Nodup
  le_stop : ∀ {start entry}, entry ∈ index.startingAt start → start ≤ entry.stop
  stop_eq : ∀ {start entry rule}, entry ∈ index.startingAt start → g.rule? entry.rule = some rule →
    rule.rhs = [] → entry.stop = start

namespace Forest

section
variable (g : Grammar) (index : SpanIndex) (input : List Symbol)

/-- The ways to expand a non-terminal and what follows it that begin with an entry of the index,
given the ways to expand what follows it from where the entry ends. -/
def through (inner : RuleId → Nat → Nat → List Derivation) (tails : Nat → List (List Derivation))
    (symbol : Symbol) (rest : List Symbol) (start stop : Nat) (entry : RuleSpan) :
    List (List Derivation) :=
  match g.rule? entry.rule with
  | none => []
  | some rule =>
    if rule.lhs ≠ symbol ∨ stop < entry.stop + g.leastLength rest then []
    else (inner entry.rule start entry.stop).flatMap fun d => (tails entry.stop).map (d :: ·)

/-- The ways to expand symbols over a part of the input, as derivations. -/
def expansions (inner : RuleId → Nat → Nat → List Derivation) :
    List Symbol → Nat → Nat → List (List Derivation)
  | [], start, stop => if start = stop then [[]] else []
  | symbol :: rest, start, stop =>
    if stop < start + g.leastLength (symbol :: rest) then []
    else if symbol ∈ g.terminals then
      if input[start]? = some symbol then
        (expansions inner rest (start + 1) stop).map (.leaf symbol :: ·)
      else []
    else
      (index.startingAt start).flatMap
        (through g inner (fun middle => expansions inner rest middle stop) symbol rest start stop)

/-- The derivations that begin with a rule over a part of the input. -/
def ruleDerivations : Nat → RuleId → Nat → Nat → List Derivation
  | 0, _, _, _ => []
  | depth + 1, id, start, stop =>
    match g.rule? id with
    | none => []
    | some rule =>
      if rule.rhs.isEmpty then [.node id []]
      else (expansions g index input (ruleDerivations depth) rule.rhs start stop).map (.node id)

/-- Derivations of symbols over a part of the input, with all their rules in the index. -/
inductive Covers : List Symbol → Nat → Nat → List Derivation → Prop
  | nil {k} : Covers [] k k []
  | leaf {a α k m ds} : a ∈ g.terminals → input[k]? = some a → Covers α (k + 1) m ds →
      Covers (a :: α) k m (leaf a :: ds)
  | node {id rule α k j m cs ds} : g.rule? id = some rule → ⟨id, j⟩ ∈ index.startingAt k →
      Covers rule.rhs k j cs → Covers α j m ds → Covers (rule.lhs :: α) k m (node id cs :: ds)

/-- Derivations given for the entries of the index begin with their rules and cover their parts. -/
def CoversRules (inner : RuleId → Nat → Nat → List Derivation) : Prop :=
  ∀ k entry rule d, entry ∈ index.startingAt k → g.rule? entry.rule = some rule →
    d ∈ inner entry.rule k entry.stop →
    ∃ cs, d = node entry.rule cs ∧ Covers g index input rule.rhs k entry.stop cs

end

section
variable {g : Grammar} {index : SpanIndex} {input : List Symbol}

theorem Covers.derivations {α : List Symbol} {k m : Nat} {ds : List Derivation}
    (h : Covers g index input α k m ds) : g.Derivations α ds := by
  induction h with
  | nil => exact .nil
  | leaf ha _ _ ih => exact .leaf ha ih
  | node hr _ _ _ ihc ih => exact .node hr ihc ih

theorem Covers.stop_eq {α : List Symbol} {k m : Nat} {ds : List Derivation}
    (h : Covers g index input α k m ds) : m = k + (words ds).length := by
  induction h with
  | nil => simp
  | leaf _ _ _ ih => simp only [words_leaf, List.length_cons]; omega
  | node _ _ _ _ ihc ih => simp only [words_node, List.length_append]; omega

theorem Covers.words_prefix {α : List Symbol} {k m : Nat} {ds : List Derivation}
    (h : Covers g index input α k m ds) : words ds <+: input.drop k := by
  induction h with
  | nil => simp
  | @leaf a α k m ds _ hk _ ih =>
    obtain ⟨hlt, rfl⟩ := List.getElem?_eq_some_iff.mp hk
    rw [words_leaf, List.drop_eq_getElem_cons hlt, List.cons_prefix_cons]
    exact ⟨rfl, ih⟩
  | @node id rule α k j m cs ds _ _ hc _ ihc ih =>
    obtain ⟨u, hu⟩ := ihc
    have hj := hc.stop_eq
    rw [words_node, ← hu, List.prefix_append_right_inj]
    rwa [hj, ← List.drop_drop, ← hu, List.drop_left] at ih

theorem Covers.words_eq {α : List Symbol} {k m : Nat} {ds : List Derivation}
    (h : Covers g index input α k m ds) : words ds = (input.take m).drop k := by
  rw [List.drop_take, h.stop_eq, Nat.add_sub_cancel_left]
  exact List.prefix_iff_eq_take.mp h.words_prefix

theorem Covers.applications_mem {α : List Symbol} {k m : Nat} {ds : List Derivation}
    (h : Covers g index input α k m ds) :
    ∀ ap ∈ applicationsAll k ds, ⟨ap.rule, ap.stop⟩ ∈ index.startingAt ap.start := by
  induction h with
  | nil => simp
  | leaf _ _ _ ih => simpa using ih
  | @node id rule α k j m cs ds _ hmem hc _ ihc ih =>
    have hj := hc.stop_eq
    subst hj
    simp only [applicationsAll_node, List.forall_mem_cons, List.forall_mem_append]
    exact ⟨hmem, ihc, ih⟩

/-- Derivations of the next input are covered if the index has all their rules. -/
theorem covers_of_derivations {α : List Symbol} {ds : List Derivation} (h : g.Derivations α ds) :
    ∀ {k : Nat}, words ds <+: input.drop k →
      (∀ ap ∈ applicationsAll k ds, ⟨ap.rule, ap.stop⟩ ∈ index.startingAt ap.start) →
      Covers g index input α k (k + (words ds).length) ds := by
  induction h with
  | nil =>
    intro k _ _
    simpa using Covers.nil
  | @leaf a α ds ha _ ih =>
    intro k hw hap
    rw [words_leaf] at hw
    obtain ⟨u, hu⟩ := hw
    have hk : input[k]? = some a := by rw [← List.head?_drop, ← hu]; rfl
    have hnext : words ds <+: input.drop (k + 1) := ⟨u, by rw [← List.tail_drop, ← hu]; rfl⟩
    rw [applicationsAll_leaf] at hap
    have := Covers.leaf ha hk (ih hnext hap)
    rwa [words_leaf, List.length_cons, ← Nat.add_assoc, Nat.add_right_comm]
  | @node id rule cs α es hr _ _ ihc ih =>
    intro k hw hap
    rw [words_node] at hw
    obtain ⟨u, hu⟩ := hw
    simp only [applicationsAll_node, List.forall_mem_cons, List.forall_mem_append] at hap
    obtain ⟨hroot, hc, he⟩ := hap
    have hfirst : words cs <+: input.drop k := ⟨words es ++ u, by rw [← List.append_assoc, hu]⟩
    have hrest : words es <+: input.drop (k + (words cs).length) :=
      ⟨u, by rw [← List.drop_drop, ← hu, List.append_assoc, List.drop_left]⟩
    rw [words_node, List.length_append, ← Nat.add_assoc]
    exact .node hr hroot (ihc hfirst hc) (ih hrest he)

/-! ## Membership -/

theorem mem_through {inner : RuleId → Nat → Nat → List Derivation}
    {tails : Nat → List (List Derivation)} {a : Symbol} {α : List Symbol} {k m : Nat} {entry : RuleSpan}
    {ds : List Derivation} : ds ∈ through g inner tails a α k m entry ↔
      ∃ rule, g.rule? entry.rule = some rule ∧ rule.lhs = a ∧ entry.stop + g.leastLength α ≤ m ∧
        ∃ d ∈ inner entry.rule k entry.stop, ∃ es ∈ tails entry.stop, ds = d :: es := by
  unfold through
  cases hr : g.rule? entry.rule with
  | none => simp
  | some rule =>
    by_cases hc : rule.lhs ≠ a ∨ m < entry.stop + g.leastLength α
    · simp only [hc, if_true, List.not_mem_nil, Option.some.injEq, false_iff]
      intro h
      obtain ⟨_, rfl, rfl, hle, _⟩ := h
      exact hc.elim (fun hne => hne rfl) (Nat.not_lt.mpr hle)
    · have hc' := not_or.mp hc
      simp [not_not.mp hc'.1, Nat.le_of_not_lt hc'.2, eq_comm]

theorem mem_expansions_cons {inner : RuleId → Nat → Nat → List Derivation} {a : Symbol} {α : List Symbol}
    {k m : Nat} {ds : List Derivation} : ds ∈ expansions g index input inner (a :: α) k m ↔
      k + g.leastLength (a :: α) ≤ m ∧
      ((a ∈ g.terminals ∧ input[k]? = some a ∧
          ∃ es ∈ expansions g index input inner α (k + 1) m, ds = leaf a :: es) ∨
        (a ∉ g.terminals ∧ ∃ entry ∈ index.startingAt k, ∃ rule, g.rule? entry.rule = some rule ∧
          rule.lhs = a ∧ entry.stop + g.leastLength α ≤ m ∧
          ∃ d ∈ inner entry.rule k entry.stop,
            ∃ es ∈ expansions g index input inner α entry.stop m, ds = d :: es)) := by
  rw [expansions]
  by_cases hm : m < k + g.leastLength (a :: α)
  · simp [hm]
  by_cases ha : a ∈ g.terminals
  · by_cases hk : input[k]? = some a
    · simp [hm, ha, hk, Nat.le_of_not_lt hm, eq_comm]
    · simp [hm, ha, hk]
  · simp only [hm, ha, if_false, Nat.le_of_not_lt hm, true_and, false_and, false_or, not_false_eq_true,
      List.mem_flatMap, mem_through]

theorem mem_ruleDerivations_succ {depth id k j : Nat} {d : Derivation} :
    d ∈ ruleDerivations g index input (depth + 1) id k j ↔ ∃ rule, g.rule? id = some rule ∧
      ((rule.rhs = [] ∧ d = node id []) ∨ (rule.rhs ≠ [] ∧
        ∃ cs ∈ expansions g index input (ruleDerivations g index input depth) rule.rhs k j,
          d = node id cs)) := by
  rw [ruleDerivations]
  cases hr : g.rule? id with
  | none => simp
  | some rule =>
    by_cases he : rule.rhs = []
    · simp [he]
    have he' : rule.rhs.isEmpty = false := by simpa using he
    simp only [he', Bool.false_eq_true, if_false, List.mem_map, Option.some.injEq]
    constructor
    · intro h
      obtain ⟨cs, hc, rfl⟩ := h
      exact ⟨rule, rfl, .inr ⟨he, cs, hc, rfl⟩⟩
    · intro h
      obtain ⟨_, rfl, ⟨hnil, _⟩ | ⟨_, cs, hc, rfl⟩⟩ := h
      · exact absurd hnil he
      · exact ⟨cs, hc, rfl⟩

/-- All that is listed is covered by the part of the input, if that is so of single rules. -/
theorem covers_of_mem_expansions {inner : RuleId → Nat → Nat → List Derivation}
    (hinner : CoversRules g index input inner) :
    ∀ {α : List Symbol} {k m : Nat} {ds : List Derivation},
      ds ∈ expansions g index input inner α k m → Covers g index input α k m ds := by
  intro α
  induction α with
  | nil =>
    intro k m ds h
    rw [expansions] at h
    split at h
    · next hkm =>
      rw [hkm, List.mem_singleton.mp h]
      exact .nil
    · cases h
  | cons a α ih =>
    intro k m ds h
    obtain ⟨_, ⟨ha, hk, es, he, rfl⟩ | ⟨_, entry, hentry, rule, hr, rfl, _, d, hd, es, he, rfl⟩⟩ :=
      mem_expansions_cons.mp h
    · exact .leaf ha hk (ih he)
    · obtain ⟨cs, rfl, hc⟩ := hinner _ _ _ _ hentry hr hd
      exact .node hr hentry hc (ih he)

theorem coversRules_ruleDerivations (hidx : index.Sound g) {depth : Nat} :
    CoversRules g index input (ruleDerivations g index input depth) := by
  induction depth with
  | zero =>
    intro k entry rule d _ _ h
    cases h
  | succ depth ih =>
    intro k entry rule d hentry hr h
    obtain ⟨rule', hr', hcase⟩ := mem_ruleDerivations_succ.mp h
    obtain rfl := Option.some.inj (hr.symm.trans hr')
    rcases hcase with ⟨hnil, rfl⟩ | ⟨_, cs, hc, rfl⟩
    · refine ⟨[], rfl, ?_⟩
      rw [hnil, hidx.stop_eq hentry hr hnil]
      exact .nil
    · exact ⟨cs, rfl, covers_of_mem_expansions ih hc⟩

/-- All that is covered is listed, if rules may nest as deep as it does. -/
theorem mem_expansions_of_covers {α : List Symbol} {k m : Nat} {ds : List Derivation}
    (h : Covers g index input α k m ds) : ∀ {depth : Nat}, heights ds ≤ depth →
      ds ∈ expansions g index input (ruleDerivations g index input depth) α k m := by
  induction h with
  | nil =>
    intro depth _
    rw [expansions, if_pos rfl]
    exact List.mem_singleton_self _
  | @leaf a α k m ds ha hk hcov ih =>
    intro depth hh
    have hcov' := Covers.leaf ha hk hcov
    have hle := leastLength_le hcov'.derivations
    rw [heights, Nat.max_le] at hh
    refine mem_expansions_cons.mpr ⟨?_, .inl ⟨ha, hk, ds, ih hh.2, rfl⟩⟩
    rw [hcov'.stop_eq]
    exact Nat.add_le_add_left hle k
  | @node id rule α k j m cs ds hr hmem hc hcov ihc ih =>
    intro depth hh
    have hcov' := Covers.node hr hmem hc hcov
    have hle := leastLength_le hcov'.derivations
    have hle' := leastLength_le hcov.derivations
    have ht := g.lhs_not_mem_terminals (mem_rules_of_rule? hr)
    rw [heights, Nat.max_le, height] at hh
    obtain ⟨depth', rfl⟩ : ∃ depth', depth = depth' + 1 := ⟨depth - 1, by omega⟩
    have hnode : node id cs ∈ ruleDerivations g index input (depth' + 1) id k j := by
      refine mem_ruleDerivations_succ.mpr ⟨rule, hr, ?_⟩
      by_cases hnil : rule.rhs = []
      · rw [hnil] at hc
        cases hc
        exact .inl ⟨hnil, rfl⟩
      · exact .inr ⟨hnil, cs, ihc (Nat.le_of_succ_le_succ hh.1), rfl⟩
    refine mem_expansions_cons.mpr ⟨?_, .inr ⟨ht, ⟨id, j⟩, hmem, rule, hr, rfl, ?_, _, hnode, ds,
      ih hh.2, rfl⟩⟩
    · rw [hcov'.stop_eq]
      exact Nat.add_le_add_left hle k
    · show j + _ ≤ m
      rw [hcov.stop_eq]
      exact Nat.add_le_add_left hle' j

/-! ## No repetition -/

theorem nodup_flatMap_of_unique {α β : Type} {l : List α} {f : α → List β} (hl : l.Nodup)
    (hf : ∀ x ∈ l, (f x).Nodup) (hu : ∀ x ∈ l, ∀ y ∈ l, ∀ b, b ∈ f x → b ∈ f y → x = y) :
    (l.flatMap f).Nodup := by
  refine List.nodup_flatMap.mpr ⟨hf, ?_⟩
  refine List.Pairwise.imp_of_mem (fun {x y} hx hy hne => ?_) hl
  exact List.disjoint_left.mpr fun b hb hb' => hne (hu x hx y hy b hb hb')

theorem nodup_through {inner : RuleId → Nat → Nat → List Derivation} {tails : Nat → List (List Derivation)}
    {a : Symbol} {α : List Symbol} {k m : Nat} {entry : RuleSpan}
    (hinner : (inner entry.rule k entry.stop).Nodup) (htails : (tails entry.stop).Nodup) :
    (through g inner tails a α k m entry).Nodup := by
  unfold through
  split
  · exact List.nodup_nil
  split
  · exact List.nodup_nil
  refine nodup_flatMap_of_unique hinner (fun d _ => ?_) fun d _ d' _ ds hd hd' => ?_
  · exact htails.map fun _ _ h => List.tail_eq_of_cons_eq h
  · obtain ⟨es, _, rfl⟩ := List.mem_map.mp hd
    obtain ⟨es', _, he⟩ := List.mem_map.mp hd'
    exact (List.head_eq_of_cons_eq he).symm

/-- The first derivation of a list tells the entry that the list begins with. -/
theorem entry_eq_of_mem_through {inner : RuleId → Nat → Nat → List Derivation}
    (hinner : CoversRules g index input inner) {tails : Nat → List (List Derivation)} {a : Symbol}
    {α : List Symbol} {k m : Nat} {x y : RuleSpan} {ds : List Derivation}
    (hx : x ∈ index.startingAt k) (hy : y ∈ index.startingAt k)
    (hdx : ds ∈ through g inner tails a α k m x) (hdy : ds ∈ through g inner tails a α k m y) :
    x = y := by
  obtain ⟨_, hr, _, _, d, hd, es, _, rfl⟩ := mem_through.mp hdx
  obtain ⟨_, hr', _, _, d', hd', es', _, he⟩ := mem_through.mp hdy
  obtain ⟨cs, rfl, hc⟩ := hinner _ _ _ _ hx hr hd
  obtain ⟨cs', rfl, hc'⟩ := hinner _ _ _ _ hy hr' hd'
  have hnode := List.head_eq_of_cons_eq he
  injection hnode with hrule hchildren
  have hstop := hc.stop_eq
  rw [hchildren, ← hc'.stop_eq] at hstop
  obtain ⟨rx, sx⟩ := x
  obtain ⟨ry, sy⟩ := y
  simp only at hrule hstop
  rw [hrule, hstop]

theorem nodup_expansions (hidx : index.Sound g) {inner : RuleId → Nat → Nat → List Derivation}
    (hinner : CoversRules g index input inner) (hnd : ∀ id k j, (inner id k j).Nodup) {α : List Symbol} :
    ∀ {k m : Nat}, (expansions g index input inner α k m).Nodup := by
  induction α with
  | nil =>
    intro k m
    rw [expansions]
    split
    · exact List.nodup_singleton _
    · exact List.nodup_nil
  | cons a α ih =>
    intro k m
    rw [expansions]
    split
    · exact List.nodup_nil
    split
    · split
      · exact ih.map fun _ _ h => List.tail_eq_of_cons_eq h
      · exact List.nodup_nil
    · refine nodup_flatMap_of_unique (hidx.nodup k) (fun _ _ => nodup_through (hnd _ _ _) ih) ?_
      intro x hx y hy ds hdx hdy
      exact entry_eq_of_mem_through hinner hx hy hdx hdy

theorem nodup_ruleDerivations (hidx : index.Sound g) {depth : Nat} :
    ∀ id k j, (ruleDerivations g index input depth id k j).Nodup := by
  induction depth with
  | zero => exact fun _ _ _ => List.nodup_nil
  | succ depth ih =>
    intro id k j
    rw [ruleDerivations]
    split
    · exact List.nodup_nil
    split
    · exact List.nodup_singleton _
    · refine (nodup_expansions hidx (coversRules_ruleDerivations hidx) ih).map fun _ _ h => ?_
      injection h

/-! ## The trees of the derivations -/

theorem combine_nil (symbols width total : Nat) (rest : List Candidate) :
    combine symbols width total [] rest = [] := rfl

/-- Each subtree in front of each candidate, whatever they cover. -/
def join (width : Nat) (subtrees : List Tree) (rest : List Candidate) : List Candidate :=
  subtrees.flatMap fun subtree =>
    rest.map fun candidate => ⟨subtree :: candidate.trees, width + candidate.width⟩

/-- Subtrees with a child for each symbol of their rule and candidates of the width that is left
are all combined. -/
theorem combine_eq_join {symbols width total : Nat} {subtrees : List Tree} {rest : List Candidate}
    (hs : ∀ t ∈ subtrees, t.children.length = symbols) (hr : ∀ c ∈ rest, width + c.width = total) :
    combine symbols width total subtrees rest = join width subtrees rest := by
  have hsubtrees : subtrees.filter (·.children.length = symbols) = subtrees :=
    List.filter_eq_self.mpr fun t ht => decide_eq_true (hs t ht)
  have hrest : rest.filter (width + ·.width = total) = rest :=
    List.filter_eq_self.mpr fun c hc => decide_eq_true (hr c hc)
  rw [combine, join, hsubtrees, hrest]

/-- The candidate that lists of derivations of a given width make. -/
def toCandidate (g : Grammar) (width : Nat) (ds : List Derivation) : Candidate :=
  ⟨toTrees g ds, width⟩

theorem combine_eq_map {symbols width rest total : Nat} (hw : width + rest = total)
    {ds : List Derivation} (hd : ∀ d ∈ ds, (d.toTree g).children.length = symbols)
    (ess : List (List Derivation)) :
    combine symbols width total (ds.map (toTree g)) (ess.map (toCandidate g rest)) =
      (ds.flatMap fun d => ess.map (d :: ·)).map (toCandidate g total) := by
  have hrest : ∀ c ∈ ess.map (toCandidate g rest), width + c.width = total :=
    List.forall_mem_map.mpr fun _ _ => hw
  rw [combine_eq_join (List.forall_mem_map.mpr hd) hrest, join, List.flatMap_map, List.map_flatMap]
  refine List.flatMap_congr fun d _ => ?_
  rw [List.map_map, List.map_map]
  refine List.map_congr_left fun es _ => ?_
  simp [toCandidate, hw]

theorem not_mem_nullable_of_mem_terminals {a : Symbol} (ha : a ∈ g.terminals) : a ∉ g.nullable := by
  intro hn
  refine nullable_induction (P := (· ∉ g.terminals)) (fun rule hr _ => ?_) a hn ha
  exact g.lhs_not_mem_terminals hr

theorem length_of_mem_expansions {inner : RuleId → Nat → Nat → List Derivation}
    (hinner : CoversRules g index input inner) {α : List Symbol} {k m : Nat} {ds : List Derivation}
    (h : ds ∈ expansions g index input inner α k m) : ds.length = α.length :=
  (covers_of_mem_expansions hinner h).derivations.length_eq

theorem length_children {inner : RuleId → Nat → Nat → List Derivation}
    (hinner : CoversRules g index input inner) {k : Nat} {entry : RuleSpan} {rule : Rule} {d : Derivation}
    (hentry : entry ∈ index.startingAt k) (hr : g.rule? entry.rule = some rule)
    (hd : d ∈ inner entry.rule k entry.stop) : (d.toTree g).children.length = rule.rhs.length := by
  obtain ⟨cs, rfl, hc⟩ := hinner _ _ _ _ hentry hr hd
  simp only [toTree, toTrees_length]
  exact hc.derivations.length_eq

/-- If the trees for rules are those of derivations, so are the candidates for symbols. -/
theorem candidates_eq_map (hidx : index.Sound g) {trees : RuleId → Nat → Nat → List Tree}
    {inner : RuleId → Nat → Nat → List Derivation} (hinner : CoversRules g index input inner)
    (htrees : ∀ id k j, k ≤ j → trees id k j = (inner id k j).map (toTree g)) {α : List Symbol} :
    ∀ {k m : Nat}, k ≤ m → candidates g index input trees α k m =
      (expansions g index input inner α k m).map (toCandidate g (m - k)) := by
  induction α with
  | nil =>
    intro k m _
    rw [candidates, expansions]
    by_cases hkm : k = m
    · subst hkm
      simp [toCandidate]
    · simp [hkm]
  | cons a α ih =>
    intro k m hkm
    rw [candidates, expansions]
    by_cases hm : m < k + g.leastLength (a :: α)
    · simp [hm]
    rw [if_neg hm, if_neg hm]
    by_cases ha : a ∈ g.terminals
    · rw [if_pos ha, if_pos ha]
      by_cases hk : input[k]? = some a
      · have hlt : k + 1 ≤ m := by
          rw [leastLength_cons, if_neg (not_mem_nullable_of_mem_terminals ha)] at hm
          omega
        rw [if_pos hk, if_pos hk, ih hlt, List.map_map, List.map_map]
        refine List.map_congr_left fun ds _ => ?_
        have hw : 1 + (m - (k + 1)) = m - k := by omega
        simp [toCandidate, toTree, hw]
      · rw [if_neg hk, if_neg hk]
        rfl
    · rw [if_neg ha, if_neg ha, List.map_flatMap]
      refine List.flatMap_congr fun entry hentry => ?_
      unfold through
      cases hr : g.rule? entry.rule with
      | none => rfl
      | some rule =>
        simp only
        split
        · rfl
        next hc =>
        have hle : entry.stop ≤ m := by
          have := (not_or.mp hc).2
          omega
        have hstart := hidx.le_stop hentry
        have hchildren := fun d => length_children hinner (d := d) hentry hr
        have hwidth : entry.stop - k + (m - entry.stop) = m - k := by omega
        rw [← combine_eq_map (g := g) hwidth hchildren, htrees entry.rule k entry.stop hstart, ih hle]
        cases inner entry.rule k entry.stop with
        | nil => simp [combine_nil]
        | cons d ds => simp

/-- The trees for a rule are those of the derivations that begin with it. -/
theorem ruleTrees_eq_map (hidx : index.Sound g) {depth : Nat} : ∀ id k j, k ≤ j →
    ruleTrees g index input depth id k j = (ruleDerivations g index input depth id k j).map (toTree g) := by
  induction depth with
  | zero => intro id k j _; rfl
  | succ depth ih =>
    intro id k j hkj
    have hinner := @coversRules_ruleDerivations g index input hidx depth
    rw [ruleTrees, ruleDerivations]
    cases hr : g.rule? id with
    | none => rfl
    | some rule =>
      by_cases he : rule.rhs = []
      · simp [he, toTree, headName, hr, Tree.emptyNode]
      have he' : rule.rhs.isEmpty = false := by simpa using he
      simp only [he', Bool.false_eq_true, if_false]
      rw [candidates_eq_map hidx hinner ih hkj, List.filter_eq_self.mpr ?_, List.map_map, List.map_map]
      · refine List.map_congr_left fun ds hds => ?_
        have hne : ds.isEmpty = false := by
          have hlen := length_of_mem_expansions hinner hds
          cases ds with
          | nil => exact absurd (List.eq_nil_of_length_eq_zero hlen.symm) he
          | cons _ _ => rfl
        simp [toCandidate, toTree, headName, hr, Tree.branch, hne]
      · intro c hc
        obtain ⟨ds, _, rfl⟩ := List.mem_map.mp hc
        simp [toCandidate]

/-- The derivations of the input behind a forest. -/
def parses (g : Grammar) (index : SpanIndex) (input : List Symbol) : List Derivation :=
  if ⟨0, input.length⟩ ∈ index.startingAt 0 then
    ruleDerivations g index input (depthBound g input) 0 0 input.length
  else []

/-- An extraction looks for the start rule over the whole input. -/
theorem any_root_iff (index : SpanIndex) (input : List Symbol) :
    ((index.startingAt 0).any fun entry => entry.rule = 0 ∧ entry.stop = input.length) = true ↔
      ⟨0, input.length⟩ ∈ index.startingAt 0 := by
  simp only [List.any_eq_true, decide_eq_true_eq]
  constructor
  · intro h
    obtain ⟨⟨_, _⟩, hmem, rfl, rfl⟩ := h
    exact hmem
  · exact fun hmem => ⟨_, hmem, rfl, rfl⟩

theorem ofIndex_eq_map (hidx : index.Sound g) :
    ofIndex g index input = (parses g index input).map (toTree g) := by
  unfold ofIndex parses
  have hany := any_root_iff index input
  by_cases hmem : ⟨0, input.length⟩ ∈ index.startingAt 0
  · rw [if_pos (hany.mpr hmem), if_pos hmem, ruleTrees_eq_map hidx _ _ _ (Nat.zero_le _)]
  · rw [if_neg (mt hany.mp hmem), if_neg hmem, List.map_nil]

theorem nodup_parses (hidx : index.Sound g) : (parses g index input).Nodup := by
  unfold parses
  split
  · exact nodup_ruleDerivations hidx _ _ _
  · exact List.nodup_nil

theorem isParse_of_mem_parses (hidx : index.Sound g) {d : Derivation} (h : d ∈ parses g index input) :
    g.IsParse input d ∧ ∀ ap ∈ d.applications 0, ⟨ap.rule, ap.stop⟩ ∈ index.startingAt ap.start := by
  unfold parses at h
  split at h
  · next hroot =>
    obtain ⟨cs, rfl, hc⟩ := coversRules_ruleDerivations hidx _ _ _ _ hroot g.rule?_zero h
    have hlen : input.length = (words cs).length := by simpa using hc.stop_eq
    have hword : words cs = input := by
      have := hc.words_prefix
      rw [List.drop_zero] at this
      exact this.eq_of_length hlen.symm
    refine ⟨⟨cs, rfl, hc.derivations, hword⟩, ?_⟩
    rw [applications, List.forall_mem_cons, Nat.zero_add, hword]
    exact ⟨hroot, hc.applications_mem⟩
  · cases h

theorem mem_parses_of_isParse {d : Derivation} (hp : g.IsParse input d)
    (hap : ∀ ap ∈ d.applications 0, ⟨ap.rule, ap.stop⟩ ∈ index.startingAt ap.start) :
    d ∈ parses g index input := by
  have hheight := height_le hp
  obtain ⟨cs, rfl, hd, rfl⟩ := hp
  rw [applications, List.forall_mem_cons, Nat.zero_add] at hap
  obtain ⟨hroot, hinner⟩ := hap
  unfold parses
  rw [if_pos hroot]
  have hall : words cs <+: (words cs).drop 0 := List.prefix_refl _
  have hcov := covers_of_derivations hd hall hinner
  rw [Nat.zero_add] at hcov
  -- the bound leaves a level for the root
  have hbound : heights cs + 1 ≤ depthBound g (words cs) := by
    rw [height] at hheight
    exact hheight
  obtain ⟨depth, hdepth⟩ : ∃ depth, depthBound g (words cs) = depth + 1 :=
    ⟨depthBound g (words cs) - 1, by omega⟩
  rw [hdepth] at hbound ⊢
  exact mem_ruleDerivations_succ.mpr ⟨_, g.rule?_zero, .inr ⟨g.startRule_rhs_ne_nil, cs,
    mem_expansions_of_covers hcov (Nat.le_of_succ_le_succ hbound), rfl⟩⟩

/-- A forest is made of the derivations of the input whose rules are all in the index. -/
theorem mem_parses_iff (hidx : index.Sound g) {d : Derivation} : d ∈ parses g index input ↔
    g.IsParse input d ∧ ∀ ap ∈ d.applications 0, ⟨ap.rule, ap.stop⟩ ∈ index.startingAt ap.start :=
  ⟨isParse_of_mem_parses hidx, fun h => mem_parses_of_isParse h.1 h.2⟩

end

end Forest

end ParseForest
