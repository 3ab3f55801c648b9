import ParseForest.Proofs.Nesting

/-!
# Candidates are exact

A search looks for the candidates of a rule from a dot on, over a part of the input. `Makes` tells which
searches an extraction makes and how deep rules may still nest inside each. What a search finds has a
tree for each symbol that is left, the width of the part and its symbols at the leaves
(`fits_of_mem_candidates`). So the tests of widths and of numbers of children refuse nothing, and the
extraction without them finds the same trees (`untestedRuleTrees_eq`).
-/

namespace ParseForest

open ParseForest.Derivation Grammar

/-- A candidate has so many trees, and the width and the symbols of a part of the input. -/
structure Candidate.Fits (input : List Symbol) (symbols start stop : Nat) (c : Candidate) : Prop where
  length_eq : c.trees.length = symbols
  width_eq : c.width = stop - start
  yield_eq : Tree.yieldList c.trees = ((input.take stop).drop start).map Symbol.name

namespace Forest

/-! ## Searches -/

/-- What is left of a rule from a dot on, to be expanded over a part of the input. -/
structure Search where
  rule : RuleId
  dot : Nat
  start : Nat
  stop : Nat
deriving DecidableEq, Repr

section
variable (g : Grammar) (index : SpanIndex) (input : List Symbol)

/-- There is a symbol behind the dot, and room for it and for those that follow. -/
structure Search.ComesTo (s : Search) (rule : Rule) (symbol : Symbol) : Prop where
  rule_eq : g.rule? s.rule = some rule
  symbol_eq : rule.rhs[s.dot]? = some symbol
  room : s.start + g.leastLength (rule.rhs.drop s.dot) ≤ s.stop

/-- The symbol behind the dot is expanded by an entry of the index that leaves room for the others. -/
structure Search.Tries (s : Search) (rule : Rule) (entry : RuleSpan) (child : Rule) : Prop where
  comesTo : s.ComesTo g rule child.lhs
  mem : entry ∈ index.startingAt s.start
  child_eq : g.rule? entry.rule = some child
  room : entry.stop + g.leastLength (rule.rhs.drop (s.dot + 1)) ≤ s.stop

/-- The searches that an extraction makes, each with how deep rules may nest inside it. A search goes
on behind a terminal that the input has, asks for the trees of the entries that it tries, and goes on
behind those that have some. -/
inductive Makes : Nat → Search → Prop
  | root {depth} : ⟨0, input.length⟩ ∈ index.startingAt 0 → depthBound g input = depth + 1 →
      Makes depth ⟨0, 0, 0, input.length⟩
  | leaf {depth s rule a} : Makes depth s → s.ComesTo g rule a → a ∈ g.terminals →
      input[s.start]? = some a → Makes depth ⟨s.rule, s.dot + 1, s.start + 1, s.stop⟩
  | inside {depth s rule entry child} : Makes (depth + 1) s → s.Tries g index rule entry child →
      child.rhs ≠ [] → Makes depth ⟨entry.rule, 0, s.start, entry.stop⟩
  | behind {depth s rule entry child} : Makes depth s → s.Tries g index rule entry child →
      ruleTrees g index input depth entry.rule s.start entry.stop ≠ [] →
      Makes depth ⟨s.rule, s.dot + 1, entry.stop, s.stop⟩

/-- A search stays within its rule and the input, and all that it finds fits, so that candidates for a
whole rule pass the test of their width. The trees of the entries that it tries are those that the
recursion without a bound finds; they pass the test of their children, and each candidate behind them
passes the test of widths. -/
structure Search.Exact (depth : Nat) (s : Search) (rule : Rule) : Prop where
  rule_eq : g.rule? s.rule = some rule
  dot_le : s.dot ≤ rule.rhs.length
  start_le : s.start ≤ s.stop
  stop_le : s.stop ≤ input.length
  fits : ∀ c ∈ candidates g index input (ruleTrees g index input depth) (rule.rhs.drop s.dot) s.start s.stop,
    c.Fits input (rule.rhs.length - s.dot) s.start s.stop
  evaluates : ∀ {entry child}, s.Tries g index rule entry child →
    Evaluates g index input ⟨entry.rule, s.start, entry.stop⟩
      (ruleTrees g index input depth entry.rule s.start entry.stop)
  children_eq : ∀ {entry child}, s.Tries g index rule entry child →
    ∀ t ∈ ruleTrees g index input depth entry.rule s.start entry.stop,
      t.children.length = child.rhs.length
  widths_eq : ∀ {entry child}, s.Tries g index rule entry child →
    ∀ c ∈ candidates g index input (ruleTrees g index input depth) (rule.rhs.drop (s.dot + 1)) entry.stop s.stop,
      entry.stop - s.start + c.width = s.stop - s.start

/-! ## The extraction without tests -/

/-- The ways to expand symbols over a part of the input, with all that is found put together. -/
def untestedCandidates (trees : RuleId → Nat → Nat → List Tree) :
    List Symbol → Nat → Nat → List Candidate
  | [], start, stop => if start = stop then [⟨[], 0⟩] else []
  | symbol :: rest, start, stop =>
    if stop < start + g.leastLength (symbol :: rest) then []
    else if symbol ∈ g.terminals then
      if input[start]? = some symbol then
        (untestedCandidates trees rest (start + 1) stop).map fun candidate =>
          ⟨.leaf symbol.name :: candidate.trees, 1 + candidate.width⟩
      else []
    else
      (index.startingAt start).flatMap fun entry =>
        match g.rule? entry.rule with
        | none => []
        | some rule =>
          if rule.lhs ≠ symbol ∨ stop < entry.stop + g.leastLength rest then []
          else match trees entry.rule start entry.stop with
            | [] => []
            | subtrees => join (entry.stop - start) subtrees (untestedCandidates trees rest entry.stop stop)

/-- The trees for a rule over a part of the input, made of all candidates. -/
def untestedRuleTrees : Nat → RuleId → Nat → Nat → List Tree
  | 0, _, _, _ => []
  | depth + 1, id, start, stop =>
    match g.rule? id with
    | none => []
    | some rule =>
      if rule.rhs.isEmpty then [.emptyNode rule.lhs.name]
      else
        (untestedCandidates g index input (untestedRuleTrees depth) rule.rhs start stop).map
          fun candidate => .branch rule.lhs.name candidate.trees

end

section
variable {g : Grammar} {index : SpanIndex} {input : List Symbol}

/-! ## What is found fits -/

theorem le_of_mem_candidates {trees : RuleId → Nat → Nat → List Tree} {α : List Symbol} {k m : Nat}
    {c : Candidate} (h : c ∈ candidates g index input trees α k m) : k ≤ m := by
  cases α with
  | nil =>
    by_cases hkm : k = m
    · exact Nat.le_of_eq hkm
    · simp [candidates, hkm] at h
  | cons a α =>
    by_cases hm : m < k + g.leastLength (a :: α)
    · simp [candidates, hm] at h
    · omega

section
variable (hidx : index.Sound g) {depth k m : Nat}
include hidx

theorem fits_of_mem_candidates {α : List Symbol} {c : Candidate}
    (h : c ∈ candidates g index input (ruleTrees g index input depth) α k m) : c.Fits input α.length k m := by
  have hinner := @coversRules_ruleDerivations g index input hidx depth
  have hmap := candidates_eq_map hidx hinner (ruleTrees_eq_map hidx) (le_of_mem_candidates h) (α := α)
  rw [hmap] at h
  obtain ⟨ds, hds, rfl⟩ := List.mem_map.mp h
  have hcov := covers_of_mem_expansions hinner hds
  refine ⟨?_, rfl, ?_⟩
  · show (toTrees g ds).length = α.length
    rw [toTrees_length, hcov.derivations.length_eq]
  · show Tree.yieldList (toTrees g ds) = _
    rw [yieldList_toTrees, hcov.words_eq]

theorem length_children_of_mem_ruleTrees {entry : RuleSpan} {rule : Rule} {t : Tree}
    (hentry : entry ∈ index.startingAt k) (hr : g.rule? entry.rule = some rule)
    (h : t ∈ ruleTrees g index input depth entry.rule k entry.stop) :
    t.children.length = rule.rhs.length := by
  rw [ruleTrees_eq_map hidx _ _ _ (hidx.le_stop hentry)] at h
  obtain ⟨d, hd, rfl⟩ := List.mem_map.mp h
  exact length_children (coversRules_ruleDerivations hidx) hentry hr hd

theorem add_width_of_mem_candidates {entry : RuleSpan} {α : List Symbol} {c : Candidate}
    (hentry : entry ∈ index.startingAt k)
    (h : c ∈ candidates g index input (ruleTrees g index input depth) α entry.stop m) :
    entry.stop - k + c.width = m - k := by
  have hstart := hidx.le_stop hentry
  have hstop := le_of_mem_candidates h
  rw [(fits_of_mem_candidates hidx h).width_eq]
  omega

/-! ## Nothing is refused -/

theorem untestedCandidates_eq {α : List Symbol} : ∀ {k m : Nat},
    untestedCandidates g index input (ruleTrees g index input depth) α k m =
      candidates g index input (ruleTrees g index input depth) α k m := by
  induction α with
  | nil => intro k m; rfl
  | cons a α ih =>
    intro k m
    rw [untestedCandidates, candidates, ih]
    by_cases hm : m < k + g.leastLength (a :: α)
    · rw [if_pos hm, if_pos hm]
    rw [if_neg hm, if_neg hm]
    by_cases ha : a ∈ g.terminals
    · rw [if_pos ha, if_pos ha]
    rw [if_neg ha, if_neg ha]
    refine List.flatMap_congr fun entry hentry => ?_
    cases hr : g.rule? entry.rule with
    | none => rfl
    | some rule =>
      have hjoin : combine rule.rhs.length (entry.stop - k) (m - k)
          (ruleTrees g index input depth entry.rule k entry.stop)
          (candidates g index input (ruleTrees g index input depth) α entry.stop m) =
            join (entry.stop - k) (ruleTrees g index input depth entry.rule k entry.stop)
              (candidates g index input (ruleTrees g index input depth) α entry.stop m) :=
        combine_eq_join (fun _ => length_children_of_mem_ruleTrees hidx hentry hr)
          fun _ => add_width_of_mem_candidates hidx hentry
      rw [ih]
      cases ht : ruleTrees g index input depth entry.rule k entry.stop with
      | nil => rfl
      | cons t ts =>
        rw [ht] at hjoin
        simp only [hjoin]

theorem untestedRuleTrees_eq : untestedRuleTrees g index input depth = ruleTrees g index input depth := by
  induction depth with
  | zero => rfl
  | succ depth ih =>
    funext id k m
    rw [untestedRuleTrees, ruleTrees, ih]
    cases g.rule? id with
    | none => rfl
    | some rule =>
      have hall : (candidates g index input (ruleTrees g index input depth) rule.rhs k m).filter
          (·.width = m - k) = candidates g index input (ruleTrees g index input depth) rule.rhs k m :=
        List.filter_eq_self.mpr fun c hc => decide_eq_true (fits_of_mem_candidates hidx hc).width_eq
      simp only [untestedCandidates_eq hidx, hall]

end

/-! ## Searches ask for what a call asks for -/

section
variable {trees : RuleId → Nat → Nat → List Tree} {s : Search} {rule child : Rule} {entry : RuleSpan}

theorem Search.ComesTo.dot_lt {a : Symbol} (h : s.ComesTo g rule a) : s.dot < rule.rhs.length :=
  (List.getElem?_eq_some_iff.mp h.symbol_eq).1

theorem Search.ComesTo.drop_eq {a : Symbol} (h : s.ComesTo g rule a) :
    rule.rhs.drop s.dot = a :: rule.rhs.drop (s.dot + 1) := by
  obtain ⟨hlt, hget⟩ := List.getElem?_eq_some_iff.mp h.symbol_eq
  rw [List.drop_eq_getElem_cons hlt, hget]

theorem Search.ComesTo.requests_leaf {a : Symbol} (h : s.ComesTo g rule a) (ha : a ∈ g.terminals)
    (hread : input[s.start]? = some a) :
    requests g index input trees (rule.rhs.drop s.dot) s.start s.stop =
      requests g index input trees (rule.rhs.drop (s.dot + 1)) (s.start + 1) s.stop := by
  have hroom := Nat.not_lt.mpr h.room
  rw [h.drop_eq] at hroom ⊢
  rw [requests, if_neg hroom, if_pos ha, if_pos hread]

theorem Search.Tries.mem_requests (h : s.Tries g index rule entry child) {c : Application}
    (hc : c = ⟨entry.rule, s.start, entry.stop⟩ ∨ trees entry.rule s.start entry.stop ≠ [] ∧
      c ∈ requests g index input trees (rule.rhs.drop (s.dot + 1)) entry.stop s.stop) :
    c ∈ requests g index input trees (rule.rhs.drop s.dot) s.start s.stop := by
  have hroom := Nat.not_lt.mpr h.comesTo.room
  have hbehind : ¬(child.lhs ≠ child.lhs ∨ s.stop < entry.stop + g.leastLength (rule.rhs.drop (s.dot + 1))) :=
    not_or.mpr ⟨fun hne => hne rfl, Nat.not_lt.mpr h.room⟩
  rw [h.comesTo.drop_eq] at hroom ⊢
  rw [requests, if_neg hroom, if_neg (g.lhs_not_mem_terminals (mem_rules_of_rule? h.child_eq))]
  refine List.mem_flatMap.mpr ⟨entry, h.mem, ?_⟩
  simp only [h.child_eq]
  rw [if_neg hbehind]
  rcases hc with rfl | ⟨hne, hc⟩
  · exact List.mem_cons_self
  · refine List.mem_cons_of_mem _ ?_
    split
    · next hnil => exact absurd hnil hne
    · exact hc

end

/-! ## The searches of an extraction -/

section
variable (hidx : index.Sound g)
include hidx

/-- Each search stays within its rule and within the input. -/
theorem Makes.within {depth : Nat} {s : Search} (h : Makes g index input depth s) :
    ∃ rule, g.rule? s.rule = some rule ∧ s.dot ≤ rule.rhs.length ∧ s.start ≤ s.stop ∧
      s.stop ≤ input.length := by
  induction h with
  | root => exact ⟨g.startRule, g.rule?_zero, Nat.zero_le _, Nat.zero_le _, Nat.le_refl _⟩
  | @leaf depth s rule a _ hcomes ha _ ih =>
    obtain ⟨_, _, _, _, hstop⟩ := ih
    have hroom := hcomes.room
    rw [hcomes.drop_eq, leastLength_cons, if_neg (not_mem_nullable_of_mem_terminals ha)] at hroom
    have hstart : s.start + 1 ≤ s.stop := by omega
    exact ⟨rule, hcomes.rule_eq, hcomes.dot_lt, hstart, hstop⟩
  | @inside depth s rule entry child _ htries _ ih =>
    obtain ⟨_, _, _, _, hstop⟩ := ih
    have hroom := htries.room
    have hentry : entry.stop ≤ input.length := by omega
    exact ⟨child, htries.child_eq, Nat.zero_le _, hidx.le_stop htries.mem, hentry⟩
  | @behind depth s rule entry child _ htries _ ih =>
    obtain ⟨_, _, _, _, hstop⟩ := ih
    have hroom := htries.room
    have hentry : entry.stop ≤ s.stop := by omega
    exact ⟨rule, htries.comesTo.rule_eq, htries.comesTo.dot_lt, hentry, hstop⟩

section
variable (hnull : ∀ {k entry rule}, entry ∈ index.startingAt k → g.rule? entry.rule = some rule →
    entry.stop = k → rule.lhs ∈ g.nullable)
  {r : Symbol → Nat} (hpos : ∀ a ∈ g.nonterminals, 0 < r a ∧ r a ≤ g.nonterminals.size)
  (hsteps : ∀ a ∈ g.nonterminals, ∀ b ∈ g.steps a, r b < r a)
include hnull hpos hsteps

/-- What a call asks for weighs less than the call, so it nests no deeper than the call allows. -/
theorem weight_le_of_mem_requests {trees : RuleId → Nat → Nat → List Tree} {depth : Nat} (ap : Application)
    {rule : Rule} (hr : g.rule? ap.rule = some rule) (hap : weight g r (callPart g ap) ≤ depth + 1) :
    ∀ c ∈ requests g index input trees (rule.rhs.drop 0) ap.start ap.stop,
      0 < weight g r (callPart g c) ∧ weight g r (callPart g c) ≤ depth := by
  intro c hc
  have hcall : c ∈ calls g index input trees ap := by simpa [calls, hr] using hc
  obtain ⟨hlo, hlt⟩ := weight_lt_of_mem_calls hidx hnull hpos hsteps hcall
  exact ⟨hlo, by omega⟩

/-- The bound on nesting is never met: what a search asks for nests no deeper than is left. -/
theorem Makes.weight_le {depth : Nat} {s : Search} (h : Makes g index input depth s) :
    ∀ {rule : Rule}, g.rule? s.rule = some rule →
      ∀ c ∈ requests g index input (ruleTrees g index input depth) (rule.rhs.drop s.dot) s.start s.stop,
        0 < weight g r (callPart g c) ∧ weight g r (callPart g c) ≤ depth := by
  induction h with
  | @root depth _ hdepth =>
    intro rule hr
    refine weight_le_of_mem_requests hidx hnull hpos hsteps (rootCall input) hr ?_
    rw [← hdepth]
    exact (weight_rootCall hpos input).2
  | @leaf depth s rule a _ hcomes ha hread ih =>
    intro rule' hr
    obtain rfl := Option.some.inj (hcomes.rule_eq.symm.trans hr)
    intro c hc
    refine ih hr c ?_
    rwa [hcomes.requests_leaf ha hread]
  | @inside depth s rule entry child _ htries _ ih =>
    intro rule' hr
    -- the entry itself is asked for one level above
    have hcall := (ih htries.comesTo.rule_eq _ (htries.mem_requests (.inl rfl))).2
    exact weight_le_of_mem_requests hidx hnull hpos hsteps ⟨entry.rule, s.start, entry.stop⟩ hr hcall
  | @behind depth s rule entry child _ htries hne ih =>
    intro rule' hr
    obtain rfl := Option.some.inj (htries.comesTo.rule_eq.symm.trans hr)
    intro c hc
    exact ih hr c (htries.mem_requests (.inr ⟨hne, hc⟩))

theorem Makes.evaluates {depth : Nat} {s : Search} (h : Makes g index input depth s) {rule child : Rule}
    {entry : RuleSpan} (htries : s.Tries g index rule entry child) :
    Evaluates g index input ⟨entry.rule, s.start, entry.stop⟩
      (ruleTrees g index input depth entry.rule s.start entry.stop) := by
  obtain ⟨hlo, hhi⟩ := h.weight_le hidx hnull hpos hsteps htries.comesTo.rule_eq _
    (htries.mem_requests (.inl rfl))
  exact evaluates_ruleTrees hidx hnull hpos hsteps hlo hhi

end

end

end

/-- **Candidates are exact.** Over the chart of any input `a`, each search that the extraction of the
forest of any input `b` makes stays within its rule and within `b`. Each candidate that it finds has a
tree for each symbol that is left, the width of its part, and the symbols of the part at the leaves.
No test of children or of widths refuses anything there, and without these tests the extraction finds
the same trees for each rule over each part. -/
theorem searches_exact (g : Grammar) (a b : List Symbol) :
    (∀ depth s, Makes g (.ofChart g (.build g a)) b depth s →
      ∃ rule, s.Exact g (.ofChart g (.build g a)) b depth rule) ∧
    ∀ depth id k m, untestedRuleTrees g (.ofChart g (.build g a)) b depth id k m =
      ruleTrees g (.ofChart g (.build g a)) b depth id k m := by
  have hidx := SpanIndex.sound_build g a
  have hnull := @SpanIndex.lhs_mem_nullable_of_startingAt g a
  obtain ⟨r, hpos, hsteps⟩ := g.exists_rank
  constructor
  · intro depth s hmakes
    obtain ⟨rule, hr, hdot, hstart, hstop⟩ := hmakes.within hidx
    refine ⟨rule, hr, hdot, hstart, hstop, ?_, hmakes.evaluates hidx hnull hpos hsteps, ?_, ?_⟩
    · intro c hc
      rw [← List.length_drop]
      exact fits_of_mem_candidates hidx hc
    · intro entry child htries t ht
      exact length_children_of_mem_ruleTrees hidx htries.mem htries.child_eq ht
    · intro entry child htries c hc
      exact add_width_of_mem_candidates hidx htries.mem hc
  · intro depth id k m
    rw [untestedRuleTrees_eq hidx]

/-- Before the only symbol of an input stands a tree of width zero, and the entries are those of the
chart of a longer input. -/
theorem descent_searches :
    let index := SpanIndex.ofChart descent (.build descent [⟨"b"⟩, ⟨"b"⟩])
    let found : Candidate := ⟨[.branch "A" [.branch "B" [.emptyNode "C"], .emptyNode "C"], .leaf "b"], 1⟩
    Makes descent index [⟨"b"⟩] 7 ⟨0, 0, 0, 1⟩ ∧ Makes descent index [⟨"b"⟩] 7 ⟨0, 1, 0, 1⟩ ∧
    candidates descent index [⟨"b"⟩] (ruleTrees descent index [⟨"b"⟩] 7) descent.startRule.rhs 0 1 = [found] ∧
    found.Fits [⟨"b"⟩] 2 0 1 ∧ ∃ rule, Search.Exact descent index [⟨"b"⟩] 7 ⟨0, 1, 0, 1⟩ rule := by
  intro index found
  have hroot : Makes descent index [⟨"b"⟩] 7 ⟨0, 0, 0, 1⟩ := .root (by decide +kernel) (by decide +kernel)
  have htries : Search.Tries descent index ⟨0, 0, 0, 1⟩ descent.startRule ⟨1, 0⟩ ⟨⟨"A"⟩, [⟨"B"⟩, ⟨"C"⟩]⟩ :=
    ⟨⟨rfl, rfl, by decide +kernel⟩, by decide +kernel, rfl, by decide +kernel⟩
  have hbehind : Makes descent index [⟨"b"⟩] 7 ⟨0, 1, 0, 1⟩ :=
    hroot.behind htries (List.ne_nil_of_length_pos (by decide +kernel))
  have hfound : candidates descent index [⟨"b"⟩] (ruleTrees descent index [⟨"b"⟩] 7)
      descent.startRule.rhs 0 1 = [found] := by decide +kernel
  obtain ⟨hexact, _⟩ := searches_exact descent [⟨"b"⟩, ⟨"b"⟩] [⟨"b"⟩]
  obtain ⟨rule, hrule⟩ := hexact 7 _ hroot
  obtain rfl : descent.startRule = rule := Option.some.inj (descent.rule?_zero.symm.trans hrule.rule_eq)
  have hmem : found ∈ candidates descent index [⟨"b"⟩] (ruleTrees descent index [⟨"b"⟩] 7)
      descent.startRule.rhs 0 1 := by rw [hfound]; exact List.mem_singleton_self _
  exact ⟨hroot, hbehind, hfound, hrule.fits found hmem, hexact 7 _ hbehind⟩

end Forest

end ParseForest
