import ParseForest.Proofs.Forest

/-!
# Nothing is lost by the tests of least lengths

Symbols derive no word that is shorter than their least length, and the empty word if and only if
that length is zero (`leastLength_eq_zero_iff`). `uncutCandidates` is the search for candidates without
its two tests of least lengths. Where it finds one there is room enough for the symbols that are left
(`add_leastLength_le`), so the tests cut off nothing that would be found (`uncutCandidates_eq`).
-/

namespace ParseForest

open Grammar Chart

namespace Grammar

theorem leastLength_eq_zero_iff (g : Grammar) (α : List Symbol) :
    g.leastLength α = 0 ↔ g.Generates α [] := by
  have hzero : g.leastLength α = 0 ↔ ∀ a ∈ α, a ∈ g.nullable := by simp [leastLength]
  rw [hzero]
  constructor
  · intro h
    exact generates_nil_of_forall fun a ha => generates_nil_of_mem_nullable a (h a ha)
  · rintro ⟨ds, hd, hw⟩
    exact mem_nullable_of_words_eq_nil hd hw

end Grammar

namespace Forest

section
variable (g : Grammar) (index : SpanIndex) (input : List Symbol)

/-- The ways to expand symbols over a part of the input, whether or not there is room for them. -/
def uncutCandidates (trees : RuleId → Nat → Nat → List Tree) :
    List Symbol → Nat → Nat → List Candidate
  | [], start, stop => if start = stop then [⟨[], 0⟩] else []
  | symbol :: rest, start, stop =>
    if symbol ∈ g.terminals then
      if input[start]? = some symbol then
        (uncutCandidates trees rest (start + 1) stop).map fun candidate =>
          ⟨.leaf symbol.name :: candidate.trees, 1 + candidate.width⟩
      else []
    else
      (index.startingAt start).flatMap fun entry =>
        match g.rule? entry.rule with
        | none => []
        | some rule =>
          if rule.lhs ≠ symbol then []
          else match trees entry.rule start entry.stop with
            | [] => []
            | subtrees =>
              combine rule.rhs.length (entry.stop - start) (stop - start) subtrees
                (uncutCandidates trees rest entry.stop stop)

/-- The trees for a rule over a part of the input, searched for without the tests of least lengths. -/
def uncutRuleTrees : Nat → RuleId → Nat → Nat → List Tree
  | 0, _, _, _ => []
  | depth + 1, id, start, stop =>
    match g.rule? id with
    | none => []
    | some rule =>
      if rule.rhs.isEmpty then [.emptyNode rule.lhs.name]
      else
        ((uncutCandidates g index input (uncutRuleTrees depth) rule.rhs start stop).filter
          (·.width = stop - start)).map fun candidate => .branch rule.lhs.name candidate.trees

end

theorem combine_nil_right (symbols width total : Nat) (subtrees : List Tree) :
    combine symbols width total subtrees [] = [] := by simp [combine]

section
variable {g : Grammar} {index : SpanIndex} {input : List Symbol}
  {trees : RuleId → Nat → Nat → List Tree} (hidx : index.Sound g)
  (hnull : ∀ {k entry rule}, entry ∈ index.startingAt k → g.rule? entry.rule = some rule →
    entry.stop = k → rule.lhs ∈ g.nullable)
include hidx hnull

/-- An entry covers at least as much as the least length of its non-terminal. -/
theorem add_leastLength_cons_le {k m : Nat} {entry : RuleSpan} {rule : Rule} {α : List Symbol}
    (hentry : entry ∈ index.startingAt k) (hr : g.rule? entry.rule = some rule)
    (h : entry.stop + g.leastLength α ≤ m) : k + g.leastLength (rule.lhs :: α) ≤ m := by
  have hle := hidx.le_stop hentry
  rw [leastLength_cons]
  split
  · omega
  · next hn =>
    have hne : entry.stop ≠ k := fun hstop => hn (hnull hentry hr hstop)
    omega

theorem add_leastLength_le {α : List Symbol} {c : Candidate} : ∀ {k m : Nat},
    c ∈ uncutCandidates g index input trees α k m → k + g.leastLength α ≤ m := by
  induction α generalizing c with
  | nil =>
    intro k m h
    rw [uncutCandidates] at h
    split at h
    · next hkm => simp [leastLength, hkm]
    · cases h
  | cons a α ih =>
    intro k m h
    rw [uncutCandidates] at h
    by_cases ha : a ∈ g.terminals
    · by_cases hk : input[k]? = some a
      · simp only [ha, hk, if_true, List.mem_map] at h
        obtain ⟨rest, hrest, -⟩ := h
        have := ih hrest
        rw [leastLength_cons, if_neg (not_mem_nullable_of_mem_terminals ha)]
        omega
      · simp [ha, hk] at h
    · simp only [ha, if_false, List.mem_flatMap] at h
      obtain ⟨entry, hentry, h⟩ := h
      cases hr : g.rule? entry.rule with
      | none => simp [hr] at h
      | some rule =>
        by_cases hlhs : rule.lhs = a
        · subst hlhs
          refine add_leastLength_cons_le hidx hnull hentry hr ?_
          -- behind the entry there is a candidate for the symbols that are left
          cases hrest : uncutCandidates g index input trees α entry.stop m with
          | nil =>
            simp only [hr, hrest, combine_nil_right, ne_eq, not_true_eq_false, if_false] at h
            split at h <;> cases h
          | cons rest _ =>
            have hmem : rest ∈ uncutCandidates g index input trees α entry.stop m := by simp [hrest]
            exact ih hmem
        · simp [hr, hlhs] at h

theorem uncutCandidates_eq_nil {α : List Symbol} {k m : Nat} (h : m < k + g.leastLength α) :
    uncutCandidates g index input trees α k m = [] :=
  List.eq_nil_iff_forall_not_mem.mpr fun _ hc =>
    Nat.not_le.mpr h (add_leastLength_le hidx hnull hc)

theorem uncutCandidates_eq {α : List Symbol} : ∀ {k m : Nat},
    uncutCandidates g index input trees α k m = candidates g index input trees α k m := by
  induction α with
  | nil => intro k m; rfl
  | cons a α ih =>
    intro k m
    by_cases hm : m < k + g.leastLength (a :: α)
    · rw [uncutCandidates_eq_nil hidx hnull hm, candidates, if_pos hm]
    · rw [uncutCandidates, candidates, if_neg hm]
      by_cases ha : a ∈ g.terminals
      · rw [if_pos ha, if_pos ha, ih]
      · rw [if_neg ha, if_neg ha]
        refine List.flatMap_congr fun entry _ => ?_
        cases g.rule? entry.rule with
        | none => rfl
        | some rule =>
          cases trees entry.rule k entry.stop with
          | nil => simp
          | cons t ts =>
            by_cases hroom : m < entry.stop + g.leastLength α
            · have hnil : uncutCandidates g index input trees α entry.stop m = [] :=
                uncutCandidates_eq_nil hidx hnull hroom
              simp [hroom, hnil, combine_nil_right]
            · simp [hroom, ih]

theorem uncutRuleTrees_eq {depth : Nat} :
    uncutRuleTrees g index input depth = ruleTrees g index input depth := by
  induction depth with
  | zero => rfl
  | succ depth ih =>
    funext id k m
    rw [uncutRuleTrees, ruleTrees, ih]
    cases g.rule? id with
    | none => rfl
    | some rule => simp only [uncutCandidates_eq hidx hnull]

end

end Forest

/-- **Least lengths are bounds, and the tests of them cut nothing.** No word that symbols derive is shorter
than their least length, which is zero if and only if they derive the empty word. Over the chart of
any input `a`, the candidates in any input `b` are the same with and without the tests of least
lengths, whatever the trees inside are, and so are the trees of rules. -/
theorem leastLength_cuts_nothing (g : Grammar) :
    (∀ α w, g.Generates α w → g.leastLength α ≤ w.length) ∧
    (∀ α, g.leastLength α = 0 ↔ g.Generates α []) ∧
    ∀ a b : List Symbol,
      (∀ trees α k m, Forest.candidates g (.ofChart g (build g a)) b trees α k m =
        Forest.uncutCandidates g (.ofChart g (build g a)) b trees α k m) ∧
      ∀ depth id k m, Forest.ruleTrees g (.ofChart g (build g a)) b depth id k m =
        Forest.uncutRuleTrees g (.ofChart g (build g a)) b depth id k m := by
  refine ⟨?_, g.leastLength_eq_zero_iff, fun a b => ?_⟩
  · rintro α w ⟨ds, hd, rfl⟩
    exact leastLength_le hd
  · have hidx := SpanIndex.sound_build g a
    have hnull := @SpanIndex.lhs_mem_nullable_of_startingAt g a
    constructor
    · intro trees α k m
      rw [Forest.uncutCandidates_eq hidx hnull]
    · intro depth id k m
      rw [Forest.uncutRuleTrees_eq hidx hnull]

/-- A nullable symbol in front of a terminal: all that they derive has a symbol at least. -/
theorem leastLength_descent :
    descent.Generates [⟨"A"⟩, ⟨"b"⟩] [⟨"b"⟩] ∧ descent.leastLength [⟨"A"⟩, ⟨"b"⟩] ≤ 1 ∧
    ¬descent.Generates [⟨"A"⟩, ⟨"b"⟩] [] := by
  have h1 : descent.rule? 1 = some ⟨⟨"A"⟩, [⟨"B"⟩, ⟨"C"⟩]⟩ := rfl
  have h2 : descent.rule? 2 = some ⟨⟨"B"⟩, [⟨"C"⟩]⟩ := rfl
  have h3 : descent.rule? 3 = some ⟨⟨"C"⟩, []⟩ := rfl
  have hC : descent.Derivations [⟨"C"⟩] [.node 3 []] := .node h3 .nil .nil
  have hA : descent.Derivations [⟨"A"⟩, ⟨"b"⟩]
      [.node 1 [.node 2 [.node 3 []], .node 3 []], .leaf ⟨"b"⟩] :=
    .node h1 (.node h2 hC hC) (.leaf (by decide +kernel) .nil)
  have hgen : descent.Generates [⟨"A"⟩, ⟨"b"⟩] [⟨"b"⟩] := ⟨_, hA, by simp⟩
  obtain ⟨hle, hzero, _⟩ := leastLength_cuts_nothing descent
  refine ⟨hgen, hle _ _ hgen, fun h => ?_⟩
  exact absurd ((hzero _).mpr h) (by decide +kernel)

end ParseForest
