import ParseForest.Grammar.English
import ParseForest.Proofs.Forest

/-!
# Forests are in order of choices

To derive an input is to choose entries of the index, one for each rule below the root, in
preorder. Two lists of choices for the same symbols differ first at a place that both have
(`Precedes`), so what stands behind cannot change their order (`Precedes.append_right`), and a
forest lists derivations in increasing order of their choices (`pairwise_parses`).
-/

namespace ParseForest

open ParseForest.Derivation Grammar

/-! ## Lists that differ at a place of both -/

/-- The first list is less than the second one at a place up to which they agree. No list precedes
one that it only begins. -/
inductive Precedes : List Nat → List Nat → Prop
  | head {i j u v} : i < j → Precedes (i :: u) (j :: v)
  | tail {i u v} : Precedes u v → Precedes (i :: u) (i :: v)

theorem Precedes.lt {u v : List Nat} (h : Precedes u v) : u < v := by
  induction h with
  | head hij => exact .rel hij
  | tail _ ih => exact .cons ih

theorem Precedes.append_left {u v : List Nat} (h : Precedes u v) :
    ∀ w : List Nat, Precedes (w ++ u) (w ++ v)
  | [] => h
  | _ :: w => .tail (h.append_left w)

theorem Precedes.append_right {u v : List Nat} (h : Precedes u v) (x y : List Nat) :
    Precedes (u ++ x) (v ++ y) := by
  induction h with
  | head hij => exact .head hij
  | tail _ ih => exact .tail ih

theorem pairwise_idxOf {α : Type} [DecidableEq α] {l : List α} (hl : l.Nodup) :
    l.Pairwise fun x y => l.idxOf x < l.idxOf y := by
  apply List.pairwise_iff_getElem.mpr
  intro i j hi hj hij
  rw [hl.idxOf_getElem i hi, hl.idxOf_getElem j hj]
  exact hij

/-! ## Choices -/

namespace SpanIndex

/-- The place of a rule applied over a part of the input, in the bucket of its start. -/
def place (index : SpanIndex) (ap : Application) : Nat :=
  (index.startingAt ap.start).idxOf ⟨ap.rule, ap.stop⟩

def placesAll (index : SpanIndex) (start : Nat) (ds : List Derivation) : List Nat :=
  (applicationsAll start ds).map index.place

/-- The places for all rules of a derivation but the one at its root, in preorder. -/
def placesBelow (index : SpanIndex) (start : Nat) (d : Derivation) : List Nat :=
  (d.applications start).tail.map index.place

/-- What is chosen to derive an input. -/
def choices (index : SpanIndex) (d : Derivation) : List Nat :=
  index.placesBelow 0 d

variable {index : SpanIndex}

theorem getElem?_place {ap : Application} (hn : (index.startingAt ap.start).Nodup)
    (h : ⟨ap.rule, ap.stop⟩ ∈ index.startingAt ap.start) (i : Nat) :
    (index.startingAt ap.start)[i]? = some ⟨ap.rule, ap.stop⟩ ↔ i = index.place ap := by
  have hlt := List.idxOf_lt_length_of_mem h
  have hplace : (index.startingAt ap.start)[index.place ap]? = some ⟨ap.rule, ap.stop⟩ := by
    rw [place, List.getElem?_eq_getElem hlt, List.getElem_idxOf hlt]
  constructor
  · intro hi
    have hi' := (List.getElem?_eq_some_iff.mp hi).1
    exact (List.getElem?_inj hi' hn).mp (hi.trans hplace.symm)
  · rintro rfl
    exact hplace

theorem placesAll_leaf (k : Nat) (a : Symbol) (ds : List Derivation) :
    index.placesAll k (leaf a :: ds) = index.placesAll (k + 1) ds := by
  simp [placesAll]

theorem placesBelow_node (k : Nat) (id : RuleId) (ds : List Derivation) :
    index.placesBelow k (node id ds) = index.placesAll k ds := by
  simp [placesBelow, placesAll, applications]

theorem placesAll_node {k j : Nat} {id : RuleId} {ds : List Derivation} (h : j = k + (words ds).length)
    (es : List Derivation) : index.placesAll k (node id ds :: es) =
      index.place ⟨id, k, j⟩ :: (index.placesBelow k (node id ds) ++ index.placesAll j es) := by
  subst h
  simp [placesBelow_node, placesAll]

end SpanIndex

/-! ## The order of what is listed -/

namespace Forest

section
variable {g : Grammar} {index : SpanIndex} {input : List Symbol}
  {inner : RuleId → Nat → Nat → List Derivation}

theorem placesAll_cons (hinner : CoversRules g index input inner) {k : Nat} {entry : RuleSpan} {rule : Rule}
    {d : Derivation} (hentry : entry ∈ index.startingAt k) (hr : g.rule? entry.rule = some rule)
    (hd : d ∈ inner entry.rule k entry.stop) (es : List Derivation) : index.placesAll k (d :: es) =
      (index.startingAt k).idxOf entry :: (index.placesBelow k d ++ index.placesAll entry.stop es) := by
  obtain ⟨cs, rfl, hc⟩ := hinner k entry rule d hentry hr hd
  exact SpanIndex.placesAll_node hc.stop_eq es

theorem pairwise_through (hinner : CoversRules g index input inner) {tails : Nat → List (List Derivation)}
    {a : Symbol} {α : List Symbol} {k m : Nat} {entry : RuleSpan} (hentry : entry ∈ index.startingAt k)
    (hsub : (inner entry.rule k entry.stop).Pairwise fun d e =>
      Precedes (index.placesBelow k d) (index.placesBelow k e))
    (htails : (tails entry.stop).Pairwise fun es fs =>
      Precedes (index.placesAll entry.stop es) (index.placesAll entry.stop fs)) :
    (through g inner tails a α k m entry).Pairwise fun ds es =>
      Precedes (index.placesAll k ds) (index.placesAll k es) := by
  unfold through
  cases hr : g.rule? entry.rule with
  | none => exact .nil
  | some rule =>
    have hplaces := @placesAll_cons g index input inner hinner k entry rule
    simp only
    split
    · exact .nil
    rw [List.pairwise_flatMap]
    constructor
    · -- the same derivation of the first symbol: what follows it decides
      intro d hd
      apply List.pairwise_map.mpr
      apply htails.imp
      intro es fs hes
      rw [hplaces hentry hr hd, hplaces hentry hr hd]
      exact .tail (hes.append_left _)
    · -- two derivations of it: they differ before what follows is reached
      apply hsub.imp_of_mem
      intro d e hd he hde ds hds fs hfs
      obtain ⟨es, _, rfl⟩ := List.mem_map.mp hds
      obtain ⟨es', _, rfl⟩ := List.mem_map.mp hfs
      rw [hplaces hentry hr hd, hplaces hentry hr he]
      exact .tail (hde.append_right _ _)

theorem pairwise_expansions (hidx : index.Sound g) (hinner : CoversRules g index input inner)
    (hsub : ∀ id k j, (inner id k j).Pairwise fun d e =>
      Precedes (index.placesBelow k d) (index.placesBelow k e)) {α : List Symbol} :
    ∀ {k m : Nat}, (expansions g index input inner α k m).Pairwise fun ds es =>
      Precedes (index.placesAll k ds) (index.placesAll k es) := by
  induction α with
  | nil =>
    intro k m
    rw [expansions]
    by_cases hkm : k = m <;> simp [hkm]
  | cons a α ih =>
    intro k m
    rw [expansions]
    by_cases hm : m < k + g.leastLength (a :: α)
    · simp [hm]
    by_cases ha : a ∈ g.terminals
    · by_cases hk : input[k]? = some a
      · simpa [hm, ha, hk, List.pairwise_map, SpanIndex.placesAll_leaf] using ih
      · simp [hm, ha, hk]
    rw [if_neg hm, if_neg ha, List.pairwise_flatMap]
    refine ⟨fun entry hentry => pairwise_through hinner hentry (hsub _ _ _) ih, ?_⟩
    apply (pairwise_idxOf (hidx.nodup k)).imp_of_mem
    intro x y hx hy hxy ds hds es hes
    obtain ⟨_, hr, _, _, d, hd, ds, _, rfl⟩ := mem_through.mp hds
    obtain ⟨_, hr', _, _, e, he, es, _, rfl⟩ := mem_through.mp hes
    rw [placesAll_cons hinner hx hr hd, placesAll_cons hinner hy hr' he]
    exact .head hxy

theorem pairwise_ruleDerivations (hidx : index.Sound g) {depth : Nat} : ∀ id k j,
    (ruleDerivations g index input depth id k j).Pairwise fun d e =>
      Precedes (index.placesBelow k d) (index.placesBelow k e) := by
  induction depth with
  | zero => intro id k j; exact .nil
  | succ depth ih =>
    intro id k j
    have hlists := @pairwise_expansions g index input _ hidx (coversRules_ruleDerivations hidx) ih
    rw [ruleDerivations]
    cases g.rule? id with
    | none => exact .nil
    | some rule =>
      by_cases he : rule.rhs.isEmpty
      · simp [he]
      · simpa [he, List.pairwise_map, SpanIndex.placesBelow_node] using hlists

theorem pairwise_parses (hidx : index.Sound g) :
    (parses g index input).Pairwise fun d e => Precedes (index.choices d) (index.choices e) := by
  unfold parses
  split
  · exact pairwise_ruleDerivations hidx 0 0 input.length
  · exact .nil

end

end Forest

/-- **Forests are ordered.** The derivations behind a forest are listed in strictly increasing order of
their choices: those of the places, each the only one in its bucket, of all rules below the root. -/
theorem parse_pairwise_choices (g : Grammar) (input : List Symbol) :
    ∃ ds : List Derivation, g.parse input = ds.map (toTree g) ∧ (∀ d, d ∈ ds ↔ g.IsParse input d) ∧
      (∀ d ∈ ds, ∀ ap ∈ (d.applications 0).tail, ∀ i,
        ((SpanIndex.ofChart g (.build g input)).startingAt ap.start)[i]? = some ⟨ap.rule, ap.stop⟩ ↔
          i = (SpanIndex.ofChart g (.build g input)).place ap) ∧
      ds.Pairwise fun d e => (SpanIndex.ofChart g (.build g input)).choices d <
        (SpanIndex.ofChart g (.build g input)).choices e := by
  have hsound := SpanIndex.sound_build g input
  refine ⟨_, parse_eq_map input, fun d => mem_parses_own_iff, ?_, ?_⟩
  · intro d hd ap hap
    have hmem := (Forest.isParse_of_mem_parses hsound hd).2 ap (List.mem_of_mem_tail hap)
    exact SpanIndex.getElem?_place (hsound.nodup ap.start) hmem
  · exact (Forest.pairwise_parses hsound).imp Precedes.lt

/-- Where a prepositional phrase belongs to the verb or to the noun, the entry of the verb phrase decides. -/
example :
    let input := Symbol.ofNames ["N", "V", "Det", "N", "P", "N"]
    let index := SpanIndex.ofChart english (.build english input)
    (Forest.parses english index input).map index.choices = [[0, 2, 0, 0, 0], [0, 3, 1, 0, 0]] := by
  decide +kernel

end ParseForest
