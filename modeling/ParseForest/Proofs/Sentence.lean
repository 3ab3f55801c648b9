import ParseForest.Grammar.English
import ParseForest.Proofs.Combinations
import ParseForest.Proofs.Forest
import ParseForest.Proofs.Words
import ParseForest.Sentence.Basic

/-!
# Parsing sentences

The run over the combinations of a sentence breaks off exactly if all combinations
together have too many trees, and otherwise tries each of them (`attempts_forests`). A parse
of tags has one leaf for each tag, so the words always find their leaves and leave the
tags behind as attributes (`placeWords_of_mem_parse`).
-/

namespace ParseForest

open ParseForest.Derivation ParseForest.Tree

theorem mapM_eq_ok {α β : Type} {f : α → Except Error β} {f' : α → β} :
    ∀ {l : List α}, (∀ a ∈ l, f a = .ok (f' a)) → l.mapM f = .ok (l.map f')
  | [], _ => rfl
  | a :: l, h => by
    obtain ⟨hfirst, hrest⟩ := List.forall_mem_cons.mp h
    rw [List.mapM_cons, hfirst, mapM_eq_ok hrest]
    rfl

/-! ## Trees of tags -/

mutual

theorem attributes_toTree (g : Grammar) : ∀ d : Derivation,
    ∀ n ∈ (d.toTree g).nodes, n.attributes = ∅
  | .leaf a => by simp [toTree, Tree.leaf, branch, nodes, nodesList]
  | .node id ds => by
    have := attributes_toTrees g ds
    rw [toTree, nodes, List.forall_mem_cons]
    exact ⟨rfl, this⟩

theorem attributes_toTrees (g : Grammar) : ∀ ds : List Derivation,
    ∀ n ∈ nodesList (toTrees g ds), n.attributes = ∅
  | [] => by simp [nodesList]
  | d :: ds => by
    rw [toTrees_cons, nodesList, List.forall_mem_append]
    exact ⟨attributes_toTree g d, attributes_toTrees g ds⟩

end

namespace Tree

/-- The leaves bear the tags as types, and no other node has attributes. -/
def TaggedBy (tags : List Symbol) (t : Tree) : Prop :=
  t.leaves.map (·.attributes.get? tagAttribute) = tags.map (some ·.name) ∧
    ∀ n ∈ t.innerNodes, n.attributes = ∅

/-- A tree without attributes takes as many words as it has leaves, and keeps the names of its
leaves as tags. -/
theorem taggedBy_placeWords {t : Tree} {tags : List Symbol} {words : List String}
    (hyield : t.yield = tags.map Symbol.name) (hattr : ∀ n ∈ t.nodes, n.attributes = ∅)
    (hlen : tags.length = words.length) :
    (t.placeWords words).1.yield = words ∧ TaggedBy tags (t.placeWords words).1 := by
  have hcount : t.leaves.length = words.length := by
    rw [length_leaves, hyield, List.length_map, hlen]
  obtain ⟨hleaves, _⟩ := leaves_placeWords t words (Nat.le_of_eq hcount)
  refine ⟨?_, ?_, fun n hn => ?_⟩
  · rw [yield_eq_map_leaves, hleaves, map_name_zipWith_withWord _ _ hcount]
  · have hnames : t.leaves.map (some ·.name) = t.yield.map some := by
      rw [yield_eq_map_leaves, List.map_map]
      rfl
    rw [hleaves, tags_zipWith_withWord _ _ hcount, hnames, hyield, List.map_map]
    rfl
  · -- the node stands for one without attributes in the tree of tags
    have hframe : n.frame ∈ t.innerNodes.map frame := by
      rw [← frames_placeWords t words]
      exact List.mem_map_of_mem hn
    obtain ⟨m, hm, hmn⟩ := List.mem_map.mp hframe
    have hsame : m.attributes = n.attributes := congrArg (·.2.1) hmn
    rw [← hsame]
    exact hattr m (List.mem_of_mem_filter hm)

end Tree

namespace Grammar

section
variable {g : Grammar}

theorem attributes_of_mem_parse {input : List Symbol} {t : Tree} (h : t ∈ g.parse input) :
    t.yield = input.map Symbol.name ∧ ∀ n ∈ t.nodes, n.attributes = ∅ := by
  rw [parse_eq_map] at h
  obtain ⟨d, hd, rfl⟩ := List.mem_map.mp h
  exact ⟨yield_of_isParse (mem_parses_own_iff.mp hd), attributes_toTree g d⟩

theorem placeWords_of_mem_parse {tags : List Symbol} {words : List String} {t : Tree}
    (h : t ∈ g.parse tags) (hlen : tags.length = words.length) :
    t.withWords words = .ok (t.placeWords words).1 ∧ (t.placeWords words).1.yield = words ∧
      TaggedBy tags (t.placeWords words).1 := by
  obtain ⟨hyield, hattr⟩ := attributes_of_mem_parse h
  refine ⟨?_, taggedBy_placeWords hyield hattr hlen⟩
  unfold withWords
  rw [if_pos (by rw [hyield, List.length_map, hlen])]

/-! ## The run over the combinations -/

/-- The run finds the trees of all combinations if there is room for them, and otherwise finds
more than there is room for. -/
theorem attempts_forests {count : Nat} : ∀ {room : Nat} {c : Combinations}, c.InRange →
    c.all.length ≤ count →
    ((c.all.flatMap g.parse).length ≤ room →
      (g.attempts count room c).flatMap (·.forest) = c.all.flatMap g.parse) ∧
    (room < (c.all.flatMap g.parse).length →
      room < ((g.attempts count room c).flatMap (·.forest)).length) := by
  induction count with
  | zero =>
    intro room c _ hlen
    rw [List.eq_nil_of_length_eq_zero (Nat.le_zero.mp hlen)]
    simp [attempts]
  | succ count ih =>
    intro room c hc hlen
    rw [attempts]
    cases hnext : c.next? with
    | none => simp [Combinations.all_of_next?_eq_none hnext]
    | some p =>
      obtain ⟨tags, rest⟩ := p
      obtain ⟨hall, hrest⟩ := Combinations.all_of_next?_eq_some hc hnext
      rw [hall, List.length_cons] at hlen
      simp only [hall, List.flatMap_cons, List.length_append]
      by_cases hroom : room < (g.parse tags).length
      · -- the run breaks off behind this combination
        simp only [hroom, if_true, List.flatMap_nil, List.append_nil]
        exact ⟨fun h => by omega, fun _ => hroom⟩
      · simp only [hroom, if_false]
        obtain ⟨hfit, hover⟩ := @ih (room - (g.parse tags).length) rest hrest (by omega)
        refine ⟨fun h => ?_, fun h => ?_⟩
        · rw [hfit (by omega)]
        · have := hover (by omega)
          omega

end

/-! ## Outcomes -/

def treeCount (g : Grammar) (lattice : Lattice) : Nat :=
  ((choices lattice.columns).map fun tags => (g.parse tags).length).sum

def Oversized (wordCount : Nat) (lattice : Lattice) (limits : Limits) : Prop :=
  limits.maxWords < wordCount ∨ 2 ^ 64 - 1 < lattice.count ∨ limits.maxCombinations < lattice.count

instance (wordCount : Nat) (lattice : Lattice) (limits : Limits) :
    Decidable (Oversized wordCount lattice limits) :=
  inferInstanceAs (Decidable (_ ∨ _))

/-- A sentence has too many words, combinations or trees. -/
def ExceedsLimits (g : Grammar) (words : List String) (lattice : Lattice) (limits : Limits) :
    Prop :=
  Oversized words.length lattice limits ∨ limits.maxTrees < g.treeCount lattice

instance (g : Grammar) (words : List String) (lattice : Lattice) (limits : Limits) :
    Decidable (g.ExceedsLimits words lattice limits) :=
  inferInstanceAs (Decidable (_ ∨ _))

/-- The trees of all combinations of a lattice in order, with words for their leaves. -/
def sentenceTrees (g : Grammar) (words : List String) (lattice : Lattice) : List Tree :=
  (choices lattice.columns).flatMap fun tags => (g.parse tags).map fun t => (t.placeWords words).1

section
variable {g : Grammar} {words : List String} {lattice : Lattice} {limits : Limits}

theorem sentenceSize?_of_oversized {wordCount : Nat} (hsize : wordCount = lattice.size)
    (h : Oversized wordCount lattice limits) :
    ∃ e, sentenceSize? wordCount lattice limits = .error e ∧ e.kind = .limit := by
  unfold sentenceSize? Lattice.count?
  rw [if_neg (not_not_intro hsize)]
  by_cases hwords : limits.maxWords < wordCount
  · exact ⟨_, if_pos hwords, rfl⟩
  rw [if_neg hwords]
  by_cases hcount : lattice.count < UInt64.size
  · have hmax : ¬lattice.count ≤ limits.maxCombinations := by
      rcases h with h | h | h
      · exact absurd h hwords
      · unfold UInt64.size at hcount
        omega
      · omega
    simp only [if_pos hcount, if_neg hmax]
    exact ⟨_, rfl, rfl⟩
  · rw [if_neg hcount]
    exact ⟨_, rfl, rfl⟩

theorem sentenceSize?_of_not_oversized {wordCount : Nat} (hsize : wordCount = lattice.size)
    (h : ¬Oversized wordCount lattice limits) :
    sentenceSize? wordCount lattice limits = .ok lattice.count := by
  unfold Oversized at h
  have hcount : lattice.count < UInt64.size := by
    unfold UInt64.size
    omega
  unfold sentenceSize? Lattice.count?
  rw [if_neg (not_not_intro hsize), if_neg (by omega), if_pos hcount]
  exact if_pos (by omega)

theorem length_flatMap_parse :
    ((choices lattice.columns).flatMap g.parse).length = g.treeCount lattice :=
  List.length_flatMap

theorem sentenceAttempts_forests :
    (g.treeCount lattice ≤ limits.maxTrees →
      (g.sentenceAttempts lattice.count lattice limits).flatMap (·.forest) =
        (choices lattice.columns).flatMap g.parse) ∧
    (limits.maxTrees < g.treeCount lattice →
      limits.maxTrees <
        ((g.sentenceAttempts lattice.count lattice limits).flatMap (·.forest)).length) := by
  have hall : lattice.combinations.all.length ≤ lattice.count := by
    rw [lattice.all_combinations, lattice.length_choices]
  have hrun := @attempts_forests g lattice.count limits.maxTrees _ lattice.inRange_combinations hall
  rw [lattice.all_combinations, length_flatMap_parse] at hrun
  exact hrun

theorem parseWords_of_ne (h : words.length ≠ lattice.size) :
    g.parseWords words lattice limits = .error (.columnCount words.length lattice.size) := by
  unfold parseWords sentenceSize?
  rw [if_pos h]
  rfl

theorem parseWords_of_exceedsLimits (hsize : words.length = lattice.size)
    (h : g.ExceedsLimits words lattice limits) :
    ∃ e, g.parseWords words lattice limits = .error e ∧ e.kind = .limit := by
  unfold parseWords
  by_cases hover : Oversized words.length lattice limits
  · obtain ⟨e, he, hkind⟩ := sentenceSize?_of_oversized hsize hover
    rw [he]
    exact ⟨e, rfl, hkind⟩
  · have htrees := sentenceAttempts_forests.2 (h.resolve_left hover)
    rw [sentenceSize?_of_not_oversized hsize hover]
    refine ⟨.tooManyTrees limits.maxTrees, ?_, rfl⟩
    simp only [bind, Except.bind, if_pos htrees]
    rfl

theorem parseWords_of_not_exceedsLimits (hsize : words.length = lattice.size)
    (h : ¬g.ExceedsLimits words lattice limits) :
    g.parseWords words lattice limits = .ok (g.sentenceTrees words lattice) := by
  obtain ⟨hover, hroom⟩ := not_or.mp h
  have hroom := Nat.not_lt.mp hroom
  have hwords : ∀ t ∈ (choices lattice.columns).flatMap g.parse,
      t.withWords words = .ok (t.placeWords words).1 := by
    intro t ht
    obtain ⟨tags, htags, ht⟩ := List.mem_flatMap.mp ht
    exact (placeWords_of_mem_parse ht ((length_of_mem_choices htags).trans hsize.symm)).1
  unfold parseWords sentenceTrees
  rw [sentenceSize?_of_not_oversized hsize hover]
  simp only [bind, Except.bind, sentenceAttempts_forests.1 hroom, length_flatMap_parse,
    if_neg (Nat.not_lt.mpr hroom)]
  rw [← List.map_flatMap]
  exact mapM_eq_ok hwords

/-- Words without a column each are an error of the input. With a column each they come to
a limit exactly if the words, the combinations of their tags or all trees together are too
many, and otherwise the answer is the trees of all combinations in order. The words always
find their leaves and leave the tags of the combination behind. -/
theorem parseWords_outcome (g : Grammar) (words : List String) (lattice : Lattice)
    (limits : Limits) :
    ((∃ e, g.parseWords words lattice limits = .error e ∧ e.kind = .input) ↔
      words.length ≠ lattice.size) ∧
    ((∃ e, g.parseWords words lattice limits = .error e ∧ e.kind = .limit) ↔
      words.length = lattice.size ∧ g.ExceedsLimits words lattice limits) ∧
    (words.length = lattice.size ∧ ¬g.ExceedsLimits words lattice limits →
      g.parseWords words lattice limits = .ok (g.sentenceTrees words lattice)) ∧
    (words.length = lattice.size → ∀ tags ∈ choices lattice.columns, ∀ t ∈ g.parse tags,
      t.withWords words = .ok (t.placeWords words).1 ∧ (t.placeWords words).1.yield = words ∧
        TaggedBy tags (t.placeWords words).1) := by
  refine ⟨⟨?_, fun h => ⟨_, parseWords_of_ne h, rfl⟩⟩,
    ⟨?_, fun h => parseWords_of_exceedsLimits h.1 h.2⟩,
    fun h => parseWords_of_not_exceedsLimits h.1 h.2,
    fun hsize tags htags t ht =>
      placeWords_of_mem_parse ht ((length_of_mem_choices htags).trans hsize.symm)⟩
  · rintro ⟨e, he, hkind⟩ hsize
    by_cases h : g.ExceedsLimits words lattice limits
    · obtain ⟨e', he', hkind'⟩ := parseWords_of_exceedsLimits hsize h
      cases he.symm.trans he'
      exact absurd (hkind.symm.trans hkind') (by decide)
    · cases he.symm.trans (parseWords_of_not_exceedsLimits hsize h)
  · rintro ⟨e, he, hkind⟩
    by_cases hsize : words.length = lattice.size
    · refine ⟨hsize, ?_⟩
      by_contra h
      cases he.symm.trans (parseWords_of_not_exceedsLimits hsize h)
    · cases he.symm.trans (parseWords_of_ne hsize)
      cases hkind

/-- Three words that may each be a noun or a verb. -/
def fishTags : Lattice :=
  .ofColumns (List.replicate 3 (Symbol.ofNames ["N", "V"]))

theorem english_parseWords_fish :
    (["fish", "fish", "fish"].length = fishTags.size ∧
      ¬english.ExceedsLimits ["fish", "fish", "fish"] fishTags {}) ∧
    english.parseWords ["fish", "fish", "fish"] fishTags {} =
      .ok (english.sentenceTrees ["fish", "fish", "fish"] fishTags) := by
  have h : ["fish", "fish", "fish"].length = fishTags.size ∧
      ¬english.ExceedsLimits ["fish", "fish", "fish"] fishTags {} := by decide +kernel
  exact ⟨h, (parseWords_outcome english _ fishTags {}).2.2.1 h⟩

end

end Grammar

end ParseForest
