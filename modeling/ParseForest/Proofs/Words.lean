import ParseForest.Tree.Words

/-!
# Words change the leaves alone

`nodes` lists the nodes of a tree from left to right, each before those below it. Words are
placed on the leaves in this order (`leaves_placeWords`), and all other nodes stay as they
are (`frames_placeWords`).
-/

namespace ParseForest

namespace Attributes

theorem lookup_insertEntry (key value : String) (l : List (String × String)) :
    (insertEntry key value l).lookup key = some value := by
  fun_induction insertEntry key value l with
  | case1 => exact List.lookup_cons_self
  | case2 => exact List.lookup_cons_self
  | case3 k v rest _ hlt ih =>
    have hne : (key == k) = false := beq_false_of_ne (String.ne_of_lt hlt).symm
    rw [List.lookup_cons, hne]
    exact ih
  | case4 => exact List.lookup_cons_self

theorem lookup_insertEntry_of_ne {key other : String} (h : other ≠ key) (value : String)
    (l : List (String × String)) : (insertEntry key value l).lookup other = l.lookup other := by
  have hne : (other == key) = false := beq_false_of_ne h
  fun_induction insertEntry key value l with
  | case1 => rw [List.lookup_cons, hne]
  | case2 => rw [List.lookup_cons, hne]
  | case3 k v rest _ _ ih => rw [List.lookup_cons, List.lookup_cons, ih]
  | case4 k v rest hnot hnot' =>
    rw [← String.le_antisymm hnot' hnot, List.lookup_cons, List.lookup_cons, hne]

theorem get?_insert (a : Attributes) (key value : String) :
    (a.insert key value).get? key = some value :=
  lookup_insertEntry key value a.entries

theorem get?_insert_of_ne (a : Attributes) {key other : String} (h : other ≠ key) (value : String) :
    (a.insert key value).get? other = a.get? other :=
  lookup_insertEntry_of_ne h value a.entries

end Attributes

namespace Tree

mutual

/-- The nodes of a tree, each before those below it. -/
def nodes : Tree → List Tree
  | ⟨name, children, attributes, empty⟩ => ⟨name, children, attributes, empty⟩ :: nodesList children

def nodesList : List Tree → List Tree
  | [] => []
  | t :: ts => t.nodes ++ nodesList ts

end

def leaves (t : Tree) : List Tree :=
  t.nodes.filter (·.isLeaf)

/-- The nodes that are no leaves. -/
def innerNodes (t : Tree) : List Tree :=
  t.nodes.filter (!·.isLeaf)

/-- What a node is beside the nodes below it: its name, attributes, mark and number of children. -/
def frame (t : Tree) : String × Attributes × Bool × Nat :=
  (t.name, t.attributes, t.empty, t.children.length)

theorem isLeaf_iff {name : String} {children : List Tree} {attributes : Attributes} {empty : Bool} :
    isLeaf ⟨name, children, attributes, empty⟩ = true ↔ children = [] ∧ empty = false := by
  simp [isLeaf]

/-! ## Leaves -/

mutual

theorem yield_eq_map_leaves : ∀ t : Tree, t.yield = t.leaves.map name
  | ⟨name, children, attributes, empty⟩ => by
    have ih := yieldList_eq_map_leaves children
    by_cases h : isLeaf ⟨name, children, attributes, empty⟩ = true
    · obtain ⟨rfl, rfl⟩ := isLeaf_iff.mp h
      simp [yield, leaves, nodes, nodesList, h]
    · simp [yield, leaves, nodes, h, ih]

theorem yieldList_eq_map_leaves : ∀ ts : List Tree,
    yieldList ts = ((nodesList ts).filter (·.isLeaf)).map name
  | [] => rfl
  | t :: ts => by
    rw [yieldList, nodesList, yield_eq_map_leaves t, yieldList_eq_map_leaves ts, List.filter_append,
      List.map_append]
    rfl

end

theorem length_leaves (t : Tree) : t.leaves.length = t.yield.length := by
  rw [yield_eq_map_leaves, List.length_map]

/-! ## Placing words -/

theorem map_name_zipWith_withWord : ∀ (ts : List Tree) (words : List String),
    ts.length = words.length → (List.zipWith withWord ts words).map name = words
  | [], [], _ => rfl
  | t :: ts, word :: words, h => by
    have := map_name_zipWith_withWord ts words (by simpa using h)
    simp [this, withWord]

theorem tags_zipWith_withWord : ∀ (ts : List Tree) (words : List String),
    ts.length = words.length →
    (List.zipWith withWord ts words).map (·.attributes.get? tagAttribute) = ts.map (some ·.name)
  | [], [], _ => rfl
  | t :: ts, word :: words, h => by
    have := tags_zipWith_withWord ts words (by simpa using h)
    simp [this, withWord, Attributes.get?_insert]

theorem length_placeWordsList : ∀ (ts : List Tree) (words : List String),
    (placeWordsList ts words).1.length = ts.length
  | [], _ => rfl
  | t :: ts, words => by
    have := length_placeWordsList ts (placeWords t words).2
    simp [placeWordsList, this]

theorem isLeaf_placeWordsList {name : String} {children : List Tree} {attributes : Attributes}
    {empty : Bool} (h : ¬isLeaf ⟨name, children, attributes, empty⟩ = true) (words : List String) :
    ¬isLeaf ⟨name, (placeWordsList children words).1, attributes, empty⟩ = true := by
  intro h'
  obtain ⟨hc, rfl⟩ := isLeaf_iff.mp h'
  have hlen := length_placeWordsList children words
  rw [hc] at hlen
  exact h (isLeaf_iff.mpr ⟨List.eq_nil_of_length_eq_zero hlen.symm, rfl⟩)

theorem placeWords_of_not_isLeaf {name : String} {children : List Tree} {attributes : Attributes}
    {empty : Bool} (h : ¬isLeaf ⟨name, children, attributes, empty⟩ = true) (words : List String) :
    placeWords ⟨name, children, attributes, empty⟩ words =
      (⟨name, (placeWordsList children words).1, attributes, empty⟩,
        (placeWordsList children words).2) := by
  simp [placeWords, h]

theorem leaves_of_not_isLeaf {name : String} {children : List Tree} {attributes : Attributes}
    {empty : Bool} (h : ¬isLeaf ⟨name, children, attributes, empty⟩ = true) :
    leaves ⟨name, children, attributes, empty⟩ = (nodesList children).filter (·.isLeaf) := by
  rw [leaves, nodes, List.filter_cons_of_neg h]

theorem zipWith_append_of_le {α β γ : Type} (f : α → β → γ) : ∀ (l m : List α) (words : List β),
    l.length ≤ words.length →
    List.zipWith f (l ++ m) words = List.zipWith f l words ++ List.zipWith f m (words.drop l.length)
  | [], _, _, _ => rfl
  | _ :: _, _, [], h => by simp at h
  | a :: l, m, w :: words, h => by
    have := zipWith_append_of_le f l m words (by simpa using h)
    simp [this]

mutual

/-- The leaves take the words from left to right, as long as there are enough of them. -/
theorem leaves_placeWords : ∀ (t : Tree) (words : List String), t.leaves.length ≤ words.length →
    (t.placeWords words).1.leaves = List.zipWith withWord t.leaves words ∧
      (t.placeWords words).2 = words.drop t.leaves.length
  | ⟨name, children, attributes, empty⟩, words, hlen => by
    have ih := leaves_placeWordsList children words
    by_cases h : isLeaf ⟨name, children, attributes, empty⟩ = true
    · obtain ⟨rfl, rfl⟩ := isLeaf_iff.mp h
      cases words with
      | nil => simp [leaves, nodes, nodesList, h] at hlen
      | cons word rest =>
        have hword : isLeaf ⟨word, [], attributes.insert tagAttribute name, false⟩ = true := rfl
        simp [placeWords, leaves, nodes, nodesList, h, withWord, hword]
    · rw [leaves_of_not_isLeaf h] at hlen ⊢
      rw [placeWords_of_not_isLeaf h, leaves_of_not_isLeaf (isLeaf_placeWordsList h words)]
      exact ih hlen

theorem leaves_placeWordsList : ∀ (ts : List Tree) (words : List String),
    ((nodesList ts).filter (·.isLeaf)).length ≤ words.length →
    (nodesList (placeWordsList ts words).1).filter (·.isLeaf) =
        List.zipWith withWord ((nodesList ts).filter (·.isLeaf)) words ∧
      (placeWordsList ts words).2 = words.drop ((nodesList ts).filter (·.isLeaf)).length
  | [], words, _ => by simp [placeWordsList, nodesList]
  | t :: ts, words, hlen => by
    simp only [nodesList, List.filter_append, List.length_append] at hlen
    obtain ⟨hfirst, hrest⟩ := leaves_placeWords t words (Nat.le_trans (Nat.le_add_right _ _) hlen)
    obtain ⟨htail, hlast⟩ := leaves_placeWordsList ts (placeWords t words).2
      (by rw [hrest, List.length_drop, leaves]; omega)
    rw [hrest] at htail hlast
    unfold leaves at hfirst hrest htail hlast
    simp only [placeWordsList, nodesList, List.filter_append, List.length_append]
    rw [zipWith_append_of_le _ _ _ _ (Nat.le_trans (Nat.le_add_right _ _) hlen), hfirst, hrest,
      htail, hlast, List.drop_drop]
    exact ⟨rfl, rfl⟩

end

mutual

/-- Nodes that are no leaves keep all but what stands below them. -/
theorem frames_placeWords : ∀ (t : Tree) (words : List String),
    (t.placeWords words).1.innerNodes.map frame = t.innerNodes.map frame
  | ⟨name, children, attributes, empty⟩, words => by
    have ih := frames_placeWordsList children words
    by_cases h : isLeaf ⟨name, children, attributes, empty⟩ = true
    · obtain ⟨rfl, rfl⟩ := isLeaf_iff.mp h
      cases words with
      | nil => simp [placeWords, h]
      | cons word rest =>
        have hword : isLeaf ⟨word, [], attributes.insert tagAttribute name, false⟩ = true := rfl
        simp [placeWords, innerNodes, nodes, nodesList, h, withWord, hword]
    · have hw := isLeaf_placeWordsList h words
      rw [placeWords_of_not_isLeaf h]
      simp [innerNodes, nodes, h, hw, ih, frame, length_placeWordsList]

theorem frames_placeWordsList : ∀ (ts : List Tree) (words : List String),
    ((nodesList (placeWordsList ts words).1).filter (!·.isLeaf)).map frame =
      ((nodesList ts).filter (!·.isLeaf)).map frame
  | [], _ => rfl
  | t :: ts, words => by
    have hfirst := frames_placeWords t words
    have hrest := frames_placeWordsList ts (placeWords t words).2
    unfold innerNodes at hfirst
    simp only [placeWordsList, nodesList, List.filter_append, List.map_append, hfirst, hrest]

end

end Tree

end ParseForest
