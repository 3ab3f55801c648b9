import Mathlib.Data.Set.Function
import ParseForest.Proofs.Scan
import ParseForest.Proofs.Sentence
import ParseForest.Tree.Display

/-!
# Trees are known by their texts

The bracket form says neither which nodes are empty nor what attributes they have, but in a parse
tree the name of a node without children tells the first and there are no attributes
(`shows_of_mem_parse`). So over one grammar no two parse trees have the same bracket form
(`bracket_injOn_parses`). The drawn form shows all there is of a tree without attributes
(`drawing_lossless`): a line that opens a child begins with another guide than those below it.
-/

namespace ParseForest

open ParseForest.Derivation Grammar

/-- Two texts whose first parts have a property that what follows them begins without are split at
the same place. -/
theorem append_inj_of_head {α : Type} {p : α → Bool} {x y : List α} (hx : ∀ a ∈ x.head?, p a = false)
    (hy : ∀ a ∈ y.head?, p a = false) : ∀ {l m : List α}, (∀ a ∈ l, p a = true) →
    (∀ a ∈ m, p a = true) → l ++ x = m ++ y → l = m ∧ x = y
  | [], [], _, _, h => ⟨rfl, h⟩
  | [], b :: m, _, hm, h => by
    rw [List.nil_append] at h
    have := hx b (by simp [h])
    rw [hm b (by simp)] at this
    cases this
  | a :: l, [], hl, _, h => by
    rw [List.nil_append] at h
    have := hy a (by simp [← h])
    rw [hl a (by simp)] at this
    cases this
  | a :: l, b :: m, hl, hm, h => by
    simp only [List.cons_append, List.cons.injEq] at h
    obtain ⟨rfl, h⟩ := h
    have := append_inj_of_head hx hy (fun c hc => hl c (by simp [hc])) (fun c hc => hm c (by simp [hc])) h
    exact ⟨by rw [this.1], this.2⟩

theorem Symbol.isNameChar_punctuation :
    isNameChar '(' = false ∧ isNameChar ')' = false ∧ isNameChar ',' = false := by decide +kernel

namespace Tree

/-! ## Bracket form -/

/-- The children after the first one as the bracket form writes them, up to a rest behind the
closing bracket. -/
def behindChild : List Tree → List Char → List Char
  | [], rest => ')' :: rest
  | t :: ts, rest => ',' :: ' ' :: (t.bracket.toList ++ behindChild ts rest)

/-- What the bracket form writes behind the name of a node with children, up to a rest. -/
def behindName : List Tree → List Char → List Char
  | [], rest => rest
  | t :: ts, rest => '(' :: (t.bracket.toList ++ behindChild ts rest)

theorem toList_intercalate_bracketList (t : Tree) (ts : List Tree) (rest : List Char) :
    (", ".intercalate (bracketList (t :: ts))).toList ++ ')' :: rest =
      t.bracket.toList ++ behindChild ts rest := by
  induction ts generalizing t with
  | nil => simp [bracketList, behindChild]
  | cons u us ih =>
    rw [bracketList, bracketList, String.intercalate_cons_cons, ← bracketList]
    simp [behindChild, ← ih u]

theorem toList_bracket (t : Tree) (rest : List Char) :
    t.bracket.toList ++ rest = t.name.toList ++ behindName t.children rest := by
  obtain ⟨name, children, attributes, empty⟩ := t
  cases children with
  | nil => simp [bracket, behindName]
  | cons t ts => simp [bracket, behindName, ← toList_intercalate_bracketList]

/-- Neither the name of a node nor its brackets go on with the text. -/
def EndsNode (text : List Char) : Prop :=
  ∀ c ∈ text.head?, Symbol.isNameChar c = false ∧ c ≠ '('

theorem endsNode_behindChild (ts : List Tree) (rest : List Char) : EndsNode (behindChild ts rest) := by
  cases ts <;> simp [EndsNode, behindChild, Symbol.isNameChar_punctuation]

theorem head_behindName (ts : List Tree) {rest : List Char} (h : EndsNode rest) :
    ∀ c ∈ (behindName ts rest).head?, Symbol.isNameChar c = false := by
  cases ts with
  | nil => exact fun c hc => (h c hc).1
  | cons t ts => simp [behindName, Symbol.isNameChar_punctuation]

end Tree

/-- What a node of a parse tree is: it has a sound name and no attributes, and it is empty if it has no
children although it is no terminal. -/
structure Grammar.Shows (g : Grammar) (n : Tree) : Prop where
  name : nameProblem? ⟨n.name⟩ = none
  attributes : n.attributes = ∅
  empty : n.empty = true ↔ n.children = [] ∧ ⟨n.name⟩ ∉ g.terminals

section
variable {g : Grammar}

theorem shows_of_derivations {α : List Symbol} {ds : List Derivation} (h : g.Derivations α ds) :
    ∀ n ∈ Tree.nodesList (toTrees g ds), g.Shows n := by
  induction h with
  | nil => simp [Tree.nodesList]
  | @leaf a α ds ha _ ih =>
    have hleaf : g.Shows (.leaf a.name) := ⟨g.terminal_name ha, rfl, by simp [Tree.leaf, Tree.branch, ha]⟩
    simp only [toTrees_cons, Tree.nodesList, List.forall_mem_append]
    refine ⟨?_, ih⟩
    simpa [toTree, Tree.leaf, Tree.branch, Tree.nodes, Tree.nodesList] using hleaf
  | @node id rule cs α ds hr hc _ ihc ih =>
    have hmem := mem_rules_of_rule? hr
    have hname : headName g id = rule.lhs.name := by simp [headName, hr]
    have hempty : toTrees g cs = [] ↔ cs = [] := by
      rw [← List.length_eq_zero_iff, toTrees_length, List.length_eq_zero_iff]
    simp only [toTrees_cons, Tree.nodesList, List.forall_mem_append]
    refine ⟨?_, ih⟩
    rw [toTree, hname, Tree.nodes, List.forall_mem_cons]
    refine ⟨⟨g.rule_name hmem (List.mem_cons_self ..), rfl, ?_⟩, ihc⟩
    simp [hempty, g.lhs_not_mem_terminals hmem]

theorem shows_of_mem_parse {input : List Symbol} {t : Tree} (h : t ∈ g.parse input) :
    ∀ n ∈ t.nodes, g.Shows n := by
  rw [parse_eq_map] at h
  obtain ⟨d, hd, rfl⟩ := List.mem_map.mp h
  obtain ⟨cs, rfl, hc, _⟩ := mem_parses_own_iff.mp hd
  have := shows_of_derivations (Derivations.node g.rule?_zero hc .nil)
  simpa [Tree.nodesList] using this

namespace Tree

theorem isNameChar_of_shows {n : Tree} (h : g.Shows n) :
    ∀ c ∈ n.name.toList, Symbol.isNameChar c = true :=
  (nameProblem?_eq_none_iff.mp h.name).2.1

/-- Names and children of a node tell the rest of it. -/
theorem eq_of_shows {name : String} {children : List Tree} {as bs : Attributes} {e f : Bool}
    (h : g.Shows ⟨name, children, as, e⟩) (h' : g.Shows ⟨name, children, bs, f⟩) :
    (⟨name, children, as, e⟩ : Tree) = ⟨name, children, bs, f⟩ := by
  have hattributes : as = bs := h.attributes.trans h'.attributes.symm
  have hempty : e = f := Bool.eq_iff_iff.mpr (h.empty.trans h'.empty.symm)
  rw [hattributes, hempty]

mutual

theorem bracket_append_inj : ∀ {t u : Tree} {x y : List Char}, (∀ n ∈ t.nodes, g.Shows n) →
    (∀ n ∈ u.nodes, g.Shows n) → EndsNode x → EndsNode y →
    t.bracket.toList ++ x = u.bracket.toList ++ y → t = u ∧ x = y
  | ⟨name, children, as, e⟩, ⟨name', children', bs, f⟩, x, y, ht, hu, hx, hy, h => by
    rw [nodes, List.forall_mem_cons] at ht hu
    rw [toList_bracket, toList_bracket] at h
    obtain ⟨hname, hbehind⟩ := append_inj_of_head (head_behindName _ hx) (head_behindName _ hy)
      (isNameChar_of_shows ht.1) (isNameChar_of_shows hu.1) h
    obtain rfl := String.toList_inj.mp hname
    obtain ⟨rfl, hxy⟩ := behindName_inj ht.2 hu.2 hx hy hbehind
    exact ⟨eq_of_shows ht.1 hu.1, hxy⟩

theorem behindName_inj : ∀ {ts us : List Tree} {x y : List Char}, (∀ n ∈ nodesList ts, g.Shows n) →
    (∀ n ∈ nodesList us, g.Shows n) → EndsNode x → EndsNode y → behindName ts x = behindName us y →
    ts = us ∧ x = y
  | [], [], _, _, _, _, _, _, h => ⟨rfl, h⟩
  -- a bracket behind one of the names alone would begin what follows the other node
  | [], _ :: _, _, _, _, _, hx, _, h => absurd rfl (hx '(' (congrArg List.head? h)).2
  | _ :: _, [], _, _, _, _, _, hy, h => absurd rfl (hy '(' (congrArg List.head? h.symm)).2
  | t :: ts, u :: us, x, y, ht, hu, _, _, h => by
    simp only [nodesList, List.forall_mem_append] at ht hu
    simp only [behindName, List.cons.injEq, true_and] at h
    obtain ⟨rfl, hbehind⟩ := bracket_append_inj ht.1 hu.1 (endsNode_behindChild _ _)
      (endsNode_behindChild _ _) h
    obtain ⟨rfl, hxy⟩ := behindChild_inj ht.2 hu.2 hbehind
    exact ⟨rfl, hxy⟩

theorem behindChild_inj : ∀ {ts us : List Tree} {x y : List Char}, (∀ n ∈ nodesList ts, g.Shows n) →
    (∀ n ∈ nodesList us, g.Shows n) → behindChild ts x = behindChild us y → ts = us ∧ x = y
  | [], [], _, _, _, _, h => ⟨rfl, (List.cons.inj h).2⟩
  | [], _ :: _, _, _, _, _, h => by simp [behindChild] at h
  | _ :: _, [], _, _, _, _, h => by simp [behindChild] at h
  | t :: ts, u :: us, x, y, ht, hu, h => by
    simp only [nodesList, List.forall_mem_append] at ht hu
    simp only [behindChild, List.cons.injEq, true_and] at h
    obtain ⟨rfl, hbehind⟩ := bracket_append_inj ht.1 hu.1 (endsNode_behindChild _ _)
      (endsNode_behindChild _ _) h
    obtain ⟨rfl, hxy⟩ := behindChild_inj ht.2 hu.2 hbehind
    exact ⟨rfl, hxy⟩

end

end Tree

end

/-- **Parse trees are known by their bracket form.** Of all trees that a grammar gives to any inputs, no
two have the same bracket form. -/
theorem bracket_injOn_parses (g : Grammar) :
    Set.InjOn Tree.bracket {t | ∃ input, t ∈ g.parse input} := by
  rintro t ⟨_, ht⟩ u ⟨_, hu⟩ h
  have hnil : Tree.EndsNode [] := by simp [Tree.EndsNode]
  have htext : t.bracket.toList ++ [] = u.bracket.toList ++ [] := by rw [h]
  exact (Tree.bracket_append_inj (shows_of_mem_parse ht) (shows_of_mem_parse hu) hnil hnil htext).1

/-! ## Drawn form -/

namespace Tree

/-- A node without attributes whose name, if it is not empty, is made of name characters. -/
def IsPlain (n : Tree) : Prop :=
  (∀ c ∈ n.name.toList, Symbol.isNameChar c = true) ∧ n.attributes = ∅

theorem lines_eq (t : Tree) : t.lines = t.label :: childLines t.children := by
  obtain ⟨name, children, attributes, empty⟩ := t
  rw [lines]

theorem label_of_isPlain {t : Tree} (h : t.IsPlain) :
    t.label.toList = t.name.toList ++ if t.empty then [' ', 'ε'] else [] := by
  have hget : t.attributes.get? tagAttribute = none := by
    rw [h.2]
    rfl
  cases he : t.empty <;> simp [label, hget, he, Symbol.emptyWord]

theorem eq_of_label_eq {t u : Tree} (ht : t.IsPlain) (hu : u.IsPlain) (h : t.label = u.label) :
    t.name = u.name ∧ t.empty = u.empty := by
  have hmark (empty : Bool) : ∀ c ∈ (if empty then [' ', 'ε'] else ([] : List Char)).head?,
      Symbol.isNameChar c = false := by
    cases empty
    · simp
    · simp [Symbol.isNameChar_eq_false_of_isBlank (c := ' ') (by decide)]
  have htext := congrArg String.toList h
  rw [label_of_isPlain ht, label_of_isPlain hu] at htext
  obtain ⟨hname, hempty⟩ := append_inj_of_head (hmark _) (hmark _) ht.1 hu.1 htext
  refine ⟨String.toList_inj.mp hname, ?_⟩
  cases ht : t.empty <;> cases hu : u.empty <;> simp [ht, hu] at hempty ⊢

/-! ### Guides -/

/-- The guide in front of a child. -/
def openingGuide (isLast : Bool) : String := if isLast then "└── " else "├── "

/-- The guide in front of what stands below a child. -/
def lowerGuide (isLast : Bool) : String := if isLast then "    " else "│   "

theorem hang_cons (isLast : Bool) (first : String) (rest : List String) :
    hang isLast (first :: rest) = (openingGuide isLast ++ first) :: rest.map (lowerGuide isLast ++ ·) := rfl

theorem childLines_nil : childLines [] = [] := rfl

theorem childLines_cons (t : Tree) (ts : List Tree) : childLines (t :: ts) =
    (openingGuide ts.isEmpty ++ t.label) ::
      ((childLines t.children).map (lowerGuide ts.isEmpty ++ ·) ++ childLines ts) := by
  rw [childLines, lines_eq, hang_cons, List.cons_append]

/-- Whether a line stands below a child, by the guide that it begins with. -/
def isBelow (line : String) : Bool :=
  line.toList.head? = some ' ' || line.toList.head? = some '│'

theorem isBelow_lowerGuide (isLast : Bool) (line : String) : isBelow (lowerGuide isLast ++ line) = true := by
  cases isLast <;> simp [isBelow, lowerGuide]

theorem isBelow_openingGuide (isLast : Bool) (line : String) :
    isBelow (openingGuide isLast ++ line) = false := by
  cases isLast <;> simp [isBelow, openingGuide]

theorem openingGuide_append_inj {b b' : Bool} {s s' : String}
    (h : openingGuide b ++ s = openingGuide b' ++ s') : b = b' ∧ s = s' := by
  have htext := congrArg String.toList h
  cases b <;> cases b' <;> simp [openingGuide, String.toList_inj] at htext ⊢
  · exact htext
  · exact htext

theorem append_left_injective (s : String) : Function.Injective (s ++ ·) := by
  intro a b h
  simpa [String.toList_inj] using congrArg String.toList h

theorem head_childLines (ts : List Tree) : ∀ line ∈ (childLines ts).head?, isBelow line = false := by
  cases ts with
  | nil => simp [childLines_nil]
  | cons t ts => simp [childLines_cons, isBelow_openingGuide]

/-! ### Lines -/

mutual

/-- A plain tree is known by its lines. -/
theorem eq_of_lines_eq : ∀ {t u : Tree}, (∀ n ∈ t.nodes, n.IsPlain) → (∀ n ∈ u.nodes, n.IsPlain) →
    t.label = u.label → childLines t.children = childLines u.children → t = u
  | ⟨name, children, as, e⟩, ⟨name', children', bs, f⟩, ht, hu, hlabel, hlines => by
    rw [nodes, List.forall_mem_cons] at ht hu
    have hattributes : as = bs := ht.1.2.trans hu.1.2.symm
    obtain ⟨hname, hempty⟩ := eq_of_label_eq ht.1 hu.1 hlabel
    simp only at hname hempty
    rw [hattributes, hname, hempty, eq_of_childLines_eq ht.2 hu.2 hlines]

theorem eq_of_childLines_eq : ∀ {ts us : List Tree}, (∀ n ∈ nodesList ts, n.IsPlain) →
    (∀ n ∈ nodesList us, n.IsPlain) → childLines ts = childLines us → ts = us
  | [], [], _, _, _ => rfl
  | [], _ :: _, _, _, h => by simp [childLines_nil, childLines_cons] at h
  | _ :: _, [], _, _, h => by simp [childLines_nil, childLines_cons] at h
  | t :: ts, u :: us, ht, hu, h => by
    simp only [nodesList, List.forall_mem_append] at ht hu
    rw [childLines_cons, childLines_cons] at h
    obtain ⟨hfirst, hrest⟩ := List.cons.inj h
    obtain ⟨hlast, hlabel⟩ := openingGuide_append_inj hfirst
    rw [hlast] at hrest
    -- the next line with an opening guide is that of the next child
    obtain ⟨hbelow, hbehind⟩ := append_inj_of_head (head_childLines ts) (head_childLines us)
      (List.forall_mem_map.mpr fun line _ => isBelow_lowerGuide _ line)
      (List.forall_mem_map.mpr fun line _ => isBelow_lowerGuide _ line) hrest
    have hlines := List.map_injective_iff.mpr (append_left_injective _) hbelow
    rw [eq_of_lines_eq ht.1 hu.1 hlabel hlines, eq_of_childLines_eq ht.2 hu.2 hbehind]

end

mutual

theorem length_lines : ∀ t : Tree, t.lines.length = t.size
  | ⟨name, children, attributes, empty⟩ => by
    rw [lines, size, List.length_cons, length_childLines children, Nat.add_comm]

theorem length_childLines : ∀ ts : List Tree, (childLines ts).length = sizeList ts
  | [] => rfl
  | t :: ts => by
    have ht := length_lines t
    rw [lines_eq, List.length_cons] at ht
    rw [childLines_cons, sizeList, List.length_cons, List.length_append, List.length_map,
      length_childLines ts, ← ht]
    omega

end

theorem newline_not_mem_guides (isLast : Bool) :
    '\n' ∉ (openingGuide isLast).toList ∧ '\n' ∉ (lowerGuide isLast).toList := by
  cases isLast <;> decide

theorem newline_not_mem_label {t : Tree} (h : t.IsPlain) : '\n' ∉ t.label.toList := by
  rw [label_of_isPlain h, List.mem_append]
  rintro (hmem | hmem)
  · have := h.1 '\n' hmem
    rw [Symbol.isNameChar_eq_false_of_isBlank (by decide)] at this
    cases this
  · revert hmem
    cases t.empty <;> simp

mutual

theorem newline_not_mem_lines : ∀ {t : Tree}, (∀ n ∈ t.nodes, n.IsPlain) →
    ∀ line ∈ t.lines, '\n' ∉ line.toList
  | ⟨name, children, attributes, empty⟩, h => by
    rw [nodes, List.forall_mem_cons] at h
    rw [lines, List.forall_mem_cons]
    exact ⟨newline_not_mem_label h.1, newline_not_mem_childLines h.2⟩

theorem newline_not_mem_childLines : ∀ {ts : List Tree}, (∀ n ∈ nodesList ts, n.IsPlain) →
    ∀ line ∈ childLines ts, '\n' ∉ line.toList
  | [], _ => by simp [childLines_nil]
  | t :: ts, h => by
    simp only [nodesList, List.forall_mem_append] at h
    have ht := newline_not_mem_lines h.1
    rw [lines_eq, List.forall_mem_cons] at ht
    rw [childLines_cons, List.forall_mem_cons, List.forall_mem_append, List.forall_mem_map]
    obtain ⟨hopening, hlower⟩ := newline_not_mem_guides ts.isEmpty
    refine ⟨by simp [hopening, ht.1], fun line hline => ?_, newline_not_mem_childLines h.2⟩
    simp [hlower, ht.2 line hline]

end

/-! ### Texts of lines -/

theorem toList_join_lines (l : List String) : (String.join (l.map (· ++ "\n"))).toList =
    l.flatMap fun line => line.toList ++ ['\n'] := by
  simp [String.toList_join, List.flatMap_map]

theorem count_newline {l : List String} (h : ∀ line ∈ l, '\n' ∉ line.toList) :
    (l.flatMap fun line => line.toList ++ ['\n']).count '\n' = l.length := by
  induction l with
  | nil => rfl
  | cons line l ih =>
    rw [List.forall_mem_cons] at h
    simp [List.count_eq_zero.mpr h.1, ih h.2]

theorem eq_of_flatMap_lines_eq : ∀ {l m : List String}, (∀ line ∈ l, '\n' ∉ line.toList) →
    (∀ line ∈ m, '\n' ∉ line.toList) →
    (l.flatMap fun line => line.toList ++ ['\n']) = (m.flatMap fun line => line.toList ++ ['\n']) → l = m
  | [], [], _, _, _ => rfl
  | [], _ :: _, _, _, h => by simp at h
  | _ :: _, [], _, _, h => by simp at h
  | s :: l, s' :: m, hl, hm, h => by
    rw [List.forall_mem_cons] at hl hm
    simp only [List.flatMap_cons, List.append_assoc, List.singleton_append] at h
    obtain ⟨hs, hrest⟩ := append_inj_of_head (p := (· ≠ '\n')) (by simp) (by simp)
      (fun c hc => by simpa using ne_of_mem_of_not_mem hc hl.1)
      (fun c hc => by simpa using ne_of_mem_of_not_mem hc hm.1) h
    rw [String.toList_inj.mp hs, eq_of_flatMap_lines_eq hl.2 hm.2 (List.cons.inj hrest).2]

theorem getLast?_flatMap_lines {l : List String} (h : l ≠ []) :
    (l.flatMap fun line => line.toList ++ ['\n']).getLast? = some '\n' := by
  obtain ⟨front, line, rfl⟩ := (List.eq_nil_or_concat l).resolve_left h
  simp

/-- **The drawn form loses nothing.** A tree without attributes whose names are made of name characters
is drawn as one line for each node, with a line break at the end of each line, and no two such trees
have the same drawing. -/
theorem drawing_lossless :
    (∀ t : Tree, (∀ n ∈ t.nodes, n.IsPlain) →
      t.drawing.toList.count '\n' = t.size ∧ t.drawing.toList.getLast? = some '\n') ∧
    Set.InjOn drawing {t | ∀ n ∈ t.nodes, n.IsPlain} := by
  constructor
  · intro t ht
    rw [drawing, toList_join_lines, count_newline (newline_not_mem_lines ht), length_lines]
    exact ⟨rfl, getLast?_flatMap_lines (by simp [lines_eq])⟩
  · intro t ht u hu h
    have htext := congrArg String.toList h
    rw [drawing, drawing, toList_join_lines, toList_join_lines] at htext
    have hlines := eq_of_flatMap_lines_eq (newline_not_mem_lines ht) (newline_not_mem_lines hu) htext
    rw [lines_eq, lines_eq] at hlines
    obtain ⟨hlabel, hchildren⟩ := List.cons.inj hlines
    exact eq_of_lines_eq ht hu hlabel hchildren

def lowTree : Tree :=
  .branch "S" [.branch "A" [.emptyNode "B", .leaf "ε"]]

/-- The nodes of `lowTree` in the same order, with the last one a level higher. -/
def highTree : Tree :=
  .branch "S" [.branch "A" [.emptyNode "B"], .leaf "ε"]

theorem drawing_lowTree :
    ((∀ n ∈ lowTree.nodes, n.IsPlain) ∧ (∀ n ∈ highTree.nodes, n.IsPlain)) ∧
    (lowTree.drawing.toList.count '\n' = lowTree.size ∧ lowTree.drawing.toList.getLast? = some '\n') ∧
    lowTree.drawing ≠ highTree.drawing := by
  have hnames : (['S', 'A', 'B', 'ε'].all Symbol.isNameChar) = true := by decide +kernel
  have hlow : ∀ n ∈ lowTree.nodes, n.IsPlain := by
    simpa [lowTree, branch, emptyNode, leaf, nodes, nodesList, IsPlain] using hnames
  have hhigh : ∀ n ∈ highTree.nodes, n.IsPlain := by
    simpa [highTree, branch, emptyNode, leaf, nodes, nodesList, IsPlain] using hnames
  refine ⟨⟨hlow, hhigh⟩, drawing_lossless.1 _ hlow, fun h => ?_⟩
  exact absurd (drawing_lossless.2 hlow hhigh h) (by decide)

end Tree

end ParseForest
