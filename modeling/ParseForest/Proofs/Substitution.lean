import ParseForest.Tree.Edit
import ParseForest.Proofs.Words

/-!
# Words placed one after the other

`substitute` finds the ways to all leaves of a tree, changes nothing if there is not one word for each
of them, and else changes one leaf after the other. Each change leaves the other nodes as
they are (`frame_set`), so all of them together leave the nodes that are no leaves as they are
(`frame_placeAll_of_notMem`) and give each leaf its word (`frame_placeAll_of_mem`). Hence the tree is the
same as if the words are placed on the way through it (`placeAll_leafWays`).
-/

namespace ParseForest.Tree

/-! ## Nodes and the ways to them -/

theorem get?_cons (t : Tree) (i : Nat) (way : List Nat) :
    t.get? (i :: way) = t.children[i]?.bind (get? · way) := rfl

theorem get?_cons_of_isLeaf {t : Tree} (h : t.isLeaf = true) (i : Nat) (way : List Nat) :
    t.get? (i :: way) = none := by
  obtain ⟨name, children, attributes, empty⟩ := t
  obtain ⟨rfl, -⟩ := isLeaf_iff.mp h
  rfl

mutual

/-- A tree is known by what its nodes are beside the nodes below them. -/
theorem eq_of_frame : ∀ {t u : Tree},
    (∀ way, (t.get? way).map frame = (u.get? way).map frame) → t = u
  | ⟨name, children, attributes, empty⟩, ⟨name', children', attributes', empty'⟩, h => by
    have hroot := h []
    simp only [get?, frame, Option.map_some, Option.some.injEq, Prod.mk.injEq] at hroot
    obtain ⟨rfl, rfl, rfl, hlen⟩ := hroot
    rw [eqList_of_frame hlen fun i way => h (i :: way)]

theorem eqList_of_frame : ∀ {ts us : List Tree}, ts.length = us.length →
    (∀ (i : Nat) way,
      (ts[i]?.bind (get? · way)).map frame = (us[i]?.bind (get? · way)).map frame) → ts = us
  | [], [], _, _ => rfl
  | t :: ts, u :: us, hlen, h => by
    rw [eq_of_frame fun way => h 0 way,
      eqList_of_frame (Nat.succ.inj hlen) fun i way => h (i + 1) way]

end

/-! ## Ways to leaves -/

mutual

/-- The ways to the leaves from left to right. -/
def leafWays : Tree → List (List Nat)
  | ⟨name, children, attributes, empty⟩ =>
    if isLeaf ⟨name, children, attributes, empty⟩ then [[]] else leafWaysFrom 0 children

/-- The ways to the leaves of children that are counted from a number on. -/
def leafWaysFrom : Nat → List Tree → List (List Nat)
  | _, [] => []
  | i, t :: ts => t.leafWays.map (i :: ·) ++ leafWaysFrom (i + 1) ts

end

theorem leafWays_of_isLeaf {t : Tree} (h : t.isLeaf = true) : t.leafWays = [[]] := by
  obtain ⟨name, children, attributes, empty⟩ := t
  rw [leafWays, if_pos h]

theorem leafWays_of_not_isLeaf {t : Tree} (h : ¬t.isLeaf = true) :
    t.leafWays = leafWaysFrom 0 t.children := by
  obtain ⟨name, children, attributes, empty⟩ := t
  rw [leafWays, if_neg h]

theorem mem_leafWaysFrom {ts : List Tree} {way : List Nat} : ∀ {i : Nat}, way ∈ leafWaysFrom i ts ↔
    ∃ j child rest, ts[j]? = some child ∧ rest ∈ child.leafWays ∧ way = (i + j) :: rest := by
  induction ts with
  | nil => simp [leafWaysFrom]
  | cons t ts ih =>
    intro i
    rw [leafWaysFrom, List.mem_append, List.mem_map, ih]
    constructor
    · rintro (⟨rest, hrest, rfl⟩ | ⟨j, child, rest, hchild, hrest, rfl⟩)
      · exact ⟨0, t, rest, rfl, hrest, rfl⟩
      · exact ⟨j + 1, child, rest, hchild, hrest, by rw [Nat.add_right_comm, Nat.add_assoc]⟩
    · rintro ⟨_ | j, child, rest, hchild, hrest, rfl⟩
      · exact .inl ⟨rest, Option.some.inj hchild ▸ hrest, rfl⟩
      · exact .inr ⟨j, child, rest, hchild, hrest, by rw [Nat.add_right_comm, Nat.add_assoc]⟩

theorem cons_mem_leafWaysFrom {ts : List Tree} {i : Nat} {way : List Nat} :
    i :: way ∈ leafWaysFrom 0 ts ↔ ∃ child, ts[i]? = some child ∧ way ∈ child.leafWays := by
  rw [mem_leafWaysFrom]
  constructor
  · rintro ⟨j, child, rest, hchild, hrest, heq⟩
    obtain ⟨rfl, rfl⟩ := List.cons.inj heq
    exact ⟨child, by rwa [Nat.zero_add], hrest⟩
  · rintro ⟨child, hchild, hway⟩
    exact ⟨i, child, way, hchild, hway, by rw [Nat.zero_add]⟩

mutual

/-- The ways lead to the leaves in their order. -/
theorem map_get?_leafWays : ∀ t : Tree, t.leafWays.map t.get? = t.leaves.map some
  | ⟨name, children, attributes, empty⟩ => by
    by_cases h : isLeaf ⟨name, children, attributes, empty⟩ = true
    · obtain ⟨rfl, rfl⟩ := isLeaf_iff.mp h
      simp [leafWays, get?, leaves, nodes, nodesList, h]
    · rw [leafWays_of_not_isLeaf h, leaves_of_not_isLeaf h]
      exact map_leafWaysFrom children fun j way => by rw [get?_cons, Nat.zero_add]

theorem map_leafWaysFrom : ∀ (ts : List Tree) {i : Nat} {f : List Nat → Option Tree},
    (∀ j way, f ((i + j) :: way) = ts[j]?.bind (get? · way)) →
    (leafWaysFrom i ts).map f = ((nodesList ts).filter (·.isLeaf)).map some
  | [], _, _, _ => rfl
  | t :: ts, i, f, h => by
    have hfirst : (t.leafWays.map (i :: ·)).map f = t.leaves.map some := by
      rw [List.map_map, ← map_get?_leafWays t]
      exact List.map_congr_left fun way _ => h 0 way
    have hrest := map_leafWaysFrom ts (i := i + 1) (f := f) fun j way => by
      rw [Nat.add_right_comm]
      exact h (j + 1) way
    rw [leafWaysFrom, List.map_append, hfirst, hrest, nodesList, List.filter_append, List.map_append]
    rfl

end

theorem length_leafWays (t : Tree) : t.leafWays.length = t.leaves.length := by
  simpa using congrArg List.length (map_get?_leafWays t)

theorem get?_leafWays {t : Tree} {i : Nat} {way : List Nat} (h : t.leafWays[i]? = some way) :
    t.get? way = t.leaves[i]? := by
  have hi := congrArg (·[i]?) (map_get?_leafWays t)
  simp only [List.getElem?_map, h, Option.map_some] at hi
  cases hleaf : t.leaves[i]? with
  | none => simp [hleaf] at hi
  | some leaf => simpa [hleaf] using hi

theorem mem_leafWays_iff {way : List Nat} : ∀ {t : Tree},
    way ∈ t.leafWays ↔ ∃ leaf, t.get? way = some leaf ∧ leaf.isLeaf = true := by
  induction way with
  | nil =>
    intro t
    by_cases h : t.isLeaf = true
    · simp [leafWays_of_isLeaf h, get?, h]
    · simp [leafWays_of_not_isLeaf h, mem_leafWaysFrom, get?, h]
  | cons i way ih =>
    intro t
    by_cases h : t.isLeaf = true
    · simp [leafWays_of_isLeaf h, get?_cons_of_isLeaf h]
    · rw [leafWays_of_not_isLeaf h, cons_mem_leafWaysFrom, get?_cons]
      cases t.children[i]? with
      | none => simp
      | some child => simp [ih]

mutual

theorem pairwise_lt_leafWays : ∀ t : Tree, t.leafWays.Pairwise (· < ·)
  | ⟨name, children, attributes, empty⟩ => by
    by_cases h : isLeaf ⟨name, children, attributes, empty⟩ = true
    · rw [leafWays_of_isLeaf h]
      exact List.pairwise_singleton _ _
    · rw [leafWays_of_not_isLeaf h]
      exact pairwise_lt_leafWaysFrom children

theorem pairwise_lt_leafWaysFrom : ∀ (ts : List Tree) {i : Nat}, (leafWaysFrom i ts).Pairwise (· < ·)
  | [], _ => .nil
  | t :: ts, i => by
    rw [leafWaysFrom, List.pairwise_append, List.pairwise_map]
    refine ⟨(pairwise_lt_leafWays t).imp fun h => List.cons_lt_cons_iff.mpr (.inr ⟨rfl, h⟩),
      pairwise_lt_leafWaysFrom ts, fun first hfirst later hlater => ?_⟩
    obtain ⟨_, _, rfl⟩ := List.mem_map.mp hfirst
    obtain ⟨j, _, _, _, _, rfl⟩ := mem_leafWaysFrom.mp hlater
    exact List.cons_lt_cons_iff.mpr (.inl (by omega))

end

/-! ## Words placed on the way -/

theorem get?_cons_placeWords_of_isLeaf {t : Tree} (h : t.isLeaf = true) (words : List String) (i : Nat)
    (way : List Nat) : (t.placeWords words).1.get? (i :: way) = none := by
  obtain ⟨name, children, attributes, empty⟩ := t
  obtain ⟨rfl, rfl⟩ := isLeaf_iff.mp h
  cases words with
  | nil => rfl
  | cons word words => rfl

theorem getElem?_placeWordsList : ∀ (ts : List Tree) (words : List String) (i : Nat),
    ∃ rest, (placeWordsList ts words).1[i]? = ts[i]?.map fun t => (t.placeWords rest).1
  | [], words, _ => ⟨words, rfl⟩
  | _ :: _, words, 0 => ⟨words, rfl⟩
  | t :: ts, words, i + 1 => getElem?_placeWordsList ts (t.placeWords words).2 i

mutual

theorem leafWays_placeWords : ∀ (t : Tree) (words : List String),
    (t.placeWords words).1.leafWays = t.leafWays
  | ⟨name, children, attributes, empty⟩, words => by
    by_cases h : isLeaf ⟨name, children, attributes, empty⟩ = true
    · obtain ⟨rfl, rfl⟩ := isLeaf_iff.mp h
      cases words with
      | nil => rfl
      | cons word words => rfl
    · rw [placeWords_of_not_isLeaf h, leafWays_of_not_isLeaf h,
        leafWays_of_not_isLeaf (isLeaf_placeWordsList h words)]
      exact leafWaysFrom_placeWordsList children words

theorem leafWaysFrom_placeWordsList : ∀ (ts : List Tree) (words : List String) {i : Nat},
    leafWaysFrom i (placeWordsList ts words).1 = leafWaysFrom i ts
  | [], _, _ => rfl
  | t :: ts, words, i => by
    have hrest := leafWaysFrom_placeWordsList ts (t.placeWords words).2 (i := i + 1)
    rw [placeWordsList, leafWaysFrom, leafWaysFrom, leafWays_placeWords t words, hrest]

end

theorem get?_placeWords_of_leafWays {t : Tree} {words : List String}
    (hlen : t.leaves.length ≤ words.length) {i : Nat} {way : List Nat}
    (h : t.leafWays[i]? = some way) :
    (t.placeWords words).1.get? way = (List.zipWith withWord t.leaves words)[i]? := by
  rw [← (leaves_placeWords t words hlen).1]
  exact get?_leafWays (by rw [leafWays_placeWords, h])

theorem frame_placeWords_of_notMem {way : List Nat} : ∀ {t : Tree} (words : List String),
    way ∉ t.leafWays → ((t.placeWords words).1.get? way).map frame = (t.get? way).map frame := by
  induction way with
  | nil =>
    intro t words hway
    have h : ¬t.isLeaf = true := fun h => hway (mem_leafWays_iff.mpr ⟨t, rfl, h⟩)
    obtain ⟨name, children, attributes, empty⟩ := t
    rw [placeWords_of_not_isLeaf h]
    simp [get?, frame, length_placeWordsList]
  | cons i way ih =>
    intro t words hway
    by_cases h : t.isLeaf = true
    -- Nothing stands below a leaf, whether it has its word or not.
    · rw [get?_cons_placeWords_of_isLeaf h, get?_cons_of_isLeaf h]
    · rw [leafWays_of_not_isLeaf h, cons_mem_leafWaysFrom] at hway
      obtain ⟨name, children, attributes, empty⟩ := t
      obtain ⟨rest, hrest⟩ := getElem?_placeWordsList children words i
      rw [placeWords_of_not_isLeaf h, get?_cons, get?_cons, hrest]
      cases hchild : children[i]? with
      | none => rfl
      | some child => exact ih rest fun hmem => hway ⟨child, hchild, hmem⟩

/-! ## Words placed one after the other -/

/-- A word is put on the node that a way leads to. -/
def placeAt (t : Tree) (way : List Nat) (word : String) : Tree :=
  match t.get? way with
  | none => t
  | some node => t.set (node.withWord word) way

def placeAll (placements : List (List Nat × String)) (t : Tree) : Tree :=
  placements.foldl (fun t (way, word) => t.placeAt way word) t

/-- The words are put on the leaves of the tree at hand, one after the other, if there is one
for each leaf. -/
def substitute (words : List String) : ExceptT Error (StateM Tree) Unit := do
  let ways := (← get).leafWays
  if ways.length ≠ words.length then
    throw (.leafCount ways.length words.length)
  (ways.zip words).forM fun (way, word) => modify (·.placeAt way word)

theorem run_forM_placeAt (placements : List (List Nat × String)) : ∀ t : Tree,
    ((placements.forM fun (way, word) => modify (·.placeAt way word) :
      ExceptT Error (StateM Tree) Unit).run.run t) = (.ok (), placeAll placements t) := by
  induction placements with
  | nil => exact fun _ => rfl
  | cons placement placements ih => exact fun t => ih (t.placeAt placement.1 placement.2)

theorem run_get_bind (f : Tree → ExceptT Error (StateM Tree) Unit) (t : Tree) :
    ((do f (← get)) : ExceptT Error (StateM Tree) Unit).run.run t = (f t).run.run t := rfl

theorem run_substitute (t : Tree) (words : List String) : (substitute words).run.run t =
    if t.leafWays.length = words.length then (.ok (), placeAll (t.leafWays.zip words) t)
    else (.error (.leafCount t.leafWays.length words.length), t) := by
  rw [substitute, run_get_bind]
  by_cases hlen : t.leafWays.length = words.length
  · rw [if_pos hlen, if_neg (not_not_intro hlen)]
    exact run_forM_placeAt (t.leafWays.zip words) t
  · rw [if_neg hlen, if_pos hlen]
    rfl

/-- Another node without children in place of one changes no other node. -/
theorem frame_set {leaf node : Tree} (hleaf : leaf.children = []) (hnode : node.children = [])
    {way : List Nat} : ∀ {t : Tree}, t.get? way = some leaf → ∀ other : List Nat,
    ((t.set node way).get? other).map frame =
      if other = way then some node.frame else (t.get? other).map frame := by
  induction way with
  | nil =>
    intro t h other
    obtain rfl := Option.some.inj h
    cases other with
    | nil => rfl
    | cons i other => simp [set, get?_cons, hleaf, hnode]
  | cons i way ih =>
    intro t h other
    obtain ⟨child, hchild, hway⟩ := Option.bind_eq_some_iff.mp h
    rw [set, hchild]
    cases other with
    | nil => simp [get?, frame]
    | cons j other =>
      rw [get?_cons, get?_cons, List.getElem?_set]
      by_cases hij : i = j
      · subst hij
        obtain ⟨hi, rfl⟩ := List.getElem?_eq_some_iff.mp hchild
        simpa [hi] using ih hway other
      · simp [hij, Ne.symm hij]

theorem children_of_isLeaf {leaf : Tree} (h : leaf.isLeaf = true) : leaf.children = [] := by
  obtain ⟨name, children, attributes, empty⟩ := leaf
  exact (isLeaf_iff.mp h).1

theorem eq_of_frame_of_isLeaf {t leaf : Tree} (hleaf : leaf.isLeaf = true) (h : t.frame = leaf.frame) :
    t = leaf := by
  obtain ⟨name, children, attributes, empty⟩ := t
  obtain ⟨name', children', attributes', empty'⟩ := leaf
  obtain rfl : children' = [] := children_of_isLeaf hleaf
  simp only [frame, Prod.mk.injEq] at h
  obtain ⟨rfl, rfl, rfl, hlen⟩ := h
  rw [List.eq_nil_of_length_eq_zero hlen]

theorem get?_eq_of_frame {t leaf : Tree} {way : List Nat} (hleaf : leaf.isLeaf = true)
    (h : (t.get? way).map frame = some leaf.frame) : t.get? way = some leaf := by
  obtain ⟨node, hnode, hframe⟩ := Option.map_eq_some_iff.mp h
  rw [hnode, eq_of_frame_of_isLeaf hleaf hframe]

section
variable {t leaf : Tree} {way other : List Nat}

theorem frame_placeAt (h : t.get? way = some leaf) (hleaf : leaf.isLeaf = true) (word : String) :
    ((t.placeAt way word).get? other).map frame =
      if other = way then some (leaf.withWord word).frame else (t.get? other).map frame := by
  have hchildren := children_of_isLeaf hleaf
  have hword : (leaf.withWord word).children = [] := hchildren
  rw [placeAt, h]
  exact frame_set hchildren hword h other

theorem frame_placeAt_of_ne (hway : way ∈ t.leafWays) (hne : other ≠ way) (word : String) :
    ((t.placeAt way word).get? other).map frame = (t.get? other).map frame := by
  obtain ⟨leaf, h, hleaf⟩ := mem_leafWays_iff.mp hway
  exact (frame_placeAt h hleaf word).trans (if_neg hne)

theorem get?_placeAt_of_ne (hway : way ∈ t.leafWays) (hne : other ≠ way) (word : String)
    (hleaf : leaf.isLeaf = true) (h : t.get? other = some leaf) :
    (t.placeAt way word).get? other = some leaf :=
  get?_eq_of_frame hleaf (by rw [frame_placeAt_of_ne hway hne, h, Option.map_some])

end

/-- Each of the words is for a leaf of its own. -/
structure Fits (placements : List (List Nat × String)) (t : Tree) : Prop where
  nodup : (placements.map Prod.fst).Nodup
  leaves : ∀ placement ∈ placements, placement.1 ∈ t.leafWays

section
variable {placement : List Nat × String} {placements : List (List Nat × String)} {t : Tree}

theorem Fits.first (h : Fits (placement :: placements) t) : placement.1 ∈ t.leafWays :=
  h.leaves placement List.mem_cons_self

theorem Fits.ne_first (h : Fits (placement :: placements) t) {later : List Nat × String}
    (hlater : later ∈ placements) : later.1 ≠ placement.1 := fun heq =>
  (List.nodup_cons.mp h.nodup).1 (heq ▸ List.mem_map_of_mem hlater)

/-- One word is put on its leaf, and the others are still for leaves. -/
theorem Fits.placeAt (h : Fits (placement :: placements) t) :
    Fits placements (t.placeAt placement.1 placement.2) := by
  refine ⟨(List.nodup_cons.mp h.nodup).2, fun later hlater => ?_⟩
  obtain ⟨leaf, hleaf, hisLeaf⟩ := mem_leafWays_iff.mp (h.leaves later (List.mem_cons_of_mem _ hlater))
  have hkept := get?_placeAt_of_ne h.first (h.ne_first hlater) placement.2 hisLeaf hleaf
  exact mem_leafWays_iff.mpr ⟨leaf, hkept, hisLeaf⟩

end

theorem frame_placeAll_of_notMem {placements : List (List Nat × String)} {way : List Nat} :
    ∀ {t : Tree}, Fits placements t → way ∉ placements.map Prod.fst →
    ((placeAll placements t).get? way).map frame = (t.get? way).map frame := by
  induction placements with
  | nil => exact fun _ _ => rfl
  | cons placement placements ih =>
    intro t h hway
    rw [List.map_cons, List.mem_cons, not_or] at hway
    obtain ⟨hne, hrest⟩ := hway
    exact (ih h.placeAt hrest).trans (frame_placeAt_of_ne h.first hne placement.2)

theorem frame_placeAll_of_mem {placements : List (List Nat × String)} {way : List Nat}
    {word : String} {leaf : Tree} (hleaf : leaf.isLeaf = true) :
    ∀ {t : Tree}, Fits placements t → (way, word) ∈ placements → t.get? way = some leaf →
    ((placeAll placements t).get? way).map frame = some (leaf.withWord word).frame := by
  induction placements with
  | nil => exact fun _ hmem => absurd hmem List.not_mem_nil
  | cons placement placements ih =>
    intro t h hmem hway
    rcases List.mem_cons.mp hmem with rfl | hmem
    -- The word is put on the leaf now, and none of the later words comes there.
    · have hfirst := (List.nodup_cons.mp h.nodup).1
      have hplaced := (frame_placeAt hway hleaf word).trans (if_pos rfl)
      exact (frame_placeAll_of_notMem h.placeAt hfirst).trans hplaced
    · have hkept := get?_placeAt_of_ne h.first (h.ne_first hmem) placement.2 hleaf hway
      exact ih h.placeAt hmem hkept

theorem map_fst_zip_leafWays {t : Tree} {words : List String}
    (hlen : t.leafWays.length = words.length) : (t.leafWays.zip words).map Prod.fst = t.leafWays :=
  List.map_fst_zip (Nat.le_of_eq hlen)

theorem fits_leafWays {t : Tree} {words : List String} (hlen : t.leafWays.length = words.length) :
    Fits (t.leafWays.zip words) t where
  nodup := by
    rw [map_fst_zip_leafWays hlen]
    refine (pairwise_lt_leafWays t).imp fun {way other} hlt heq => ?_
    subst heq
    exact List.lt_irrefl way hlt
  leaves placement h := (List.of_mem_zip h).1

theorem placeAll_leafWays {t : Tree} {words : List String} (hlen : t.leafWays.length = words.length) :
    placeAll (t.leafWays.zip words) t = (t.placeWords words).1 := by
  have hfits := fits_leafWays hlen
  refine eq_of_frame fun way => ?_
  by_cases hway : way ∈ t.leafWays
  · obtain ⟨leaf, hleaf, hisLeaf⟩ := mem_leafWays_iff.mp hway
    obtain ⟨i, hi⟩ := List.mem_iff_getElem?.mp hway
    have hplace : t.leaves[i]? = some leaf := (get?_leafWays hi).symm.trans hleaf
    have hi' : i < words.length := hlen ▸ (List.getElem?_eq_some_iff.mp hi).1
    have hmem : (way, words[i]) ∈ t.leafWays.zip words :=
      List.mem_of_getElem? (List.getElem?_zip_eq_some.mpr ⟨hi, List.getElem?_eq_getElem hi'⟩)
    have hword := get?_placeWords_of_leafWays (Nat.le_of_eq (length_leafWays t ▸ hlen)) hi
    rw [frame_placeAll_of_mem hisLeaf hfits hmem hleaf, hword]
    simp [List.getElem?_zipWith, hplace, hi']
  · rw [frame_placeWords_of_notMem words hway]
    exact frame_placeAll_of_notMem hfits (by rwa [map_fst_zip_leafWays hlen])

/-! ## What the words change -/

/-- A leaf before and after a word is put on it. -/
structure Worded (before : Tree) (word : String) (after : Tree) : Prop where
  name : after.name = word
  tag : after.attributes.get? tagAttribute = some before.name
  others : ∀ key, key ≠ tagAttribute → after.attributes.get? key = before.attributes.get? key
  children : after.children = before.children
  empty : after.empty = before.empty

theorem worded_withWord (leaf : Tree) (word : String) : Worded leaf word (leaf.withWord word) where
  name := rfl
  tag := Attributes.get?_insert leaf.attributes tagAttribute leaf.name
  others _ hkey := Attributes.get?_insert_of_ne leaf.attributes hkey leaf.name
  children := rfl
  empty := rfl

theorem yield_placeWords {t : Tree} {words : List String} (hlen : t.leaves.length = words.length) :
    (t.placeWords words).1.yield = words := by
  rw [yield_eq_map_leaves, (leaves_placeWords t words (Nat.le_of_eq hlen)).1]
  exact map_name_zipWith_withWord t.leaves words hlen

theorem worded_placeWords {t : Tree} {words : List String} (hlen : t.leaves.length = words.length)
    {i : Nat} {way : List Nat} (h : t.leafWays[i]? = some way) :
    ∃ leaf word after, t.leaves[i]? = some leaf ∧ words[i]? = some word ∧ t.get? way = some leaf ∧
      (t.placeWords words).1.get? way = some after ∧ Worded leaf word after := by
  have hi : i < t.leaves.length := length_leafWays t ▸ (List.getElem?_eq_some_iff.mp h).1
  have hi' : i < words.length := hlen ▸ hi
  have hleaf := List.getElem?_eq_getElem hi
  have hword := List.getElem?_eq_getElem hi'
  refine ⟨t.leaves[i], words[i], _, hleaf, hword, (get?_leafWays h).trans hleaf, ?_,
    worded_withWord t.leaves[i] words[i]⟩
  rw [get?_placeWords_of_leafWays (Nat.le_of_eq hlen) h, List.getElem?_zipWith, hleaf, hword]

/-- **Words change the leaves alone.** The ways to the leaves are found in depth-first order. If there is
not one word for each leaf, that is the outcome, and the tree is as before. Else the leaves have the
words for names, in order: each keeps its former name as an attribute and all other
attributes as they were. No other node of the tree has changed, and none has come in or gone. Words
placed one after the other come to the same as those placed on the way through the tree. -/
theorem substitute_changes_leaves (t : Tree) (words : List String) :
    t.leafWays.Pairwise (· < ·) ∧
    (∀ way, way ∈ t.leafWays ↔ ∃ leaf, t.get? way = some leaf ∧ leaf.isLeaf = true) ∧
    t.leafWays.map t.get? = t.leaves.map some ∧
    (words.length ≠ t.leaves.length →
      t.withWords words = .error (.leafCount t.leaves.length words.length) ∧
      (substitute words).run.run t = (.error (.leafCount t.leaves.length words.length), t)) ∧
    (words.length = t.leaves.length → ∃ t', t.withWords words = .ok t' ∧
      (substitute words).run.run t = (.ok (), t') ∧ t'.yield = words ∧
      (∀ (i : Nat) way, t.leafWays[i]? = some way → ∃ leaf word after, t.leaves[i]? = some leaf ∧
        words[i]? = some word ∧ t.get? way = some leaf ∧ t'.get? way = some after ∧
        Worded leaf word after) ∧
      ∀ way, way ∉ t.leafWays → (t'.get? way).map frame = (t.get? way).map frame) := by
  refine ⟨pairwise_lt_leafWays t, fun way => mem_leafWays_iff, map_get?_leafWays t,
    fun hne => ⟨?_, ?_⟩, fun hlen => ?_⟩
  · rw [withWords, ← length_leaves, if_neg (Ne.symm hne)]
  · rw [run_substitute, length_leafWays, if_neg (Ne.symm hne)]
  · have hways : t.leafWays.length = words.length := (length_leafWays t).trans hlen.symm
    refine ⟨(t.placeWords words).1, ?_, ?_, yield_placeWords hlen.symm,
      fun i way h => worded_placeWords hlen.symm h, fun way => frame_placeWords_of_notMem words⟩
    · rw [withWords, ← length_leaves, if_pos hlen.symm]
    · rw [run_substitute, if_pos hways, placeAll_leafWays hways]

/-- A node that is marked as empty and has a leaf below it, one without, and attributes that stay. -/
def markedTree : Tree :=
  ⟨"S", [⟨"NP", [leaf "D"], ∅, true⟩, emptyNode "X",
    ⟨"V", [], .ofList [("Stem", "see"), (tagAttribute, "verb")], false⟩], ∅, false⟩

theorem substitute_markedTree :
    (substitute ["the"]).run.run markedTree = (.error (.leafCount 2 1), markedTree) ∧
    ∃ t', markedTree.withWords ["the", "sees"] = .ok t' ∧
      (substitute ["the", "sees"]).run.run markedTree = (.ok (), t') ∧ t'.yield = ["the", "sees"] ∧
      (∃ after, t'.get? [2] = some after ∧ after.attributes.get? tagAttribute = some "V" ∧
        after.attributes.get? "Stem" = some "see") ∧
      (t'.get? [0]).map frame = some ("NP", ∅, true, 1) ∧
      (t'.get? [1]).map frame = some ("X", ∅, true, 0) := by
  obtain ⟨_, _, _, hfail, _⟩ := substitute_changes_leaves markedTree ["the"]
  obtain ⟨_, _, _, _, hplace⟩ := substitute_changes_leaves markedTree ["the", "sees"]
  obtain ⟨t', hwith, hrun, hyield, hleaf, hother⟩ := hplace rfl
  obtain ⟨leaf, word, after, hbefore, _, _, hafter, hworded⟩ := hleaf 1 [2] rfl
  obtain rfl : markedTree.children[2] = leaf := Option.some.inj hbefore
  refine ⟨(hfail (by decide)).2, t', hwith, hrun, hyield, ⟨after, hafter, hworded.tag, ?_⟩,
    hother [0] (by decide), hother [1] (by decide)⟩
  exact (hworded.others "Stem" (by decide)).trans (by decide)

end ParseForest.Tree
