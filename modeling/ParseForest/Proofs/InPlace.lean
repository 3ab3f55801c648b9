import ParseForest.Proofs.Chart

/-!
# Charts built in place

`build?` makes the sets of all positions at once and fills them by index. It has no result if a
rule, a set or an input symbol is not there, if an item starts behind its position, or if a
set is not closed after as many visits as it has room for items. `build?_eq_some` says
that none of this happens and that the sets are those of the chart.
-/

namespace ParseForest

/-- The symbol behind the dot, if there is one, in the rule of an item. -/
def Item.symbol? (g : Grammar) (item : Item) : Option (Option Symbol) := do
  return (← g.rule? item.rule).rhs[item.dot]?

namespace Chart

/-! ## Filling sets by index -/

/-- The sets with one more item at a position. -/
def insertAt? (sets : List ItemSet) (position : Nat) (item : Item) : Option (List ItemSet) := do
  return sets.set position ((← sets[position]?).insert item)

/-- The sets with some more items at a position. -/
def insertAllAt? (sets : List ItemSet) (position : Nat) (items : List Item) :
    Option (List ItemSet) :=
  items.foldlM (insertAt? · position ·) sets

/-- What waits for a rule found as a whole is advanced. The rule of each item of the set
where that rule began is looked up. -/
def complete? (g : Grammar) (position : Nat) (sets : List ItemSet) (item : Item) :
    Option (List ItemSet) := do
  let rule ← g.rule? item.rule
  let set ← sets[item.start]?
  guard (set.items.all fun parent => (g.rule? parent.rule).isSome)
  insertAllAt? sets position (set.advanceOver g rule.lhs)

/-- A visit to an item of the set at a position. -/
def visit? (g : Grammar) (input : List Symbol) (position : Nat) (sets : List ItemSet) (item : Item) :
    Option (List ItemSet) := do
  guard (item.start ≤ position)
  match ← item.symbol? g with
  | none => complete? g position sets item
  | some symbol =>
    if symbol ∈ g.terminals then
      if position < input.length then
        if (← input[position]?) = symbol then insertAt? sets (position + 1) item.advance
        else return sets
      else return sets
    else
      let sets ← insertAllAt? sets position (predictions g position symbol)
      if symbol ∈ g.nullable then insertAt? sets position item.advance else return sets

/-- The pass over the set at a position from a place on. It has no result if there are items
left after the last visit. -/
def walk? (g : Grammar) (input : List Symbol) (position : Nat) :
    Nat → Nat → List ItemSet → Option (List ItemSet)
  | 0, _, _ => none
  | visits + 1, place, sets => do
    let set ← sets[position]?
    match set.items[place]? with
    | none => return sets
    | some item => walk? g input position visits (place + 1) (← visit? g input position sets item)

/-- The sets of the chart of an input. One visit more than there is room for items finds that
nothing is left. -/
def build? (g : Grammar) (input : List Symbol) : Option (List ItemSet) := do
  let sets ← insertAt? (List.replicate (input.length + 1) ∅) 0 .initial
  (List.range (input.length + 1)).foldlM
    (fun sets position => walk? g input position (itemBound g position + 1) 0 sets) sets

section
variable {g : Grammar} {earlier later : List ItemSet} {set : ItemSet} {item : Item}

theorem insertAt?_here (item : Item) : insertAt? (earlier ++ set :: later) earlier.length item =
    some (earlier ++ set.insert item :: later) := by
  simp [insertAt?]

theorem insertAt?_next (next : ItemSet) (item : Item) :
    insertAt? (earlier ++ set :: next :: later) (earlier.length + 1) item =
      some (earlier ++ set :: next.insert item :: later) := by
  simp [insertAt?]

theorem insertAllAt?_here (items : List Item) :
    insertAllAt? (earlier ++ set :: later) earlier.length items =
      some (earlier ++ set.insertAll items :: later) := by
  unfold insertAllAt?
  induction items generalizing set with
  | nil => rfl
  | cons item items ih =>
    rw [List.foldlM_cons, insertAt?_here]
    exact ih

/-! ## The sets ahead of a pass -/

/-- The items that take a symbol, with the dot moved behind it. -/
def scanned (g : Grammar) (items : List Item) (symbol : Symbol) : List Item :=
  if symbol ∈ g.terminals then (items.filter (·.next? g = some symbol)).map Item.advance else []

/-- The sets behind a position while its items are visited: the first symbol that is left to read
was taken by the items visited, the sets behind it are empty. -/
def ahead (g : Grammar) (visited : List Item) : List Symbol → List ItemSet
  | [] => []
  | symbol :: rest => .ofList (scanned g visited symbol) :: List.replicate rest.length ∅

theorem ahead_nil (rest : List Symbol) : ahead g [] rest = List.replicate rest.length ∅ := by
  cases rest with
  | nil => rfl
  | cons symbol rest =>
    have : scanned g [] symbol = [] := by simp [scanned]
    rw [ahead, this]
    rfl

theorem ahead_cons (a : Symbol) (rest : List Symbol) :
    ahead g set.items (a :: rest) = .ofList (scans g set a) :: ahead g [] rest := by
  rw [ahead_nil]
  rfl

theorem ofList_concat (items : List Item) (item : Item) :
    ItemSet.ofList (items ++ [item]) = (ItemSet.ofList items).insert item := by
  simp [ItemSet.ofList, ItemSet.insertAll]

theorem ahead_concat_of_ne {visited : List Item} {rest : List Symbol}
    (h : ∀ a ∈ rest.head?, a ∈ g.terminals → item.next? g ≠ some a) :
    ahead g (visited ++ [item]) rest = ahead g visited rest := by
  cases rest with
  | nil => rfl
  | cons a rest =>
    have : scanned g (visited ++ [item]) a = scanned g visited a := by
      unfold scanned
      by_cases ha : a ∈ g.terminals
      · simp [ha, h a rfl ha]
      · simp [ha]
    rw [ahead, ahead, this]

theorem ahead_concat {visited : List Item} {a : Symbol} (rest : List Symbol) (ha : a ∈ g.terminals)
    (h : item.next? g = some a) : ahead g (visited ++ [item]) (a :: rest) =
      (ItemSet.ofList (scanned g visited a)).insert item.advance :: List.replicate rest.length ∅ := by
  rw [ahead, ← ofList_concat]
  simp [scanned, ha, h]

/-! ## A visit -/

theorem take_insertAll {place : Nat} (items : List Item) (h : set.items[place]? = some item) :
    (set.insertAll items).items.take (place + 1) = set.items.take place ++ [item] := by
  obtain ⟨hlt, rfl⟩ := List.getElem?_eq_some_iff.mp h
  obtain ⟨new, hnew⟩ := set.items_insertAll_eq_append items
  rw [hnew, List.take_append_of_le_length hlt, List.take_succ_eq_append_getElem hlt]

section
variable (he : ∀ s ∈ earlier, ∀ parent ∈ s, (g.rule? parent.rule).isSome = true)
  (hset : ∀ parent ∈ set, parent.InBounds g earlier.length)
include he hset

theorem complete?_eq_some {rule : Rule} (hr : g.rule? item.rule = some rule)
    (hstart : item.start ≤ earlier.length) :
    complete? g earlier.length (earlier ++ set :: later) item = some (earlier ++
      set.insertAll ((earlier[item.start]?.getD set).advanceOver g rule.lhs) :: later) := by
  have hwaiting : (earlier ++ set :: later)[item.start]? = some (earlier[item.start]?.getD set) := by
    rcases Nat.eq_or_lt_of_le hstart with heq | hlt
    · simp [heq]
    · simp [List.getElem?_append_left hlt, List.getElem?_eq_getElem hlt]
  have hrules : ((earlier[item.start]?.getD set).items.all fun parent =>
      (g.rule? parent.rule).isSome) = true := by
    rw [List.all_eq_true]
    intro parent hparent
    cases hs : earlier[item.start]? with
    | none =>
      rw [hs] at hparent
      obtain ⟨rule, hr, _⟩ := hset parent hparent
      simp [hr]
    | some s =>
      rw [hs] at hparent
      exact he s (List.mem_of_getElem? hs) parent hparent
  simp only [complete?, hr, hwaiting, hrules, guard_true, Option.bind_eq_bind, Option.bind_some,
    Option.pure_def]
  exact insertAllAt?_here _

theorem visit?_eq_some {input rest : List Symbol} {place : Nat} (hrest : input.drop earlier.length = rest)
    (hitem : set.items[place]? = some item) :
    visit? g input earlier.length (earlier ++ set :: ahead g (set.items.take place) rest) item =
      some (earlier ++ set.insertAll (additions g earlier set item) ::
        ahead g (set.items.take place ++ [item]) rest) := by
  obtain ⟨rule, hr, hdot, hstart⟩ := hset item (List.mem_of_getElem? hitem)
  have hsymbol : item.symbol? g = some (item.next? g) := by simp [Item.symbol?, Item.next?, hr]
  simp only [visit?, hstart, hsymbol, guard_true, Option.bind_eq_bind, Option.bind_some, Option.pure_def]
  cases hn : item.next? g with
  | none =>
    have hfound : item.found? g = some rule.lhs := by
      refine Item.found?_eq_some_iff.mpr ⟨rule, hr, Nat.le_antisymm hdot ?_, rfl⟩
      simpa [Item.next?, hr] using hn
    rw [ahead_concat_of_ne fun a _ _ => by simp [hn]]
    simpa [additions, completions, hn, hfound] using complete?_eq_some he hset hr hstart
  | some symbol =>
    by_cases hs : symbol ∈ g.terminals
    · simp only [hs, if_true, additions, hn]
      cases rest with
      | nil =>
        have hend : ¬earlier.length < input.length := by simpa using hrest
        simp [hend, ahead, ItemSet.insertAll]
      | cons a rest =>
        have hread : input[earlier.length]? = some a := by
          rw [← List.head?_drop, hrest]
          rfl
        have hlt : earlier.length < input.length := (List.getElem?_eq_some_iff.mp hread).1
        simp only [hlt, if_true, hread, Option.bind_some]
        by_cases ha : a = symbol
        · rw [if_pos ha, ahead_concat rest (ha ▸ hs) (ha ▸ hn), ahead]
          exact insertAt?_next _ _
        · have hsame : ahead g (set.items.take place ++ [item]) (a :: rest) =
              ahead g (set.items.take place) (a :: rest) :=
            ahead_concat_of_ne (by simpa [hn] using fun _ h => ha h.symm)
          rw [if_neg ha, hsame]
          rfl
    · rw [ahead_concat_of_ne fun a _ ha heq => hs (Option.some.inj (hn.symm.trans heq) ▸ ha)]
      simp only [hs, if_false, insertAllAt?_here, additions, hn, Option.bind_some]
      by_cases hnull : symbol ∈ g.nullable
      · simpa [hnull, skips, ItemSet.insertAll] using insertAt?_here item.advance
      · simp [hnull, skips]

end

/-! ## The pass and the chart -/

theorem walk?_eq_some {input rest : List Symbol} (hrest : input.drop earlier.length = rest)
    (he : ∀ s ∈ earlier, ∀ parent ∈ s, (g.rule? parent.rule).isSome = true) {visits : Nat} :
    ∀ {place : Nat} {set : ItemSet},
      (∀ c ∈ closeFrom g earlier visits place set, c.InBounds g earlier.length) →
      (closeFrom g earlier visits place set).size ≤ place + visits →
      walk? g input earlier.length (visits + 1) place
          (earlier ++ set :: ahead g (set.items.take place) rest) =
        some (earlier ++ closeFrom g earlier visits place set ::
          ahead g (closeFrom g earlier visits place set).items rest) := by
  induction visits with
  | zero =>
    intro place set _ hsize
    have hlen : set.items.length ≤ place := hsize
    rw [walk?, List.take_of_length_le hlen]
    simp [List.getElem?_eq_none hlen, closeFrom]
  | succ visits ih =>
    intro place set hbounds hsize
    rw [walk?]
    cases hi : set.items[place]? with
    | none =>
      rw [closeFrom_none hi, List.take_of_length_le (List.getElem?_eq_none_iff.mp hi)]
      simp [hi]
    | some item =>
      have hset : ∀ c ∈ set, c.InBounds g earlier.length := fun c hc =>
        hbounds c (mem_closeFrom_of_mem hc)
      rw [closeFrom_some hi] at hbounds hsize ⊢
      have hvisit := visit?_eq_some he hset hrest hi
      rw [← take_insertAll _ hi] at hvisit
      simpa [hi, hvisit] using ih hbounds (by omega)

theorem walk?_close {input rest : List Symbol} {kernel : List Item}
    (hrest : input.drop earlier.length = rest)
    (he : ∀ s ∈ earlier, ∀ parent ∈ s, (g.rule? parent.rule).isSome = true)
    (hbounds : ∀ c ∈ close g earlier kernel, c.InBounds g earlier.length) :
    walk? g input earlier.length (itemBound g earlier.length + 1) 0
        (earlier ++ .ofList kernel :: ahead g [] rest) =
      some (earlier ++ close g earlier kernel :: ahead g (close g earlier kernel).items rest) :=
  walk?_eq_some hrest he hbounds (by rw [Nat.zero_add]; exact size_le_itemBound hbounds)

end

theorem sets_eq_concat (g : Grammar) (w : List Symbol) :
    (build g w).sets = (build g w).sets.dropLast ++ [setAfter g w] := by
  unfold setAfter last
  rw [List.getLast?_eq_some_getLast (sets_ne_nil w), Option.getD_some, List.dropLast_append_getLast]

theorem walk?_setAfter (g : Grammar) (w rest : List Symbol) :
    walk? g (w ++ rest) w.length (itemBound g w.length + 1) 0
        ((build g w).sets.dropLast ++ .ofList (kernelAfter g w) :: ahead g [] rest) =
      some ((build g w).sets ++ ahead g (setAfter g w).items rest) := by
  have hbounds := inBounds_of_mem_setAfter (g := g) w
  have hlen := length_dropLast_sets (g := g) w
  rw [← hlen] at hbounds ⊢
  rw [setAfter_eq_close] at hbounds
  rw [walk?_close (by rw [hlen, List.drop_left]) ?_ hbounds, ← setAfter_eq_close]
  · nth_rewrite 2 [sets_eq_concat]
    simp
  · intro s hs parent hparent
    obtain ⟨k, hk⟩ := List.mem_iff_getElem?.mp hs
    obtain ⟨_, rfl⟩ := (getElem?_dropLast_sets w).mp hk
    obtain ⟨rule, hr, _⟩ := inBounds_of_mem_setAfter _ parent hparent
    simp [hr]

theorem foldlM_walk? (g : Grammar) (w rest : List Symbol) :
    (List.range (w.length + 1)).foldlM
        (fun sets position => walk? g (w ++ rest) position (itemBound g position + 1) 0 sets)
        (.ofList [.initial] :: List.replicate (w ++ rest).length ∅) =
      some ((build g w).sets ++ ahead g (setAfter g w).items rest) := by
  induction w using List.reverseRecOn generalizing rest with
  | nil =>
    have hwalk := walk?_setAfter g [] rest
    rw [ahead_nil] at hwalk
    rw [List.length_nil, List.range_one, List.foldlM_cons]
    exact (congrArg (· >>= _) hwalk).trans rfl
  | append_singleton w a ih =>
    have hread := ih (a :: rest)
    have hwalk := walk?_setAfter g (w ++ [a]) rest
    rw [dropLast_sets_concat, kernelAfter, List.getLast?_concat, List.dropLast_concat,
      List.append_assoc, List.length_append] at hwalk
    have hlen : (w ++ [a]).length = w.length + 1 := by simp
    rw [hlen, List.range_succ, List.foldlM_append, List.append_assoc, List.singleton_append, hread,
      ahead_cons]
    simpa using hwalk

/-- The chart is built in place without a failure. -/
theorem build?_eq_some (g : Grammar) (input : List Symbol) : build? g input = some (build g input).sets := by
  have hstart : insertAt? (List.replicate (input.length + 1) ∅) 0 .initial =
      some (.ofList [.initial] :: List.replicate input.length ∅) := rfl
  have := foldlM_walk? g input []
  rw [ahead, List.append_nil, List.append_nil] at this
  simp only [build?, hstart, Option.bind_eq_bind, Option.bind_some, this]

end Chart

end ParseForest
