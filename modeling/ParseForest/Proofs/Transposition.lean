import ParseForest.Proofs.Checked

/-!
# The index turns a chart around

A chart lists by end what was found and its index lists the same by start. The bucket of a start is in
order of end and then of discovery (`pairwise_startingAt_ofChart`), and each item that is filed makes one
bucket longer by one if it is whole (`total_of_file?`), so the index has as many entries as the
chart has whole items (`size_ofChart_build`).
-/

namespace ParseForest

open ParseForest.Derivation Grammar Chart

/-- All symbols of the rule have been found. -/
def Item.IsWhole (g : Grammar) (item : Item) : Prop :=
  ∃ rule, g.rule? item.rule = some rule ∧ item.dot = rule.rhs.length

theorem Item.isWhole_iff {g : Grammar} {item : Item} : item.IsWhole g ↔ (item.found? g).isSome = true := by
  simp [IsWhole, Option.isSome_iff_exists, found?_eq_some_iff]

instance (g : Grammar) : DecidablePred (Item.IsWhole g) := fun _ =>
  decidable_of_iff _ Item.isWhole_iff.symm

/-- The whole item of a rule from a start on. -/
def Item.whole? (g : Grammar) (id : RuleId) (start : Nat) : Option Item :=
  (g.rule? id).map fun rule => ⟨id, rule.rhs.length, start⟩

theorem Item.whole?_eq_some {g : Grammar} {item : Item} (h : item.IsWhole g) :
    whole? g item.rule item.start = some item := by
  obtain ⟨rule, hr, hdot⟩ := h
  rw [whole?, hr, Option.map_some, ← hdot]

/-- The pass over a set found one item before another one. -/
def ItemSet.FoundBefore (set : ItemSet) (a b : Item) : Prop :=
  ∃ i j : Nat, i < j ∧ set.items[i]? = some a ∧ set.items[j]? = some b

theorem ItemSet.pairwise_foundBefore (set : ItemSet) : set.items.Pairwise set.FoundBefore := by
  rw [List.pairwise_iff_getElem]
  intro i j hi hj hij
  exact ⟨i, j, hij, List.getElem?_eq_getElem hi, List.getElem?_eq_getElem hj⟩

namespace SpanIndex

/-- An entry of the bucket of a start comes before another one: it ends earlier, or both end at one
position and its item was found there first. -/
def Earlier (g : Grammar) (chart : Chart) (start : Nat) (x y : RuleSpan) : Prop :=
  x.stop < y.stop ∨ x.stop = y.stop ∧ ∃ set a b, chart.sets[x.stop]? = some set ∧
    Item.whole? g x.rule start = some a ∧ Item.whole? g y.rule start = some b ∧ set.FoundBefore a b

section
variable {g : Grammar}

/-! ## The order of a bucket -/

theorem pairwise_ofSet {chart : Chart} {start stop : Nat} {set : ItemSet}
    (hset : chart.sets[stop]? = some set) :
    (ofSet g start stop set).Pairwise (Earlier g chart start) := by
  unfold ofSet
  rw [List.pairwise_map]
  refine (set.pairwise_foundBefore.filter _).imp_of_mem fun {a b} ha hb hab => ?_
  simp only [List.mem_filter, decide_eq_true_eq, ← Item.isWhole_iff] at ha hb
  obtain ⟨-, rfl, ha⟩ := ha
  obtain ⟨-, hstart, hb⟩ := hb
  refine .inr ⟨rfl, set, a, b, hset, Item.whole?_eq_some ha, ?_, hab⟩
  rw [← hstart]
  exact Item.whole?_eq_some hb

theorem pairwise_startingAt_ofChart (chart : Chart) (start : Nat) :
    ((ofChart g chart).startingAt start).Pairwise (Earlier g chart start) := by
  rcases Nat.lt_or_ge start chart.sets.length with hs | hs
  · rw [startingAt_ofChart hs, List.pairwise_flatMap]
    constructor
    · rintro ⟨set, stop⟩ hentry
      exact pairwise_ofSet (List.mk_mem_zipIdx_iff_getElem?.mp hentry)
    · have hstops : chart.sets.zipIdx.Pairwise fun p q => p.2 < q.2 := by
        rw [← List.pairwise_map (R := (· < ·)), List.zipIdx_map_snd]
        exact List.pairwise_lt_range'
      refine hstops.imp fun {p q} hpq x hx y hy => .inl ?_
      rwa [(mem_ofSet.mp hx).1, (mem_ofSet.mp hy).1]
  · rw [startingAt_ofChart_eq_nil hs]
    exact .nil

/-! ## The number of entries -/

/-- The number of entries of all buckets. -/
def total (buckets : List (List RuleSpan)) : Nat :=
  (buckets.map List.length).sum

theorem total_set_concat {entry : RuleSpan} : ∀ {buckets : List (List RuleSpan)} {i : Nat}
    {bucket : List RuleSpan}, buckets[i]? = some bucket →
    total (buckets.set i (bucket ++ [entry])) = total buckets + 1
  | first :: buckets, 0, bucket, h => by
    obtain rfl : first = bucket := Option.some.inj h
    simp only [total, List.set_cons_zero, List.map_cons, List.sum_cons, List.length_append,
      List.length_singleton]
    omega
  | first :: buckets, i + 1, bucket, h => by
    have ih := @total_set_concat entry buckets i bucket h
    simp only [total, List.set_cons_succ, List.map_cons, List.sum_cons] at ih ⊢
    omega

/-- One entry is added for an item that is whole, and none for any other. -/
theorem total_of_file? {stop : Nat} {item : Item} {buckets filed : List (List RuleSpan)}
    (h : file? g stop buckets item = some filed) :
    total filed = total buckets + if item.IsWhole g then 1 else 0 := by
  simp only [file?, Option.bind_eq_bind, Option.pure_def, Option.bind_eq_some_iff] at h
  obtain ⟨rule, hr, h⟩ := h
  have hiff : item.IsWhole g ↔ item.dot = rule.rhs.length := by
    simp [Item.IsWhole, hr]
  by_cases hdot : item.dot = rule.rhs.length
  · rw [if_pos hdot, Option.bind_eq_some_iff] at h
    obtain ⟨bucket, hbucket, h⟩ := h
    cases h
    rw [if_pos (hiff.mpr hdot), total_set_concat hbucket]
  · rw [if_neg hdot] at h
    cases h
    rw [if_neg (mt hiff.mp hdot), Nat.add_zero]

theorem measure_of_foldlM {α σ : Type} {step : σ → α → Option σ} {measure : σ → Nat} {weight : α → Nat}
    (hstep : ∀ s a s', step s a = some s' → measure s' = measure s + weight a) {l : List α} :
    ∀ {s s' : σ}, l.foldlM step s = some s' → measure s' = measure s + (l.map weight).sum := by
  induction l with
  | nil =>
    intro s s' h
    cases h
    rfl
  | cons a l ih =>
    intro s s' h
    rw [List.foldlM_cons] at h
    obtain ⟨next, hnext, h⟩ := Option.bind_eq_some_iff.mp h
    rw [ih h, hstep _ _ _ hnext, List.map_cons, List.sum_cons, Nat.add_assoc]

theorem sum_map_ite_one {α : Type} (p : α → Prop) [DecidablePred p] (l : List α) :
    (l.map fun a => if p a then 1 else 0).sum = l.countP p := by
  induction l with
  | nil => rfl
  | cons a l ih => simp [List.countP_cons, ih, Nat.add_comm]

theorem total_of_ofSets? {sets : List ItemSet} {index : SpanIndex} (h : ofSets? g sets = some index) :
    total index.buckets = (sets.flatMap (·.items)).countP (Item.IsWhole g) := by
  obtain ⟨filed, hfiled, hindex⟩ := Option.bind_eq_some_iff.mp h
  cases hindex
  have htotal : total filed = total (List.replicate sets.length []) +
      (sets.zipIdx.map fun entry => entry.1.items.countP (Item.IsWhole g)).sum := by
    refine measure_of_foldlM (fun buckets entry next hnext => ?_) hfiled
    rw [← sum_map_ite_one]
    refine measure_of_foldlM (fun _ _ _ hfile => ?_) hnext
    exact total_of_file? hfile
  have hempty : total (List.replicate sets.length []) = 0 := by simp [total]
  have hsets : sets.zipIdx.map (fun entry => entry.1.items.countP (Item.IsWhole g)) =
      sets.map fun set => set.items.countP (Item.IsWhole g) := by
    conv => rhs; rw [← List.zipIdx_map_fst 0 sets, List.map_map]
    rfl
  rw [htotal, hempty, Nat.zero_add, hsets, List.countP_flatMap]
  rfl

/-- The index of a chart has an entry for each of its whole items. -/
theorem size_ofChart_build (g : Grammar) (input : List Symbol) :
    (ofChart g (build g input)).size =
      ((build g input).sets.flatMap (·.items)).countP (Item.IsWhole g) := by
  rw [size, ← List.sum_eq_foldr]
  exact total_of_ofSets? (ofSets?_eq_some fun _ _ => inBounds_of_mem_sets)

end

/-! ## The index of a chart -/

/-- A bucket lists the rules that a chart shows to be found as a whole from a start on, in order. -/
structure ListsFrom (g : Grammar) (chart : Chart) (start : Nat) (bucket : List RuleSpan) : Prop where
  mem_iff : ∀ entry, entry ∈ bucket ↔ chart.Completes g ⟨entry.rule, start, entry.stop⟩
  nodup : bucket.Nodup
  ordered : bucket.Pairwise (Earlier g chart start)

/-- **The index turns the chart around.** The bucket of a start lists the whole items with this start,
each once, by the position of their set and then in order of discovery. Behind the input there are none,
none ends before it starts, and the rule of one that ends where it starts is for a nullable symbol. All
buckets together have as many entries as the chart has whole items, and filing the items of all sets one
after the other brings the same index. -/
theorem ofChart_build_transposes (g : Grammar) (input : List Symbol) :
    (∀ start, ListsFrom g (build g input) start ((ofChart g (build g input)).startingAt start)) ∧
    (∀ start, input.length < start → (ofChart g (build g input)).startingAt start = []) ∧
    (∀ start, ∀ entry ∈ (ofChart g (build g input)).startingAt start, start ≤ entry.stop ∧
      ∃ rule, g.rule? entry.rule = some rule ∧ (entry.stop = start → rule.lhs ∈ g.nullable)) ∧
    (ofChart g (build g input)).size =
      ((build g input).sets.flatMap (·.items)).countP (Item.IsWhole g) ∧
    ofSets? g (build g input).sets = some (ofChart g (build g input)) := by
  refine ⟨fun start => ?_, fun start hstart => ?_, fun start entry hentry => ?_, ?_, ?_⟩
  · exact ⟨fun _ => mem_startingAt_build, nodup_startingAt_ofChart _ _, pairwise_startingAt_ofChart _ _⟩
  · exact startingAt_ofChart_eq_nil (by rw [length_sets]; omega)
  · have hcompletes := mem_startingAt_build.mp hentry
    have hle : start ≤ entry.stop := start_le_of_completes hcompletes
    obtain ⟨_, rule, _, hr, _⟩ := hcompletes
    exact ⟨hle, rule, hr, lhs_mem_nullable_of_startingAt hentry hr⟩
  · exact size_ofChart_build g input
  · exact ofSets?_eq_some fun _ _ => inBounds_of_mem_sets

/-- Three rules derive nothing at position 0, and are found from the last one of the table on. -/
theorem descent_ofChart_build :
    let index := ofChart descent (build descent [⟨"b"⟩])
    ([⟨"b"⟩] : List Symbol).length < 2 ∧ ⟨1, 0⟩ ∈ index.startingAt 0 ∧
    index.startingAt 0 = [⟨3, 0⟩, ⟨2, 0⟩, ⟨1, 0⟩, ⟨0, 1⟩] ∧
    index.startingAt 2 = [] ∧ (∃ rule, descent.rule? 1 = some rule ∧ rule.lhs ∈ descent.nullable) := by
  intro index
  have hbucket : index.startingAt 0 = [⟨3, 0⟩, ⟨2, 0⟩, ⟨1, 0⟩, ⟨0, 1⟩] := by decide +kernel
  have hentry : ⟨1, 0⟩ ∈ index.startingAt 0 := by rw [hbucket]; decide
  obtain ⟨-, hbehind, hentries, -⟩ := ofChart_build_transposes descent [⟨"b"⟩]
  obtain ⟨-, rule, hr, hnullable⟩ := hentries 0 _ hentry
  exact ⟨by decide, hentry, hbucket, hbehind 2 (by decide), rule, hr, hnullable rfl⟩

end SpanIndex

end ParseForest
