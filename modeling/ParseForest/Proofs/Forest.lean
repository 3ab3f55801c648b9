import ParseForest.Proofs.Chart
import ParseForest.Proofs.Enumeration

/-!
# Forests are exact

The index of a chart has an entry for each item found as a whole, once
(`mem_startingAt_ofChart`, `nodup_startingAt_ofChart`). The rules of a derivation of the
input are all in the chart of that input (`completes_of_isParse`), so its forest is made of
all derivations; the index of another chart allows those alone that it has the rules of.
-/

namespace ParseForest

open ParseForest.Derivation Grammar Chart

/-- A chart has the rule of an application as an item found as a whole. -/
def Chart.Completes (g : Grammar) (chart : Chart) (ap : Application) : Prop :=
  ∃ set rule, chart.sets[ap.stop]? = some set ∧ g.rule? ap.rule = some rule ∧
    ⟨ap.rule, rule.rhs.length, ap.start⟩ ∈ set

namespace SpanIndex

section
variable {g : Grammar}

/-! ## The index of a chart -/

theorem mem_ofSet {start stop : Nat} {set : ItemSet} {entry : RuleSpan} :
    entry ∈ ofSet g start stop set ↔ entry.stop = stop ∧
      ∃ rule, g.rule? entry.rule = some rule ∧ ⟨entry.rule, rule.rhs.length, start⟩ ∈ set := by
  unfold ofSet
  simp only [List.mem_map, List.mem_filter, decide_eq_true_eq, Option.isSome_iff_exists,
    Item.found?_eq_some_iff]
  constructor
  · intro h
    obtain ⟨⟨id, dot, start'⟩, ⟨hmem, rfl, _, rule, hr, hdot, _⟩, rfl⟩ := h
    simp only at hdot
    subst hdot
    exact ⟨rfl, rule, hr, hmem⟩
  · intro h
    obtain ⟨rfl, rule, hr, hmem⟩ := h
    exact ⟨_, ⟨hmem, rfl, _, rule, hr, rfl, rfl⟩, rfl⟩

theorem startingAt_ofChart {chart : Chart} {start : Nat} (h : start < chart.sets.length) :
    (ofChart g chart).startingAt start =
      chart.sets.zipIdx.flatMap fun p => ofSet g start p.2 p.1 := by
  unfold startingAt ofChart
  simp [h]

theorem startingAt_ofChart_eq_nil {chart : Chart} {start : Nat} (h : chart.sets.length ≤ start) :
    (ofChart g chart).startingAt start = [] := by
  unfold startingAt ofChart
  simp [h]

theorem mem_startingAt_ofChart {chart : Chart} {start : Nat} {entry : RuleSpan} :
    entry ∈ (ofChart g chart).startingAt start ↔
      start < chart.sets.length ∧ chart.Completes g ⟨entry.rule, start, entry.stop⟩ := by
  rcases Nat.lt_or_ge start chart.sets.length with hs | hs
  · rw [startingAt_ofChart hs]
    simp only [List.mem_flatMap, Prod.exists, List.mk_mem_zipIdx_iff_getElem?, mem_ofSet, hs, true_and]
    constructor
    · intro h
      obtain ⟨set, stop, hset, rfl, rule, hr, hmem⟩ := h
      exact ⟨set, rule, hset, hr, hmem⟩
    · intro h
      obtain ⟨set, rule, hset, hr, hmem⟩ := h
      exact ⟨set, entry.stop, hset, rfl, rule, hr, hmem⟩
  · rw [startingAt_ofChart_eq_nil hs]
    simp [Nat.not_lt.mpr hs]

theorem nodup_ofSet (start stop : Nat) (set : ItemSet) : (ofSet g start stop set).Nodup := by
  unfold ofSet
  refine (List.Nodup.filter _ set.nodup).map_on fun x hx y hy hxy => ?_
  simp only [List.mem_filter, decide_eq_true_eq, Option.isSome_iff_exists, Item.found?_eq_some_iff] at hx hy
  obtain ⟨_, rfl, _, rule, hr, hdot, _⟩ := hx
  obtain ⟨_, hs, _, rule', hr', hdot', _⟩ := hy
  have hid : x.rule = y.rule := congrArg RuleSpan.rule hxy
  rw [← hid, hr] at hr'
  obtain rfl := Option.some.inj hr'
  obtain ⟨xr, xd, xs⟩ := x
  obtain ⟨yr, yd, ys⟩ := y
  simp only at hid hdot hdot' hs
  rw [hid, hdot, hdot', hs]

theorem nodup_startingAt_ofChart (chart : Chart) (start : Nat) :
    ((ofChart g chart).startingAt start).Nodup := by
  rcases Nat.lt_or_ge start chart.sets.length with hs | hs
  · rw [startingAt_ofChart hs]
    have hzip : chart.sets.zipIdx.Nodup := by
      refine List.Nodup.of_map Prod.snd ?_
      rw [List.zipIdx_map_snd]
      exact List.nodup_range'
    refine Forest.nodup_flatMap_of_unique hzip (fun p _ => nodup_ofSet _ _ _) ?_
    rintro ⟨set, stop⟩ hx ⟨set', stop'⟩ hy entry he he'
    obtain rfl : stop = stop' := (mem_ofSet.mp he).1.symm.trans (mem_ofSet.mp he').1
    rw [List.mk_mem_zipIdx_iff_getElem?] at hx hy
    obtain rfl := Option.some.inj (hx.symm.trans hy)
    rfl
  · rw [startingAt_ofChart_eq_nil hs]
    exact List.nodup_nil

theorem completes_build_iff {a : List Symbol} {ap : Application} :
    (build g a).Completes g ap ↔ ap.stop ≤ a.length ∧ ∃ rule, g.rule? ap.rule = some rule ∧
      ⟨ap.rule, rule.rhs.length, ap.start⟩ ∈ setAfter g (a.take ap.stop) := by
  constructor
  · intro h
    obtain ⟨set, rule, hset, hr, hmem⟩ := h
    obtain ⟨hle, rfl⟩ := getElem?_sets_eq_some_iff.mp hset
    exact ⟨hle, rule, hr, hmem⟩
  · intro h
    obtain ⟨hle, rule, hr, hmem⟩ := h
    exact ⟨_, rule, getElem?_sets a hle, hr, hmem⟩

theorem start_le_of_completes {a : List Symbol} {ap : Application} (h : (build g a).Completes g ap) :
    ap.start ≤ ap.stop := by
  obtain ⟨hle, rule, _, hmem⟩ := completes_build_iff.mp h
  obtain ⟨_, _, _, hs⟩ := inBounds_of_mem_setAfter _ _ hmem
  rwa [List.length_take, Nat.min_eq_left hle] at hs

theorem mem_startingAt_build {a : List Symbol} {start : Nat} {entry : RuleSpan} :
    entry ∈ (ofChart g (build g a)).startingAt start ↔
      (build g a).Completes g ⟨entry.rule, start, entry.stop⟩ := by
  rw [mem_startingAt_ofChart]
  refine and_iff_right_of_imp fun h => ?_
  have hs : start ≤ entry.stop := start_le_of_completes h
  have hle : entry.stop ≤ a.length := (completes_build_iff.mp h).1
  rw [length_sets]
  omega

/-- What is found as a whole where it begins derives the empty word. -/
theorem lhs_mem_nullable_of_startingAt {a : List Symbol} {start : Nat} {entry : RuleSpan} {rule : Rule}
    (h : entry ∈ (ofChart g (build g a)).startingAt start) (hr : g.rule? entry.rule = some rule)
    (hstop : entry.stop = start) : rule.lhs ∈ g.nullable := by
  obtain ⟨_, rule', hr', hmem⟩ := completes_build_iff.mp (mem_startingAt_build.mp h)
  obtain rfl := Option.some.inj (hr.symm.trans hr')
  obtain ⟨rule', hr'', _, _, ⟨ds, hd, hw⟩, _⟩ := valid_of_mem_setAfter _ _ hmem
  obtain rfl := Option.some.inj (hr.symm.trans hr'')
  simp only [List.take_length] at hd
  refine nullable_closed (mem_rules_of_rule? hr) (mem_nullable_of_words_eq_nil hd ?_)
  rw [hw, hstop]
  exact List.drop_eq_nil_of_le (List.length_take_le start a)

/-- The index of the chart of any input is sound. -/
theorem sound_build (g : Grammar) (a : List Symbol) : (ofChart g (build g a)).Sound g where
  nodup := nodup_startingAt_ofChart _
  le_stop h := start_le_of_completes (mem_startingAt_build.mp h)
  stop_eq {start entry rule} h hr hnil := by
    have hc := mem_startingAt_build.mp h
    have hs : start ≤ entry.stop := start_le_of_completes hc
    obtain ⟨hle, rule', hr', hmem⟩ := completes_build_iff.mp hc
    obtain rfl := Option.some.inj (hr.symm.trans hr')
    obtain ⟨rule', hr'', _, _, ⟨ds, hd, hw⟩, _⟩ := valid_of_mem_setAfter _ _ hmem
    obtain rfl := Option.some.inj (hr.symm.trans hr'')
    -- nothing on the right derives nothing
    simp only [hnil, List.take_nil] at hd
    cases hd
    have hlen := congrArg List.length hw
    simp only [words_nil, List.length_nil, List.length_drop, List.length_take] at hlen
    simp only at hle
    omega

end

end SpanIndex

/-! ## The rules of a derivation are in the chart -/

section
variable {g : Grammar}

theorem completes_of_derivations {α : List Symbol} {ds : List Derivation} (h : g.Derivations α ds) :
    ∀ {u w v β : List Symbol} {item : Item} {rule : Rule}, u = w ++ (words ds ++ v) →
      item ∈ setAfter g w → g.rule? item.rule = some rule → rule.rhs.drop item.dot = α ++ β →
      ∀ ap ∈ applicationsAll w.length ds, (build g u).Completes g ap := by
  induction h with
  | nil => simp
  | @leaf a α ds ha _ ih =>
    intro u w v β item rule hu hi hr hd
    obtain ⟨hn, hd'⟩ := next?_of_drop hr hd
    have := ih (u := u) (v := v) (by simpa using hu) (scan_mem_setAfter ha hi hn) hr hd'
    simpa using this
  | @node id r cs α es hid hc _ ihc ih =>
    intro u w v β item rule hu hi hr hd
    obtain ⟨hn, hd'⟩ := next?_of_drop hr hd
    have hu' : u = w ++ (words cs ++ (words es ++ v)) := by simpa using hu
    have hpred := predict_mem_setAfter hi hn (g.lhs_not_mem_terminals (mem_rules_of_rule? hid)) hid rfl
    simp only [applicationsAll_node, List.forall_mem_cons, List.forall_mem_append]
    refine ⟨?_, ihc (β := []) hu' hpred hid (by simp), ?_⟩
    · refine SpanIndex.completes_build_iff.mpr ⟨by simp [hu'], r, hid, ?_⟩
      have hwhole := advance_mem_setAfter hc (β := []) hpred hid (by simp)
      have htake : u.take (w.length + (words cs).length) = w ++ words cs := by
        rw [hu', ← List.append_assoc, ← List.length_append, List.take_left]
      rw [htake]
      simpa using hwhole
    · have := ih (u := u) (v := v) (by simpa using hu) (advance_node_mem_setAfter hi hr hd hid hc) hr hd'
      simpa using this

/-- All rules of a derivation of an input are found as a whole in the chart of the input. -/
theorem completes_of_isParse {input : List Symbol} {d : Derivation} (h : g.IsParse input d) :
    ∀ ap ∈ d.applications 0, (build g input).Completes g ap := by
  obtain ⟨cs, rfl, hd, rfl⟩ := h
  have hz := g.rule?_zero
  have hinit : Item.initial ∈ setAfter g [] := initial_mem_setAfter
  rw [applications, List.forall_mem_cons]
  constructor
  · have := advance_mem_setAfter hd hinit hz (β := []) (by simp [Item.initial])
    refine SpanIndex.completes_build_iff.mpr ⟨by simp, _, hz, ?_⟩
    simpa [Item.initial] using this
  · exact completes_of_derivations hd (v := []) (β := []) (by simp) hinit hz (by simp [Item.initial])

/-! ## Leaves -/

mutual

theorem yield_toTree (g : Grammar) : ∀ d : Derivation, (d.toTree g).yield = d.word.map Symbol.name
  | .leaf a => by simp [toTree, Tree.leaf, Tree.branch, Tree.yield, Tree.isLeaf, word]
  | .node id [] => by
    simp [toTree, Tree.yield, Tree.yieldList, Tree.isLeaf, word]
  | .node id (d :: ds) => by
    have := yieldList_toTrees g (d :: ds)
    simpa [toTree, Tree.yield, Tree.isLeaf, word] using this

theorem yieldList_toTrees (g : Grammar) : ∀ ds : List Derivation,
    Tree.yieldList (toTrees g ds) = (words ds).map Symbol.name
  | [] => by simp [Tree.yieldList]
  | d :: ds => by
    rw [toTrees_cons, Tree.yieldList, words, yield_toTree g d, yieldList_toTrees g ds, List.map_append]

end

theorem yield_of_isParse {input : List Symbol} {d : Derivation} (h : g.IsParse input d) :
    (d.toTree g).yield = input.map Symbol.name := by
  obtain ⟨cs, rfl, _, rfl⟩ := h
  rw [yield_toTree, word]

/-! ## Forests -/

theorem generates_of_isParse {input : List Symbol} {d : Derivation} (h : g.IsParse input d) :
    g.Generates g.startRule.rhs input := by
  obtain ⟨cs, _, hd, hw⟩ := h
  exact ⟨cs, hd, hw⟩

theorem mem_parses_build_iff {a b : List Symbol} {d : Derivation} :
    d ∈ Forest.parses g (.ofChart g (build g a)) b ↔
      g.IsParse b d ∧ ∀ ap ∈ d.applications 0, (build g a).Completes g ap := by
  rw [Forest.mem_parses_iff (SpanIndex.sound_build g a)]
  refine and_congr_right fun _ => forall_congr' fun ap => imp_congr_right fun _ => ?_
  exact SpanIndex.mem_startingAt_build

theorem mem_parses_own_iff {input : List Symbol} {d : Derivation} :
    d ∈ Forest.parses g (.ofChart g (build g input)) input ↔ g.IsParse input d := by
  rw [mem_parses_build_iff]
  exact and_iff_left_of_imp completes_of_isParse

theorem parse_eq_map (input : List Symbol) : g.parse input =
    (Forest.parses g (.ofChart g (build g input)) input).map (toTree g) := by
  unfold parse
  simp only
  rw [← Forest.ofIndex_eq_map (SpanIndex.sound_build g input)]
  split
  · rfl
  · next hacc =>
    -- without acceptance there is no derivation to list
    rw [Forest.ofIndex_eq_map (SpanIndex.sound_build g input)]
    symm
    rw [List.map_eq_nil_iff, List.eq_nil_iff_forall_not_mem]
    intro d hd
    exact hacc ((accepts_iff input).mpr (generates_of_isParse (mem_parses_own_iff.mp hd)))

end

/-- **Extraction against any chart.** The forest of an input `b` over the chart of an input `a`
is made of the derivations of `b` that have all their rules in that chart, each of them once. -/
theorem ofIndex_build_eq_map_toTree (g : Grammar) (a b : List Symbol) :
    ∃ ds : List Derivation, ds.Nodup ∧
      (∀ d, d ∈ ds ↔ g.IsParse b d ∧ ∀ ap ∈ d.applications 0, (build g a).Completes g ap) ∧
      Forest.ofIndex g (.ofChart g (build g a)) b = ds.map (toTree g) ∧
      ∀ t ∈ Forest.ofIndex g (.ofChart g (build g a)) b, t.yield = b.map Symbol.name := by
  have hsound := SpanIndex.sound_build g a
  refine ⟨_, Forest.nodup_parses hsound, fun d => mem_parses_build_iff, Forest.ofIndex_eq_map hsound, ?_⟩
  intro t ht
  rw [Forest.ofIndex_eq_map hsound] at ht
  obtain ⟨d, hd, rfl⟩ := List.mem_map.mp ht
  exact yield_of_isParse (mem_parses_build_iff.mp hd).1

/-- **Forests are exact.** The forest of an input is made of all derivations of the input in which
the root applies rule 0, each of them once; it is empty if rule 0 does not derive the input. -/
theorem parse_eq_map_toTree (g : Grammar) (input : List Symbol) :
    (∃ ds : List Derivation, ds.Nodup ∧ (∀ d, d ∈ ds ↔ g.IsParse input d) ∧
      g.parse input = ds.map (toTree g)) ∧
    (g.parse input = [] ↔ ¬g.Generates g.startRule.rhs input) := by
  have hmem := @mem_parses_own_iff g input
  refine ⟨⟨_, Forest.nodup_parses (SpanIndex.sound_build g input), fun _ => hmem, parse_eq_map input⟩, ?_⟩
  rw [parse_eq_map, List.map_eq_nil_iff, List.eq_nil_iff_forall_not_mem]
  constructor
  · intro h hgen
    obtain ⟨cs, hd, hw⟩ := hgen
    exact h _ (hmem.mpr ⟨cs, rfl, hd, hw⟩)
  · intro h d hd
    exact h (generates_of_isParse (hmem.mp hd))

end ParseForest
