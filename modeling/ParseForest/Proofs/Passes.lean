import ParseForest.Grammar.English
import ParseForest.Proofs.InPlace

/-!
# The passes of a chart

`Walks` is the pass over the set at a position as a loop without a bound: it visits items, which may
put more items behind them, until none is left. `Reaches` runs these passes one after the other.
They all stop (`build_terminates`), and when the one at a position has stopped, the sets up to
there are those of each chart of an input that begins as this one does (`take_sets_of_take_eq`).
-/

namespace ParseForest

open Grammar

namespace Chart

/-- The pass over the set at a position, from a place on, leads from some sets to others. A visit to
the item at the place is followed by one to the next place; the pass ends where no item is. -/
inductive Walks (g : Grammar) (input : List Symbol) (position : Nat) :
    Nat → List ItemSet → List ItemSet → Prop
  | stop {place sets set} : sets[position]? = some set → set.items[place]? = none →
      Walks g input position place sets sets
  | visit {place sets set item next final} : sets[position]? = some set →
      set.items[place]? = some item → visit? g input position sets item = some next →
      Walks g input position (place + 1) next final → Walks g input position place sets final

/-- The construction of the chart of an input comes to a position with these sets. -/
inductive Reaches (g : Grammar) (input : List Symbol) : Nat → List ItemSet → Prop
  | start : Reaches g input 0 (.ofList [.initial] :: List.replicate input.length ∅)
  | pass {position sets next} : Reaches g input position sets → position ≤ input.length →
      Walks g input position 0 sets next → Reaches g input (position + 1) next

section
variable {g : Grammar} {input : List Symbol}

/-! ## One outcome -/

theorem Walks.unique {position place : Nat} {sets final final' : List ItemSet}
    (h : Walks g input position place sets final) (h' : Walks g input position place sets final') :
    final = final' := by
  induction h with
  | stop hs hi =>
    cases h' with
    | stop _ _ => rfl
    | visit hs' hi' _ _ =>
      obtain rfl := Option.some.inj (hs.symm.trans hs')
      rw [hi] at hi'
      cases hi'
  | visit hs hi hv _ ih =>
    cases h' with
    | stop hs' hi' =>
      obtain rfl := Option.some.inj (hs.symm.trans hs')
      rw [hi] at hi'
      cases hi'
    | visit hs' hi' hv' h' =>
      obtain rfl := Option.some.inj (hs.symm.trans hs')
      obtain rfl := Option.some.inj (hi.symm.trans hi')
      obtain rfl := Option.some.inj (hv.symm.trans hv')
      exact ih h'

theorem Reaches.unique {position : Nat} {sets sets' : List ItemSet} (h : Reaches g input position sets)
    (h' : Reaches g input position sets') : sets = sets' := by
  induction h generalizing sets' with
  | start =>
    cases h'
    rfl
  | pass _ _ hw ih =>
    cases h' with
    | pass h' _ hw' =>
      obtain rfl := ih h'
      exact hw.unique hw'

/-! ## Passes with a bound are passes -/

theorem walks_of_walk? {position visits : Nat} : ∀ {place : Nat} {sets final : List ItemSet},
    walk? g input position visits place sets = some final → Walks g input position place sets final := by
  induction visits with
  | zero =>
    intro place sets final h
    cases h
  | succ visits ih =>
    intro place sets final h
    rw [walk?] at h
    obtain ⟨set, hs, h⟩ := Option.bind_eq_some_iff.mp h
    cases hi : set.items[place]? with
    | none =>
      simp only [hi, Option.pure_def, Option.some.injEq] at h
      exact h ▸ .stop hs hi
    | some item =>
      simp only [hi] at h
      obtain ⟨next, hv, h⟩ := Option.bind_eq_some_iff.mp h
      exact .visit hs hi hv (ih h)

theorem reaches_of_foldlM {positions : Nat} : ∀ {sets : List ItemSet}, positions ≤ input.length + 1 →
    (List.range positions).foldlM
        (fun sets position => walk? g input position (itemBound g position + 1) 0 sets)
        (.ofList [.initial] :: List.replicate input.length ∅) = some sets →
    Reaches g input positions sets := by
  induction positions with
  | zero =>
    intro sets _ h
    cases h
    exact .start
  | succ position ih =>
    intro sets hp h
    rw [List.range_succ, List.foldlM_append] at h
    obtain ⟨before, hb, h⟩ := Option.bind_eq_some_iff.mp h
    have hw : walk? g input position (itemBound g position + 1) 0 before = some sets := by simpa using h
    exact .pass (ih (Nat.le_of_succ_le hp) hb) (Nat.le_of_succ_le_succ hp) (walks_of_walk? hw)

/-! ## The sets behind a pass -/

theorem reaches_append (g : Grammar) (w rest : List Symbol) :
    Reaches g (w ++ rest) (w.length + 1) ((build g w).sets ++ ahead g (setAfter g w).items rest) :=
  reaches_of_foldlM (by simp) (foldlM_walk? g w rest)

theorem reaches_succ_iff {position : Nat} (hp : position ≤ input.length) {sets : List ItemSet} :
    Reaches g input (position + 1) sets ↔ sets = (build g (input.take position)).sets ++
      ahead g (setAfter g (input.take position)).items (input.drop position) := by
  have h := reaches_append g (input.take position) (input.drop position)
  rw [List.take_append_drop, List.length_take, Nat.min_eq_left hp] at h
  constructor
  · intro h'
    exact h'.unique h
  · rintro rfl
    exact h

theorem exists_walks_of_reaches {position : Nat} (hp : position ≤ input.length) {sets : List ItemSet}
    (h : Reaches g input position sets) : ∃ next, Walks g input position 0 sets next := by
  cases (reaches_succ_iff hp).mpr rfl with
  | pass h' _ hw =>
    obtain rfl := h.unique h'
    exact ⟨_, hw⟩

theorem exists_sets_append (w rest : List Symbol) :
    ∃ more, (build g (w ++ rest)).sets = (build g w).sets ++ more := by
  induction rest using List.reverseRecOn with
  | nil => exact ⟨[], by simp⟩
  | append_singleton v a ih =>
    obtain ⟨more, hmore⟩ := ih
    rw [← List.append_assoc, build_concat, extend, hmore, List.append_assoc]
    exact ⟨_, rfl⟩

theorem take_sets (input : List Symbol) {p : Nat} (hp : p ≤ input.length) :
    (build g input).sets.take (p + 1) = (build g (input.take p)).sets := by
  obtain ⟨more, hmore⟩ := exists_sets_append (g := g) (input.take p) (input.drop p)
  have hlen : (build g (input.take p)).sets.length = p + 1 := by
    rw [length_sets, List.length_take, Nat.min_eq_left hp]
  rw [List.take_append_drop] at hmore
  rw [hmore, ← hlen, List.take_left]

theorem size_le_of_mem_sets {k : Nat} {set : ItemSet} (h : (build g input).sets[k]? = some set) :
    set.size ≤ (k + 1) * (g.rules.map fun rule => rule.rhs.length + 1).sum := by
  have := size_le_itemBound (inBounds_of_mem_sets h)
  rwa [itemBound, ← List.sum_eq_foldr] at this

end

/-- **Charts are built in finitely many visits.** At each position the pass that goes on as long as
there are items stops, in one way; the passes come to the end of the input with the sets of the
chart, which hold no item twice and no more than there are places for dots, for each start. -/
theorem build_terminates (g : Grammar) (input : List Symbol) :
    (∀ k sets, k ≤ input.length → Reaches g input k sets →
      ∃ next, ∀ final, Walks g input k 0 sets final ↔ final = next) ∧
    (∀ sets, Reaches g input (input.length + 1) sets ↔ sets = (build g input).sets) ∧
    ∀ k set, (build g input).sets[k]? = some set →
      set.items.Nodup ∧ set.size ≤ (k + 1) * (g.rules.map fun rule => rule.rhs.length + 1).sum := by
  refine ⟨?_, ?_, fun k set h => ⟨set.nodup, size_le_of_mem_sets h⟩⟩
  · intro k sets hk h
    obtain ⟨next, hnext⟩ := exists_walks_of_reaches hk h
    refine ⟨next, fun final => ⟨fun hfinal => hfinal.unique hnext, ?_⟩⟩
    rintro rfl
    exact hnext
  · intro sets
    rw [reaches_succ_iff (Nat.le_refl input.length), List.take_length, List.drop_length, ahead,
      List.append_nil]

/-- A left recursion hidden behind a nullable non-terminal. -/
def hidden : Grammar where
  rules := [⟨⟨"S"⟩, Symbol.ofNames ["A", "S", "a"]⟩, ⟨⟨"S"⟩, Symbol.ofNames ["b"]⟩, ⟨⟨"A"⟩, []⟩]
  terminals := .ofList (Symbol.ofNames ["a", "b"])
  nullable := .ofList (Symbol.ofNames ["A"])
  nullable_eq := by decide +kernel
  valid := by decide +kernel

theorem hidden_build_terminates :
    let input := Symbol.ofNames ["b", "a"]
    let sets := (build hidden []).sets ++ ahead hidden (setAfter hidden []).items input
    (1 ≤ input.length ∧ Reaches hidden input 1 sets ∧
      (build hidden input).sets[2]? = some (build hidden input).last) ∧
    (∃ next, ∀ final, Walks hidden input 1 0 sets final ↔ final = next) ∧
    Reaches hidden input 3 (build hidden input).sets ∧
    (build hidden input).last.items.Nodup ∧ (build hidden input).last.size ≤ 3 * (4 + 2 + 1) := by
  intro input sets
  have hreaches : Reaches hidden input 1 sets := reaches_append hidden [] input
  have hlast : (build hidden input).sets[2]? = some (build hidden input).last := by decide +kernel
  obtain ⟨hstops, hends, hsets⟩ := build_terminates hidden input
  exact ⟨⟨by decide, hreaches, hlast⟩, hstops 1 sets (by decide) hreaches, (hends _).mpr rfl,
    hsets 2 _ hlast⟩

/-- **Charts grow at the end.** Over two inputs that agree up to a position, the pass at each position
up to there leaves the same sets, in the same order of discovery, and nothing that follows changes
them: both charts begin with these sets, and the one at the position tells whether the prefix is accepted. -/
theorem take_sets_of_take_eq (g : Grammar) {a b : List Symbol} {p : Nat} (ha : p ≤ a.length)
    (hb : p ≤ b.length) (h : a.take p = b.take p) :
    (∀ k sets, k ≤ p → Reaches g a (k + 1) sets → sets.take (k + 1) = (build g b).sets.take (k + 1)) ∧
    (build g a).sets.take (p + 1) = (build g b).sets.take (p + 1) ∧
    ((build g (a.take p)).accepts g = true ↔
      ∃ set, (build g a).sets[p]? = some set ∧ acceptingItem g ∈ set) := by
  refine ⟨?_, ?_, ?_⟩
  · intro k sets hk hr
    have hprefix : a.take k = b.take k := by
      have := congrArg (List.take k) h
      rwa [List.take_take, List.take_take, Nat.min_eq_left hk] at this
    have hlen : (build g (a.take k)).sets.length = k + 1 := by
      rw [length_sets, List.length_take]
      omega
    rw [(reaches_succ_iff (Nat.le_trans hk ha)).mp hr, ← hlen, List.take_left, hlen, hprefix,
      take_sets b (Nat.le_trans hk hb)]
  · rw [take_sets a ha, take_sets b hb, h]
  · rw [getElem?_sets a ha]
    unfold accepts setAfter
    simp

/-- Two sentences that begin with one: what the chart of either tells behind its second word. -/
theorem english_take_sets :
    (2 ≤ (Symbol.ofNames ["N", "V", "Det", "N"]).length ∧ 2 ≤ (Symbol.ofNames ["N", "V", "P"]).length ∧
      (Symbol.ofNames ["N", "V", "Det", "N"]).take 2 = (Symbol.ofNames ["N", "V", "P"]).take 2) ∧
    (∀ sets, Reaches english (Symbol.ofNames ["N", "V", "Det", "N"]) 3 sets →
      sets.take 3 = (build english (Symbol.ofNames ["N", "V", "P"])).sets.take 3) ∧
    (build english (Symbol.ofNames ["N", "V", "Det", "N"])).sets.take 3 =
      (build english (Symbol.ofNames ["N", "V", "P"])).sets.take 3 ∧
    ∃ set, (build english (Symbol.ofNames ["N", "V", "Det", "N"])).sets[2]? = some set ∧
      acceptingItem english ∈ set := by
  obtain ⟨hpasses, hsets, haccepts⟩ := take_sets_of_take_eq english (p := 2)
    (a := Symbol.ofNames ["N", "V", "Det", "N"]) (b := Symbol.ofNames ["N", "V", "P"])
    (by decide) (by decide) (by decide)
  exact ⟨by decide, fun sets => hpasses 2 sets (Nat.le_refl 2), hsets, haccepts.mp (by decide +kernel)⟩

end Chart

end ParseForest
