import Mathlib.Order.Bounds.Defs
import Mathlib.Order.Lattice
import ParseForest.Proofs.Chart

/-!
# One pass gives the least family of sets

`PlainClosed` are the rules by which charts are usually explained: predict, scan and
complete, where completing takes all items that waited, whenever they are found, and
nothing is skipped. The pass that skips nullable non-terminals and never comes back to a
completion finds the least family of sets with these rules (`isLeast_sets_build`).
-/

namespace ParseForest

open ParseForest.Derivation Grammar

namespace Chart

/-- A family of sets of items, one for each position, is closed under the rules without a skip. -/
structure PlainClosed (g : Grammar) (input : List Symbol) (F : Nat → Item → Prop) : Prop where
  initial : F 0 .initial
  predict {k item id rule} : F k item → g.rule? id = some rule → item.next? g = some rule.lhs →
    F k ⟨id, 0, k⟩
  scan {k item a} : F k item → a ∈ g.terminals → item.next? g = some a → input[k]? = some a →
    F (k + 1) item.advance
  complete {k item parent a} : F k item → item.found? g = some a → F item.start parent →
    parent.next? g = some a → F k parent.advance

section
variable {g : Grammar} {input : List Symbol} {F : Nat → Item → Prop}

/-- The dot moves over all that derives the empty word without a skip: what is predicted is found
as a whole in the same set, and completes the item that it was predicted for. -/
theorem PlainClosed.advance_empty (hF : PlainClosed g input F) {α : List Symbol}
    {ds : List Derivation} (h : g.Derivations α ds) : words ds = [] →
    ∀ {k : Nat} {β : List Symbol} {item : Item} {rule : Rule}, F k item → g.rule? item.rule = some rule → rule.rhs.drop item.dot = α ++ β →
      F k ⟨item.rule, item.dot + α.length, item.start⟩ := by
  induction h with
  | nil => intro _ k β item rule hi _ _; exact hi
  | leaf _ _ _ => intro hw; simp at hw
  | @node id r cs α es hid hc _ ihc ih =>
    intro hw k β item rule hi hr hd
    rw [words_node, List.append_eq_nil_iff] at hw
    obtain ⟨hn, hd'⟩ := next?_of_drop hr hd
    have hwhole := ihc hw.1 (β := []) (hF.predict hi hid hn) hid (by simp)
    have hf : Item.found? g ⟨id, 0 + r.rhs.length, k⟩ = some r.lhs :=
      Item.found?_eq_some_iff.mpr ⟨r, hid, Nat.zero_add _, rfl⟩
    have := ih hw.2 (hF.complete hwhole hf hi hn) hr hd'
    simpa [Item.advance, Nat.add_comm, Nat.add_left_comm] using this

theorem PlainClosed.skip (hF : PlainClosed g input F) {k : Nat} {item : Item} {a : Symbol}
    (hi : F k item) (hn : item.next? g = some a) (ha : a ∈ g.nullable) : F k item.advance := by
  obtain ⟨ds, hd, hw⟩ := generates_nil_of_mem_nullable a ha
  obtain ⟨rule, hr, hrhs⟩ := Item.next?_eq_some_iff.mp hn
  obtain ⟨hlt, rfl⟩ := List.getElem?_eq_some_iff.mp hrhs
  exact hF.advance_empty hd hw hi hr (List.drop_eq_getElem_cons hlt)

/-- All that the pass finds is in each family with the rules. As an item begins no later than where
its set stands, a completion finds what waited for it in the family too. -/
theorem PlainClosed.of_mem_setAfter (hF : PlainClosed g input F) (w : List Symbol) :
    ∀ item ∈ setAfter g w, item.start ≤ w.length ∧ (w <+: input → F w.length item) := by
  refine setAfter_induction
    (P := fun w item => item.start ≤ w.length ∧ (w <+: input → F w.length item)) ?_ ?_ ?_ ?_ ?_ w
  · exact ⟨Nat.le_refl 0, fun _ => hF.initial⟩
  · intro w a item ha ⟨hs, h⟩ hn
    rw [List.length_append]
    refine ⟨Nat.le_add_right_of_le hs, fun hw => ?_⟩
    have hk : input[w.length]? = some a := by
      obtain ⟨u, rfl⟩ := hw
      simp
    exact hF.scan (h ((List.prefix_append w [a]).trans hw)) ha hn hk
  · intro w a item id rule ⟨_, h⟩ hn _ hr ha
    exact ⟨Nat.le_refl _, fun hw => hF.predict (h hw) hr (ha ▸ hn)⟩
  · intro w a item ⟨hs, h⟩ hn ha
    exact ⟨hs, fun hw => hF.skip (h hw) hn ha⟩
  · intro w a item parent ⟨hs, h⟩ hf ⟨hps, hp⟩ hn
    rw [List.length_take, Nat.min_eq_left hs] at hps hp
    exact ⟨Nat.le_trans hps hs,
      fun hw => hF.complete (h hw) hf (hp ((List.take_prefix _ w).trans hw)) hn⟩

end

def Holds (chart : Chart) (k : Nat) (item : Item) : Prop :=
  ∃ set, chart.sets[k]? = some set ∧ item ∈ set

section
variable {g : Grammar} {input : List Symbol}

theorem holds_build_iff {k : Nat} {item : Item} :
    (build g input).Holds k item ↔ k ≤ input.length ∧ item ∈ setAfter g (input.take k) := by
  unfold Holds
  simp only [getElem?_sets_eq_some_iff]
  constructor
  · rintro ⟨_, ⟨hk, rfl⟩, h⟩
    exact ⟨hk, h⟩
  · rintro ⟨hk, h⟩
    exact ⟨_, ⟨hk, rfl⟩, h⟩

theorem plainClosed_build : PlainClosed g input (build g input).Holds where
  initial := holds_build_iff.mpr ⟨Nat.zero_le _, initial_mem_setAfter⟩
  predict {k item id rule} h hr hn := by
    obtain ⟨hk, h⟩ := holds_build_iff.mp h
    refine holds_build_iff.mpr ⟨hk, ?_⟩
    have := predict_mem_setAfter h hn (g.lhs_not_mem_terminals (mem_rules_of_rule? hr)) hr rfl
    rwa [List.length_take, Nat.min_eq_left hk] at this
  scan {k item a} h ha hn hk := by
    obtain ⟨_, h⟩ := holds_build_iff.mp h
    obtain ⟨hlt, rfl⟩ := List.getElem?_eq_some_iff.mp hk
    refine holds_build_iff.mpr ⟨hlt, ?_⟩
    rw [List.take_succ_eq_append_getElem hlt]
    exact scan_mem_setAfter ha h hn
  complete {k item parent a} h hf hp hn := by
    obtain ⟨hk, h⟩ := holds_build_iff.mp h
    obtain ⟨_, hp⟩ := holds_build_iff.mp hp
    obtain ⟨_, _, _, hs⟩ := inBounds_of_mem_setAfter _ _ h
    rw [List.length_take, Nat.min_eq_left hk] at hs
    have hvalid := mem_setAfter_iff.mp h
    refine holds_build_iff.mpr ⟨hk, mem_setAfter_iff.mpr (hvalid.complete hf ?_ hn)⟩
    rw [List.take_take, Nat.min_eq_left hs]
    exact mem_setAfter_iff.mp hp

end

/-- **One pass gives the least fixpoint.** The sets of a chart, each closed by one pass that reads
at a completion what is there and skips nullable non-terminals, are the least family with the first
item that is closed under predicting, scanning and completing. -/
theorem isLeast_sets_build (g : Grammar) (input : List Symbol) :
    IsLeast {F | PlainClosed g input F} (build g input).Holds := by
  refine ⟨plainClosed_build, fun F hF k item h => ?_⟩
  obtain ⟨hk, h⟩ := holds_build_iff.mp h
  have := (hF.of_mem_setAfter _ _ h).2 (List.take_prefix k input)
  rwa [List.length_take, Nat.min_eq_left hk] at this

end Chart

end ParseForest
