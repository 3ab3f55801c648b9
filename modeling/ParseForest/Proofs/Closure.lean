import Mathlib.Algebra.BigOperators.Ring.List
import Mathlib.Algebra.Ring.Nat
import Mathlib.Data.List.Perm.Subperm
import ParseForest.Chart.Basic
import ParseForest.Proofs.Derivation
import ParseForest.Proofs.Validity

/-!
# The pass that closes a state set

`Adds` lists what a visit to an item can bring. All that a set holds comes from its kernel
by such visits (`close_induction`), and as a set has room for all items within bounds
(`size_le_itemBound`) the pass does not end before each item was visited
(`exists_seen_of_mem_close`).
-/

namespace ParseForest

/-! ## Items -/

namespace Item

section
variable {g : Grammar} {item : Item}

theorem next?_eq_some_iff {a : Symbol} : item.next? g = some a ↔
    ∃ rule, g.rule? item.rule = some rule ∧ rule.rhs[item.dot]? = some a := by
  unfold next?
  cases g.rule? item.rule <;> simp

theorem found?_eq_some_iff {a : Symbol} : item.found? g = some a ↔
    ∃ rule, g.rule? item.rule = some rule ∧ item.dot = rule.rhs.length ∧ rule.lhs = a := by
  unfold found?
  cases g.rule? item.rule <;> simp

theorem found?_eq_none_of_next? {a : Symbol} (h : item.next? g = some a) : item.found? g = none := by
  obtain ⟨rule, hr, ha⟩ := next?_eq_some_iff.mp h
  have hlt := (List.getElem?_eq_some_iff.mp ha).1
  unfold found?
  simp [hr, Nat.ne_of_lt hlt]

/-- The rule, the dot and the start of an item of a set at a position are in range. -/
def InBounds (g : Grammar) (position : Nat) (item : Item) : Prop :=
  ∃ rule, g.rule? item.rule = some rule ∧ item.dot ≤ rule.rhs.length ∧ item.start ≤ position

theorem InBounds.mono {k m : Nat} (h : item.InBounds g k) (hkm : k ≤ m) : item.InBounds g m := by
  obtain ⟨rule, hr, hd, hs⟩ := h
  exact ⟨rule, hr, hd, Nat.le_trans hs hkm⟩

theorem InBounds.advance {k : Nat} {a : Symbol} (h : item.InBounds g k)
    (hn : item.next? g = some a) : item.advance.InBounds g k := by
  obtain ⟨rule, hr, ha⟩ := next?_eq_some_iff.mp hn
  obtain ⟨_, _, _, hs⟩ := h
  exact ⟨rule, hr, (List.getElem?_eq_some_iff.mp ha).1, hs⟩

end

end Item

namespace Chart

section
variable {g : Grammar} {earlier : List ItemSet} {set : ItemSet} {item b : Item}

/-- What a visit to an item can bring into the set behind the earlier ones: the rules for
its next symbol, itself advanced over a nullable symbol, or what waited for it. -/
inductive Adds (g : Grammar) (earlier : List ItemSet) (set : ItemSet) (item : Item) : Item → Prop
  | predict {a id rule} : item.next? g = some a → a ∉ g.terminals → g.rule? id = some rule →
      rule.lhs = a → Adds g earlier set item ⟨id, 0, earlier.length⟩
  | skip {a} : item.next? g = some a → a ∉ g.terminals → a ∈ g.nullable →
      Adds g earlier set item item.advance
  | complete {a parent} : item.found? g = some a → parent ∈ earlier[item.start]?.getD set →
      parent.next? g = some a → Adds g earlier set item parent.advance

theorem mem_advanceOver {a : Symbol} : b ∈ set.advanceOver g a ↔
    ∃ parent ∈ set, parent.next? g = some a ∧ b = parent.advance := by
  unfold ItemSet.advanceOver
  simp only [List.mem_map, List.mem_filter, decide_eq_true_eq, and_assoc]
  exact exists_congr fun _ => and_congr_right fun _ => and_congr_right fun _ => eq_comm

theorem adds_of_mem_additions (h : b ∈ additions g earlier set item) : Adds g earlier set item b := by
  unfold additions at h
  cases hn : item.next? g with
  | none =>
    rw [hn] at h
    simp only [completions] at h
    cases hf : item.found? g with
    | none => simp [hf] at h
    | some a =>
      rw [hf] at h
      obtain ⟨parent, hp, hpn, rfl⟩ := mem_advanceOver.mp h
      exact .complete hf hp hpn
  | some a =>
    rw [hn] at h
    by_cases ht : a ∈ g.terminals
    · simp [ht] at h
    simp only [ht, if_false, List.mem_append, predictions, List.mem_map] at h
    cases h with
    | inl h =>
      obtain ⟨id, hid, rfl⟩ := h
      obtain ⟨rule, hr, ha⟩ := g.mem_rulesOf.mp hid
      exact .predict hn ht hr ha
    | inr h =>
      unfold skips at h
      by_cases hnull : a ∈ g.nullable
      · rw [if_pos hnull] at h
        rw [List.mem_singleton.mp h]
        exact .skip hn ht hnull
      · rw [if_neg hnull] at h
        cases h

theorem Adds.mem_additions (h : Adds g earlier set item b) : b ∈ additions g earlier set item := by
  unfold additions
  cases h with
  | @predict a id rule hn ht hr ha =>
    simp only [hn, ht, if_false, List.mem_append, predictions, List.mem_map]
    exact .inl ⟨id, g.mem_rulesOf.mpr ⟨rule, hr, ha⟩, rfl⟩
  | skip hn ht hnull => simp [hn, ht, skips, hnull]
  | complete hf hp hpn =>
    cases hn : item.next? g with
    | some a =>
      rw [Item.found?_eq_none_of_next? hn] at hf
      cases hf
    | none =>
      simp only [completions, hf]
      exact mem_advanceOver.mpr ⟨_, hp, hpn, rfl⟩

/-! ## Room for all items -/

/-- All items within bounds. -/
def itemsWithin (g : Grammar) (position : Nat) : List Item :=
  g.rules.zipIdx.flatMap fun (rule, id) => (List.range (rule.rhs.length + 1)).flatMap fun dot =>
    (List.range (position + 1)).map fun start => ⟨id, dot, start⟩

theorem length_itemsWithin (g : Grammar) (k : Nat) : (itemsWithin g k).length = itemBound g k := by
  have hfst : ∀ f : Rule → Nat, (g.rules.zipIdx.map fun p => f p.1) = g.rules.map f := fun f => by
    rw [← Function.comp_def, ← List.map_map, List.zipIdx_map_fst]
  unfold itemsWithin itemBound
  rw [List.length_flatMap, ← List.sum_eq_foldr]
  simp only [List.length_flatMap, List.length_map, List.length_range, List.map_const', List.sum_replicate_nat]
  rw [hfst fun rule => (rule.rhs.length + 1) * (k + 1), List.sum_map_mul_right, Nat.mul_comm]

theorem size_le_itemBound {k : Nat} (h : ∀ b ∈ set, b.InBounds g k) : set.size ≤ itemBound g k := by
  rw [← length_itemsWithin]
  refine (List.subperm_of_subset set.nodup fun b hb => ?_).length_le
  obtain ⟨rule, hr, hd, hs⟩ := h b hb
  unfold itemsWithin
  simp only [List.mem_flatMap, List.mem_map, List.mem_range, Prod.exists]
  exact ⟨rule, b.rule, List.mk_mem_zipIdx_iff_getElem?.mpr hr, b.dot, Nat.lt_succ_of_le hd, b.start,
    Nat.lt_succ_of_le hs, rfl⟩

theorem Adds.inBounds (he : ∀ (k : Nat) (s : ItemSet), earlier[k]? = some s → ∀ c ∈ s, c.InBounds g k)
    (hset : ∀ c ∈ set, c.InBounds g earlier.length) (hi : item.InBounds g earlier.length)
    (h : Adds g earlier set item b) : b.InBounds g earlier.length := by
  cases h with
  | predict _ _ hr _ => exact ⟨_, hr, Nat.zero_le _, Nat.le_refl _⟩
  | skip hn _ _ => exact hi.advance hn
  | complete hf hp hpn =>
    refine Item.InBounds.advance ?_ hpn
    cases hs : earlier[item.start]? with
    | none => rw [hs] at hp; exact hset _ hp
    | some s =>
      rw [hs] at hp
      exact (he _ s hs _ hp).mono (Nat.le_of_lt (List.getElem?_eq_some_iff.mp hs).1)

/-! ## The pass -/

theorem closeFrom_none {visits place : Nat} (h : set.items[place]? = none) :
    closeFrom g earlier visits place set = set := by
  cases visits with
  | zero => rfl
  | succ visits => rw [closeFrom, h]

theorem closeFrom_some {visits place : Nat} (h : set.items[place]? = some item) :
    closeFrom g earlier (visits + 1) place set =
      closeFrom g earlier visits (place + 1) (set.insertAll (additions g earlier set item)) := by
  rw [closeFrom, h]

theorem items_closeFrom_eq_append (visits place : Nat) (set : ItemSet) :
    ∃ new, (closeFrom g earlier visits place set).items = set.items ++ new := by
  induction visits generalizing place set with
  | zero => exact ⟨[], (List.append_nil _).symm⟩
  | succ visits ih =>
    cases hi : set.items[place]? with
    | none => rw [closeFrom_none hi]; exact ⟨[], (List.append_nil _).symm⟩
    | some item =>
      rw [closeFrom_some hi]
      obtain ⟨new, hnew⟩ := set.items_insertAll_eq_append (additions g earlier set item)
      obtain ⟨more, hmore⟩ := ih (place + 1) (set.insertAll (additions g earlier set item))
      exact ⟨new ++ more, by rw [hmore, hnew, List.append_assoc]⟩

theorem mem_closeFrom_of_mem {visits place : Nat} (h : b ∈ set) :
    b ∈ closeFrom g earlier visits place set := by
  obtain ⟨new, hnew⟩ := @items_closeFrom_eq_append g earlier visits place set
  show b ∈ (closeFrom g earlier visits place set).items
  rw [hnew]
  exact List.mem_append_left _ h

theorem closeFrom_induction {P : Item → Prop}
    (hadd : ∀ set item b, (∀ c ∈ set, P c) → P item → Adds g earlier set item b → P b)
    {visits place : Nat} {set : ItemSet} (hset : ∀ c ∈ set, P c) :
    ∀ b ∈ closeFrom g earlier visits place set, P b := by
  induction visits generalizing place set with
  | zero => exact hset
  | succ visits ih =>
    cases hi : set.items[place]? with
    | none => rw [closeFrom_none hi]; exact hset
    | some item =>
      rw [closeFrom_some hi]
      refine ih fun c hc => ?_
      rcases ItemSet.mem_insertAll.mp hc with hc | hc
      · exact hset c hc
      · exact hadd set item c hset (hset item (List.mem_of_getElem? hi)) (adds_of_mem_additions hc)

/-- What holds of a kernel and of all that visits bring holds of the closed set. -/
theorem close_induction {P : Item → Prop} {kernel : List Item} (hk : ∀ b ∈ kernel, P b)
    (hadd : ∀ set item b, (∀ c ∈ set, P c) → P item → Adds g earlier set item b → P b) :
    ∀ b ∈ close g earlier kernel, P b :=
  closeFrom_induction hadd fun c hc => hk c (ItemSet.mem_ofList.mp hc)

/-- Items keep their places while a set grows. -/
theorem getElem?_closeFrom {visits place i : Nat} (h : set.items[i]? = some item) :
    (closeFrom g earlier visits place set).items[i]? = some item := by
  obtain ⟨new, hnew⟩ := @items_closeFrom_eq_append g earlier visits place set
  rw [hnew, List.getElem?_append_left (List.getElem?_eq_some_iff.mp h).1, h]

/-- A pass with a visit left for each item that has room visits all items from its place on. -/
theorem exists_seen_of_closeFrom (he : ∀ (k : Nat) (s : ItemSet), earlier[k]? = some s → ∀ c ∈ s, c.InBounds g k)
    {visits place : Nat} {set : ItemSet} (hset : ∀ c ∈ set, c.InBounds g earlier.length)
    (hv : place + visits = itemBound g earlier.length) {i : Nat} (hi : place ≤ i)
    (hitem : (closeFrom g earlier visits place set).items[i]? = some item) :
    ∃ seen : ItemSet, (∀ c ∈ seen, c ∈ closeFrom g earlier visits place set) ∧
      ∀ b, Adds g earlier seen item b → b ∈ closeFrom g earlier visits place set := by
  induction visits generalizing place set with
  | zero =>
    have hsize := size_le_itemBound hset
    have hlt := (List.getElem?_eq_some_iff.mp hitem).1
    have : set.items.length ≤ itemBound g earlier.length := hsize
    simp only [closeFrom] at hlt
    omega
  | succ visits ih =>
    cases hp : set.items[place]? with
    | none =>
      rw [closeFrom_none hp] at hitem
      have hlt := (List.getElem?_eq_some_iff.mp hitem).1
      have := List.getElem?_eq_none_iff.mp hp
      omega
    | some first =>
      rcases Nat.eq_or_lt_of_le hi with rfl | hlt
      · -- the item visited now keeps its place to the end
        rw [getElem?_closeFrom hp] at hitem
        obtain rfl := Option.some.inj hitem
        rw [closeFrom_some hp]
        exact ⟨set, fun c hc => mem_closeFrom_of_mem (ItemSet.mem_insertAll.mpr (.inl hc)),
          fun b hb => mem_closeFrom_of_mem (ItemSet.mem_insertAll.mpr (.inr hb.mem_additions))⟩
      · rw [closeFrom_some hp] at hitem ⊢
        refine ih (fun c hc => ?_) (by omega) hlt hitem
        cases ItemSet.mem_insertAll.mp hc with
        | inl hc => exact hset c hc
        | inr hc =>
          exact (adds_of_mem_additions hc).inBounds he hset (hset first (List.mem_of_getElem? hp))

/-- Each item of a closed set was visited, when a part of the set had been seen. -/
theorem exists_seen_of_mem_close (he : ∀ (k : Nat) (s : ItemSet), earlier[k]? = some s → ∀ c ∈ s, c.InBounds g k)
    {kernel : List Item} (hk : ∀ c ∈ kernel, c.InBounds g earlier.length)
    (hitem : item ∈ close g earlier kernel) :
    ∃ seen : ItemSet, (∀ c ∈ seen, c ∈ close g earlier kernel) ∧
      ∀ b, Adds g earlier seen item b → b ∈ close g earlier kernel := by
  obtain ⟨i, hi⟩ := List.mem_iff_getElem?.mp hitem
  exact exists_seen_of_closeFrom he (fun c hc => hk c (ItemSet.mem_ofList.mp hc)) (Nat.zero_add _)
    (Nat.zero_le i) hi

theorem mem_close_of_mem_kernel {kernel : List Item} (h : b ∈ kernel) : b ∈ close g earlier kernel :=
  mem_closeFrom_of_mem (ItemSet.mem_ofList.mpr h)

end

end Chart

end ParseForest
