import Mathlib.Algebra.BigOperators.Group.List.Basic
import Mathlib.Algebra.Order.BigOperators.GroupWithZero.List
import Mathlib.Algebra.Order.Ring.Nat
import ParseForest.Proofs.Combinations

/-!
# The counter is exact

The readings of a counter are the places that can be taken, in lexicographic order (`mem_readings_iff`,
`pairwise_lt_readings`). Calls for the next combination come to each of them once and then to nothing any
more (`calls_eq`), no call looks for a place that its column does not have (`calls?_eq_some`), and the
checks on their number fail only if the number itself is too large (`checkedProduct?_eq`). All of this is
about the columns that a lattice is given, with the default tags in an empty one (`columns_ofColumns`).
-/

namespace ParseForest

/-! ## Readings -/

theorem cons_mem_readings {size place : Nat} {sizes places : List Nat} :
    place :: places ∈ readings (size :: sizes) ↔ place < size ∧ places ∈ readings sizes := by
  simp [readings]

theorem mem_readings_iff {sizes : List Nat} : ∀ {places : List Nat},
    places ∈ readings sizes ↔ IsReading sizes places := by
  induction sizes with
  | nil => simp [readings, IsReading]
  | cons size sizes ih =>
    intro places
    cases places with
    | nil => simp [readings, IsReading]
    | cons place places =>
      exact cons_mem_readings.trans ((and_congr_right fun _ => ih).trans List.forall₂_cons.symm)

theorem pairwise_lt_readings (sizes : List Nat) : (readings sizes).Pairwise (· < ·) := by
  induction sizes with
  | nil => exact List.pairwise_singleton _ _
  | cons size sizes ih =>
    rw [readings, List.pairwise_flatMap]
    constructor
    · intro place _
      rw [List.pairwise_map]
      exact ih.imp fun h => List.cons_lt_cons_iff.mpr (.inr ⟨rfl, h⟩)
    · refine List.pairwise_lt_range.imp fun {place later} hlt a ha b hb => ?_
      obtain ⟨a, _, rfl⟩ := List.mem_map.mp ha
      obtain ⟨b, _, rfl⟩ := List.mem_map.mp hb
      exact List.cons_lt_cons_iff.mpr (.inl hlt)

/-! ## Calls -/

namespace Combinations

/-- The answers of some calls for the next combination. A call without one leaves all as it is. -/
def calls : Nat → Combinations → List (Option (List Symbol))
  | 0, _ => []
  | count + 1, c =>
    match c.next? with
    | some (tags, rest) => some tags :: calls count rest
    | none => none :: calls count c

/-- The tags at some places, if there is one in each column. -/
def tagsAt? : List (List Symbol) → List Nat → Option (List Symbol)
  | [], [] => some []
  | column :: columns, place :: places => do return (← column[place]?) :: (← tagsAt? columns places)
  | _, _ => none

/-- The next combination with each look-up checked. -/
def checkedNext? (c : Combinations) : Option (Option (List Symbol × Combinations)) :=
  match c.places with
  | none => some none
  | some places => do
    return some (← tagsAt? c.columns places,
      { c with places := stepCounter (c.columns.map List.length) places })

/-- The answers of some calls with each look-up checked. -/
def calls? : Nat → Combinations → Option (List (Option (List Symbol)))
  | 0, _ => some []
  | count + 1, c => do
    match ← c.checkedNext? with
    | some (tags, rest) => return some tags :: (← calls? count rest)
    | none => return none :: (← calls? count c)

theorem calls_eq (count : Nat) : ∀ {c : Combinations}, c.InRange →
    c.calls count = (List.range count).map (c.all[·]?) := by
  induction count with
  | zero =>
    intro c _
    rfl
  | succ count ih =>
    intro c hc
    rw [calls, List.range_succ_eq_map, List.map_cons, List.map_map]
    cases hnext : c.next? with
    | none =>
      have hall := all_of_next?_eq_none hnext
      simp [ih hc, hall, Function.comp_def]
    | some p =>
      obtain ⟨tags, rest⟩ := p
      obtain ⟨hall, hrest⟩ := all_of_next?_eq_some hc hnext
      simp [ih hrest, hall, Function.comp_def]

theorem tagsAt?_eq_some : ∀ {columns : List (List Symbol)} {places : List Nat},
    IsReading (columns.map List.length) places → tagsAt? columns places = some (tagsAt columns places)
  | [], [], _ => rfl
  | column :: columns, place :: places, h => by
    obtain ⟨hlt, h⟩ := List.forall₂_cons.mp h
    simp [tagsAt?, tagsAt, List.getElem?_eq_getElem hlt, tagsAt?_eq_some h]

theorem checkedNext?_eq_some {c : Combinations} (hc : c.InRange) : c.checkedNext? = some c.next? := by
  unfold checkedNext? next?
  cases hp : c.places with
  | none => rfl
  | some places => simp [tagsAt?_eq_some (hc places hp)]

theorem calls?_eq_some (count : Nat) : ∀ {c : Combinations}, c.InRange →
    c.calls? count = some (c.calls count) := by
  induction count with
  | zero =>
    intro c _
    rfl
  | succ count ih =>
    intro c hc
    rw [calls?, calls, checkedNext?_eq_some hc]
    cases hnext : c.next? with
    | none => simp [ih hc]
    | some p =>
      obtain ⟨tags, rest⟩ := p
      simp [ih (all_of_next?_eq_some hc hnext).2]

end Combinations

/-! ## The number of combinations -/

/-- A product of numbers of 64 bits, multiplied up with a check at each step. -/
def checkedProduct? (sizes : List Nat) : Option Nat :=
  sizes.foldlM (fun product size =>
    if product * size < UInt64.size then some (product * size) else none) 1

/-- As no factor is 0, a product that is too large on the way stays so. -/
theorem foldlM_checked_eq {bound : Nat} {sizes : List Nat} (h : ∀ size ∈ sizes, 0 < size) :
    ∀ {product : Nat}, product < bound →
    sizes.foldlM (fun product size =>
        if product * size < bound then some (product * size) else none) product =
      if product * sizes.prod < bound then some (product * sizes.prod) else none := by
  induction sizes with
  | nil =>
    intro product hp
    simp [hp]
  | cons size sizes ih =>
    intro product hp
    obtain ⟨_, hsizes⟩ := List.forall_mem_cons.mp h
    have hpos : 0 < sizes.prod := List.prod_pos hsizes
    rw [List.foldlM_cons, List.prod_cons, ← Nat.mul_assoc]
    by_cases hnext : product * size < bound
    · rw [if_pos hnext]
      exact ih hsizes hnext
    · have hlast : ¬product * size * sizes.prod < bound := by
        have := Nat.le_mul_of_pos_right (product * size) hpos
        omega
      rw [if_neg hnext, if_neg hlast]
      rfl

namespace Lattice

theorem count_eq_prod (l : Lattice) : l.count = (l.columns.map List.length).prod := by
  rw [count, List.prod_eq_foldr]

theorem checkedProduct?_eq (l : Lattice) : checkedProduct? (l.columns.map List.length) = l.count? := by
  rw [checkedProduct?, foldlM_checked_eq l.length_pos (by decide), Nat.one_mul, count?, count_eq_prod]

theorem count?_eq_some_iff {l : Lattice} {number : Nat} : l.count? = some number ↔
    (l.columns.map List.length).prod < 2 ^ 64 ∧
      number = (readings (l.columns.map List.length)).length := by
  rw [count?, length_readings, ← List.prod_eq_foldr, count_eq_prod, Option.ite_none_right_eq_some,
    Option.some_inj, eq_comm (a := number)]
  rfl

/-- **The combinations are counted through in order.** A lattice has the given columns, with the tags `N`,
`V`, `A` and `Adv` in place of a column without tags. There is one list of places for each way to choose
a tag from each column, in strictly increasing lexicographic order. The calls come to the tags at these
places one after the other and to none any more behind the last, without ever a look-up behind the end of
a column. Their number is told if and only if it is a number of 64 bits, also if the sizes of the
columns are multiplied up with a check at each step. -/
theorem combinations_lexicographic (columns : List (List Symbol)) :
    let l := Lattice.ofColumns columns
    let sizes := l.columns.map List.length
    l.columns = columns.map orDefault ∧ orDefault [] = [⟨"N"⟩, ⟨"V"⟩, ⟨"A"⟩, ⟨"Adv"⟩] ∧
      (∀ tag tags, orDefault (tag :: tags) = tag :: tags) ∧
      ∃ all : List (List Nat), all.Pairwise (· < ·) ∧ (∀ places, places ∈ all ↔ IsReading sizes places) ∧
        (∀ count, l.combinations.calls count =
          (List.range count).map fun i => all[i]?.map (Combinations.tagsAt l.columns)) ∧
        (∀ count, l.combinations.calls? count = some (l.combinations.calls count)) ∧
        (∀ number, l.count? = some number ↔ sizes.prod < 2 ^ 64 ∧ number = all.length) ∧
        checkedProduct? sizes = l.count? := by
  intro l sizes
  refine ⟨columns_ofColumns columns, orDefault_nil, orDefault_cons, readings sizes,
    pairwise_lt_readings sizes, fun _ => mem_readings_iff, fun count => ?_, fun count => ?_,
    fun number => count?_eq_some_iff, l.checkedProduct?_eq⟩
  · rw [Combinations.calls_eq count l.inRange_combinations, l.all_combinations,
      ← Combinations.map_tagsAt_readings]
    exact List.map_congr_left fun i _ => List.getElem?_map
  · exact Combinations.calls?_eq_some count l.inRange_combinations

end Lattice

end ParseForest
