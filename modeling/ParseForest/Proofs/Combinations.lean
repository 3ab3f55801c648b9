import Mathlib.Data.List.Forall2
import Mathlib.Algebra.BigOperators.Group.List.Basic
import ParseForest.Sentence.Lattice

/-!
# The counter takes all combinations in order

`readings` lists what a counter shows from its first reading to its last, and
`readingsFrom` what it shows from some reading on. A step leads from each reading to the
next one (`readingsFrom_eq_cons`), so the combinations of a lattice are the ways to
choose a tag from each column, with the first column changing last (`all_combinations`).
-/

namespace ParseForest

/-! ## Readings of a counter -/

/-- All readings of a counter with wheels of some sizes, the last wheel turning fastest. -/
def readings : List Nat → List (List Nat)
  | [] => [[]]
  | size :: sizes => (List.range size).flatMap fun place => (readings sizes).map (place :: ·)

/-- The readings of a counter from one on. -/
def readingsFrom : List Nat → List Nat → List (List Nat)
  | size :: sizes, place :: places =>
    (readingsFrom sizes places).map (place :: ·) ++
      (List.range' (place + 1) (size - (place + 1))).flatMap fun later =>
        (readings sizes).map (later :: ·)
  | _, _ => [[]]

/-- A reading with a place on each wheel. -/
abbrev IsReading (sizes places : List Nat) : Prop :=
  List.Forall₂ (· < ·) places sizes

theorem readingsFrom_zeros {sizes : List Nat} (h : ∀ size ∈ sizes, 0 < size) :
    readingsFrom sizes (sizes.map fun _ => 0) = readings sizes := by
  induction sizes with
  | nil => rfl
  | cons size sizes ih =>
    obtain ⟨hpos, hrest⟩ := List.forall_mem_cons.mp h
    obtain ⟨size, rfl⟩ : ∃ n, size = n + 1 := ⟨size - 1, by omega⟩
    simp only [List.map_cons, readingsFrom, readings, ih hrest]
    rw [List.range_eq_range', List.range'_succ, List.flatMap_cons]
    rfl

theorem zeros_eq_of_isReading {sizes places : List Nat} (h : IsReading sizes places) :
    (places.map fun _ => 0) = sizes.map fun _ => 0 := by
  rw [List.map_const', List.map_const', h.length_eq]

theorem pos_of_isReading {sizes places : List Nat} (h : IsReading sizes places) :
    ∀ size ∈ sizes, 0 < size := by
  induction h with
  | nil => nofun
  | cons hlt _ ih => exact List.forall_mem_cons.mpr ⟨Nat.zero_lt_of_lt hlt, ih⟩

theorem isReading_zeros {sizes : List Nat} (h : ∀ size ∈ sizes, 0 < size) :
    IsReading sizes (sizes.map fun _ => 0) := by
  induction sizes with
  | nil => exact .nil
  | cons size sizes ih =>
    obtain ⟨hpos, h⟩ := List.forall_mem_cons.mp h
    exact .cons hpos (ih h)

theorem isReading_stepCounter {sizes places next : List Nat} (h : IsReading sizes places)
    (hs : stepCounter sizes places = some next) : IsReading sizes next := by
  induction h generalizing next with
  | nil => cases hs
  | @cons place size places sizes hlt h ih =>
    rw [stepCounter] at hs
    cases hstep : stepCounter sizes places with
    | some places' =>
      rw [hstep] at hs
      cases hs
      exact .cons hlt (ih hstep)
    | none =>
      rw [hstep] at hs
      simp only [Option.ite_none_right_eq_some, Option.some.injEq] at hs
      obtain ⟨hlt', rfl⟩ := hs
      rw [zeros_eq_of_isReading h]
      exact .cons hlt' (isReading_zeros (pos_of_isReading h))

/-- A step leads to the next reading, and there is none behind a reading without a step. -/
theorem readingsFrom_eq_cons {sizes places : List Nat} (h : IsReading sizes places) :
    readingsFrom sizes places =
      places :: ((stepCounter sizes places).map (readingsFrom sizes)).getD [] := by
  induction h with
  | nil => rfl
  | @cons place size places sizes hlt h ih =>
    rw [readingsFrom, stepCounter, ih]
    cases hstep : stepCounter sizes places with
    | some places' => simp [readingsFrom]
    | none =>
      by_cases hnext : place + 1 < size
      · -- the wheel turns on and those behind it go back to their first places
        obtain ⟨more, rfl⟩ : ∃ n, size = place + 1 + (n + 1) := ⟨size - (place + 1) - 1, by omega⟩
        simp only [hnext, if_true, Option.map_some, Option.getD_some, Option.map_none,
          Option.getD_none, List.map_cons, List.map_nil, zeros_eq_of_isReading h, readingsFrom,
          readingsFrom_zeros (pos_of_isReading h), Nat.add_sub_cancel_left]
        rw [List.range'_succ, List.flatMap_cons, List.singleton_append]
        have hmore : place + 1 + (more + 1) - (place + 1 + 1) = more := by omega
        rw [hmore]
      · have hlast : size - (place + 1) = 0 := by omega
        simp [hnext, hlast]

theorem length_readings (sizes : List Nat) : (readings sizes).length = sizes.foldr (· * ·) 1 := by
  induction sizes with
  | nil => rfl
  | cons size sizes ih =>
    rw [readings, List.length_flatMap, List.foldr_cons, ← ih]
    simp

/-! ## Combinations -/

/-- The ways to choose a tag from each column, the first column changing last. -/
def choices : List (List Symbol) → List (List Symbol)
  | [] => [[]]
  | column :: columns => column.flatMap fun tag => (choices columns).map (tag :: ·)

theorem length_of_mem_choices {columns : List (List Symbol)} : ∀ {tags : List Symbol},
    tags ∈ choices columns → tags.length = columns.length := by
  induction columns with
  | nil =>
    intro tags h
    rw [List.mem_singleton.mp h]
    rfl
  | cons column columns ih =>
    intro tags h
    simp only [choices, List.mem_flatMap, List.mem_map] at h
    obtain ⟨tag, _, rest, hrest, rfl⟩ := h
    simp [ih hrest]

namespace Combinations

theorem flatMap_range_getElem? {α β : Type} (l : List α) (f : α → List β) :
    ((List.range l.length).flatMap fun i => (l[i]?.map f).getD []) = l.flatMap f := by
  induction l with
  | nil => rfl
  | cons a l ih =>
    rw [List.length_cons, List.range_succ_eq_map, List.flatMap_cons, List.flatMap_map]
    simpa using ih

theorem map_tagsAt_readings (columns : List (List Symbol)) :
    (readings (columns.map List.length)).map (tagsAt columns) = choices columns := by
  induction columns with
  | nil => rfl
  | cons column columns ih =>
    rw [List.map_cons, readings, choices, List.map_flatMap, ← ih, ← flatMap_range_getElem? column]
    refine List.flatMap_congr fun place hplace => ?_
    have hlt := List.mem_range.mp hplace
    simp [List.getElem?_eq_getElem hlt, tagsAt, Function.comp_def]

/-- The combinations that are still to come. -/
def all (c : Combinations) : List (List Symbol) :=
  ((c.places.map (readingsFrom (c.columns.map List.length))).getD []).map (tagsAt c.columns)

/-- The next combination has a place in each column. -/
def InRange (c : Combinations) : Prop :=
  ∀ places ∈ c.places, IsReading (c.columns.map List.length) places

theorem all_of_next?_eq_none {c : Combinations} (h : c.next? = none) : c.all = [] := by
  unfold next? at h
  unfold all
  simp [Option.map_eq_none_iff.mp h]

theorem all_of_next?_eq_some {c rest : Combinations} {tags : List Symbol} (hc : c.InRange)
    (h : c.next? = some (tags, rest)) : c.all = tags :: rest.all ∧ rest.InRange := by
  unfold next? at h
  obtain ⟨places, hp, heq⟩ := Option.map_eq_some_iff.mp h
  cases heq
  have hread := hc places hp
  constructor
  · unfold all
    simp only [hp, Option.map_some, Option.getD_some]
    rw [readingsFrom_eq_cons hread, List.map_cons]
  · exact fun next hnext => isReading_stepCounter hread hnext

end Combinations

namespace Lattice

theorem length_pos (l : Lattice) : ∀ size ∈ l.columns.map List.length, 0 < size := by
  intro size h
  obtain ⟨column, hc, rfl⟩ := List.mem_map.mp h
  exact List.length_pos_iff.mpr (l.ne_nil column hc)

theorem zeros_eq (l : Lattice) :
    (l.columns.map fun _ => 0) = (l.columns.map List.length).map fun _ => 0 := by
  rw [List.map_map]
  rfl

theorem inRange_combinations (l : Lattice) : l.combinations.InRange := by
  intro places hp
  cases hp
  rw [zeros_eq]
  exact isReading_zeros l.length_pos

/-- The combinations of a lattice are all choices of a tag for each word, in order. -/
theorem all_combinations (l : Lattice) : l.combinations.all = choices l.columns := by
  unfold combinations Combinations.all
  simp only [Option.map_some, Option.getD_some]
  rw [zeros_eq, readingsFrom_zeros l.length_pos, Combinations.map_tagsAt_readings]

theorem length_choices (l : Lattice) : (choices l.columns).length = l.count := by
  rw [← Combinations.map_tagsAt_readings, List.length_map, length_readings, count]

end Lattice

end ParseForest
