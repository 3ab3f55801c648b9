import ParseForest.Symbol.Basic

/-!
# Sets of symbols

A set is a strictly increasing list of symbols. The list is determined by its
members (`SymbolSet.ext_mem`), so equality of sets is equality of lists.
-/

namespace ParseForest

/-- A finite set of symbols, listed in increasing order. -/
structure SymbolSet where
  toList : List Symbol
  sorted : toList.Pairwise (· < ·)
deriving DecidableEq

namespace SymbolSet

/-- Puts a symbol at its place in an increasing list, unless it is there already. -/
def insertSorted (a : Symbol) : List Symbol → List Symbol
  | [] => [a]
  | b :: l =>
    if a < b then a :: b :: l
    else if b < a then b :: insertSorted a l
    else b :: l

theorem mem_insertSorted {a x : Symbol} {l : List Symbol} :
    x ∈ insertSorted a l ↔ x = a ∨ x ∈ l := by
  induction l with
  | nil => simp [insertSorted]
  | cons b l ih =>
    by_cases hab : a < b
    · simp [insertSorted, hab]
    · by_cases hba : b < a
      · simp only [insertSorted, hab, hba, if_true, if_false, List.mem_cons, ih]
        exact or_left_comm
      · simp only [insertSorted, hab, hba, if_false, List.mem_cons]
        rw [Symbol.eq_of_not_lt hab hba]
        exact (or_iff_right_of_imp Or.inl).symm

theorem pairwise_insertSorted {a : Symbol} {l : List Symbol} (h : l.Pairwise (· < ·)) :
    (insertSorted a l).Pairwise (· < ·) := by
  induction l with
  | nil => simp [insertSorted]
  | cons b l ih =>
    obtain ⟨hb, hl⟩ := List.pairwise_cons.1 h
    by_cases hab : a < b
    · simp only [insertSorted, hab, if_true]
      refine List.pairwise_cons.2 ⟨fun x hx => ?_, h⟩
      rcases List.mem_cons.1 hx with rfl | hx
      · exact hab
      · exact Symbol.lt_trans hab (hb x hx)
    · by_cases hba : b < a
      · simp only [insertSorted, hab, hba, if_true, if_false]
        refine List.pairwise_cons.2 ⟨fun x hx => ?_, ih hl⟩
        rcases mem_insertSorted.1 hx with rfl | hx
        · exact hba
        · exact hb x hx
      · simpa [insertSorted, hab, hba] using h

theorem eq_of_mem_iff {l m : List Symbol} (hl : l.Pairwise (· < ·)) (hm : m.Pairwise (· < ·))
    (h : ∀ a, a ∈ l ↔ a ∈ m) : l = m := by
  induction l generalizing m with
  | nil =>
    cases m with
    | nil => rfl
    | cons b m => exact absurd ((h b).2 List.mem_cons_self) List.not_mem_nil
  | cons a l ih =>
    cases m with
    | nil => exact absurd ((h a).1 List.mem_cons_self) List.not_mem_nil
    | cons b m =>
      obtain ⟨ha, hl'⟩ := List.pairwise_cons.1 hl
      obtain ⟨hb, hm'⟩ := List.pairwise_cons.1 hm
      have hab : a = b := by
        rcases List.mem_cons.1 ((h a).1 List.mem_cons_self) with hab | ham
        · exact hab
        · rcases List.mem_cons.1 ((h b).2 List.mem_cons_self) with hba | hbl
          · exact hba.symm
          · exact absurd (Symbol.lt_trans (ha b hbl) (hb a ham)) (Symbol.lt_irrefl a)
      subst hab
      have hne : ∀ {x : Symbol} {k : List Symbol}, (∀ y ∈ k, a < y) → x ∈ k → x ≠ a :=
        fun hk hx e => Symbol.lt_irrefl a (e ▸ hk _ hx)
      refine congrArg (a :: ·) (ih hl' hm' fun x => ⟨fun hx => ?_, fun hx => ?_⟩)
      · exact (List.mem_cons.1 ((h x).1 (List.mem_cons_of_mem _ hx))).resolve_left (hne ha hx)
      · exact (List.mem_cons.1 ((h x).2 (List.mem_cons_of_mem _ hx))).resolve_left (hne hb hx)

instance : Membership Symbol SymbolSet := ⟨fun s a => a ∈ s.toList⟩

instance (a : Symbol) (s : SymbolSet) : Decidable (a ∈ s) :=
  inferInstanceAs (Decidable (a ∈ s.toList))

def empty : SymbolSet := ⟨[], List.Pairwise.nil⟩

instance : EmptyCollection SymbolSet := ⟨empty⟩

instance : Inhabited SymbolSet := ⟨empty⟩

def insert (a : Symbol) (s : SymbolSet) : SymbolSet :=
  ⟨insertSorted a s.toList, pairwise_insertSorted s.sorted⟩

def ofList (l : List Symbol) : SymbolSet :=
  l.foldr insert ∅

def size (s : SymbolSet) : Nat :=
  s.toList.length

@[simp] theorem mem_toList {a : Symbol} {s : SymbolSet} : a ∈ s.toList ↔ a ∈ s := Iff.rfl

@[simp] theorem not_mem_empty {a : Symbol} : ¬a ∈ (∅ : SymbolSet) := List.not_mem_nil

@[simp] theorem mem_insert {a x : Symbol} {s : SymbolSet} : x ∈ s.insert a ↔ x = a ∨ x ∈ s :=
  mem_insertSorted

@[simp] theorem mem_ofList {x : Symbol} {l : List Symbol} : x ∈ ofList l ↔ x ∈ l := by
  induction l with
  | nil => simp [ofList]
  | cons a l ih => simpa [ofList] using or_congr_right ih

theorem ext_mem {s t : SymbolSet} (h : ∀ a, a ∈ s ↔ a ∈ t) : s = t := by
  obtain ⟨l, hl⟩ := s
  obtain ⟨m, hm⟩ := t
  have e : l = m := eq_of_mem_iff hl hm h
  subst e
  rfl

@[simp] theorem ofList_toList (s : SymbolSet) : ofList s.toList = s :=
  ext_mem fun _ => mem_ofList

end SymbolSet

end ParseForest
