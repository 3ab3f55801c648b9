import ParseForest.Chart.Item

/-!
# Sets of items

A set holds items in the order in which they were found, each of them once. Adding
items keeps the ones before in their places.
-/

namespace ParseForest

/-- Items in order of discovery, without repetition. -/
structure ItemSet where
  items : List Item
  nodup : items.Nodup
deriving DecidableEq

namespace ItemSet

def empty : ItemSet := ⟨[], List.nodup_nil⟩

instance : EmptyCollection ItemSet := ⟨empty⟩

instance : Inhabited ItemSet := ⟨empty⟩

instance : Membership Item ItemSet := ⟨fun set item => item ∈ set.items⟩

instance (item : Item) (set : ItemSet) : Decidable (item ∈ set) :=
  inferInstanceAs (Decidable (item ∈ set.items))

def size (set : ItemSet) : Nat :=
  set.items.length

/-- The set with an item at its end, unless the item is there already. -/
def insert (set : ItemSet) (item : Item) : ItemSet :=
  if h : item ∈ set.items then set
  else ⟨set.items ++ [item], List.nodup_append.2 ⟨set.nodup, by simp, by
    intro a ha b hb hab
    rw [List.mem_singleton] at hb
    exact h (hb ▸ hab ▸ ha)⟩⟩

def insertAll (set : ItemSet) (items : List Item) : ItemSet :=
  items.foldl insert set

def ofList (items : List Item) : ItemSet :=
  insertAll ∅ items

theorem mem_insert {set : ItemSet} {a b : Item} : b ∈ set.insert a ↔ b ∈ set ∨ b = a := by
  rw [insert]
  split
  · next h => exact ⟨.inl, fun hb => hb.elim id (· ▸ h)⟩
  · exact List.mem_append.trans (or_congr_right List.mem_singleton)

theorem mem_insertAll {set : ItemSet} {items : List Item} {b : Item} :
    b ∈ set.insertAll items ↔ b ∈ set ∨ b ∈ items := by
  induction items generalizing set with
  | nil => simp [insertAll]
  | cons a items ih =>
    rw [insertAll, List.foldl_cons, ← insertAll, ih, mem_insert, List.mem_cons, or_assoc]

theorem mem_ofList {items : List Item} {b : Item} : b ∈ ofList items ↔ b ∈ items :=
  mem_insertAll.trans (or_iff_right List.not_mem_nil)

theorem items_insert_eq_append (set : ItemSet) (a : Item) :
    ∃ new, (set.insert a).items = set.items ++ new := by
  rw [insert]
  split
  · exact ⟨[], (List.append_nil _).symm⟩
  · exact ⟨[a], rfl⟩

theorem items_insertAll_eq_append (set : ItemSet) (items : List Item) :
    ∃ new, (set.insertAll items).items = set.items ++ new := by
  induction items generalizing set with
  | nil => exact ⟨[], (List.append_nil _).symm⟩
  | cons a items ih =>
    obtain ⟨new, hnew⟩ := set.items_insert_eq_append a
    obtain ⟨more, hmore⟩ := ih (set.insert a)
    exact ⟨new ++ more, by
      rw [insertAll, List.foldl_cons, ← insertAll, hmore, hnew, List.append_assoc]⟩

end ItemSet

end ParseForest
