/-!
# Attributes

Attributes are texts with names. They are listed by name, so attributes that give
the same text to each name are equal as lists.
-/

namespace ParseForest

/-- Puts an entry at its place in a list that increases by key, in place of the entry
with the same key if there is one. -/
def insertEntry (key value : String) : List (String × String) → List (String × String)
  | [] => [(key, value)]
  | (k, v) :: rest =>
    if key < k then (key, value) :: (k, v) :: rest
    else if k < key then (k, v) :: insertEntry key value rest
    else (key, value) :: rest

theorem mem_insertEntry {key value : String} {e : String × String} {l : List (String × String)}
    (h : e ∈ insertEntry key value l) : e = (key, value) ∨ e ∈ l := by
  fun_induction insertEntry key value l with
  | case1 => simpa using h
  | case2 => simpa using h
  | case3 k v rest _ _ ih =>
    rcases List.mem_cons.1 h with rfl | h
    · simp
    · rcases ih h with h | h
      · exact .inl h
      · exact .inr (List.mem_cons_of_mem _ h)
  | case4 k v rest =>
    rcases List.mem_cons.1 h with h | h
    · exact .inl h
    · exact .inr (List.mem_cons_of_mem _ h)

theorem pairwise_insertEntry {key value : String} {l : List (String × String)}
    (h : l.Pairwise (·.1 < ·.1)) : (insertEntry key value l).Pairwise (·.1 < ·.1) := by
  fun_induction insertEntry key value l with
  | case1 => simp
  | case2 k v rest hlt =>
    refine List.pairwise_cons.2 ⟨fun e he => ?_, h⟩
    rcases List.mem_cons.1 he with rfl | he
    · exact hlt
    · exact String.lt_trans hlt ((List.pairwise_cons.1 h).1 e he)
  | case3 k v rest _ hlt ih =>
    obtain ⟨hk, hrest⟩ := List.pairwise_cons.1 h
    refine List.pairwise_cons.2 ⟨fun e he => ?_, ih hrest⟩
    rcases mem_insertEntry he with rfl | he
    · exact hlt
    · exact hk e he
  | case4 k v rest hnot hnot' =>
    obtain ⟨hk, hrest⟩ := List.pairwise_cons.1 h
    have hkey : key = k := String.le_antisymm hnot' hnot
    exact List.pairwise_cons.2 ⟨fun e he => hkey ▸ hk e he, hrest⟩

/-- Texts by name, in increasing order of names. -/
structure Attributes where
  entries : List (String × String)
  sorted : entries.Pairwise (·.1 < ·.1)
deriving DecidableEq

namespace Attributes

def empty : Attributes := ⟨[], List.Pairwise.nil⟩

instance : EmptyCollection Attributes := ⟨empty⟩

instance : Inhabited Attributes := ⟨empty⟩

def isEmpty (a : Attributes) : Bool :=
  a.entries.isEmpty

def get? (a : Attributes) (key : String) : Option String :=
  a.entries.lookup key

def insert (a : Attributes) (key value : String) : Attributes :=
  ⟨insertEntry key value a.entries, pairwise_insertEntry a.sorted⟩

/-- The attributes of a list; of several texts for one name the last one counts. -/
def ofList (entries : List (String × String)) : Attributes :=
  entries.foldl (fun a (key, value) => a.insert key value) ∅

end Attributes

end ParseForest
