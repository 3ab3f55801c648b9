import ParseForest.Error
import ParseForest.Grammar.Json

/-!
# Tag lattices

A tagger gives each word of a sentence a list of tags that it may have. A
combination takes one tag from each list. Combinations are counted through like
the numbers on a counter with one wheel for each word, the last wheel turning
fastest, so they come in lexicographic order.
-/

namespace ParseForest

/-- The tags that each word of a sentence may have, at least one for each. -/
structure Lattice where
  columns : List (List Symbol)
  ne_nil : ∀ column ∈ columns, column ≠ []
deriving DecidableEq

namespace Lattice

def defaultTags : List Symbol :=
  Symbol.ofNames ["N", "V", "A", "Adv"]

/-- The tags themselves, or the default tags in place of none. -/
def orDefault (tags : List Symbol) : List Symbol :=
  if tags.isEmpty then defaultTags else tags

@[simp] theorem orDefault_nil : orDefault [] = [⟨"N"⟩, ⟨"V"⟩, ⟨"A"⟩, ⟨"Adv"⟩] := rfl

@[simp] theorem orDefault_cons (tag : Symbol) (tags : List Symbol) :
    orDefault (tag :: tags) = tag :: tags := rfl

theorem orDefault_ne_nil (tags : List Symbol) : orDefault tags ≠ [] := by
  cases tags <;> simp

/-- The lattice of some lists of tags, where an empty one leaves all open. -/
def ofColumns (columns : List (List Symbol)) : Lattice where
  columns := columns.map orDefault
  ne_nil := by
    intro column h
    obtain ⟨tags, _, rfl⟩ := List.mem_map.1 h
    exact orDefault_ne_nil tags

theorem columns_ofColumns (columns : List (List Symbol)) :
    (ofColumns columns).columns = columns.map orDefault := rfl

/-- Lists of tags, alone or as the one field of an object. -/
def columnsDecoder : Json.Decoder (List (List Symbol)) := Json.Decoder.plain fun room value =>
  let columns := Json.Decoder.list (.list Symbol.decoder)
  match value with
  | .object _ =>
    match Json.Decoder.record ["partsOfSpeech"] room value with
    | some [field] => Json.Decoder.required columns (room - 1) field
    | _ => none
  | _ => columns room value

def ofJson? (text : String) : Except Error Lattice :=
  match Json.decode? columnsDecoder text with
  | some columns => .ok (ofColumns columns)
  | none => .error .unreadableTags

def size (l : Lattice) : Nat :=
  l.columns.length

def count (l : Lattice) : Nat :=
  (l.columns.map List.length).foldr (· * ·) 1

/-- The number of combinations if it is a number of 64 bits. -/
def count? (l : Lattice) : Option Nat :=
  if l.count < UInt64.size then some l.count else none

end Lattice

/-! ## Counting through the combinations -/

/-- One step of a counter: the last wheel turns to its next place, or back to its first
while the wheels before it step. A counter at its last reading has no next one. -/
def stepCounter : List Nat → List Nat → Option (List Nat)
  | size :: sizes, place :: places =>
    match stepCounter sizes places with
    | some places => some (place :: places)
    | none => if place + 1 < size then some ((place + 1) :: places.map fun _ => 0) else none
  | _, _ => none

/-- The combinations that are still to come: the columns, and the place in each of them
at which the next combination stands. -/
structure Combinations where
  columns : List (List Symbol)
  places : Option (List Nat)
deriving DecidableEq, Repr

namespace Combinations

/-- The tags at some places, one in each column. -/
def tagsAt : List (List Symbol) → List Nat → List Symbol
  | column :: columns, place :: places =>
    match column[place]? with
    | some tag => tag :: tagsAt columns places
    | none => tagsAt columns places
  | _, _ => []

/-- The next combination, and those behind it. -/
def next? (c : Combinations) : Option (List Symbol × Combinations) :=
  c.places.map fun places =>
    (tagsAt c.columns places, { c with places := stepCounter (c.columns.map List.length) places })

/-- The first combinations, at most `count` of them, and what is left. -/
def take : Nat → Combinations → List (List Symbol) × Combinations
  | 0, c => ([], c)
  | count + 1, c =>
    match c.next? with
    | none => ([], c)
    | some (tags, rest) =>
      let (more, last) := take count rest
      (tags :: more, last)

end Combinations

namespace Lattice

/-- All combinations, from the one of the first tags on. -/
def combinations (l : Lattice) : Combinations :=
  ⟨l.columns, some (l.columns.map fun _ => 0)⟩

end Lattice

end ParseForest
