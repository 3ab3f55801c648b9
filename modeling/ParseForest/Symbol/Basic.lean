/-!
# Symbols

A symbol is the name of a terminal or of a non-terminal. Symbols are ordered
by code point, and sets of symbols are kept as strictly increasing lists, so
two sets with the same members are equal.
-/

namespace ParseForest

/-- The name of a terminal or of a non-terminal. -/
structure Symbol where
  name : String
deriving DecidableEq, Repr, Inhabited

namespace Symbol

instance : LT Symbol := ⟨fun a b => a.name < b.name⟩

instance (a b : Symbol) : Decidable (a < b) :=
  inferInstanceAs (Decidable (a.name < b.name))

instance : ToString Symbol := ⟨name⟩

def ofNames (names : List String) : List Symbol :=
  names.map Symbol.mk

/-- The names of symbols, in order, with a text between two neighbours. -/
def join (separator : String) (symbols : List Symbol) : String :=
  separator.intercalate (symbols.map name)

theorem lt_irrefl (a : Symbol) : ¬a < a :=
  String.lt_irrefl a.name

theorem lt_trans {a b c : Symbol} (hab : a < b) (hbc : b < c) : a < c :=
  String.lt_trans hab hbc

theorem eq_of_not_lt {a b : Symbol} (hab : ¬a < b) (hba : ¬b < a) : a = b := by
  cases a; cases b
  exact congrArg _ (String.le_antisymm hba hab)

end Symbol

end ParseForest
