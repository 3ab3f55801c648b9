import ParseForest.Proofs.Layout
import ParseForest.Proofs.Mentions

/-!
# Names are what a text can call a symbol

A name has no problem exactly if a text made of it alone is cut into one symbol of that name
(`nameProblem?_eq_none_iff_scan`). As a text is cut into written tokens only, the tables read
from one hold no other names, and of its configuration errors none is about a name
(`nameProblem?_agrees_with_scan`).
-/

namespace ParseForest

open Text Grammar

/-- A problem of a name by itself, wherever the symbol stands. -/
def Problem.IsOfName : Problem → Prop
  | emptyName | badCharacter _ _ | keyword _ => True
  | _ => False

/-! ## Tokens bear names -/

namespace Text

section
variable {text : String} {located : List Located}

theorem nameProblem?_of_mem_scan (h : scan text = .ok located) {name : String}
    (hname : .symbol name ∈ located.map Located.token) : nameProblem? ⟨name⟩ = none := by
  obtain ⟨front, rfl, hcut⟩ := scan_eq_ok_iff.mp h
  obtain ⟨t, ht, htoken⟩ := List.mem_map.mp hname
  rcases List.mem_append.mp ht with ht | ht
  · obtain ⟨_, _, _, _, hwritten, _⟩ := hcut.exists_split ht
    rw [htoken] at hwritten
    exact hwritten
  · rw [List.mem_singleton.mp ht] at htoken
    cases htoken

theorem nameProblem?_eq_none_iff_scan {name : String} : nameProblem? ⟨name⟩ = none ↔
    ∃ located, scan name = .ok located ∧ located.map Located.token = [.symbol name, .endOfInput] := by
  constructor
  · intro h
    have hscans : Scans (name.toList ++ []) [.symbol name, .endOfInput] :=
      scans_name (a := ⟨name⟩) h nofun scans_nil
    rw [List.append_nil] at hscans
    exact exists_scan_of_scans hscans
  · rintro ⟨located, hscan, htokens⟩
    exact nameProblem?_of_mem_scan hscan (by simp [htokens])

theorem nameProblem?_of_occurs {items : List Declaration} (hscan : scan text = .ok located)
    (hread : readDeclarations located = .ok items) {a : Symbol}
    (ha : Occurs (tables items).1 (tables items).2 a) : nameProblem? a = none :=
  nameProblem?_of_mem_scan hscan (mem_of_tables hread ha)

end

end Text

/-! ## Problems of names -/

section
variable {rules : List Rule} {terminals : SymbolSet} {problem : Problem}

theorem not_isOfName_of_startProblem? (h : startProblem? rules = some problem) : ¬problem.IsOfName := by
  cases rules with
  | nil =>
    cases h
    exact not_false
  | cons start rest =>
    obtain ⟨-, h⟩ := Option.ite_none_right_eq_some.mp h
    cases h
    exact not_false

theorem not_isOfName_of_definitionProblem? {defined : SymbolSet} {rule : Rule} {id : RuleId}
    (h : definitionProblem? terminals defined rule id = some problem) : ¬problem.IsOfName := by
  unfold definitionProblem? at h
  by_cases hlhs : rule.lhs ∈ terminals
  · rw [if_pos hlhs] at h
    cases h
    exact not_false
  · rw [if_neg hlhs] at h
    obtain ⟨a, -, rfl⟩ := Option.map_eq_some_iff.mp h
    exact not_false

/-- A problem of a name is one of a symbol of the table. -/
theorem exists_of_isOfName (h : problem? rules terminals = some problem) (hname : problem.IsOfName) :
    ∃ a, Occurs rules terminals.toList a ∧ nameProblem? a = some problem := by
  rcases cases_of_problem? h with h | h | h | ⟨cycle, -, rfl⟩
  · exact absurd hname (not_isOfName_of_startProblem? h)
  · exact h
  · obtain ⟨entry, -, h⟩ := List.exists_of_findSome?_eq_some h
    exact absurd hname (not_isOfName_of_definitionProblem? h)
  · exact hname.elim

end

namespace Grammar

theorem not_isOfName_of_ofText? {text : String} {problem : Problem}
    (h : ofText? text = .error (.configuration problem)) : ¬problem.IsOfName := by
  intro hname
  rcases cases_of_ofText?_error h with ⟨_, hfault, _⟩ | ⟨_, _, hfault, _⟩ |
    ⟨_, located, items, hsame, hscan, hread, hproblem⟩
  · cases hfault
  · cases hfault
  · cases hsame
    obtain ⟨a, ha, hbad⟩ := exists_of_isOfName hproblem hname
    rw [nameProblem?_of_occurs hscan hread (occurs_ofList.mp ha)] at hbad
    cases hbad

end Grammar

/-- **Names are what the scanner reads as symbols.** A name has no problem if and only if the text of it
alone is cut into this symbol and the end. The symbols of the tables read from any text have such names,
so what is wrong with these tables is never an empty name, a character of a name or a keyword. -/
theorem nameProblem?_agrees_with_scan :
    (∀ name : String, nameProblem? ⟨name⟩ = none ↔ ∃ located, scan name = .ok located ∧
      located.map Located.token = [.symbol name, .endOfInput]) ∧
    (∀ (text : String) (located : List Located) (items : List Declaration), scan text = .ok located →
      readDeclarations located = .ok items →
      ∀ a, Occurs (tables items).1 (tables items).2 a → nameProblem? a = none) ∧
    ∀ (text : String) (problem : Problem), ofText? text = .error (.configuration problem) →
      ¬problem.IsOfName :=
  ⟨fun _ => nameProblem?_eq_none_iff_scan, fun _ _ _ hscan hread _ => nameProblem?_of_occurs hscan hread,
    fun _ _ => not_isOfName_of_ofText?⟩

/-- `terminals: ε'` and, in the second line, `S->ε' terminals.`: no keyword but the first word. -/
def nearKeywords : List Located :=
  [⟨.terminals, ⟨1, 1, 0⟩⟩, ⟨.colon, ⟨1, 10, 9⟩⟩, ⟨.symbol "ε'", ⟨1, 12, 11⟩⟩, ⟨.symbol "S", ⟨2, 1, 15⟩⟩,
    ⟨.arrow, ⟨2, 2, 16⟩⟩, ⟨.symbol "ε'", ⟨2, 4, 18⟩⟩, ⟨.symbol "terminals.", ⟨2, 7, 22⟩⟩,
    ⟨.endOfInput, ⟨2, 17, 32⟩⟩]

def nearKeywordItems : List Declaration :=
  [.terminals [⟨"ε'"⟩], .rules ⟨"S"⟩ [[⟨"ε'"⟩, ⟨"terminals."⟩]]]

/-- The names are sound, and what is wrong with the table is that one of them is not defined. -/
theorem nameProblem?_nearKeywords :
    let text := "terminals: ε'\nS->ε' terminals."
    let problem : Problem := .undefined ⟨"terminals."⟩ 0 ⟨⟨"S"⟩, [⟨"ε'"⟩, ⟨"terminals."⟩]⟩
    (scan text = .ok nearKeywords ∧ readDeclarations nearKeywords = .ok nearKeywordItems ∧
      Occurs (tables nearKeywordItems).1 (tables nearKeywordItems).2 ⟨"terminals."⟩ ∧
      ofText? text = .error (.configuration problem)) ∧
    nameProblem? ⟨"terminals."⟩ = none ∧ ¬problem.IsOfName ∧ nameProblem? ⟨"ε #"⟩ ≠ none := by
  intro text problem
  have hscan : scan text = .ok nearKeywords := by decide +kernel
  have hread : readDeclarations nearKeywords = .ok nearKeywordItems := by decide +kernel
  have hoccurs : Occurs (tables nearKeywordItems).1 (tables nearKeywordItems).2 ⟨"terminals."⟩ :=
    .inr ⟨⟨⟨"S"⟩, [⟨"ε'"⟩, ⟨"terminals."⟩]⟩, by decide, by decide⟩
  have htext : ofText? text = .error (.configuration problem) := by decide +kernel
  have hother : scan "ε #" = .ok [⟨.empty, ⟨1, 1, 0⟩⟩, ⟨.endOfInput, ⟨1, 4, 4⟩⟩] := by decide +kernel
  obtain ⟨halone, htables, hproblem⟩ := nameProblem?_agrees_with_scan
  refine ⟨⟨hscan, hread, hoccurs, htext⟩, htables _ _ _ hscan hread _ hoccurs, hproblem _ _ htext, ?_⟩
  intro hnone
  obtain ⟨located, hlocated, htokens⟩ := (halone "ε #").mp hnone
  cases hother.symm.trans hlocated
  exact absurd htokens (by decide)

end ParseForest
