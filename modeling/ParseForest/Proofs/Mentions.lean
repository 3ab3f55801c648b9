import ParseForest.Grammar.Text
import ParseForest.Proofs.Cut
import ParseForest.Proofs.Declarations
import ParseForest.Proofs.WellFormed

/-!
# What errors name

A text is cut into words of its own characters (`madeOf_scan`), a fault of the reader names
words that were there to read (`mem_of_readDeclarations_error`), and a problem of a table names
symbols of the table (`occurs_of_problem?`). So the error of a grammar text shows nothing that
is not in the text (`Grammar.within_of_ofText?_error`).
-/

namespace ParseForest

namespace Text

/-! ## Words are made of the text -/

/-- The word of a token, if it is one of a symbol. -/
def Token.names : Token → List String
  | symbol name => [name]
  | _ => []

/-- The pieces of a text that a fault shows. -/
def Fault.names : Fault → List String
  | unexpectedCharacter c _ => [c.toString]
  | unexpectedItem t | missingColon t => t.token.names
  | missingArrow lhs t => lhs.name :: t.token.names
  | emptyNotAlone lhs _ | noAlternative lhs _ => [lhs.name]

def Within (text : List Char) (name : String) : Prop := ∀ c ∈ name.toList, c ∈ text

/-- The words that were cut out, or the character that was not expected, are of the text. -/
def MadeOf (text : List Char) : Except Fault (List Located) → Prop
  | .ok located => ∀ t ∈ located, ∀ name ∈ t.token.names, Within text name
  | .error fault => ∀ name ∈ fault.names, Within text name

theorem eq_of_mem_names {t : Token} {name : String} (h : name ∈ t.names) : t = .symbol name := by
  cases t with
  | symbol word => exact congrArg Token.symbol (List.mem_singleton.mp h).symm
  | _ => cases h

theorem MadeOf.within {text : List Char} {located : List Located} (h : MadeOf text (.ok located))
    {name : String} (hname : .symbol name ∈ located.map Located.token) : Within text name := by
  obtain ⟨t, ht, htoken⟩ := List.mem_map.mp hname
  exact h t ht name (by simp [htoken, Token.names])

theorem madeOf_of_cutsTo {text : List Char} {result : Except Fault (List Located)}
    (h : CutsTo [] text result) : MadeOf text result := by
  cases result with
  | ok located =>
    obtain ⟨front, rfl, hcut⟩ := h
    intro t ht name hname c hc
    have hspelling : t.token.spelling = name := by rw [eq_of_mem_names hname]; rfl
    rcases List.mem_append.mp ht with ht | ht
    · obtain ⟨good, back, rfl, _⟩ := hcut.exists_split ht
      rw [hspelling]
      exact List.mem_append_right _ (List.mem_append_left _ hc)
    · rw [List.mem_singleton.mp ht] at hname
      cases hname
  | error fault =>
    obtain ⟨_, good, c, rest, rfl, rfl, _⟩ := h
    intro name hname d hd
    rw [List.mem_singleton.mp hname] at hd
    have hcd : d = c := by simpa [Char.toString] using hd
    exact hcd ▸ List.mem_append_right _ List.mem_cons_self

theorem madeOf_scan (text : String) : MadeOf text.toList (scan text) :=
  madeOf_of_cutsTo (cutsTo_scanFrom [] text.toList)

/-! ## Faults of the reader -/

section
variable {located : List Located} {fault : Fault} {name : String}

theorem mem_of_next (h : name ∈ (next located).token.names) : .symbol name ∈ located.map Located.token := by
  cases located with
  | nil => cases h
  | cons t located =>
    have ht : t.token = .symbol name := eq_of_mem_names h
    simp [ht]

theorem names_of_readAlternative_error {lhs : Symbol} (h : readAlternative lhs located = .error fault) :
    fault.names = [lhs.name] := by
  unfold readAlternative at h
  by_cases hempty : (next located).token = .empty
  · by_cases hrun : startsRun located.tail = true
    · simp only [hempty, hrun, if_true] at h
      cases h
      rfl
    · simp [hempty, hrun] at h
  · simp only [hempty, if_false] at h
    split at h
    · cases h
      rfl
    · cases h

theorem names_of_readAlternatives_error {lhs : Symbol} (h : readAlternatives lhs located = .error fault) :
    fault.names = [lhs.name] := by
  fun_induction readAlternatives lhs located with
  | case1 located fault' hrhs =>
    cases h
    exact names_of_readAlternative_error hrhs
  | case2 located rhs rest hrhs hbar fault' hmore ih =>
    cases h
    exact ih hmore
  | case3 => cases h
  | case4 => cases h

theorem mem_of_readDeclaration_error (h : readDeclaration located = .error fault)
    (hname : name ∈ fault.names) : .symbol name ∈ located.map Located.token := by
  have htail : ∀ {t}, t ∈ located.tail.map Located.token → t ∈ located.map Located.token := by
    intro t ht
    rw [List.map_tail] at ht
    exact List.mem_of_mem_tail ht
  unfold readDeclaration at h
  split at h
  · by_cases hcolon : (next located.tail).token = .colon
    · simp [hcolon] at h
    · simp only [hcolon, if_false] at h
      cases h
      exact htail (mem_of_next hname)
  · next lhs hlhs =>
    have hhead : .symbol lhs ∈ located.map Located.token := mem_of_next (by simp [hlhs, Token.names])
    by_cases harrow : (next located.tail).token = .arrow
    · simp only [harrow, if_true] at h
      split at h
      · next hread =>
        cases h
        rw [names_of_readAlternatives_error hread, List.mem_singleton] at hname
        rwa [hname]
      · cases h
    · simp only [harrow, if_false] at h
      cases h
      rcases List.mem_cons.mp hname with rfl | hname
      · exact hhead
      · exact htail (mem_of_next hname)
  · cases h
    exact mem_of_next hname

/-- A fault of the reader names words that were there to read. -/
theorem mem_of_readDeclarations_error (h : readDeclarations located = .error fault)
    (hname : name ∈ fault.names) : .symbol name ∈ located.map Located.token := by
  fun_induction readDeclarations located with
  | case1 => cases h
  | case2 located _ fault' hread =>
    cases h
    exact mem_of_readDeclaration_error hread hname
  | case3 located _ first rest hfirst fault' hmore ih =>
    cases h
    rw [(takes_of_readDeclaration hfirst).1.map_token]
    exact List.mem_append_right _ (ih hmore)
  | case4 => cases h

theorem mem_of_readDeclarations {items : List Declaration} (h : readDeclarations located = .ok items) :
    ∀ item ∈ items, ∀ t ∈ item.tokens, t ∈ located.map Located.token := by
  fun_induction readDeclarations located generalizing items with
  | case1 =>
    cases h
    simp
  | case2 => cases h
  | case3 => cases h
  | case4 located _ first rest hfirst more hmore ih =>
    cases h
    rw [(takes_of_readDeclaration hfirst).1.map_token]
    intro item hitem t ht
    rcases List.mem_cons.mp hitem with rfl | hitem
    · exact List.mem_append_left _ ht
    · exact List.mem_append_right _ (ih hmore item hitem t ht)

theorem mem_intercalate_of_mem {α : Type} {x : α} {separator part : List α} :
    ∀ {parts : List (List α)}, part ∈ parts → x ∈ part → x ∈ separator.intercalate parts
  | [only], hpart, hx => by
    rw [List.mem_singleton.mp hpart] at hx
    simpa using hx
  | first :: other :: parts, hpart, hx => by
    rw [List.intercalate_cons_cons, List.append_assoc, List.mem_append]
    rcases List.mem_cons.mp hpart with rfl | hpart
    · exact .inl hx
    · exact .inr (List.mem_append_right _ (mem_intercalate_of_mem hpart hx))

theorem mem_tokens_of_mem_toRules {item : Declaration} {rule : Rule} {a : Symbol}
    (hrule : rule ∈ item.toRules) (ha : a ∈ rule.lhs :: rule.rhs) : .symbol a.name ∈ item.tokens := by
  cases item with
  | terminals => cases hrule
  | rules lhs alternatives =>
    obtain ⟨rhs, hrhs, rfl⟩ := List.mem_map.mp hrule
    rcases List.mem_cons.mp ha with rfl | ha
    · exact List.mem_append_left _ List.mem_cons_self
    · have hne : rhs.isEmpty = false := by
        cases rhs with
        | nil => cases ha
        | cons => rfl
      have hpart : rhsTokens rhs ∈ alternatives.map rhsTokens := List.mem_map_of_mem hrhs
      refine List.mem_append_right _ (mem_intercalate_of_mem hpart ?_)
      rw [rhsTokens, hne]
      exact List.mem_map_of_mem ha

theorem mem_tokens_of_mem_toTerminals {item : Declaration} {a : Symbol} (ha : a ∈ item.toTerminals) :
    .symbol a.name ∈ item.tokens := by
  cases item with
  | terminals symbols => exact List.mem_append_right _ (List.mem_map_of_mem ha)
  | rules => cases ha

end

end Text

/-! ## Problems of a table -/

/-- The symbols that a problem shows. -/
def Problem.symbols : Problem → List Symbol
  | noRules | emptyName => []
  | emptyStart a | badCharacter a _ | keyword a | terminalDefined a _ => [a]
  | undefined a _ rule => a :: rule.lhs :: rule.rhs
  | cycle path => path

/-- A symbol of a table: a terminal, or on either side of a rule. -/
def Occurs (rules : List Rule) (terminals : List Symbol) (a : Symbol) : Prop :=
  a ∈ terminals ∨ ∃ rule ∈ rules, a ∈ rule.lhs :: rule.rhs

theorem occurs_ofList {rules : List Rule} {terminals : List Symbol} {a : Symbol} :
    Occurs rules (SymbolSet.ofList terminals).toList a ↔ Occurs rules terminals a :=
  or_congr_left SymbolSet.mem_ofList

namespace Text

/-- The symbols of the tables that were read were there to read. -/
theorem mem_of_tables {located : List Located} {items : List Declaration}
    (h : readDeclarations located = .ok items) {a : Symbol}
    (ha : Occurs (tables items).1 (tables items).2 a) :
    .symbol a.name ∈ located.map Located.token := by
  rcases ha with ha | ⟨rule, hrule, ha⟩
  · obtain ⟨item, hitem, ha⟩ := List.mem_flatMap.mp ha
    exact mem_of_readDeclarations h item hitem _ (mem_tokens_of_mem_toTerminals ha)
  · obtain ⟨item, hitem, hrule⟩ := List.mem_flatMap.mp hrule
    exact mem_of_readDeclarations h item hitem _ (mem_tokens_of_mem_toRules hrule ha)

end Text

section
variable {rules : List Rule} {terminals : SymbolSet} {problem : Problem}

theorem symbols_of_nameProblem? {a : Symbol} (h : nameProblem? a = some problem) :
    ∀ b ∈ problem.symbols, b = a := by
  unfold nameProblem? at h
  by_cases hempty : a.name.isEmpty = true
  · rw [if_pos hempty] at h
    cases h
    simp [Problem.symbols]
  rw [if_neg hempty] at h
  split at h
  · cases h
    simp [Problem.symbols]
  · obtain ⟨_, h⟩ := Option.ite_none_right_eq_some.mp h
    cases h
    simp [Problem.symbols]

theorem mem_of_definitionProblem? {defined : SymbolSet} {rule : Rule} {id : RuleId}
    (h : definitionProblem? terminals defined rule id = some problem) :
    ∀ a ∈ problem.symbols, a ∈ rule.lhs :: rule.rhs := by
  unfold definitionProblem? at h
  by_cases hlhs : rule.lhs ∈ terminals
  · rw [if_pos hlhs] at h
    cases h
    simp [Problem.symbols]
  · rw [if_neg hlhs] at h
    obtain ⟨a, ha, rfl⟩ := Option.map_eq_some_iff.mp h
    have := List.mem_of_find?_eq_some ha
    simp [Problem.symbols, this]

theorem exists_of_isChain {α : Type} {R : α → α → Prop} {l : List α} :
    ∀ {a : α}, (a :: l).IsChain R → ∀ b ∈ l, ∃ c, R c b := by
  induction l with
  | nil => nofun
  | cons b l ih =>
    intro a h
    obtain ⟨hab, h⟩ := List.isChain_cons_cons.mp h
    exact List.forall_mem_cons.mpr ⟨⟨a, hab⟩, ih h⟩

theorem occurs_of_isCycle {nullable : SymbolSet} {cycle : List Symbol}
    (h : IsCycle (unitSteps rules terminals nullable) cycle) :
    ∀ a ∈ cycle, ∃ rule ∈ rules, a ∈ rule.lhs :: rule.rhs := by
  obtain ⟨first, l, rfl, -, hchain⟩ := h
  intro a ha
  -- the first symbol stands at the end too, where it is the step of another one
  have ha : a ∈ l ++ [first] := by simpa [or_comm] using ha
  obtain ⟨b, hb⟩ := exists_of_isChain hchain a ha
  obtain ⟨rule, hrule, -, hu⟩ := mem_unitSteps.mp hb
  obtain ⟨-, p, q, hrhs, -⟩ := mem_unitSymbols.mp hu
  exact ⟨rule, hrule, by simp [hrhs]⟩

/-- The parts of a table in which a problem can lie: its start rule, a name, the definitions, or a cycle. -/
theorem cases_of_problem? (h : problem? rules terminals = some problem) :
    startProblem? rules = some problem ∨
    (∃ a, Occurs rules terminals.toList a ∧ nameProblem? a = some problem) ∨
    definitionsProblem? rules terminals = some problem ∨
    ∃ cycle, derivationCycle? rules terminals (nullableOf rules) = some cycle ∧ problem = .cycle cycle := by
  simp only [problem?, Option.orElse_eq_orElse, Option.orElse_eq_or, Option.or_eq_some_iff] at h
  rcases h with h | ⟨-, h | ⟨-, h | ⟨-, h | ⟨-, h⟩⟩⟩⟩
  · exact .inl h
  · obtain ⟨a, ha, h⟩ := List.exists_of_findSome?_eq_some h
    exact .inr (.inl ⟨a, .inl ha, h⟩)
  · obtain ⟨rule, hrule, h⟩ := List.exists_of_findSome?_eq_some h
    obtain ⟨a, ha, h⟩ := List.exists_of_findSome?_eq_some h
    exact .inr (.inl ⟨a, .inr ⟨rule, hrule, ha⟩, h⟩)
  · exact .inr (.inr (.inl h))
  · obtain ⟨cycle, hcycle, h⟩ := Option.map_eq_some_iff.mp h
    exact .inr (.inr (.inr ⟨cycle, hcycle, h.symm⟩))

theorem occurs_of_startProblem? (h : startProblem? rules = some problem) :
    ∀ a ∈ problem.symbols, ∃ rule ∈ rules, a ∈ rule.lhs :: rule.rhs := by
  intro a ha
  cases rules with
  | nil =>
    cases h
    cases ha
  | cons start rest =>
    obtain ⟨-, h⟩ := Option.ite_none_right_eq_some.mp h
    cases h
    exact ⟨start, List.mem_cons_self, by simp [List.mem_singleton.mp ha]⟩

/-- A problem of a table names symbols of the table. -/
theorem occurs_of_problem? (h : problem? rules terminals = some problem) :
    ∀ a ∈ problem.symbols, Occurs rules terminals.toList a := by
  intro a ha
  rcases cases_of_problem? h with h | ⟨b, hb, h⟩ | h | ⟨cycle, hcycle, rfl⟩
  · exact .inr (occurs_of_startProblem? h a ha)
  · rwa [symbols_of_nameProblem? h a ha]
  · obtain ⟨entry, hentry, h⟩ := List.exists_of_findSome?_eq_some h
    exact .inr ⟨entry.1, List.fst_mem_of_mem_zipIdx hentry, mem_of_definitionProblem? h a ha⟩
  · exact .inr (occurs_of_isCycle (isCycle_of_derivationCycle? hcycle) a ha)

end

/-! ## Errors of a grammar text -/

section
variable {α β ε ε' : Type} {x : Except ε α} {e : ε}

theorem error_of_bind {f : α → Except ε β} (h : (x >>= f) = .error e) :
    x = .error e ∨ ∃ a, x = .ok a ∧ f a = .error e := by
  cases x with
  | error e' =>
    cases h
    exact .inl rfl
  | ok a => exact .inr ⟨a, rfl, h⟩

theorem mapError_eq_error_iff {f : ε → ε'} {e' : ε'} :
    x.mapError f = .error e' ↔ ∃ e, x = .error e ∧ f e = e' := by
  cases x <;> simp [Except.mapError]

theorem mapError_eq_ok_iff {f : ε → ε'} {a : α} : x.mapError f = .ok a ↔ x = .ok a := by
  cases x <;> simp [Except.mapError]

end

namespace Grammar

theorem problem?_of_ofTables?_error {rules : List Rule} {terminals : List Symbol} {problem : Problem}
    (h : ofTables? rules terminals = .error problem) :
    problem? rules (.ofList terminals) = some problem := by
  unfold ofTables? at h
  split at h
  · next hproblem =>
    cases h
    exact hproblem
  · cases h

/-- The stages at which a grammar text is refused: it cannot be cut, it cannot be read, or what was read
has a problem. -/
theorem cases_of_ofText?_error {text : String} {e : Error} (h : ofText? text = .error e) :
    (∃ fault, e = .text fault ∧ Text.scan text = .error fault) ∨
    (∃ fault located, e = .text fault ∧ Text.scan text = .ok located ∧
      Text.readDeclarations located = .error fault) ∨
    ∃ problem located items, e = .configuration problem ∧ Text.scan text = .ok located ∧
      Text.readDeclarations located = .ok items ∧
      problem? (Text.tables items).1 (.ofList (Text.tables items).2) = some problem := by
  rcases error_of_bind h with hscan | ⟨located, hscan, h⟩
  · obtain ⟨fault, hfault, rfl⟩ := mapError_eq_error_iff.mp hscan
    exact .inl ⟨fault, rfl, hfault⟩
  replace hscan := mapError_eq_ok_iff.mp hscan
  rcases error_of_bind h with hread | ⟨items, hread, h⟩
  · obtain ⟨fault, hfault, rfl⟩ := mapError_eq_error_iff.mp hread
    exact .inr (.inl ⟨fault, located, rfl, hscan, hfault⟩)
  · obtain ⟨problem, hproblem, rfl⟩ := mapError_eq_error_iff.mp h
    exact .inr (.inr ⟨problem, located, items, rfl, hscan, mapError_eq_ok_iff.mp hread,
      problem?_of_ofTables?_error hproblem⟩)

/-- What the error of a grammar text shows is of the text. -/
theorem within_of_ofText?_error {text : String} {e : Error} (h : ofText? text = .error e) :
    (∃ fault, e = .text fault ∧ ∀ name ∈ fault.names, Text.Within text.toList name) ∨
    ∃ problem, e = .configuration problem ∧
      ∀ a ∈ problem.symbols, Text.Within text.toList a.name := by
  have hmade := Text.madeOf_scan text
  rcases cases_of_ofText?_error h with ⟨fault, rfl, hscan⟩ | ⟨fault, located, rfl, hscan, hread⟩ |
    ⟨problem, located, items, rfl, hscan, hread, hproblem⟩
  · rw [hscan] at hmade
    exact .inl ⟨fault, rfl, hmade⟩
  · rw [hscan] at hmade
    exact .inl ⟨fault, rfl, fun name hname =>
      hmade.within (Text.mem_of_readDeclarations_error hread hname)⟩
  · rw [hscan] at hmade
    exact .inr ⟨problem, rfl, fun a ha =>
      hmade.within (Text.mem_of_tables hread (occurs_ofList.mp (occurs_of_problem? hproblem a ha)))⟩

end Grammar

end ParseForest
