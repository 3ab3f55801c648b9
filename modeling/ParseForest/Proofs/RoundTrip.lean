import ParseForest.Grammar.Text
import ParseForest.Proofs.Scan
import ParseForest.Text.Printer

/-!
# The canonical text is read back

`Grammar.tokens` lists the tokens of the canonical text of a grammar: `scans_toText`
says that the text is cut into them, and `readDeclarations_tokens` that they are read
as the rules and the terminals of the grammar.
-/

namespace ParseForest

namespace Text

/-! ## The tokens of a canonical text -/

/-- The tokens of an alternative. -/
def rhsTokens (rhs : List Symbol) : List Token :=
  if rhs.isEmpty then [.empty] else symbolTokens rhs

/-- The tokens of the rules that follow a rule for `previous`, to the end of the text. -/
def ruleTokens (previous : Option Symbol) : List Rule → List Token
  | [] => [.endOfInput]
  | rule :: rest =>
    let head := if previous = some rule.lhs then [.bar] else [.symbol rule.lhs.name, .arrow]
    head ++ (rhsTokens rule.rhs ++ ruleTokens (some rule.lhs) rest)

/-- The tokens of the declaration of terminals, if there are any. -/
def terminalTokens (terminals : List Symbol) : List Token :=
  if terminals.isEmpty then [] else .terminals :: .colon :: symbolTokens terminals

end Text

open Text

/-- The tokens of the canonical text. -/
def Grammar.tokens (g : Grammar) : List Token :=
  terminalTokens g.terminals.toList ++ ruleTokens none g.rules

/-! ## Cutting the text -/

section
variable {text : List Char} {tokens : List Token}

end

namespace Text

/-- The tokens begin with a symbol that can stand in a right-hand side: no arrow follows it. -/
def BeginsRun (tokens : List Token) : Prop :=
  ∃ name, tokens.head? = some (.symbol name) ∧ tokens.tail.head? ≠ some .arrow

/-- A run of the symbols ends in front of the tokens: no symbol continues it, and no arrow takes
its last one away. -/
structure EndsRun (symbols : List Symbol) (tokens : List Token) : Prop where
  not_begins : ¬BeginsRun tokens
  head_ne : symbols ≠ [] → tokens.head? ≠ some .arrow

theorem endsRun_bar (symbols : List Symbol) (tokens : List Token) : EndsRun symbols (.bar :: tokens) :=
  ⟨nofun, nofun⟩

theorem endsRun_head (symbols : List Symbol) (name : String) (tokens : List Token) :
    EndsRun symbols (.symbol name :: .arrow :: tokens) :=
  ⟨fun ⟨_, _, h⟩ => h rfl, nofun⟩

section
variable {located : List Located} {tokens : List Token}

theorem next_token (located : List Located) :
    (next located).token = (located.map Located.token).head?.getD .endOfInput := by
  cases located <;> rfl

theorem next_of_map_eq {t : Token} (h : located.map Located.token = t :: tokens) :
    (next located).token = t ∧ located.tail.map Located.token = tokens := by
  rw [next_token, List.map_tail, h]
  exact ⟨rfl, rfl⟩

theorem next_ne_arrow {symbols : List Symbol} (ha : tokens.head? ≠ some .arrow)
    (h : located.map Located.token = symbolTokens symbols ++ tokens) :
    (next located).token ≠ .arrow := by
  rw [next_token, h]
  cases symbols with
  | cons a symbols => nofun
  | nil =>
    cases tokens with
    | nil => nofun
    | cons t tokens => simpa [symbolTokens] using ha

theorem takeSymbols_of_not_beginsRun (h : ¬BeginsRun (located.map Located.token)) :
    takeSymbols located = ([], located) := by
  cases located with
  | nil => rfl
  | cons t located =>
    unfold takeSymbols
    cases ht : t.token with
    | symbol name =>
      have harrow : (next located).token = .arrow := by
        by_contra harrow
        refine h ⟨name, congrArg some ht, fun hhead => harrow ?_⟩
        rw [List.map_cons, List.tail_cons] at hhead
        rw [next_token, hhead]
        rfl
      simp [harrow]
    | _ => rfl

theorem takeSymbols_symbolTokens (symbols : List Symbol) (he : EndsRun symbols tokens)
    (h : located.map Located.token = symbolTokens symbols ++ tokens) :
    ∃ behind, takeSymbols located = (symbols, behind) ∧ behind.map Located.token = tokens := by
  induction symbols generalizing located with
  | nil =>
    rw [← show located.map Located.token = tokens from h] at he
    exact ⟨located, takeSymbols_of_not_beginsRun he.not_begins, h⟩
  | cons a symbols ih =>
    have ha := he.head_ne (List.cons_ne_nil a symbols)
    obtain ⟨t, located, rfl, ht, hl⟩ := List.map_eq_cons_iff.mp h
    obtain ⟨behind, htake, hbehind⟩ := ih ⟨he.not_begins, fun _ => ha⟩ hl
    refine ⟨behind, ?_, hbehind⟩
    unfold takeSymbols
    simp [ht, next_ne_arrow ha hl, htake]

theorem readAlternative_rhsTokens (lhs : Symbol) {rhs : List Symbol} (he : EndsRun rhs tokens)
    (h : located.map Located.token = rhsTokens rhs ++ tokens) :
    ∃ behind, readAlternative lhs located = .ok (rhs, behind) ∧
      behind.map Located.token = tokens := by
  unfold readAlternative
  cases rhs with
  | nil =>
    obtain ⟨hempty, htail⟩ := next_of_map_eq h
    obtain ⟨behind, htake, _⟩ := takeSymbols_symbolTokens [] he htail
    refine ⟨located.tail, ?_, htail⟩
    simp [hempty, startsRun, htake]
  | cons a rhs =>
    have hsymbol : (next located).token = .symbol a.name := (next_of_map_eq h).1
    obtain ⟨behind, htake, hbehind⟩ := takeSymbols_symbolTokens (a :: rhs) he h
    refine ⟨behind, ?_, hbehind⟩
    simp [hsymbol, htake]

theorem readAlternatives_eq (lhs : Symbol) (located : List Located) :
    readAlternatives lhs located = (readAlternative lhs located).bind fun (rhs, rest) =>
      if (next rest).token = .bar then
        (readAlternatives lhs rest.tail).map fun (more, behind) => (rhs :: more, behind)
      else .ok ([rhs], rest) := by
  rw [readAlternatives]
  split
  · next he => rw [he]; rfl
  · next rhs rest he =>
    rw [he]
    change _ = if _ then _ else _
    congr 1
    cases readAlternatives lhs rest.tail <;> rfl

theorem readDeclarations_eq (located : List Located) :
    readDeclarations located = if (next located).token = .endOfInput then .ok []
      else (readDeclaration located).bind fun (first, rest) => (readDeclarations rest).map (first :: ·) := by
  rw [readDeclarations]
  congr 1
  split
  · next he => rw [he]; rfl
  · next first rest he =>
    rw [he]
    cases hrest : readDeclarations rest <;> simp [hrest, Except.bind, Except.map]

theorem readAlternatives_last {lhs : Symbol} {rhs : List Symbol} {behind : List Located}
    (hread : readAlternative lhs located = .ok (rhs, behind)) (hbar : (next behind).token ≠ .bar) :
    readAlternatives lhs located = .ok ([rhs], behind) := by
  rw [readAlternatives_eq, hread]
  exact if_neg hbar

theorem readAlternatives_bar {lhs : Symbol} {rhs : List Symbol} {behind : List Located}
    (hread : readAlternative lhs located = .ok (rhs, behind)) (hbar : (next behind).token = .bar) :
    readAlternatives lhs located =
      (readAlternatives lhs behind.tail).map fun (more, others) => (rhs :: more, others) := by
  rw [readAlternatives_eq, hread]
  exact if_pos hbar

theorem readDeclarations_cons {first : Declaration} {behind : List Located}
    (hend : (next located).token ≠ .endOfInput) (hread : readDeclaration located = .ok (first, behind)) :
    readDeclarations located = (readDeclarations behind).map (first :: ·) := by
  rw [readDeclarations_eq, if_neg hend, hread]
  rfl

end

end Text

namespace Grammar

/-- The tables of a grammar are those of the grammar only. -/
theorem ofTables?_own (g : Grammar) : ofTables? g.rules g.terminals.toList = .ok g := by
  have hvalid : problem? g.rules (.ofList g.terminals.toList) = none := by
    rw [SymbolSet.ofList_toList]
    exact g.valid
  unfold ofTables?
  split
  · next problem hp =>
    rw [hvalid] at hp
    cases hp
  · obtain ⟨rules, terminals, nullable, rfl, valid⟩ := g
    simp

end Grammar

end ParseForest
