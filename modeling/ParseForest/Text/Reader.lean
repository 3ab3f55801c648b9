import ParseForest.Text.Scan
import ParseForest.Rule

/-!
# Reading a grammar text

A text is a sequence of items: `terminals :` with the terminals that it declares,
or a left-hand side, `->` and its alternatives between bars. An alternative is `ε`
alone or a run of symbols. Nothing separates items, so a run of symbols ends
before a symbol that an arrow follows: that one heads the next item.
-/

namespace ParseForest.Text

inductive Declaration where
  | terminals (symbols : List Symbol)
  | rules (lhs : Symbol) (alternatives : List (List Symbol))
deriving DecidableEq, Repr

/-- The rules of an item, one for each alternative. -/
def Declaration.toRules : Declaration → List Rule
  | terminals _ => []
  | rules lhs alternatives => alternatives.map (Rule.mk lhs)

def Declaration.toTerminals : Declaration → List Symbol
  | terminals symbols => symbols
  | rules _ _ => []

/-- The tables that the items of a text make: all its rules and all its terminals, in order. -/
def tables (items : List Declaration) : List Rule × List Symbol :=
  (items.flatMap (·.toRules), items.flatMap (·.toTerminals))

def next (tokens : List Located) : Located :=
  tokens.head?.getD ⟨.endOfInput, .start⟩

/-- The symbols at the front, up to the head of the next rule, and what follows them. -/
def takeSymbols : List Located → List Symbol × List Located
  | [] => ([], [])
  | t :: rest =>
    match t.token with
    | .symbol name =>
      if (next rest).token = .arrow then ([], t :: rest)
      else
        let (symbols, behind) := takeSymbols rest
        (⟨name⟩ :: symbols, behind)
    | _ => ([], t :: rest)

/-- Whether the front is a symbol that can stand in a right-hand side. -/
def startsRun (tokens : List Located) : Bool :=
  !(takeSymbols tokens).1.isEmpty

/-- One alternative for a left-hand side, and what follows it. -/
def readAlternative (lhs : Symbol) (tokens : List Located) :
    Except Fault (List Symbol × List Located) :=
  let position := (next tokens).position
  if (next tokens).token = .empty then
    if startsRun tokens.tail then .error (.emptyNotAlone lhs position) else .ok ([], tokens.tail)
  else match takeSymbols tokens with
    | ([], _) => .error (.noAlternative lhs position)
    | run => .ok run

theorem takeSymbols_length (tokens : List Located) :
    (takeSymbols tokens).1.length + (takeSymbols tokens).2.length = tokens.length := by
  induction tokens with
  | nil => rfl
  | cons t rest ih =>
    rw [takeSymbols]
    split
    · split
      · simp
      · simp only [List.length_cons]; omega
    · simp

theorem readAlternative_length {lhs : Symbol} {tokens rest : List Located} {rhs : List Symbol}
    (h : readAlternative lhs tokens = .ok (rhs, rest)) : rest.length < tokens.length := by
  simp only [readAlternative] at h
  split at h
  · split at h
    · cases h
    · cases tokens with
      | nil => simp [next] at *
      | cons t tokens => cases h; simp
  · have hlen := takeSymbols_length tokens
    split at h
    · cases h
    · next hne =>
      have hrun := Except.ok.inj h
      rw [hrun] at hlen hne
      cases rhs with
      | nil => exact absurd rfl (hne _)
      | cons s rhs => simp only [List.length_cons] at hlen; omega

/-- The alternatives for a left-hand side, and what follows them. -/
def readAlternatives (lhs : Symbol) (tokens : List Located) :
    Except Fault (List (List Symbol) × List Located) :=
  match _h : readAlternative lhs tokens with
  | .error fault => .error fault
  | .ok (rhs, rest) =>
    if (next rest).token = .bar then
      match readAlternatives lhs rest.tail with
      | .error fault => .error fault
      | .ok (more, behind) => .ok (rhs :: more, behind)
    else .ok ([rhs], rest)
termination_by tokens.length
decreasing_by
  have := readAlternative_length _h
  simp only [List.length_tail]
  omega

theorem readAlternatives_length {lhs : Symbol} {tokens rest : List Located}
    {found : List (List Symbol)} (h : readAlternatives lhs tokens = .ok (found, rest)) :
    rest.length < tokens.length := by
  fun_induction readAlternatives lhs tokens generalizing found rest with
  | case1 => cases h
  | case2 => cases h
  | case3 tokens rhs behind hrhs _ more last hmore ih =>
    cases h
    have := readAlternative_length hrhs
    have := ih hmore
    simp only [List.length_tail] at this
    omega
  | case4 tokens rhs behind hrhs =>
    cases h
    exact readAlternative_length hrhs

/-- One item, and what follows it. -/
def readDeclaration (tokens : List Located) : Except Fault (Declaration × List Located) :=
  match (next tokens).token with
  | .terminals =>
    let behind := tokens.tail
    if (next behind).token = .colon then
      let (symbols, rest) := takeSymbols behind.tail
      .ok (.terminals symbols, rest)
    else .error (.missingColon (next behind))
  | .symbol name =>
    let behind := tokens.tail
    if (next behind).token = .arrow then
      match readAlternatives ⟨name⟩ behind.tail with
      | .error fault => .error fault
      | .ok (found, rest) => .ok (.rules ⟨name⟩ found, rest)
    else .error (.missingArrow ⟨name⟩ (next behind))
  | _ => .error (.unexpectedItem (next tokens))

theorem readDeclaration_length {tokens rest : List Located} {found : Declaration}
    (h : readDeclaration tokens = .ok (found, rest)) : rest.length < tokens.length := by
  cases tokens with
  | nil => cases h
  | cons t tokens =>
    simp only [readDeclaration, List.tail_cons] at h
    split at h
    · by_cases hc : (next tokens).token = .colon <;> simp only [hc, if_true, if_false] at h
      · have := takeSymbols_length tokens.tail
        cases h
        simp only [List.length_cons, List.length_tail] at this ⊢
        omega
      · cases h
    · by_cases ha : (next tokens).token = .arrow <;> simp only [ha, if_true, if_false] at h
      · split at h
        · cases h
        · next hfound =>
          cases h
          have := readAlternatives_length hfound
          simp only [List.length_cons, List.length_tail] at this ⊢
          omega
      · cases h
    · cases h

def readDeclarations (tokens : List Located) : Except Fault (List Declaration) :=
  if (next tokens).token = .endOfInput then .ok []
  else match _h : readDeclaration tokens with
    | .error fault => .error fault
    | .ok (first, rest) =>
      match readDeclarations rest with
      | .error fault => .error fault
      | .ok more => .ok (first :: more)
termination_by tokens.length
decreasing_by exact readDeclaration_length _h

end ParseForest.Text
