import ParseForest.Proofs.RoundTrip

/-!
# Which token lists are grammar texts

`Decomposes tokens items` says that the items make up the tokens. Each reader takes exactly
the tokens of what it returns, up to where that ends (`takes_of_readDeclaration`), and as no item
begins with an arrow or a bar each one ends in front of the next (`readDeclaration_of_tokens`). So a
token list is read if and only if it has a decomposition, which is then the only one.
-/

namespace ParseForest

namespace Text

/-! ## Items as tokens -/

namespace Declaration

def head : Declaration → List Token
  | terminals _ => [.terminals, .colon]
  | rules lhs _ => [.symbol lhs.name, .arrow]

/-- The listed terminals, or the alternatives with a bar between two of them. -/
def body : Declaration → List Token
  | terminals symbols => symbolTokens symbols
  | rules _ alternatives => [Token.bar].intercalate (alternatives.map rhsTokens)

def tokens (item : Declaration) : List Token :=
  item.head ++ item.body

/-- An item ends in front of the tokens: its last run does, and no bar adds an alternative. -/
def EndsBefore : Declaration → List Token → Prop
  | terminals symbols, tokens => EndsRun symbols tokens
  | rules _ alternatives, tokens =>
    EndsRun (alternatives.getLastD []) tokens ∧ tokens.head? ≠ some .bar

end Declaration

/-- The tokens stand at the front, and `behind` is what follows them. -/
def Takes (located : List Located) (tokens : List Token) (behind : List Located) : Prop :=
  ∃ front, located = front ++ behind ∧ front.map Located.token = tokens

/-- The tokens are those of the items one after the other, up to the end of the text. An item
for a symbol has an alternative, and no symbol in the body of an item stands in front of an arrow. -/
structure Decomposes (tokens : List Token) (items : List Declaration) : Prop where
  tokens_eq : tokens = items.flatMap Declaration.tokens ++ [.endOfInput]
  has_alternative : ∀ lhs alternatives, .rules lhs alternatives ∈ items → alternatives ≠ []
  not_before_arrow : ∀ before item after, items = before ++ item :: after →
    ∀ p name q, item.body = p ++ .symbol name :: q →
      (q ++ after.flatMap Declaration.tokens).head? ≠ some .arrow

/-- The rules and the terminals that items declare: a rule for each alternative, with the head of
the item on the left, and all listed terminals, both in the order of the text. -/
inductive Declares : List Declaration → List Rule → List Symbol → Prop
  | nil : Declares [] [] []
  | terminals {symbols items rules terminals} : Declares items rules terminals →
      Declares (.terminals symbols :: items) rules (symbols ++ terminals)
  | rules {lhs alternatives items rules terminals} : Declares items rules terminals →
      Declares (.rules lhs alternatives :: items)
        (alternatives.map (fun rhs => ⟨lhs, rhs⟩) ++ rules) terminals

theorem declares_iff {items : List Declaration} : ∀ {rules : List Rule} {terminals : List Symbol},
    Declares items rules terminals ↔ tables items = (rules, terminals) := by
  induction items with
  | nil =>
    intro rules terminals
    constructor
    · intro h
      cases h
      rfl
    · intro h
      cases h
      exact .nil
  | cons item items ih =>
    intro rules terminals
    constructor
    · intro h
      cases h with
      | terminals h =>
        cases ih.mp h
        rfl
      | rules h =>
        cases ih.mp h
        rfl
    · intro h
      cases h
      cases item with
      | terminals symbols => exact .terminals (ih.mpr rfl)
      | rules lhs alternatives => exact .rules (ih.mpr rfl)

/-! ## What is read was written -/

section
variable {located : List Located}

theorem next_eq_iff {t : Token} (ht : t ≠ .endOfInput) :
    (next located).token = t ↔ (located.map Located.token).head? = some t := by
  rw [next_token]
  cases located.map Located.token with
  | nil => simpa using ht.symm
  | cons first tokens => simp

theorem Takes.nil (located : List Located) : Takes located [] located :=
  ⟨[], rfl, rfl⟩

theorem Takes.map_token {tokens : List Token} {behind : List Located} (h : Takes located tokens behind) :
    located.map Located.token = tokens ++ behind.map Located.token := by
  obtain ⟨front, rfl, rfl⟩ := h
  exact List.map_append

theorem Takes.append {tokens tokens' : List Token} {behind last : List Located}
    (h : Takes located tokens behind) (h' : Takes behind tokens' last) :
    Takes located (tokens ++ tokens') last := by
  obtain ⟨front, rfl, rfl⟩ := h
  obtain ⟨front', rfl, rfl⟩ := h'
  exact ⟨front ++ front', (List.append_assoc ..).symm, List.map_append⟩

theorem takes_next {t : Token} (h : (next located).token = t) (ht : t ≠ .endOfInput) :
    Takes located [t] located.tail := by
  cases located with
  | nil => exact absurd h.symm ht
  | cons first located => exact ⟨[first], rfl, congrArg (fun t => [t]) h⟩

theorem takes_takeSymbols (located : List Located) :
    Takes located (symbolTokens (takeSymbols located).1) (takeSymbols located).2 ∧
      EndsRun (takeSymbols located).1 ((takeSymbols located).2.map Located.token) := by
  induction located with
  | nil =>
    have hnot : ¬BeginsRun [] := by
      rintro ⟨_, h, _⟩
      cases h
    exact ⟨.nil [], hnot, fun h => absurd rfl h⟩
  | cons t located ih =>
    by_cases hbegins : BeginsRun ((t :: located).map Located.token)
    · obtain ⟨name, hname, harrow⟩ := hbegins
      have ht : t.token = .symbol name := Option.some.inj hname
      have hnext : (next located).token ≠ .arrow := mt (next_eq_iff (by simp)).mp harrow
      obtain ⟨⟨front, hsplit, hfront⟩, hends⟩ := ih
      unfold takeSymbols
      simp only [ht, hnext, if_false]
      refine ⟨⟨t :: front, congrArg (t :: ·) hsplit, ?_⟩, hends.not_begins, fun _ => ?_⟩
      · rw [List.map_cons, hfront, ht]
        rfl
      · by_cases hempty : (takeSymbols located).1 = []
        · -- the run is the one symbol, and what follows it is no arrow
          rw [hempty] at hfront
          rw [List.map_eq_nil_iff.mp hfront, List.nil_append] at hsplit
          rwa [← hsplit]
        · exact hends.head_ne hempty
    · rw [takeSymbols_of_not_beginsRun hbegins]
      exact ⟨.nil _, hbegins, fun h => absurd rfl h⟩

theorem takeSymbols_eq_nil_iff :
    (takeSymbols located).1 = [] ↔ ¬BeginsRun (located.map Located.token) := by
  constructor
  · intro h
    obtain ⟨htakes, hends⟩ := takes_takeSymbols located
    rw [h] at htakes
    rw [htakes.map_token]
    exact hends.not_begins
  · intro h
    rw [takeSymbols_of_not_beginsRun h]

theorem startsRun_iff : startsRun located = true ↔ BeginsRun (located.map Located.token) := by
  unfold startsRun
  rw [Bool.not_eq_true', List.isEmpty_eq_false_iff, Ne, takeSymbols_eq_nil_iff, not_not]

theorem takes_of_readAlternative {lhs : Symbol} {rhs : List Symbol} {behind : List Located}
    (h : readAlternative lhs located = .ok (rhs, behind)) :
    Takes located (rhsTokens rhs) behind ∧ EndsRun rhs (behind.map Located.token) := by
  unfold readAlternative at h
  by_cases hempty : (next located).token = .empty
  · by_cases hrun : startsRun located.tail = true
    · simp [hempty, hrun] at h
    · simp only [hempty, hrun, if_true, Bool.false_eq_true, if_false] at h
      cases h
      exact ⟨takes_next hempty (by simp), mt startsRun_iff.mpr hrun, nofun⟩
  · simp only [hempty, if_false] at h
    split at h
    · cases h
    · next hne =>
      have hrun := Except.ok.inj h
      have hspec := takes_takeSymbols located
      rw [hrun] at hne hspec
      cases rhs with
      | nil => exact absurd rfl (hne behind)
      | cons a rhs => exact hspec

theorem takes_of_readAlternatives {lhs : Symbol} {found : List (List Symbol)} {behind : List Located}
    (h : readAlternatives lhs located = .ok (found, behind)) : found ≠ [] ∧
      Takes located ([Token.bar].intercalate (found.map rhsTokens)) behind ∧
      EndsRun (found.getLastD []) (behind.map Located.token) ∧
      (behind.map Located.token).head? ≠ some .bar := by
  fun_induction readAlternatives lhs located generalizing found behind with
  | case1 => cases h
  | case2 => cases h
  | case3 located rhs rest hrhs hbar more last hmore ih =>
    cases h
    obtain ⟨hne, htakes, hends⟩ := ih hmore
    have hfirst := ((takes_of_readAlternative hrhs).1.append (takes_next hbar (by simp))).append htakes
    cases more with
    | nil => exact absurd rfl hne
    | cons other more =>
      refine ⟨List.cons_ne_nil _ _, ?_, hends⟩
      simpa [List.intercalate_cons_cons] using hfirst
  | case4 located rhs rest hrhs hbar =>
    cases h
    obtain ⟨htakes, hends⟩ := takes_of_readAlternative hrhs
    refine ⟨List.cons_ne_nil _ _, ?_, hends, mt (next_eq_iff (by simp)).mpr hbar⟩
    simpa using htakes

theorem takes_of_readDeclaration {item : Declaration} {behind : List Located}
    (h : readDeclaration located = .ok (item, behind)) :
    Takes located item.tokens behind ∧ item.EndsBefore (behind.map Located.token) ∧
      ∀ lhs alternatives, item = .rules lhs alternatives → alternatives ≠ [] := by
  unfold readDeclaration at h
  split at h
  · next hword =>
    by_cases hcolon : (next located.tail).token = .colon
    · simp only [hcolon, if_true] at h
      cases h
      obtain ⟨htakes, hends⟩ := takes_takeSymbols located.tail.tail
      have hhead := (takes_next hword (by simp)).append (takes_next hcolon (by simp))
      exact ⟨hhead.append htakes, hends, nofun⟩
    · simp [hcolon] at h
  · next name hname =>
    by_cases harrow : (next located.tail).token = .arrow
    · simp only [harrow, if_true] at h
      split at h
      · cases h
      · next found rest hfound =>
        cases h
        obtain ⟨hne, htakes, hends⟩ := takes_of_readAlternatives hfound
        have hhead := (takes_next hname (by simp)).append (takes_next harrow (by simp))
        refine ⟨hhead.append htakes, hends, fun lhs alternatives he => ?_⟩
        cases he
        exact hne
    · simp [harrow] at h
  · cases h

end

/-! ## No item begins where another one goes on -/

theorem mem_of_mem_intercalate {α : Type} {x : α} {separator : List α} : ∀ {parts : List (List α)},
    x ∈ separator.intercalate parts → x ∈ separator ∨ ∃ part ∈ parts, x ∈ part
  | [], h => by cases h
  | [part], h => .inr ⟨part, by simp, by simpa using h⟩
  | part :: other :: parts, h => by
    rw [List.intercalate_cons_cons, List.append_assoc, List.mem_append, List.mem_append] at h
    rcases h with h | h | h
    · exact .inr ⟨part, by simp, h⟩
    · exact .inl h
    · rcases mem_of_mem_intercalate h with h | ⟨last, hlast, h⟩
      · exact .inl h
      · exact .inr ⟨last, by simp [List.mem_cons.mp hlast], h⟩

theorem mem_symbolTokens {symbols : List Symbol} {t : Token} (h : t ∈ symbolTokens symbols) :
    ∃ name, t = .symbol name := by
  obtain ⟨a, _, rfl⟩ := List.mem_map.mp h
  exact ⟨_, rfl⟩

theorem mem_rhsTokens {rhs : List Symbol} {t : Token} (h : t ∈ rhsTokens rhs) :
    t = .empty ∨ ∃ name, t = .symbol name := by
  unfold rhsTokens at h
  by_cases hrhs : rhs.isEmpty = true
  · rw [if_pos hrhs] at h
    exact .inl (List.mem_singleton.mp h)
  · rw [if_neg hrhs] at h
    exact .inr (mem_symbolTokens h)

theorem endOfInput_not_mem_rhsTokens (rhs : List Symbol) : .endOfInput ∉ rhsTokens rhs := by
  intro h
  rcases mem_rhsTokens h with h | ⟨_, h⟩ <;> cases h

theorem mem_body {item : Declaration} {t : Token} (h : t ∈ item.body) :
    t = .bar ∨ t = .empty ∨ ∃ name, t = .symbol name := by
  cases item with
  | terminals symbols => exact .inr (.inr (mem_symbolTokens h))
  | rules lhs alternatives =>
    rcases mem_of_mem_intercalate h with h | ⟨part, hpart, h⟩
    · exact .inl (List.mem_singleton.mp h)
    · obtain ⟨rhs, _, rfl⟩ := List.mem_map.mp hpart
      exact .inr (mem_rhsTokens h)

theorem endOfInput_not_mem_tokens (item : Declaration) : .endOfInput ∉ item.tokens := by
  intro h
  rcases List.mem_append.mp h with h | h
  · cases item <;> simp [Declaration.head] at h
  · rcases mem_body h with h | h | ⟨name, h⟩ <;> cases h

/-- What can follow an item: the end of the text, or the head of another one. -/
def StartsItem : List Token → Prop
  | .endOfInput :: _ => True
  | .terminals :: _ => True
  | .symbol _ :: .arrow :: _ => True
  | _ => False

theorem startsItem_flatMap (items : List Declaration) :
    StartsItem (items.flatMap Declaration.tokens ++ [.endOfInput]) := by
  cases items with
  | nil => exact trivial
  | cons item items => cases item <;> exact trivial

theorem StartsItem.endsRun {tokens : List Token} (h : StartsItem tokens) (symbols : List Symbol) :
    EndsRun symbols tokens := by
  unfold StartsItem at h
  split at h
  · exact ⟨nofun, nofun⟩
  · exact ⟨nofun, nofun⟩
  · exact endsRun_head symbols _ _
  · exact h.elim

theorem StartsItem.endsBefore {tokens : List Token} (h : StartsItem tokens) (item : Declaration) :
    item.EndsBefore tokens := by
  cases item with
  | terminals symbols => exact h.endsRun symbols
  | rules lhs alternatives =>
    refine ⟨h.endsRun _, ?_⟩
    unfold StartsItem at h
    split at h
    · nofun
    · nofun
    · nofun
    · exact h.elim

/-- A symbol in the body of an item never stands in front of an arrow, as neither a body nor what
follows it begins with one. -/
theorem head_ne_arrow_of_body {item : Declaration} {p q : List Token} {t : Token}
    (after : List Declaration) (h : item.body = p ++ t :: q) :
    (q ++ after.flatMap Declaration.tokens).head? ≠ some .arrow := by
  cases q with
  | nil =>
    cases after with
    | nil => nofun
    | cons other after => cases other <;> nofun
  | cons u q =>
    intro hu
    cases hu
    have hmem : Token.arrow ∈ item.body := by simp [h]
    rcases mem_body hmem with h | h | ⟨name, h⟩ <;> cases h

/-! ## What is written is read -/

section
variable {located : List Located} {tokens : List Token}

theorem readAlternatives_of_tokens (lhs : Symbol) (hb : tokens.head? ≠ some .bar) :
    ∀ {alternatives : List (List Symbol)} {located : List Located}, alternatives ≠ [] →
      EndsRun (alternatives.getLastD []) tokens →
      located.map Located.token = [Token.bar].intercalate (alternatives.map rhsTokens) ++ tokens →
      ∃ behind, readAlternatives lhs located = .ok (alternatives, behind) ∧
        behind.map Located.token = tokens
  | [], _, hne, _, _ => absurd rfl hne
  | [rhs], located, _, he, h => by
    simp only [List.map_cons, List.map_nil, List.intercalate_singleton] at h
    obtain ⟨behind, hread, hbehind⟩ := readAlternative_rhsTokens lhs he h
    refine ⟨behind, readAlternatives_last hread ?_, hbehind⟩
    rw [next_token, hbehind]
    cases tokens with
    | nil => nofun
    | cons t tokens => simpa using hb
  | rhs :: other :: more, located, _, he, h => by
    simp only [List.map_cons, List.intercalate_cons_cons, List.append_assoc, List.singleton_append] at h
    obtain ⟨behind, hread, hbehind⟩ := readAlternative_rhsTokens lhs (endsRun_bar _ _) h
    obtain ⟨hbar, htail⟩ := next_of_map_eq hbehind
    rw [← List.map_cons] at htail
    obtain ⟨last, hmore, hlast⟩ :=
      readAlternatives_of_tokens lhs hb (List.cons_ne_nil other more) he htail
    refine ⟨last, ?_, hlast⟩
    rw [readAlternatives_bar hread hbar, hmore]
    rfl

theorem readDeclaration_of_tokens {item : Declaration} (hs : item.EndsBefore tokens)
    (hne : ∀ lhs alternatives, item = .rules lhs alternatives → alternatives ≠ [])
    (h : located.map Located.token = item.tokens ++ tokens) :
    ∃ behind, readDeclaration located = .ok (item, behind) ∧ behind.map Located.token = tokens := by
  cases item with
  | terminals symbols =>
    obtain ⟨hword, htail⟩ := next_of_map_eq h
    obtain ⟨hcolon, htail⟩ := next_of_map_eq htail
    obtain ⟨behind, htake, hbehind⟩ := takeSymbols_symbolTokens symbols hs htail
    refine ⟨behind, ?_, hbehind⟩
    unfold readDeclaration
    simp [hword, hcolon, htake]
  | rules lhs alternatives =>
    obtain ⟨hname, htail⟩ := next_of_map_eq h
    obtain ⟨harrow, htail⟩ := next_of_map_eq htail
    obtain ⟨behind, hread, hbehind⟩ := readAlternatives_of_tokens lhs hs.2 (hne _ _ rfl) hs.1 htail
    refine ⟨behind, ?_, hbehind⟩
    unfold readDeclaration
    simp [hname, harrow, hread]

theorem next_ne_endOfInput {item : Declaration} (h : located.map Located.token = item.tokens ++ tokens) :
    (next located).token ≠ .endOfInput := by
  rw [next_token, h]
  cases item <;> nofun

theorem readDeclarations_of_items : ∀ {items : List Declaration} {located : List Located},
    (∀ lhs alternatives, .rules lhs alternatives ∈ items → alternatives ≠ []) →
    located.map Located.token = items.flatMap Declaration.tokens ++ [.endOfInput] →
    readDeclarations located = .ok items
  | [], located, _, h => by
    unfold readDeclarations
    rw [if_pos (next_of_map_eq h).1]
  | item :: items, located, hne, h => by
    rw [List.flatMap_cons, List.append_assoc] at h
    obtain ⟨behind, hread, hbehind⟩ := readDeclaration_of_tokens ((startsItem_flatMap items).endsBefore item)
      (fun lhs alternatives he => hne lhs alternatives (by simp [he])) h
    have hmore := readDeclarations_of_items (fun lhs alternatives hm => hne lhs alternatives (by simp [hm])) hbehind
    rw [readDeclarations_cons (next_ne_endOfInput h) hread, hmore]
    rfl

/-- The one end of input stands behind all items. -/
theorem exists_of_append_eq {item front rest : List Token} (hitem : .endOfInput ∉ item)
    (h : item ++ rest = front ++ [.endOfInput]) :
    ∃ front', front = item ++ front' ∧ rest = front' ++ [.endOfInput] := by
  rcases List.append_eq_append_iff.mp h with ⟨front', hfront, hrest⟩ | ⟨last, hlast, hrest⟩
  · exact ⟨front', hfront, hrest⟩
  · rcases List.append_eq_singleton_iff.mp hrest.symm with ⟨rfl, rfl⟩ | ⟨rfl, _⟩
    · exact ⟨[], by simpa using hlast.symm, rfl⟩
    · exact absurd (by simp [hlast]) hitem

theorem items_of_readDeclarations {front : List Token} {items : List Declaration}
    (hend : .endOfInput ∉ front) (htokens : located.map Located.token = front ++ [.endOfInput])
    (h : readDeclarations located = .ok items) :
    front = items.flatMap Declaration.tokens ∧
      ∀ lhs alternatives, .rules lhs alternatives ∈ items → alternatives ≠ [] := by
  fun_induction readDeclarations located generalizing front items with
  | case1 located hstop =>
    cases h
    refine ⟨?_, nofun⟩
    cases front with
    | nil => rfl
    | cons t front =>
      rw [(next_of_map_eq htokens).1] at hstop
      rw [hstop] at hend
      simp at hend
  | case2 => cases h
  | case3 => cases h
  | case4 located _ first rest hfirst more hmore ih =>
    cases h
    obtain ⟨htakes, _, hne⟩ := takes_of_readDeclaration hfirst
    rw [htakes.map_token] at htokens
    obtain ⟨front', rfl, hrest⟩ := exists_of_append_eq (endOfInput_not_mem_tokens first) htokens
    obtain ⟨rfl, hall⟩ := ih (fun hm => hend (List.mem_append_right _ hm)) hrest hmore
    refine ⟨rfl, fun lhs alternatives hm => ?_⟩
    rcases List.mem_cons.mp hm with hm | hm
    · exact hne lhs alternatives hm.symm
    · exact hall lhs alternatives hm

theorem decomposes_iff {front : List Token} {items : List Declaration} :
    Decomposes (front ++ [.endOfInput]) items ↔ front = items.flatMap Declaration.tokens ∧
      ∀ lhs alternatives, .rules lhs alternatives ∈ items → alternatives ≠ [] := by
  constructor
  · intro h
    exact ⟨List.append_cancel_right h.tokens_eq, h.has_alternative⟩
  · intro h
    obtain ⟨rfl, hne⟩ := h
    exact ⟨rfl, hne, fun before item after _ p name q hbody => head_ne_arrow_of_body after hbody⟩

theorem readDeclarations_eq_ok_iff {front : List Token} {items : List Declaration}
    (hend : .endOfInput ∉ front) (htokens : located.map Located.token = front ++ [.endOfInput]) :
    readDeclarations located = .ok items ↔ Decomposes (front ++ [.endOfInput]) items := by
  rw [decomposes_iff]
  constructor
  · intro h
    exact items_of_readDeclarations hend htokens h
  · intro h
    obtain ⟨rfl, hne⟩ := h
    exact readDeclarations_of_items hne htokens

theorem map_tables_eq_ok_iff {front : List Token} {found : List Rule × List Symbol}
    (hend : .endOfInput ∉ front) (htokens : located.map Located.token = front ++ [.endOfInput]) :
    (readDeclarations located).map tables = .ok found ↔
      ∃ items, Decomposes (front ++ [.endOfInput]) items ∧ tables items = found := by
  constructor
  · intro h
    cases hread : readDeclarations located with
    | error fault =>
      rw [hread] at h
      cases h
    | ok items =>
      rw [hread] at h
      exact ⟨items, (readDeclarations_eq_ok_iff hend htokens).mp hread, Except.ok.inj h⟩
  · intro h
    obtain ⟨items, hitems, rfl⟩ := h
    rw [(readDeclarations_eq_ok_iff hend htokens).mpr hitems]
    rfl

/-- **The reader accepts exactly the sequences of items.** A list of tokens with one end of input,
at its end, is read if and only if items make it up. The items are then determined by the tokens,
and the tables read are what the items declare. -/
theorem readDeclarations_decomposition {front : List Token} (hend : .endOfInput ∉ front)
    (htokens : located.map Located.token = front ++ [.endOfInput]) :
    ((∃ found, (readDeclarations located).map tables = .ok found) ↔
      ∃ items, Decomposes (front ++ [.endOfInput]) items) ∧
    (∀ items items', Decomposes (front ++ [.endOfInput]) items →
      Decomposes (front ++ [.endOfInput]) items' → items = items') ∧
    ∀ rules terminals, (readDeclarations located).map tables = .ok (rules, terminals) ↔
      ∃ items, Decomposes (front ++ [.endOfInput]) items ∧ Declares items rules terminals := by
  refine ⟨⟨?_, ?_⟩, fun items items' h h' => ?_, fun rules terminals => ?_⟩
  · intro h
    obtain ⟨found, h⟩ := h
    obtain ⟨items, hitems, _⟩ := (map_tables_eq_ok_iff hend htokens).mp h
    exact ⟨items, hitems⟩
  · intro h
    obtain ⟨items, hitems⟩ := h
    exact ⟨_, (map_tables_eq_ok_iff hend htokens).mpr ⟨items, hitems, rfl⟩⟩
  · have hread := (readDeclarations_eq_ok_iff hend htokens).mpr h
    rw [(readDeclarations_eq_ok_iff hend htokens).mpr h'] at hread
    exact (Except.ok.inj hread).symm
  · simp only [declares_iff]
    exact map_tables_eq_ok_iff hend htokens

/-- `terminals: a b A -> a | ε B -> b A terminals: c`, without a line break. -/
def crowdedTokens : List Token :=
  [.terminals, .colon, .symbol "a", .symbol "b", .symbol "A", .arrow, .symbol "a", .bar, .empty,
    .symbol "B", .arrow, .symbol "b", .symbol "A", .terminals, .colon, .symbol "c"]

def crowdedItems : List Declaration :=
  [.terminals [⟨"a"⟩, ⟨"b"⟩], .rules ⟨"A"⟩ [[⟨"a"⟩], []], .rules ⟨"B"⟩ [[⟨"b"⟩, ⟨"A"⟩]],
    .terminals [⟨"c"⟩]]

def crowdedText : List Located :=
  (crowdedTokens ++ [Token.endOfInput]).map fun t => ⟨t, .start⟩

theorem readDeclarations_crowdedText :
    (.endOfInput ∉ crowdedTokens ∧
      crowdedText.map Located.token = crowdedTokens ++ [.endOfInput]) ∧
    (readDeclarations crowdedText).map tables =
      .ok ([⟨⟨"A"⟩, [⟨"a"⟩]⟩, ⟨⟨"A"⟩, []⟩, ⟨⟨"B"⟩, [⟨"b"⟩, ⟨"A"⟩]⟩], [⟨"a"⟩, ⟨"b"⟩, ⟨"c"⟩]) := by
  have hend : Token.endOfInput ∉ crowdedTokens := by decide
  have htokens : crowdedText.map Located.token = crowdedTokens ++ [.endOfInput] := by decide
  have hne : ∀ lhs alternatives, .rules lhs alternatives ∈ crowdedItems → alternatives ≠ [] := by
    intro lhs alternatives h
    rintro rfl
    simp [crowdedItems] at h
  have hitems : Decomposes (crowdedTokens ++ [.endOfInput]) crowdedItems :=
    decomposes_iff.mpr ⟨by decide, hne⟩
  exact ⟨⟨hend, htokens⟩, ((readDeclarations_decomposition hend htokens).2.2 _ _).mpr
    ⟨crowdedItems, hitems, declares_iff.mpr rfl⟩⟩

end

end Text

end ParseForest
