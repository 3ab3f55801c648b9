import ParseForest.Proofs.Layout

/-!
# Where a text goes wrong

A text that is cut into tokens and then refused is refused at one of them: what stands in front of it
begins a text that is read, and no text that is read begins with the tokens up to the second one behind
it. `FailsAt` says this of any of the readers, and `FailsAt.of_takes` carries it over what is read first.
-/

namespace ParseForest

namespace Text

/-! ## Two tokens are looked at -/

/-- What is looked at before a reader goes on or stops is the same in both lists. -/
structure SameView (tokens tokens' : List Token) : Prop where
  head_eq : tokens.head? = tokens'.head?
  beginsRun_iff : BeginsRun tokens ↔ BeginsRun tokens'

section
variable {tokens tokens' : List Token}

/-- As nothing is looked at behind the end of the input, two tokens are enough. -/
theorem sameView_take (hend : .endOfInput ∈ tokens) {count : Nat} (hcount : 2 ≤ count)
    (more : List Token) : SameView tokens (tokens.take count ++ more) := by
  obtain ⟨count, rfl⟩ := Nat.exists_eq_add_of_le' hcount
  cases tokens with
  | nil => cases hend
  | cons t tokens =>
    cases tokens with
    | nil =>
      obtain rfl := List.mem_singleton.mp hend
      have hnot : ∀ tokens, ¬BeginsRun (.endOfInput :: tokens) := fun _ ⟨_, h, _⟩ => nomatch h
      exact ⟨rfl, iff_of_false (hnot _) (hnot _)⟩
    | cons u tokens => exact ⟨rfl, .rfl⟩

theorem SameView.endsRun (h : SameView tokens tokens') {symbols : List Symbol}
    (he : EndsRun symbols tokens) : EndsRun symbols tokens' :=
  ⟨mt h.beginsRun_iff.mpr he.not_begins, fun hne => h.head_eq ▸ he.head_ne hne⟩

theorem SameView.endsBefore (h : SameView tokens tokens') {item : Declaration}
    (he : item.EndsBefore tokens) : item.EndsBefore tokens' := by
  cases item with
  | terminals symbols => exact h.endsRun he
  | rules lhs alternatives => exact ⟨h.endsRun he.1, h.head_eq ▸ he.2⟩

end

/-! ## Failing at a token -/

section
variable {α β : Type}

/-- The tokens are read, wherever they stand. -/
def Accepts (read : List Located → Except Fault α) (tokens : List Token) : Prop :=
  ∀ located, located.map Located.token = tokens → ∃ found, read located = .ok found

def Rejects (read : List Located → Except Fault α) (tokens : List Token) : Prop :=
  ∀ located, located.map Located.token = tokens → ∃ fault, read located = .error fault

/-- The fault is at token `p`: the tokens in front of it begin a whole of what is to be read, but with
the two behind it nothing is read that begins so. -/
structure FailsAt (read : List Located → Except Fault α) (Whole : List Token → Prop)
    (located : List Located) (fault : Fault) (p : Nat) : Prop where
  stands : ∃ t, located[p]? = some t ∧ fault.position = t.position
  viable : ∃ more, Whole ((located.map Located.token).take p ++ more)
  dead : ∀ more, Rejects read ((located.map Located.token).take (p + 3) ++ more)

variable {read : List Located → Except Fault α} {inner : List Located → Except Fault β}
  {Whole Inner : List Token → Prop} {located behind : List Located} {tokens : List Token}
  {fault : Fault} {p : Nat}

theorem Takes.end_mem (ht : Takes located tokens behind) (hw : .endOfInput ∉ tokens)
    (hend : .endOfInput ∈ located.map Located.token) : .endOfInput ∈ behind.map Located.token := by
  rw [ht.map_token] at hend
  exact (List.mem_append.mp hend).resolve_left hw

/-- A reader that has taken some tokens fails at the next one. -/
theorem failsAt_next (ht : Takes located tokens behind) (hend : .endOfInput ∈ behind.map Located.token)
    (hplace : fault.position = (next behind).position) (more : List Token) (hmore : Whole (tokens ++ more))
    (hdead : ∀ more, Rejects read (tokens ++ ((behind.map Located.token).take 3 ++ more))) :
    FailsAt read Whole located fault tokens.length := by
  have htake : (located.map Located.token).take tokens.length = tokens := by
    rw [ht.map_token, List.take_left]
  refine ⟨?_, ⟨more, htake.symm ▸ hmore⟩, fun more => ?_⟩
  · obtain ⟨front, rfl, rfl⟩ := ht
    rw [List.length_map, List.getElem?_append_right (Nat.le_refl _), Nat.sub_self]
    cases behind with
    | nil => cases hend
    | cons t behind => exact ⟨t, rfl, hplace⟩
  · rw [ht.map_token, List.take_length_add_append, List.append_assoc]
    exact hdead more

/-- What fails behind tokens that were read fails with them in front, if they are read in front of all
that looks the same. -/
theorem FailsAt.of_takes (h : FailsAt inner Inner behind fault p) (ht : Takes located tokens behind)
    (hend : .endOfInput ∈ behind.map Located.token)
    (hwhole : ∀ rest, Inner rest → Whole (tokens ++ rest))
    (hread : ∀ rest, SameView (behind.map Located.token) rest → Rejects inner rest →
      Rejects read (tokens ++ rest)) :
    FailsAt read Whole located fault (tokens.length + p) := by
  refine ⟨?_, ?_, fun more => ?_⟩
  · obtain ⟨front, rfl, rfl⟩ := ht
    rw [List.length_map, List.getElem?_append_right (Nat.le_add_right ..), Nat.add_sub_cancel_left]
    exact h.stands
  · obtain ⟨more, hmore⟩ := h.viable
    refine ⟨more, ?_⟩
    rw [ht.map_token, List.take_length_add_append, List.append_assoc]
    exact hwhole _ hmore
  · rw [ht.map_token, Nat.add_assoc, List.take_length_add_append, List.append_assoc]
    exact hread _ (sameView_take hend (by omega) more) (h.dead more)

end

/-! ## The readers -/

section
variable {located : List Located} {tokens : List Token} {fault : Fault} {lhs : Symbol}

def NoAlternative (tokens : List Token) : Prop :=
  if tokens.head? = some .empty then BeginsRun tokens.tail else ¬BeginsRun tokens

theorem readAlternative_error_iff : (∃ fault, readAlternative lhs located = .error fault) ↔
    NoAlternative (located.map Located.token) := by
  have hhead : (next located).token = .empty ↔ (located.map Located.token).head? = some .empty :=
    next_eq_iff (by simp)
  unfold readAlternative NoAlternative
  by_cases hempty : (next located).token = .empty
  · rw [if_pos hempty, if_pos (hhead.mp hempty), ← List.map_tail, ← startsRun_iff]
    by_cases hrun : startsRun located.tail = true <;> simp [hrun]
  · rw [if_neg hempty, if_neg (mt hhead.mpr hempty), ← takeSymbols_eq_nil_iff]
    cases htake : takeSymbols located with
    | mk symbols behind => cases symbols <;> simp

theorem position_of_readAlternative (h : readAlternative lhs located = .error fault) :
    fault.position = (next located).position := by
  unfold readAlternative at h
  by_cases hempty : (next located).token = .empty
  · by_cases hrun : startsRun located.tail = true
    · simp only [hempty, hrun, if_true] at h
      cases h
      rfl
    · simp [hempty, hrun] at h
  · simp only [hempty, if_false] at h
    split at h
    · cases h
      rfl
    · cases h

theorem NoAlternative.take (h : NoAlternative tokens) (hend : .endOfInput ∈ tokens) (more : List Token) :
    NoAlternative (tokens.take 3 ++ more) := by
  unfold NoAlternative at h ⊢
  rw [← (sameView_take hend (by omega) more).head_eq]
  by_cases hempty : tokens.head? = some .empty
  · rw [if_pos hempty] at h ⊢
    obtain ⟨tokens, rfl⟩ := List.head?_eq_some_iff.mp hempty
    have hend' : .endOfInput ∈ tokens := (List.mem_cons.mp hend).resolve_left nofun
    exact (sameView_take hend' (Nat.le_refl 2) more).beginsRun_iff.mp h
  · rw [if_neg hempty] at h ⊢
    exact mt (sameView_take hend (by omega) more).beginsRun_iff.mpr h

/-- The tokens of the alternatives of an item. -/
def AlternativeTokens (tokens : List Token) : Prop :=
  ∃ alternatives, alternatives ≠ [] ∧ tokens = [Token.bar].intercalate (alternatives.map rhsTokens)

def ItemTokens (tokens : List Token) : Prop :=
  ∃ item : Declaration, tokens = item.tokens ∧
    ∀ lhs alternatives, item = .rules lhs alternatives → alternatives ≠ []

def TextTokens (tokens : List Token) : Prop :=
  ∃ items : List Declaration, tokens = items.flatMap Declaration.tokens ∧
    ∀ lhs alternatives, .rules lhs alternatives ∈ items → alternatives ≠ []

theorem failsAt_readAlternatives (h : readAlternatives lhs located = .error fault)
    (hend : .endOfInput ∈ located.map Located.token) :
    ∃ p, FailsAt (readAlternatives lhs) AlternativeTokens located fault p := by
  fun_induction readAlternatives lhs located with
  | case1 located fault' hrhs =>
    cases h
    have hnone := readAlternative_error_iff.mp ⟨_, hrhs⟩
    refine ⟨0, failsAt_next (.nil located) hend (position_of_readAlternative hrhs) [.empty]
      ⟨[[]], List.cons_ne_nil _ _, rfl⟩ fun more located' hl => ?_⟩
    rw [List.nil_append] at hl
    obtain ⟨fault', hfault⟩ := readAlternative_error_iff.mpr (hl ▸ hnone.take hend more)
    rw [readAlternatives_eq, hfault]
    exact ⟨fault', rfl⟩
  | case2 located rhs rest hrhs hbar fault' hmore ih =>
    cases h
    have htakes := (takes_of_readAlternative hrhs).1.append (takes_next hbar (by simp))
    have hend' := htakes.end_mem (by simp [endOfInput_not_mem_rhsTokens]) hend
    obtain ⟨p, hp⟩ := ih hmore hend'
    refine ⟨_, hp.of_takes htakes hend' ?_ ?_⟩
    · rintro _ ⟨alternatives, hne, rfl⟩
      refine ⟨rhs :: alternatives, List.cons_ne_nil _ _, ?_⟩
      cases alternatives with
      | nil => exact absurd rfl hne
      | cons other alternatives => simp [List.intercalate_cons_cons]
    · intro tokens _ hrejects located' hl
      rw [List.append_assoc] at hl
      obtain ⟨behind, hread, hbehind⟩ := readAlternative_rhsTokens lhs (endsRun_bar _ _) hl
      obtain ⟨hbar', htail⟩ := next_of_map_eq hbehind
      obtain ⟨fault', hfault⟩ := hrejects _ htail
      rw [readAlternatives_bar hread hbar', hfault]
      exact ⟨fault', rfl⟩
  | case3 => cases h
  | case4 => cases h

theorem SameView.next_eq (h : SameView (located.map Located.token) tokens) {located' : List Located}
    (hl : located'.map Located.token = tokens) : (next located').token = (next located).token := by
  rw [next_token, next_token, hl, h.head_eq]

/-- An item fails at its second token if that is what tells against it. -/
theorem failsAt_mark {t : Token} (hnext : (next located).token = t) (ht : t ≠ .endOfInput)
    (hend : .endOfInput ∈ located.map Located.token) (hplace : fault.position = (next located.tail).position)
    (more : List Token) (hmore : ItemTokens (t :: more))
    (hdead : ∀ located', (next located').token = t →
      (next located'.tail).token = (next located.tail).token → ∃ fault, readDeclaration located' = .error fault) :
    FailsAt readDeclaration ItemTokens located fault 1 := by
  have htakes := takes_next hnext ht
  have hend' := htakes.end_mem (fun hm => ht (List.mem_singleton.mp hm).symm) hend
  refine failsAt_next htakes hend' hplace more hmore fun more located' hl => ?_
  obtain ⟨hnext', htail⟩ := next_of_map_eq hl
  exact hdead located' hnext' ((sameView_take hend' (by omega) more).next_eq htail)

/-- An item fails where the alternatives of its symbol do. -/
theorem failsAt_alternatives {name : String} {p : Nat} (hname : (next located).token = .symbol name)
    (harrow : (next located.tail).token = .arrow)
    (hend : .endOfInput ∈ located.tail.tail.map Located.token)
    (h : FailsAt (readAlternatives ⟨name⟩) AlternativeTokens located.tail.tail fault p) :
    FailsAt readDeclaration ItemTokens located fault (2 + p) := by
  have htakes := (takes_next hname (by simp)).append (takes_next harrow (by simp))
  refine h.of_takes htakes hend ?_ ?_
  · rintro _ ⟨alternatives, hne, rfl⟩
    exact ⟨.rules ⟨name⟩ alternatives, rfl, fun _ _ he => by cases he; exact hne⟩
  · intro tokens _ hrejects located' hl
    obtain ⟨hname', htail⟩ := next_of_map_eq hl
    obtain ⟨harrow', htail⟩ := next_of_map_eq htail
    obtain ⟨fault', hfault⟩ := hrejects _ htail
    unfold readDeclaration
    simp [hname', harrow', hfault]

theorem failsAt_readDeclaration (h : readDeclaration located = .error fault)
    (hend : .endOfInput ∈ located.map Located.token) :
    ∃ p, FailsAt readDeclaration ItemTokens located fault p := by
  unfold readDeclaration at h
  split at h
  · next hword =>
    by_cases hcolon : (next located.tail).token = .colon
    · simp [hcolon] at h
    · simp only [hcolon, if_false] at h
      cases h
      refine ⟨1, failsAt_mark hword (by simp) hend rfl [.colon] ⟨.terminals [], rfl, nofun⟩
        fun located' hword' hmark => ?_⟩
      unfold readDeclaration
      simp [hword', hmark, hcolon]
  · next name hname =>
    by_cases harrow : (next located.tail).token = .arrow
    · simp only [harrow, if_true] at h
      split at h
      · next fault' hfault =>
        cases h
        have htakes := (takes_next hname (by simp)).append (takes_next harrow (by simp))
        have hend' := htakes.end_mem (by simp) hend
        obtain ⟨p, hp⟩ := failsAt_readAlternatives hfault hend'
        exact ⟨2 + p, failsAt_alternatives hname harrow hend' hp⟩
      · cases h
    · simp only [harrow, if_false] at h
      cases h
      refine ⟨1, failsAt_mark hname (by simp) hend rfl [.arrow, .empty]
        ⟨.rules ⟨name⟩ [[]], rfl, fun _ _ he => by cases he; exact List.cons_ne_nil _ _⟩
        fun located' hname' hmark => ?_⟩
      unfold readDeclaration
      simp [hname', hmark, harrow]
  · next hterminals hsymbol =>
    cases h
    refine ⟨0, failsAt_next (.nil located) hend rfl [.terminals, .colon]
      ⟨.terminals [], rfl, nofun⟩ fun more located' hl => ?_⟩
    rw [List.nil_append] at hl
    rw [← (sameView_take hend (by omega) more).next_eq hl] at hterminals hsymbol
    unfold readDeclaration
    split
    · next hword => exact absurd hword hterminals
    · next name hname => exact absurd hname (hsymbol name)
    · exact ⟨_, rfl⟩

theorem failsAt_readDeclarations (h : readDeclarations located = .error fault)
    (hend : .endOfInput ∈ located.map Located.token) :
    ∃ p, FailsAt readDeclarations TextTokens located fault p := by
  fun_induction readDeclarations located with
  | case1 => cases h
  | case2 located hstop fault' hfirst =>
    cases h
    obtain ⟨p, hp⟩ := failsAt_readDeclaration hfirst hend
    refine ⟨_, hp.of_takes (.nil located) hend ?_ ?_⟩
    · rintro _ ⟨item, rfl, hne⟩
      refine ⟨[item], by simp, fun lhs alternatives hm => hne lhs alternatives ?_⟩
      exact (List.mem_singleton.mp hm).symm
    · intro tokens hview hrejects located' hl
      obtain ⟨fault', hfault⟩ := hrejects _ hl
      rw [← hview.next_eq hl] at hstop
      rw [readDeclarations_eq, if_neg hstop, hfault]
      exact ⟨fault', rfl⟩
  | case3 located hstop first rest hfirst fault' hmore ih =>
    cases h
    obtain ⟨htakes, hends, hne⟩ := takes_of_readDeclaration hfirst
    have hend' := htakes.end_mem (endOfInput_not_mem_tokens first) hend
    obtain ⟨p, hp⟩ := ih hmore hend'
    refine ⟨_, hp.of_takes htakes hend' ?_ ?_⟩
    · rintro _ ⟨items, rfl, hall⟩
      refine ⟨first :: items, rfl, fun lhs alternatives hm => ?_⟩
      rcases List.mem_cons.mp hm with hm | hm
      · exact hne lhs alternatives hm.symm
      · exact hall lhs alternatives hm
    · intro tokens hview hrejects located' hl
      obtain ⟨behind, hread, hbehind⟩ := readDeclaration_of_tokens (hview.endsBefore hends) hne hl
      obtain ⟨fault', hfault⟩ := hrejects _ hbehind
      rw [readDeclarations_cons (next_ne_endOfInput hl) hread, hfault]
      exact ⟨fault', rfl⟩
  | case4 => cases h

end

/-! ## The message -/

/-- The message tells the line and the column of the place. -/
def TellsPlace (message : String) (p : Position) : Prop :=
  ∃ before after, message = before ++ s!" at {p}" ++ after

theorem tellsPlace_mark (before mark after : String) (p : Position) :
    TellsPlace (before ++ (mark ++ " at ") ++ toString p ++ after) p := by
  refine ⟨before ++ mark, after, ?_⟩
  change _ = before ++ mark ++ (" at " ++ toString p) ++ after
  simp only [String.append_assoc]

theorem TellsPlace.append_left {message : String} {p : Position} (h : TellsPlace message p) (front : String) :
    TellsPlace (front ++ message) p := by
  obtain ⟨before, after, rfl⟩ := h
  exact ⟨front ++ before, after, by simp only [String.append_assoc]⟩

theorem Fault.tellsPlace (fault : Fault) : TellsPlace fault.message fault.position := by
  have hfound : ∀ t : Located, TellsPlace (s!" at {t.position}, found " ++ t.token.describe) t.position := by
    intro t
    have hplace := tellsPlace_mark "" "" (", found " ++ t.token.describe) t.position
    rwa [← String.append_assoc] at hplace
  delta Fault.message
  cases fault with
  | unexpectedCharacter c p =>
    have hplace := tellsPlace_mark ("Unexpected character '" ++ toString c) "'" "" p
    rwa [String.append_empty] at hplace
  | unexpectedItem t => exact (hfound t).append_left _
  | missingColon t => exact (hfound t).append_left _
  | missingArrow lhs t => exact (hfound t).append_left _
  | emptyNotAlone lhs p =>
    have hplace := tellsPlace_mark ("`ε` must stand alone in an alternative for `" ++ toString lhs) "`" "" p
    rwa [String.append_empty] at hplace
  | noAlternative lhs p => exact tellsPlace_mark ("Empty alternative for `" ++ toString lhs) "`" _ p

end Text

open Text

namespace Grammar

/-- **Faults are located.** A text that is cut into tokens and then refused is refused with the place
of one of them. The tokens in front of it can be completed to tokens that are read, in front of one end
of input. With the two tokens behind it, as far as there are two, nothing is read that begins so. -/
theorem ofText?_fault_located {text : String} {located : List Located} {fault : Fault}
    (hscan : scan text = .ok located) (hread : readDeclarations located = .error fault) :
    ofText? text = .error (.text fault) ∧ ∃ p t, located[p]? = some t ∧ fault.position = t.position ∧
      TellsPlace (Error.text fault).message t.position ∧
      (∃ more, .endOfInput ∉ more ∧ Accepts readDeclarations
        ((located.map Located.token).take p ++ more ++ [.endOfInput])) ∧
      ∀ tokens, (located.map Located.token).take (min (p + 2) (located.length - 1) + 1) <+: tokens →
        Rejects readDeclarations tokens := by
  obtain ⟨front, _, htokens⟩ := exists_front_of_scan hscan
  have hend : .endOfInput ∈ located.map Located.token := by simp [htokens]
  obtain ⟨p, ⟨t, ht, hplace⟩, ⟨more, items, hitems, hne⟩, hdead⟩ := failsAt_readDeclarations hread hend
  refine ⟨by rw [ofText?_of_scan hscan, hread]; rfl, p, t, ht, hplace, ?_, ⟨more, fun hm => ?_, ?_⟩, ?_⟩
  · exact hplace ▸ fault.tellsPlace.append_left _
  · obtain ⟨item, _, hm⟩ := List.mem_flatMap.mp (hitems ▸ List.mem_append_right _ hm)
    exact endOfInput_not_mem_tokens item hm
  · intro located' hl
    rw [hitems] at hl
    exact ⟨items, readDeclarations_of_items hne hl⟩
  · rintro _ ⟨more, rfl⟩
    have hlength : p < located.length := (List.getElem?_eq_some_iff.mp ht).1
    have htake : (located.map Located.token).take (min (p + 2) (located.length - 1) + 1) =
        (located.map Located.token).take (p + 3) := by
      rw [List.take_eq_take_iff, List.length_map]
      omega
    rw [htake]
    exact hdead more

/-- `A -> b` and, in the second line, `S -> a | ε b`. -/
def mixedTokens : List Located :=
  [⟨.symbol "A", ⟨1, 1, 0⟩⟩, ⟨.arrow, ⟨1, 3, 2⟩⟩, ⟨.symbol "b", ⟨1, 6, 5⟩⟩, ⟨.symbol "S", ⟨2, 1, 7⟩⟩,
    ⟨.arrow, ⟨2, 3, 9⟩⟩, ⟨.symbol "a", ⟨2, 6, 12⟩⟩, ⟨.bar, ⟨2, 8, 14⟩⟩, ⟨.empty, ⟨2, 10, 16⟩⟩,
    ⟨.symbol "b", ⟨2, 12, 19⟩⟩, ⟨.endOfInput, ⟨2, 13, 20⟩⟩]

/-- The fault is at `ε`, and the symbol behind it is what makes it one. -/
theorem ofText?_mixedTokens :
    (scan "A -> b\nS -> a | ε b" = .ok mixedTokens ∧
      readDeclarations mixedTokens = .error (.emptyNotAlone ⟨"S"⟩ ⟨2, 10, 16⟩)) ∧
    ofText? "A -> b\nS -> a | ε b" = .error (.text (.emptyNotAlone ⟨"S"⟩ ⟨2, 10, 16⟩)) ∧
    (∃ more, .endOfInput ∉ more ∧ Accepts readDeclarations
      ((mixedTokens.map Located.token).take 7 ++ more ++ [.endOfInput])) ∧
    ∀ tokens, mixedTokens.map Located.token <+: tokens → Rejects readDeclarations tokens := by
  have hscan : scan "A -> b\nS -> a | ε b" = .ok mixedTokens := by decide +kernel
  have hread : readDeclarations mixedTokens = .error (.emptyNotAlone ⟨"S"⟩ ⟨2, 10, 16⟩) := by decide +kernel
  have hplaces : ∀ p < 10, mixedTokens[p]?.map Located.position = some ⟨2, 10, 16⟩ → p = 7 := by decide
  obtain ⟨hoftext, p, t, ht, hplace, _, hviable, hdead⟩ := ofText?_fault_located hscan hread
  obtain rfl := hplaces p (List.getElem?_eq_some_iff.mp ht).1 (by rw [ht, Option.map_some, ← hplace]; rfl)
  exact ⟨⟨hscan, hread⟩, hoftext, hviable, hdead⟩

end Grammar

end ParseForest
