import Mathlib.Data.List.TakeWhile
import ParseForest.Proofs.Validity
import ParseForest.Text.Scan

/-!
# Cutting printed pieces into tokens

`Scans text tokens` says that a text is cut into the tokens wherever it stands.
Each lemma puts one piece in front of a text: a blank, a mark or a word. A word needs
that no name character follows it, or it would not end there.
-/

namespace ParseForest

/-! ## Characters -/

namespace Character

theorem Ranges.exists_of_contains {r : Ranges} {n : Nat} (h : r.contains n = true) :
    ∃ p ∈ r, p.1 ≤ n ∧ n ≤ p.2 := by
  induction r with
  | nil => cases h
  | cons p r ih =>
    obtain ⟨first, last⟩ := p
    unfold contains at h
    by_cases hn : n < first
    · simp [hn] at h
    · simp only [hn, if_false, Bool.or_eq_true, decide_eq_true_eq] at h
      cases h with
      | inl hl => exact ⟨(first, last), by simp, by omega, hl⟩
      | inr hr =>
        obtain ⟨q, hq, hle⟩ := ih hr
        exact ⟨q, by simp [hq], hle⟩

theorem Ranges.contains_eq_false {r s : Ranges} (h : ∀ p ∈ r, ∀ q ∈ s, p.2 < q.1 ∨ q.2 < p.1)
    {n : Nat} (hn : r.contains n = true) : s.contains n = false := by
  obtain ⟨p, hp, hp1, hp2⟩ := exists_of_contains hn
  refine Bool.eq_false_iff.mpr fun hs => ?_
  obtain ⟨q, hq, hq1, hq2⟩ := exists_of_contains hs
  have := h p hp q hq
  omega

end Character

namespace Symbol

theorem isBlank_eq_false_of_isNameChar {c : Char} (h : isNameChar c = true) :
    Character.isBlank c = false := by
  unfold isNameChar at h
  simp only [Bool.or_eq_true, beq_iff_eq, or_assoc] at h
  -- the two tables share no code point, and the four marks are not in that of the blanks
  rcases h with h | rfl | rfl | rfl | rfl
  · exact Character.Ranges.contains_eq_false (by decide +kernel) h
  all_goals decide

theorem isNameChar_eq_false_of_isBlank {c : Char} (h : Character.isBlank c = true) :
    isNameChar c = false := by
  refine Bool.eq_false_iff.mpr fun hc => ?_
  rw [isBlank_eq_false_of_isNameChar hc] at h
  cases h

/-- No mark and no beginning of a comment is a name character. -/
theorem isNameChar_mark {c : Char} (hc : c ∈ ['|', ':', '-', '#', '/']) : isNameChar c = false := by
  have hall : (['|', ':', '-', '#', '/'].all fun c => !isNameChar c) = true := by decide +kernel
  simpa using List.all_eq_true.mp hall c hc

theorem ne_mark_of_isNameChar {c d : Char} (hc : isNameChar c = true)
    (hd : d ∈ ['|', ':', '-', '#', '/']) : c ≠ d := by
  intro h
  rw [h, isNameChar_mark hd] at hc
  cases hc

end Symbol

/-! ## Tokens as they are written -/

namespace Text

namespace Token

def spelling : Token → String
  | terminals => Symbol.terminalsWord
  | empty => Symbol.emptyWord
  | symbol name => name
  | arrow => "->"
  | bar => "|"
  | colon => ":"
  | endOfInput => ""

/-- A token that can stand in a text: not its end, and a symbol only by a name that can be written. -/
def IsWritten : Token → Prop
  | symbol name => nameProblem? ⟨name⟩ = none
  | endOfInput => False
  | _ => True

def IsWord : Token → Prop
  | terminals | empty | symbol _ => True
  | _ => False

theorem spelling_arrow : arrow.spelling.toList = ['-', '>'] := by decide

theorem spelling_bar : bar.spelling.toList = ['|'] := by decide

theorem spelling_colon : colon.spelling.toList = [':'] := by decide

/-- A token is the one that its own word stands for. -/
theorem ofWord_spelling {t : Token} (ht : t.IsWritten) (hw : t.IsWord) : t.spelling.toList ≠ [] ∧
    (∀ c ∈ t.spelling.toList, Symbol.isNameChar c = true) ∧ ofWord t.spelling = t := by
  cases t with
  | terminals => exact ⟨by decide, List.all_eq_true.mp (by decide +kernel), by decide⟩
  | empty => exact ⟨by decide, List.all_eq_true.mp (by decide +kernel), by decide⟩
  | symbol name =>
    obtain ⟨hne, hchars, hword⟩ := nameProblem?_eq_none_iff.mp ht
    simp only [Symbol.reservedWords, List.mem_cons, List.not_mem_nil, or_false, not_or] at hword
    exact ⟨by simpa [spelling] using hne, hchars, by simp [ofWord, spelling, hword.1, hword.2]⟩
  | _ => exact hw.elim

/-- A word of name characters is written as the token that it stands for. -/
theorem spelling_ofWord {word : String} (hne : word ≠ "")
    (hw : ∀ c ∈ word.toList, Symbol.isNameChar c = true) :
    (ofWord word).spelling = word ∧ (ofWord word).IsWritten ∧ (ofWord word).IsWord := by
  unfold ofWord
  by_cases ht : word = Symbol.terminalsWord
  · rw [if_pos ht]
    exact ⟨ht.symm, trivial, trivial⟩
  by_cases he : word = Symbol.emptyWord
  · rw [if_neg ht, if_pos he]
    exact ⟨he.symm, trivial, trivial⟩
  rw [if_neg ht, if_neg he]
  refine ⟨rfl, nameProblem?_eq_none_iff.mpr ⟨hne, hw, ?_⟩, trivial⟩
  simp [Symbol.reservedWords, ht, he]

end Token

/-! ## Pieces of a text -/

/-- A word can end in front of the text. -/
def EndsWord (text : List Char) : Prop :=
  ∀ c ∈ text.head?, Symbol.isNameChar c = false

/-- A comment can end in front of the text. -/
def EndsLine (text : List Char) : Prop :=
  ∀ c ∈ text.head?, c = '\n'

section
variable {text : List Char}

theorem scanFrom_blank {c : Char} (hc : Character.isBlank c = true) (p : Position) :
    scanFrom p (c :: text) = scanFrom (p.advance c) text := by
  conv => lhs; unfold scanFrom
  exact if_pos hc

theorem lineRest_append {line : List Char} (hl : '\n' ∉ line) (he : EndsLine text) :
    lineRest (line ++ text) = line ∧ lineEnd (line ++ text) = text := by
  have hline : ∀ c ∈ line, decide (c ≠ '\n') = true := fun c hc => by
    simpa using ne_of_mem_of_not_mem hc hl
  unfold lineRest lineEnd
  rw [List.takeWhile_append_of_pos hline, List.dropWhile_append_of_pos hline]
  cases text with
  | nil => simp
  | cons c text => simp [he c rfl]

theorem startsComment_append {comment : List Char} (h : startsComment comment = true) :
    startsComment (comment ++ text) = true := by
  unfold startsComment at h
  split at h
  · rfl
  · rfl
  · cases h

theorem isBlank_eq_false_of_startsComment {c : Char} (h : startsComment (c :: text) = true) :
    Character.isBlank c = false := by
  unfold startsComment at h
  split at h
  · next heq =>
    cases heq
    decide
  · next heq =>
    cases heq
    decide
  · cases h

theorem scanFrom_comment {comment : List Char} (hc : startsComment comment = true)
    (hl : '\n' ∉ comment) (he : EndsLine text) (p : Position) :
    scanFrom p (comment ++ text) = scanFrom (p.advanceAll comment) text := by
  cases comment with
  | nil => cases hc
  | cons c line =>
    obtain ⟨hrest, hend⟩ := lineRest_append (fun h => hl (List.mem_cons_of_mem c h)) he
    have hstart : startsComment ((c :: line) ++ text) = true := startsComment_append hc
    rw [List.cons_append] at hstart ⊢
    conv => lhs; unfold scanFrom
    dsimp only
    rw [if_neg (by simp [isBlank_eq_false_of_startsComment hc]), if_pos hstart, hrest, hend]

theorem takeWhile_word {word : List Char} (hw : ∀ c ∈ word, Symbol.isNameChar c = true)
    (he : EndsWord text) : (word ++ text).takeWhile Symbol.isNameChar = word := by
  rw [List.takeWhile_append_of_pos hw]
  cases text with
  | nil => simp
  | cons c text => simp [he c rfl]

theorem dropWhile_word {word : List Char} (hw : ∀ c ∈ word, Symbol.isNameChar c = true)
    (he : EndsWord text) : (word ++ text).dropWhile Symbol.isNameChar = text := by
  rw [List.dropWhile_append_of_pos hw]
  cases text with
  | nil => rfl
  | cons c text => simp [he c rfl]

theorem scanFrom_word {word : List Char} (hne : word ≠ [])
    (hw : ∀ c ∈ word, Symbol.isNameChar c = true) (he : EndsWord text) (p : Position) :
    scanFrom p (word ++ text) =
      (do return ⟨.ofWord (.ofList word), p⟩ :: (← scanFrom (p.advanceAll word) text)) := by
  cases word with
  | nil => exact absurd rfl hne
  | cons c word =>
    have hc := hw c (by simp)
    have hword : ∀ d ∈ word, Symbol.isNameChar d = true := fun d hd => hw d (by simp [hd])
    have hcomment : startsComment (c :: (word ++ text)) = false := by
      have h1 : c ≠ '#' := Symbol.ne_mark_of_isNameChar hc (by simp)
      have h2 : c ≠ '/' := Symbol.ne_mark_of_isNameChar hc (by simp)
      unfold startsComment
      split <;> simp_all
    rw [List.cons_append]
    conv => lhs; unfold scanFrom
    dsimp only
    rw [if_neg (by simp [Symbol.isBlank_eq_false_of_isNameChar hc]),
      if_neg (by simp [hcomment]), if_neg (Symbol.ne_mark_of_isNameChar hc (by simp)),
      if_neg (Symbol.ne_mark_of_isNameChar hc (by simp)),
      if_neg (Symbol.ne_mark_of_isNameChar hc (by simp)), if_pos hc]
    simp only [takeWhile_word hword he, dropWhile_word hword he]

/-- What is written as a token is cut as that token, if it is no word or the word ends there. -/
theorem scanFrom_token {t : Token} (ht : t.IsWritten) (he : t.IsWord → EndsWord text) (p : Position) :
    scanFrom p (t.spelling.toList ++ text) =
      (do return ⟨t, p⟩ :: (← scanFrom (p.advanceAll t.spelling.toList) text)) := by
  have hword : t.IsWord → scanFrom p (t.spelling.toList ++ text) =
      (do return ⟨t, p⟩ :: (← scanFrom (p.advanceAll t.spelling.toList) text)) := by
    intro hw
    obtain ⟨hne, hchars, hof⟩ := Token.ofWord_spelling ht hw
    rw [scanFrom_word hne hchars (he hw), String.ofList_toList, hof]
  cases t with
  | arrow =>
    rw [Token.spelling_arrow]
    conv => lhs; unfold scanFrom
    dsimp only [List.cons_append, List.nil_append]
    rw [if_neg (by decide), if_neg (by simp [startsComment]), if_neg (by decide),
      if_neg (by decide), if_pos rfl]
    rfl
  | bar =>
    rw [Token.spelling_bar]
    conv => lhs; unfold scanFrom
    dsimp only [List.cons_append, List.nil_append]
    rw [if_neg (by decide), if_neg (by simp [startsComment]), if_pos rfl]
    rfl
  | colon =>
    rw [Token.spelling_colon]
    conv => lhs; unfold scanFrom
    dsimp only [List.cons_append, List.nil_append]
    rw [if_neg (by decide), if_neg (by simp [startsComment]), if_neg (by decide), if_pos rfl]
    rfl
  | endOfInput => exact ht.elim
  | _ => exact hword trivial

end

/-- A text is cut into the tokens, wherever it stands. -/
def Scans (text : List Char) (tokens : List Token) : Prop :=
  ∀ p, ∃ found, scanFrom p text = .ok found ∧ found.map Located.token = tokens

section
variable {text : List Char} {tokens : List Token}

theorem scans_nil : Scans [] [.endOfInput] := by
  intro p
  exact ⟨[⟨.endOfInput, p⟩], by rw [scanFrom], rfl⟩

theorem scans_blank {c : Char} (hc : Character.isBlank c = true) (h : Scans text tokens) :
    Scans (c :: text) tokens := by
  intro p
  rw [scanFrom_blank hc]
  exact h _

theorem scans_comment {comment : List Char} (hc : startsComment comment = true) (hl : '\n' ∉ comment)
    (he : EndsLine text) (h : Scans text tokens) : Scans (comment ++ text) tokens := by
  intro p
  rw [scanFrom_comment hc hl he]
  exact h _

theorem scans_token {t : Token} (ht : t.IsWritten) (he : t.IsWord → EndsWord text)
    (h : Scans text tokens) : Scans (t.spelling.toList ++ text) (t :: tokens) := by
  intro p
  obtain ⟨found, hf, htokens⟩ := h (p.advanceAll t.spelling.toList)
  refine ⟨⟨t, p⟩ :: found, ?_, by simp [htokens]⟩
  rw [scanFrom_token ht he, hf]
  rfl

end

/-! ## Names -/

theorem endsWord_cons {c : Char} {text : List Char} (hc : Symbol.isNameChar c = false) :
    EndsWord (c :: text) := by
  intro d hd
  cases hd
  exact hc

theorem endsWord_blank {c : Char} {text : List Char} (hc : Character.isBlank c = true) :
    EndsWord (c :: text) :=
  endsWord_cons (Symbol.isNameChar_eq_false_of_isBlank hc)

/-- The tokens of symbols written one after the other. -/
def symbolTokens (symbols : List Symbol) : List Token :=
  symbols.map fun a => .symbol a.name

section
variable {text : List Char} {tokens : List Token}

theorem scans_name {a : Symbol} (ha : nameProblem? a = none) (he : EndsWord text)
    (h : Scans text tokens) : Scans (a.name.toList ++ text) (.symbol a.name :: tokens) :=
  scans_token (t := .symbol a.name) ha (fun _ => he) h

end

end Text

end ParseForest
