import ParseForest.Proofs.Cut
import ParseForest.Proofs.Declarations

/-!
# Layout does not matter

`Trivia` is what can stand between tokens: blank characters, and comments with the end of their line.
Put in front of a token it changes no token (`Cut.exists_scans`), even where it continues a comment at
the end of the text. As reading depends on the tokens alone (`readDeclarations_congr`), it does not
change the grammar of the text either (`ofText?_insert_trivia`).
-/

namespace ParseForest

namespace Text

inductive Trivia : List Char → Prop
  | nil : Trivia []
  | blank {c text} : Character.isBlank c = true → Trivia text → Trivia (c :: text)
  | comment {comment text} : startsComment comment = true → '\n' ∉ comment → Trivia text →
      Trivia (comment ++ '\n' :: text)

section
variable {trivia text : List Char} {tokens : List Token}

theorem isBlank_newline : Character.isBlank '\n' = true := by decide

theorem scans_trivia (ht : Trivia trivia) (h : Scans text tokens) : Scans (trivia ++ text) tokens := by
  induction ht with
  | nil => exact h
  | blank hc _ ih => exact scans_blank hc ih
  | comment hs hl _ ih =>
    rw [List.append_assoc]
    exact scans_comment hs hl (by simp [EndsLine]) (scans_blank isBlank_newline ih)

theorem Trivia.endsWord (ht : Trivia trivia) (h : EndsWord text) : EndsWord (trivia ++ text) := by
  cases ht with
  | nil => exact h
  | blank hc _ => exact endsWord_blank hc
  | @comment comment _ hs _ _ =>
    unfold startsComment at hs
    split at hs
    · exact endsWord_cons (Symbol.isNameChar_mark (by simp))
    · exact endsWord_cons (Symbol.isNameChar_mark (by simp))
    · cases hs

/-- What follows the first line of trivia is trivia. -/
theorem Trivia.lineEnd (ht : Trivia trivia) : Trivia (lineEnd trivia) := by
  induction ht with
  | nil => exact .nil
  | @blank c text hc ht ih =>
    by_cases hline : c = '\n'
    · subst hline
      exact .blank hc ht
    · unfold Text.lineEnd
      rw [List.dropWhile_cons_of_pos (by simpa using hline)]
      exact ih
  | @comment comment text _ hl ht _ =>
    rw [(lineRest_append hl (by simp [EndsLine])).2]
    exact .blank isBlank_newline ht

end

/-! ## Trivia in front of what is left -/

section
variable {tail before text : List Char} {tokens : List Token} {located : List Located}

/-- What is taken apart up to its tail is cut into the same tokens with trivia in front of the tail. -/
theorem Cut.exists_scans (htail : Scans tail tokens) (h : Cut tail before text located) :
    ∃ good, text = good ++ tail ∧ ∀ trivia, Trivia trivia →
      Scans (good ++ (trivia ++ tail)) (located.map Located.token ++ tokens) := by
  induction h with
  | stop =>
    refine ⟨[], rfl, fun trivia ht => ?_⟩
    rw [List.nil_append]
    exact scans_trivia ht htail
  | @blank before c rest located hc _ ih =>
    obtain ⟨good, rfl, ih⟩ := ih
    exact ⟨c :: good, rfl, fun trivia ht => scans_blank hc (ih trivia ht)⟩
  | @comment before comment rest located hs hl he _ ih =>
    obtain ⟨good, rfl, ih⟩ := ih
    refine ⟨comment ++ good, by rw [List.append_assoc], fun trivia ht => ?_⟩
    cases good with
    | cons c good =>
      rw [List.append_assoc]
      exact scans_comment hs hl he (ih trivia ht)
    | nil =>
      -- the comment goes on to the end of the first line of the trivia
      have hsplit : comment ++ [] ++ (trivia ++ tail) =
          (comment ++ lineRest trivia) ++ (lineEnd trivia ++ tail) := by
        rw [List.append_nil, List.append_assoc, ← List.append_assoc (lineRest trivia), lineRest, lineEnd,
          List.takeWhile_append_dropWhile]
      rw [hsplit]
      refine scans_comment (startsComment_append hs) ?_ ?_ (ih (lineEnd trivia) ht.lineEnd)
      · rw [List.mem_append, not_or]
        exact ⟨hl, fun hm => by simpa using List.mem_takeWhile_imp hm⟩
      · have hend := endsLine_lineEnd trivia
        cases hr : lineEnd trivia with
        | nil => exact he
        | cons c rest => rwa [hr] at hend
  | @token before t rest located ht he _ ih =>
    obtain ⟨good, rfl, ih⟩ := ih
    refine ⟨t.spelling.toList ++ good, by rw [List.append_assoc], fun trivia htrivia => ?_⟩
    rw [List.append_assoc]
    refine scans_token ht (fun hw => ?_) (ih trivia htrivia)
    cases good with
    | nil => exact htrivia.endsWord (he hw)
    | cons c good => exact he hw

theorem Cut.scans (h : Cut [] before text located) :
    Scans text (located.map Located.token ++ [.endOfInput]) := by
  obtain ⟨good, rfl, hscans⟩ := h.exists_scans scans_nil
  exact hscans [] .nil

/-- What stands in front of a token of a text is taken apart up to there, and the text from there on
is cut into the tokens from this one on. -/
theorem exists_at_scan {text : String} (h : scan text = .ok located) {t : Located} (ht : t ∈ located) :
    ∃ good rest front, text.toList = good ++ (t.token.spelling.toList ++ rest) ∧
      t.position = .behind good ∧ Cut (t.token.spelling.toList ++ rest) [] text.toList front ∧
      ∃ tokens, Scans (t.token.spelling.toList ++ rest) tokens ∧
        located.map Located.token = front.map Located.token ++ tokens := by
  obtain ⟨all, rfl, hcut⟩ := scan_eq_ok_iff.mp h
  rcases List.mem_append.mp ht with ht | ht
  · obtain ⟨front, back, rfl⟩ := List.append_of_mem ht
    obtain ⟨good, rest, hsplit, hp, _, hfront, hback⟩ := hcut.exists_at rfl
    exact ⟨good, rest, front, hsplit, hp, hfront, _, hback.scans, by simp⟩
  · rw [List.mem_singleton.mp ht]
    refine ⟨text.toList, [], all, ?_, rfl, hcut, _, scans_nil, by simp⟩
    rw [List.append_nil]
    exact (List.append_nil _).symm

theorem exists_scan_of_scans {text : String} (h : Scans text.toList tokens) :
    ∃ located, scan text = .ok located ∧ located.map Located.token = tokens :=
  h .start

end

/-! ## Reading depends on the tokens alone -/

section
variable {text : String} {located located' : List Located}

theorem exists_front_of_scan (h : scan text = .ok located) :
    ∃ front, .endOfInput ∉ front ∧ located.map Located.token = front ++ [.endOfInput] := by
  obtain ⟨front, rfl, hcut⟩ := scan_eq_ok_iff.mp h
  refine ⟨front.map Located.token, fun hm => ?_, by simp⟩
  obtain ⟨t, ht, htoken⟩ := List.mem_map.mp hm
  obtain ⟨_, _, _, _, ⟨hw, _⟩⟩ := hcut.exists_split ht
  rw [htoken] at hw
  exact hw

theorem readDeclarations_congr (h : scan text = .ok located)
    (ht : located'.map Located.token = located.map Located.token) (items : List Declaration) :
    readDeclarations located' = .ok items ↔ readDeclarations located = .ok items := by
  obtain ⟨front, hend, htokens⟩ := exists_front_of_scan h
  rw [readDeclarations_eq_ok_iff hend htokens, readDeclarations_eq_ok_iff hend (ht.trans htokens)]

end

end Text

open Text

namespace Grammar

/-- Two texts have the same grammar, or both are refused with an error of one kind. -/
def SameOutcome : Except Error Grammar → Except Error Grammar → Prop
  | .ok g, .ok g' => g = g'
  | .error e, .error e' => e.kind = e'.kind
  | _, _ => False

theorem ofText?_of_scan {text : String} {located : List Located} (h : scan text = .ok located) :
    ofText? text = (readDeclarations located).mapError .text >>= ofDeclarations? := by
  unfold ofText?
  rw [h]
  rfl

theorem sameOutcome_of_tokens {text text' : String} {located located' : List Located}
    (h : scan text = .ok located) (h' : scan text' = .ok located')
    (ht : located'.map Located.token = located.map Located.token) :
    SameOutcome (ofText? text) (ofText? text') := by
  have hread := readDeclarations_congr h ht
  rw [ofText?_of_scan h, ofText?_of_scan h']
  cases hr : readDeclarations located with
  | ok items =>
    rw [(hread items).mpr hr]
    change SameOutcome (ofDeclarations? items) (ofDeclarations? items)
    cases ofDeclarations? items <;> rfl
  | error fault =>
    cases hr' : readDeclarations located' with
    | ok items =>
      rw [(hread items).mp hr'] at hr
      cases hr
    | error fault' => rfl

/-- **Layout does not matter.** In front of each token of a text, its end among them, trivia can be put
without a change to the tokens, and so to the grammar of the text or to the kind of its error. -/
theorem ofText?_insert_trivia {text : String} {located : List Located} (h : scan text = .ok located)
    {t : Located} (ht : t ∈ located) : ∃ before after : String,
      text = before ++ (t.token.spelling ++ after) ∧ StandsBehind before t.position ∧
      ∀ trivia : String, Trivia trivia.toList →
        (∃ located', scan (before ++ trivia ++ (t.token.spelling ++ after)) = .ok located' ∧
          located'.map Located.token = located.map Located.token) ∧
        SameOutcome (ofText? text) (ofText? (before ++ trivia ++ (t.token.spelling ++ after))) := by
  obtain ⟨good, rest, front, hsplit, hp, hcut, tokens, htail, htokens⟩ := exists_at_scan h ht
  have htext : text = .ofList good ++ (t.token.spelling ++ .ofList rest) := by
    rw [toList_eq_append_iff.mp hsplit, @String.ofList_append t.token.spelling.toList, String.ofList_toList]
  have hplace : StandsBehind (.ofList good) t.position := hp ▸ standsBehind_behind good
  obtain ⟨good', hgood, hscans⟩ := hcut.exists_scans htail
  obtain rfl := List.append_cancel_right (hsplit.symm.trans hgood)
  refine ⟨.ofList good, .ofList rest, htext, hplace, fun trivia htrivia => ?_⟩
  have hlist : (String.ofList good ++ trivia ++ (t.token.spelling ++ .ofList rest)).toList =
      good ++ (trivia.toList ++ (t.token.spelling.toList ++ rest)) := by simp
  have hnew := hscans _ htrivia
  rw [← hlist, ← htokens] at hnew
  obtain ⟨located', hscan, hsame⟩ := exists_scan_of_scans hnew
  exact ⟨⟨located', hscan, hsame⟩, sameOutcome_of_tokens h hscan hsame⟩

/-- The text ends in a comment, which the trivia continues before it adds one of its own. -/
theorem ofText?_insert_trivia_comment :
    let located : List Located := [⟨.symbol "S", ⟨1, 1, 0⟩⟩, ⟨.arrow, ⟨1, 2, 1⟩⟩, ⟨.empty, ⟨1, 4, 3⟩⟩,
      ⟨.endOfInput, ⟨1, 9, 9⟩⟩]
    (scan "S->ε#end" = .ok located ∧ ⟨.endOfInput, ⟨1, 9, 9⟩⟩ ∈ located ∧ Trivia " // S\n#\n".toList) ∧
    ∃ before after : String, "S->ε#end" = before ++ ("" ++ after) ∧ StandsBehind before ⟨1, 9, 9⟩ ∧
      (∃ located', scan (before ++ " // S\n#\n" ++ ("" ++ after)) = .ok located' ∧
        located'.map Located.token = located.map Located.token) ∧
      SameOutcome (ofText? "S->ε#end") (ofText? (before ++ " // S\n#\n" ++ ("" ++ after))) := by
  intro located
  have hscan : scan "S->ε#end" = .ok located := by decide +kernel
  have hmem : ⟨.endOfInput, ⟨1, 9, 9⟩⟩ ∈ located := by decide
  have htrivia : Trivia " // S\n#\n".toList := by
    have hlast : Trivia (['#'] ++ ['\n']) := .comment rfl (by decide) .nil
    have hfirst : Trivia (['/', '/', ' ', 'S'] ++ '\n' :: (['#'] ++ ['\n'])) :=
      .comment rfl (by decide) hlast
    exact .blank (by decide) hfirst
  obtain ⟨before, after, hsplit, hplace, hinsert⟩ := ofText?_insert_trivia hscan hmem
  exact ⟨⟨hscan, hmem, htrivia⟩, before, after, hsplit, hplace, hinsert _ htrivia⟩

end Grammar

end ParseForest
