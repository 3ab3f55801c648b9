import Mathlib.Data.List.DropRight
import ParseForest.Proofs.Scan

/-!
# Where tokens stand

`Cut tail before text located` takes a text apart: behind `before`, it is made of blank characters,
comments and the written tokens, each with its place, up to `tail`. A text is cut into tokens if and
only if it can be taken apart to its end (`scan_eq_ok_iff`), and otherwise it can up to a character that
begins nothing (`cutsTo_scanFrom`). The places of the tokens follow (`scan_lossless`).
-/

namespace ParseForest

namespace Text

/-! ## Places -/

/-- The place behind a text. -/
def Position.behind (text : List Char) : Position :=
  .advanceAll .start text

/-- A place as it is counted: lines by their ends, columns by the characters of the last line, and the
offset by the bytes. -/
structure StandsBehind (text : String) (p : Position) : Prop where
  line_eq : p.line = 1 + text.toList.count '\n'
  column_eq : p.column = 1 + (text.toList.rtakeWhile (· ≠ '\n')).length
  offset_eq : p.offset = text.utf8ByteSize

theorem Position.behind_append (before text : List Char) :
    behind (before ++ text) = (behind before).advanceAll text := by
  unfold behind advanceAll
  rw [List.foldl_append]

theorem Position.behind_concat (before : List Char) (c : Char) :
    behind (before ++ [c]) = (behind before).advance c :=
  behind_append before [c]

theorem standsBehind_behind (text : List Char) : StandsBehind (.ofList text) (.behind text) := by
  induction text using List.reverseRecOn with
  | nil => exact ⟨rfl, rfl, rfl⟩
  | append_singleton text c ih =>
    obtain ⟨hline, hcolumn, hoffset⟩ := ih
    rw [String.toList_ofList] at hline hcolumn
    rw [Position.behind_concat]
    unfold Position.advance
    by_cases hc : c = '\n'
    · subst hc
      refine ⟨?_, ?_, ?_⟩
      · simp [hline, Nat.add_assoc]
      · simp
      · rw [String.ofList_append, String.utf8ByteSize_append, if_pos rfl, hoffset]
        rfl
    · rw [if_neg hc]
      refine ⟨?_, ?_, ?_⟩
      · simp [hline, hc]
      · simp [hcolumn, hc, Nat.add_assoc]
      · simp [hoffset, String.ofList_append]

theorem offset_behind_append (before text : List Char) : (Position.behind (before ++ text)).offset =
    (Position.behind before).offset + (String.ofList text).utf8ByteSize := by
  rw [(standsBehind_behind _).offset_eq, (standsBehind_behind _).offset_eq, String.ofList_append,
    String.utf8ByteSize_append]

/-! ## Taking a text apart -/

/-- Behind `before`, a text is taken apart up to its end `tail`. -/
inductive Cut (tail : List Char) : List Char → List Char → List Located → Prop
  | stop {before} : Cut tail before tail []
  | blank {before c rest located} : Character.isBlank c = true →
      Cut tail (before ++ [c]) rest located → Cut tail before (c :: rest) located
  | comment {before comment rest located} : startsComment comment = true → '\n' ∉ comment →
      EndsLine rest → Cut tail (before ++ comment) rest located →
      Cut tail before (comment ++ rest) located
  | token {before t rest located} : t.IsWritten → (t.IsWord → EndsWord rest) →
      Cut tail (before ++ t.spelling.toList) rest located →
      Cut tail before (t.spelling.toList ++ rest) (⟨t, .behind before⟩ :: located)

/-- A character in front of a text begins no token, no comment and no blank. -/
def Unexpected (c : Char) (rest : List Char) : Prop :=
  (c = '-' ∧ rest.head? ≠ some '>') ∨
  (Character.isBlank c = false ∧ Symbol.isNameChar c = false ∧ c ∉ ['#', '|', ':', '-'] ∧
    ¬(c = '/' ∧ rest.head? = some '/'))

/-- The outcome of cutting a text that stands behind `before`: its tokens, or the first character
that begins nothing. -/
def CutsTo (before text : List Char) : Except Fault (List Located) → Prop
  | .ok located => ∃ front, located = front ++ [⟨.endOfInput, .behind (before ++ text)⟩] ∧
      Cut [] before text front
  | .error fault => ∃ front good c rest, text = good ++ c :: rest ∧
      fault = .unexpectedCharacter c (.behind (before ++ good)) ∧ Unexpected c rest ∧
      Cut (c :: rest) before text front

section
variable {before rest tail : List Char} {located : List Located} {result : Except Fault (List Located)}

/-- A piece in front of a text adds its tokens to the outcome. -/
theorem CutsTo.prepend (found : List Located) {piece : List Char}
    (hcut : ∀ {tail located}, Cut tail (before ++ piece) rest located →
      Cut tail before (piece ++ rest) (found ++ located))
    (h : CutsTo (before ++ piece) rest result) :
    CutsTo before (piece ++ rest) (result.map (found ++ ·)) := by
  cases result with
  | ok located =>
    obtain ⟨front, rfl, hc⟩ := h
    refine ⟨found ++ front, ?_, hcut hc⟩
    rw [List.append_assoc, List.append_assoc]
  | error fault =>
    obtain ⟨front, good, c, behind, rfl, rfl, hu, hc⟩ := h
    refine ⟨found ++ front, piece ++ good, c, behind, ?_, ?_, hu, hcut hc⟩
    · rw [List.append_assoc]
    · rw [List.append_assoc]

theorem map_nil_append : result.map (([] : List Located) ++ ·) = result := by
  cases result <;> rfl

theorem CutsTo.blank {c : Char} (hc : Character.isBlank c = true) (h : CutsTo (before ++ [c]) rest result) :
    CutsTo before (c :: rest) result := by
  have := h.prepend [] fun hcut => .blank hc hcut
  rwa [map_nil_append] at this

theorem CutsTo.comment {comment : List Char} (hs : startsComment comment = true) (hl : '\n' ∉ comment)
    (he : EndsLine rest) (h : CutsTo (before ++ comment) rest result) :
    CutsTo before (comment ++ rest) result := by
  have := h.prepend [] fun hcut => .comment hs hl he hcut
  rwa [map_nil_append] at this

theorem CutsTo.token {t : Token} {word : List Char} (hw : t.spelling.toList = word) (ht : t.IsWritten)
    (he : t.IsWord → EndsWord rest) (h : CutsTo (before ++ word) rest result) :
    CutsTo before (word ++ rest) (do return ⟨t, .behind before⟩ :: (← result)) := by
  subst hw
  have := h.prepend [⟨t, .behind before⟩] fun hcut => .token ht he hcut
  cases result <;> exact this

theorem CutsTo.unexpected {c : Char} (h : Unexpected c rest) :
    CutsTo before (c :: rest) (.error (.unexpectedCharacter c (.behind before))) :=
  ⟨[], [], c, rest, rfl, by rw [List.append_nil], h, .stop⟩

theorem eq_false_of_head_dropWhile {p : Char → Bool} {l : List Char} {c : Char}
    (h : c ∈ (l.dropWhile p).head?) : p c = false := by
  have := List.head?_dropWhile_not p l
  rwa [h] at this

theorem comment_lineRest {c : Char} (h : startsComment (c :: rest) = true) :
    startsComment (c :: lineRest rest) = true ∧ '\n' ∉ c :: lineRest rest := by
  have hline : '\n' ∉ lineRest rest := fun hm => by simpa using List.mem_takeWhile_imp hm
  unfold startsComment at h
  split at h
  · next heq =>
    cases heq
    exact ⟨rfl, by simpa using hline⟩
  · next line heq =>
    cases heq
    rw [lineRest, List.takeWhile_cons_of_pos (by decide)] at hline ⊢
    exact ⟨rfl, by simpa using hline⟩
  · cases h

theorem endsLine_lineEnd (text : List Char) : EndsLine (lineEnd text) := by
  intro c hc
  simpa using eq_false_of_head_dropWhile hc

/-- Cutting takes a text apart. -/
theorem cutsTo_scanFrom (before text : List Char) : CutsTo before text (scanFrom (.behind before) text) := by
  generalize hp : Position.behind before = p
  fun_induction scanFrom p text generalizing before with
  | case1 p =>
    subst hp
    exact ⟨[], by simp, .stop⟩
  | case2 p c rest hc ih =>
    subst hp
    exact (ih _ (Position.behind_concat before c)).blank hc
  | case3 p c rest _ hc ih =>
    subst hp
    have hsplit : (c :: lineRest rest) ++ lineEnd rest = c :: rest :=
      congrArg (c :: ·) List.takeWhile_append_dropWhile
    obtain ⟨hs, hl⟩ := comment_lineRest hc
    rw [← hsplit]
    exact (ih _ (Position.behind_append before _)).comment hs hl (endsLine_lineEnd rest)
  | case4 p rest _ _ ih =>
    subst hp
    exact (ih _ (Position.behind_concat before '|')).token Token.spelling_bar trivial nofun
  | case5 p rest _ _ _ ih =>
    subst hp
    exact (ih _ (Position.behind_concat before ':')).token Token.spelling_colon trivial nofun
  | case6 p rest _ _ _ _ ih =>
    subst hp
    exact (ih _ (Position.behind_append before ['-', '>'])).token Token.spelling_arrow trivial nofun
  | case7 p rest hrest =>
    subst hp
    refine .unexpected (.inl ⟨rfl, ?_⟩)
    cases rest with
    | nil => nofun
    | cons d rest =>
      rintro hd
      cases hd
      exact hrest rest rfl
  | case8 p c rest _ _ _ _ _ hc word behind ih =>
    subst hp
    have hword : ∀ d ∈ word, Symbol.isNameChar d = true :=
      List.forall_mem_cons.mpr ⟨hc, fun d hd => List.mem_takeWhile_imp hd⟩
    obtain ⟨hspell, ht, _⟩ := @Token.spelling_ofWord (.ofList word) (by simp [word]) (by simpa using hword)
    have hsplit : word ++ behind = c :: rest := congrArg (c :: ·) List.takeWhile_append_dropWhile
    rw [← hsplit]
    refine (ih _ (Position.behind_append before word)).token ?_ ht fun _ d hd => eq_false_of_head_dropWhile hd
    rw [hspell, String.toList_ofList]
  | case9 p c rest hb hs h1 h2 h3 hn =>
    subst hp
    refine .unexpected (.inr ⟨by simpa using hb, by simpa using hn, ?_, ?_⟩)
    · have : c ≠ '#' := by
        rintro rfl
        exact hs rfl
      simp [this, h1, h2, h3]
    · rintro ⟨rfl, hrest⟩
      cases rest with
      | nil => cases hrest
      | cons d rest =>
        cases hrest
        exact hs rfl

/-- What is taken apart to its end is cut into its tokens. -/
theorem scanFrom_of_cut {text : List Char} {front : List Located} (h : Cut [] before text front) :
    scanFrom (.behind before) text = .ok (front ++ [⟨.endOfInput, .behind (before ++ text)⟩]) := by
  induction h with
  | stop => rw [scanFrom, List.append_nil, List.nil_append]
  | blank hc _ ih => rw [scanFrom_blank hc, ← Position.behind_concat, ih, List.append_assoc]; rfl
  | comment hs hl he _ ih =>
    rw [scanFrom_comment hs hl he, ← Position.behind_append, ih, List.append_assoc]
  | token ht he _ ih =>
    rw [scanFrom_token ht he, ← Position.behind_append, ih, List.append_assoc]
    rfl

theorem scan_eq_ok_iff {text : String} {located : List Located} : scan text = .ok located ↔
    ∃ front, located = front ++ [⟨.endOfInput, .behind text.toList⟩] ∧ Cut [] [] text.toList front := by
  constructor
  · intro h
    have hcuts := cutsTo_scanFrom [] text.toList
    rw [show scanFrom (.behind []) text.toList = .ok located from h] at hcuts
    exact hcuts
  · rintro ⟨front, rfl, hcut⟩
    exact scanFrom_of_cut hcut

/-! ## Facts about the tokens -/

section
variable {text : List Char}

/-- Taking a text apart comes to each of its tokens. -/
theorem Cut.exists_at (h : Cut tail before text located) : ∀ {front back : List Located} {t : Located},
    located = front ++ t :: back → ∃ good rest, text = good ++ (t.token.spelling.toList ++ rest) ∧
      t.position = .behind (before ++ good) ∧ (t.token.IsWritten ∧ (t.token.IsWord → EndsWord rest)) ∧
      Cut (t.token.spelling.toList ++ rest) before text front ∧
      Cut tail (before ++ good) (t.token.spelling.toList ++ rest) (t :: back) := by
  induction h with
  | stop =>
    intro front back t hsplit
    cases front <;> cases hsplit
  | @blank before c rest located hc _ ih =>
    intro front back t hsplit
    obtain ⟨good, behind, rfl, hp, hw, hfront, hback⟩ := ih hsplit
    rw [List.append_assoc] at hp hback
    exact ⟨c :: good, behind, rfl, hp, hw, .blank hc hfront, hback⟩
  | @comment before comment rest located hs hl he _ ih =>
    intro front back t hsplit
    obtain ⟨good, behind, rfl, hp, hw, hfront, hback⟩ := ih hsplit
    rw [List.append_assoc] at hp hback
    exact ⟨comment ++ good, behind, by rw [List.append_assoc], hp, hw, .comment hs hl he hfront, hback⟩
  | @token before u rest located hu he hcut ih =>
    intro front back t hsplit
    cases front with
    | nil =>
      cases hsplit
      refine ⟨[], rest, rfl, by rw [List.append_nil], ⟨hu, he⟩, .stop, ?_⟩
      rw [List.append_nil]
      exact .token hu he hcut
    | cons v front =>
      obtain ⟨rfl, hlocated⟩ := List.cons.inj hsplit
      obtain ⟨good, behind, rfl, hp, hw, hfront, hback⟩ := ih hlocated
      rw [List.append_assoc] at hp hback
      exact ⟨u.spelling.toList ++ good, behind, by rw [List.append_assoc], hp, hw, .token hu he hfront, hback⟩

theorem Cut.exists_split (h : Cut tail before text located) {t : Located} (ht : t ∈ located) :
    ∃ good rest, text = good ++ (t.token.spelling.toList ++ rest) ∧ t.position = .behind (before ++ good) ∧
      t.token.IsWritten ∧ (t.token.IsWord → EndsWord rest) := by
  obtain ⟨front, back, hsplit⟩ := List.append_of_mem ht
  obtain ⟨good, rest, htext, hp, hw, _⟩ := h.exists_at hsplit
  exact ⟨good, rest, htext, hp, hw⟩

/-- Tokens stand in the order of the list, and each ends before the next begins. -/
theorem Cut.pairwise (h : Cut tail before text located) : located.Pairwise fun t u =>
    t.position.offset + t.token.spelling.utf8ByteSize ≤ u.position.offset := by
  induction h with
  | stop => exact .nil
  | blank _ _ ih => exact ih
  | comment _ _ _ _ ih => exact ih
  | @token before t rest located _ _ hcut ih =>
    refine List.pairwise_cons.mpr ⟨fun u hu => ?_, ih⟩
    obtain ⟨front, _, _, hp, _⟩ := hcut.exists_split hu
    rw [hp, offset_behind_append, offset_behind_append, String.ofList_toList]
    exact Nat.le_add_right _ _

/-- What stands before the end is itself taken apart. -/
theorem Cut.exists_append (h : Cut tail before text located) :
    ∃ good, text = good ++ tail ∧ Cut [] before good located := by
  induction h with
  | stop => exact ⟨[], rfl, .stop⟩
  | @blank before c rest located hc _ ih =>
    obtain ⟨good, rfl, hcut⟩ := ih
    exact ⟨c :: good, rfl, .blank hc hcut⟩
  | @comment before comment rest located hs hl he _ ih =>
    obtain ⟨good, rfl, hcut⟩ := ih
    refine ⟨comment ++ good, by rw [List.append_assoc], .comment hs hl ?_ hcut⟩
    cases good with
    | nil => nofun
    | cons c good => exact he
  | @token before t rest located ht he _ ih =>
    obtain ⟨good, rfl, hcut⟩ := ih
    refine ⟨t.spelling.toList ++ good, by rw [List.append_assoc], .token ht (fun hw => ?_) hcut⟩
    cases good with
    | nil => nofun
    | cons c good => exact he hw

end

/-! ## Comments -/

/-- Behind the text a comment goes on: it has begun on the last line. -/
def OpensComment (text : List Char) : Prop :=
  ∃ front comment, text.rtakeWhile (· ≠ '\n') = front ++ comment ∧ startsComment comment = true

/-- The last line holds no character with which a comment can begin. -/
def Plain (text : List Char) : Prop :=
  ∀ c ∈ text.rtakeWhile (· ≠ '\n'), c ≠ '#' ∧ c ≠ '/'

theorem Plain.not_opensComment {text : List Char} (h : Plain text) : ¬OpensComment text := by
  rintro ⟨front, comment, hline, hs⟩
  unfold Plain at h
  rw [hline] at h
  unfold startsComment at hs
  split at hs
  · exact (h '#' (by simp)).1 rfl
  · exact (h '/' (by simp)).2 rfl
  · cases hs

theorem Plain.append {text : List Char} (h : Plain text) {piece : List Char}
    (hp : ∀ c ∈ piece, c ≠ '#' ∧ c ≠ '/') : Plain (text ++ piece) := by
  induction piece using List.reverseRecOn with
  | nil => rwa [List.append_nil]
  | append_singleton piece c ih =>
    rw [List.forall_mem_append, List.forall_mem_singleton] at hp
    unfold Plain at ih ⊢
    rw [← List.append_assoc, List.rtakeWhile_concat]
    split
    · exact List.forall_mem_append.mpr ⟨ih hp.1, List.forall_mem_singleton.mpr hp.2⟩
    · nofun

theorem plain_newline (text : List Char) : Plain (text ++ ['\n']) := by
  unfold Plain
  rw [List.rtakeWhile_concat, if_neg (by simp)]
  nofun

theorem ne_of_mem_spelling {t : Token} (ht : t.IsWritten) :
    ∀ c ∈ t.spelling.toList, c ≠ '#' ∧ c ≠ '/' ∧ c ≠ '\n' := by
  have hword : t.IsWord → ∀ c ∈ t.spelling.toList, c ≠ '#' ∧ c ≠ '/' ∧ c ≠ '\n' := by
    intro hw c hc
    have hname := (Token.ofWord_spelling ht hw).2.1 c hc
    refine ⟨Symbol.ne_mark_of_isNameChar hname (by simp), Symbol.ne_mark_of_isNameChar hname (by simp), ?_⟩
    rintro rfl
    rw [Symbol.isNameChar_eq_false_of_isBlank (by decide)] at hname
    cases hname
  cases t with
  | arrow => simp [Token.spelling_arrow]
  | bar => simp [Token.spelling_bar]
  | colon => simp [Token.spelling_colon]
  | endOfInput => exact ht.elim
  | _ => exact hword trivial

theorem spelling_ne_nil {t : Token} (ht : t.IsWritten) : t.spelling.toList ≠ [] := by
  cases t with
  | arrow => rw [Token.spelling_arrow]; nofun
  | bar => rw [Token.spelling_bar]; nofun
  | colon => rw [Token.spelling_colon]; nofun
  | endOfInput => exact ht.elim
  | _ => exact (Token.ofWord_spelling ht trivial).1

/-- A comment ends with its line, so it is over where something else than a line end stands. -/
theorem Cut.exists_plain {c : Char} {behind text : List Char} (h : Cut (c :: behind) before text located)
    (hc : c ≠ '\n') : ∃ good, text = good ++ c :: behind ∧
      (Plain before ∨ text.head? = some '\n' → Plain (before ++ good)) := by
  induction h with
  | stop => exact ⟨[], rfl, by simp [hc]⟩
  | @blank before d rest located hd _ ih =>
    obtain ⟨good, rfl, ih⟩ := ih
    refine ⟨d :: good, rfl, fun hstart => ?_⟩
    rw [← List.singleton_append, ← List.append_assoc]
    apply ih
    left
    by_cases hline : d = '\n'
    · rw [hline]
      exact plain_newline before
    · have hbefore := hstart.resolve_right (by simpa using hline)
      refine hbefore.append (List.forall_mem_singleton.mpr ⟨?_, ?_⟩)
      · rintro rfl
        cases hd
      · rintro rfl
        cases hd
  | @comment before comment rest located _ _ he _ ih =>
    obtain ⟨good, rfl, ih⟩ := ih
    refine ⟨comment ++ good, by rw [List.append_assoc], fun _ => ?_⟩
    rw [← List.append_assoc]
    apply ih
    right
    cases good with
    | nil => exact congrArg some (he c rfl)
    | cons d good => exact congrArg some (he d rfl)
  | @token before t rest located ht _ _ ih =>
    obtain ⟨good, rfl, ih⟩ := ih
    have hchars := ne_of_mem_spelling ht
    refine ⟨t.spelling.toList ++ good, by rw [List.append_assoc], fun hstart => ?_⟩
    have hbefore : Plain before := by
      refine hstart.resolve_right fun hhead => ?_
      obtain ⟨d, word, hword⟩ := List.exists_cons_of_ne_nil (spelling_ne_nil ht)
      rw [hword] at hhead hchars
      exact (hchars d List.mem_cons_self).2.2 (Option.some.inj hhead)
    rw [← List.append_assoc]
    exact ih (.inl (hbefore.append fun d hd => ⟨(hchars d hd).1, (hchars d hd).2.1⟩))

end

theorem standsBehind_toList (text : String) : StandsBehind text (.behind text.toList) := by
  have h := standsBehind_behind text.toList
  rwa [String.ofList_toList] at h

theorem toList_eq_append_iff {text : String} {front back : List Char} :
    text.toList = front ++ back ↔ text = .ofList front ++ .ofList back := by
  rw [← String.ofList_append]
  constructor
  · intro h
    rw [← h, String.ofList_toList]
  · rintro rfl
    exact String.toList_ofList

section
variable {text : String} {located front : List Located}

theorem Cut.exists_standsBehind (h : Cut [] [] text.toList front) {t : Located} (ht : t ∈ front) :
    ∃ before after : String, text = before ++ t.token.spelling ++ after ∧
      StandsBehind before t.position ∧ t.token.IsWritten ∧ (t.token.IsWord → EndsWord after.toList) := by
  obtain ⟨good, back, hsplit, hp, hw, he⟩ := h.exists_split ht
  refine ⟨.ofList good, .ofList back, ?_, ?_, hw, ?_⟩
  · rw [toList_eq_append_iff.mp hsplit, String.ofList_append, String.ofList_toList, String.append_assoc]
  · rw [hp]
    exact standsBehind_behind good
  · rwa [String.toList_ofList]

theorem pairwise_offsets (h : scan text = .ok located) : located.Pairwise fun t u =>
    t.position.offset < u.position.offset ∧
      t.position.offset + t.token.spelling.utf8ByteSize ≤ u.position.offset := by
  obtain ⟨front, rfl, hcut⟩ := scan_eq_ok_iff.mp h
  have hsize : ∀ t ∈ front, 0 < t.token.spelling.utf8ByteSize := by
    intro t ht
    obtain ⟨_, _, _, _, hw, _⟩ := hcut.exists_split ht
    have hne : t.token.spelling ≠ "" := fun he => spelling_ne_nil hw (by rw [he]; rfl)
    exact Nat.pos_of_ne_zero fun h0 => hne (String.utf8ByteSize_eq_zero_iff.mp h0)
  rw [List.pairwise_append]
  refine ⟨hcut.pairwise.imp_of_mem fun ht _ hle => ?_, List.pairwise_singleton _ _, fun t ht u hu => ?_⟩
  · have := hsize _ ht
    omega
  · obtain ⟨before, after, hsplit, hp, _⟩ := hcut.exists_standsBehind ht
    have hend := (standsBehind_toList text).offset_eq
    have := hsize t ht
    rw [List.mem_singleton.mp hu]
    rw [hp.offset_eq, hend, hsplit, String.utf8ByteSize_append, String.utf8ByteSize_append]
    omega

/-- **No character is lost.** A text is cut into tokens if and only if it is made of blank characters,
comments and these tokens. Each token then stands at its place, a word as far as it goes, and they do
not overlap; the end stands behind the text. Otherwise the fault shows the first character that begins
nothing, at its place, and the text before it is cut into tokens. -/
theorem scan_lossless (text : String) :
    (∀ located, scan text = .ok located ↔ ∃ front,
      located = front ++ [⟨.endOfInput, .behind text.toList⟩] ∧ Cut [] [] text.toList front) ∧
    (∀ located, scan text = .ok located →
      (∃ front p, located = front ++ [⟨.endOfInput, p⟩] ∧ StandsBehind text p ∧
        ∀ t ∈ front, ∃ before after : String, text = before ++ t.token.spelling ++ after ∧
          StandsBehind before t.position ∧ t.token.IsWritten ∧
          (t.token.IsWord → EndsWord after.toList)) ∧
      located.Pairwise fun t u => t.position.offset < u.position.offset ∧
        t.position.offset + t.token.spelling.utf8ByteSize ≤ u.position.offset) ∧
    ∀ fault, scan text = .error fault → ∃ (before after : String) (c : Char) (p : Position),
      text = before ++ String.singleton c ++ after ∧ fault = .unexpectedCharacter c p ∧
      StandsBehind before p ∧ ¬OpensComment before.toList ∧ Unexpected c after.toList ∧
      ∃ located, scan before = .ok located := by
  refine ⟨fun located => scan_eq_ok_iff, fun located h => ⟨?_, pairwise_offsets h⟩, fun fault h => ?_⟩
  · obtain ⟨front, rfl, hcut⟩ := scan_eq_ok_iff.mp h
    exact ⟨front, _, rfl, standsBehind_toList text, fun t ht => hcut.exists_standsBehind ht⟩
  · have hcuts := cutsTo_scanFrom [] text.toList
    rw [show scanFrom (.behind []) text.toList = .error fault from h] at hcuts
    obtain ⟨front, good, c, rest, hsplit, rfl, hu, hcut⟩ := hcuts
    have hline : c ≠ '\n' := by
      rintro rfl
      rcases hu with ⟨hc, _⟩ | ⟨hc, _⟩
      · cases hc
      · cases hc
    obtain ⟨good', hgood', hplain⟩ := hcut.exists_plain hline
    obtain rfl := List.append_cancel_right (hsplit.symm.trans hgood')
    obtain ⟨good', hgood', hbefore⟩ := hcut.exists_append
    obtain rfl := List.append_cancel_right (hsplit.symm.trans hgood')
    refine ⟨.ofList good, .ofList rest, c, _, ?_, rfl, standsBehind_behind good, ?_, ?_, ?_⟩
    · rw [toList_eq_append_iff.mp hsplit, String.ofList_cons, String.append_assoc]
    · rw [String.toList_ofList]
      exact (hplain (.inl nofun)).not_opensComment
    · rwa [String.toList_ofList]
    · refine ⟨_, scan_eq_ok_iff.mpr ⟨front, rfl, ?_⟩⟩
      rwa [String.toList_ofList]

end

/-- `é->// a`, and on the next line `x|`. -/
def accentedTokens : List Located :=
  [⟨.symbol "é", ⟨1, 1, 0⟩⟩, ⟨.arrow, ⟨1, 2, 2⟩⟩, ⟨.symbol "x", ⟨2, 1, 9⟩⟩, ⟨.bar, ⟨2, 2, 10⟩⟩,
    ⟨.endOfInput, ⟨2, 3, 11⟩⟩]

theorem scan_accented :
    (scan "é->// a\nx|" = .ok accentedTokens ∧
      scan "é # -\n b-" = .error (.unexpectedCharacter '-' ⟨2, 3, 9⟩)) ∧
    (∃ before after : String, "é->// a\nx|" = before ++ "x" ++ after ∧ StandsBehind before ⟨2, 1, 9⟩ ∧
      EndsWord after.toList) ∧
    ∃ before after : String, "é # -\n b-" = before ++ "-" ++ after ∧ StandsBehind before ⟨2, 3, 9⟩ ∧
      ¬OpensComment before.toList ∧ ∃ located, scan before = .ok located := by
  have hok : scan "é->// a\nx|" = .ok accentedTokens := by decide +kernel
  have hbad : scan "é # -\n b-" = .error (.unexpectedCharacter '-' ⟨2, 3, 9⟩) := by decide +kernel
  obtain ⟨⟨front, p, hfront, _, htokens⟩, _⟩ := (scan_lossless "é->// a\nx|").2.1 _ hok
  have hmem : ⟨.symbol "x", ⟨2, 1, 9⟩⟩ ∈ front := by
    have hdrop : accentedTokens.dropLast = front := by rw [hfront, List.dropLast_concat]
    exact hdrop ▸ by decide
  obtain ⟨before, after, hx, hplace, _, hends⟩ := htokens _ hmem
  obtain ⟨before', after', c, p', hsplit, hfault, hplace', hopen, _, hscan⟩ :=
    (scan_lossless "é # -\n b-").2.2 _ hbad
  cases hfault
  exact ⟨⟨hok, hbad⟩, ⟨before, after, hx, hplace, hends trivial⟩,
    before', after', hsplit, hplace', hopen, hscan⟩

end Text

end ParseForest
