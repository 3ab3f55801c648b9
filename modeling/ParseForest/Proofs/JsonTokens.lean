import ParseForest.Json.Printer
import ParseForest.Json.Token

/-!
# JSON texts are cut into their tokens

`Layout tokens text` says that the text is made of the tokens, as they are printed, with
blanks anywhere around them. Such a text is cut into just these tokens
(`tokens?_of_layout`), because each token other than a number shows where it ends. What a
string literal stands for survives its escapes (`stringUnits_print`).
-/

namespace ParseForest.Json

/-! ## Escapes -/

theorem hexDigits_control : ∀ n < 0x20, (hexDigits n).toList =
    ['0', '0', Nat.digitChar (n / 16), Nat.digitChar (n % 16)] := by decide +kernel

theorem hexUnit?_control : ∀ n < 0x20,
    hexUnit? '0' '0' (Nat.digitChar (n / 16)) (Nat.digitChar (n % 16)) = some n := by decide +kernel

theorem stringUnits_plain {c : Char} (hquote : c ≠ '\x22') (hslash : c ≠ '\\') (hc : ¬c.toNat < 0x20)
    (text : List Char) : stringUnits (c :: text) =
      (stringUnits text).map fun found => (c.toNat :: found.1, found.2) := by
  rw [stringUnits.eq_def]
  split
  · next h => cases h
  · next h => exact absurd (List.cons.inj h).1 hslash
  · next h => exact absurd (List.cons.inj h).1 hslash
  · next h =>
    obtain ⟨rfl, rfl⟩ := List.cons.inj h
    simp only [hquote, hslash, hc, if_false, or_self]
    cases stringUnits text <;> rfl

theorem stringUnits_letter {letter c : Char} (hu : letter ≠ 'u') (hc : escaped? letter = some c)
    (text : List Char) : stringUnits ('\\' :: letter :: text) =
      (stringUnits text).map fun found => (c.toNat :: found.1, found.2) := by
  rw [stringUnits.eq_def]
  split
  · next h => cases h
  · next h => exact absurd (List.cons.inj (List.cons.inj h).2).1 hu
  · next h =>
    cases h
    rw [hc]
    cases stringUnits text <;> rfl
  · next hne h =>
    cases h
    exact absurd rfl (hne letter text rfl)

theorem stringUnits_hex {n : Nat} {a b c d : Char} (h : hexUnit? a b c d = some n)
    (text : List Char) : stringUnits ('\\' :: 'u' :: a :: b :: c :: d :: text) =
      (stringUnits text).map fun found => (n :: found.1, found.2) := by
  rw [stringUnits, h]
  cases stringUnits text <;> rfl

/-- An escaped character is read as this character. -/
theorem stringUnits_escapeChar (c : Char) (text : List Char) :
    stringUnits ((escapeChar c).toList ++ text) =
      (stringUnits text).map fun found => (c.toNat :: found.1, found.2) := by
  unfold escapeChar
  split
  · next h => subst h; exact stringUnits_letter (by decide) rfl text
  split
  · next h => subst h; exact stringUnits_letter (by decide) rfl text
  split
  · next h => subst h; exact stringUnits_letter (by decide) rfl text
  split
  · next h => subst h; exact stringUnits_letter (by decide) rfl text
  split
  · next h => subst h; exact stringUnits_letter (by decide) rfl text
  split
  · next h => subst h; exact stringUnits_letter (by decide) rfl text
  split
  · next h => subst h; exact stringUnits_letter (by decide) rfl text
  next hquote hslash _ _ _ _ _ =>
  split
  · next hc =>
    have := stringUnits_hex (hexUnit?_control c.toNat hc) text
    simpa [hexDigits_control c.toNat hc] using this
  · next hc =>
    have := stringUnits_plain hquote hslash hc text
    simpa [Char.toString] using this

theorem stringUnits_escaped (chars rest : List Char) :
    stringUnits ((chars.flatMap fun c => (escapeChar c).toList) ++ '\x22' :: rest) =
      some (chars.map Char.toNat, rest) := by
  induction chars with
  | nil => simp [stringUnits]
  | cons c chars ih => simp [stringUnits_escapeChar, ih]

/-! ## Characters from code points -/

theorem not_surrogate (c : Char) :
    isHighSurrogate c.toNat = false ∧ isLowSurrogate c.toNat = false := by
  have hc := c.valid
  simp only [UInt32.isValidChar, Nat.isValidChar] at hc
  have hn : c.toNat = c.val.toNat := rfl
  constructor
  · simp [isHighSurrogate]; omega
  · simp [isLowSurrogate]; omega

theorem joinSurrogates_toNat : ∀ chars : List Char, joinSurrogates (chars.map Char.toNat) = some chars
  | [] => by rw [List.map_nil, joinSurrogates]
  | [c] => by simp [joinSurrogates, not_surrogate]
  | c :: d :: rest => by
    have := joinSurrogates_toNat (d :: rest)
    simp only [List.map_cons] at this ⊢
    simp [joinSurrogates, not_surrogate, this]

theorem Literal.ofUnits_toNat (s : String) : Literal.ofUnits (s.toList.map Char.toNat) = .text s := by
  simp [Literal.ofUnits, joinSurrogates_toNat]

/-- A printed string is read as what it stands for. -/
theorem stringUnits_print (l : Literal) (rest : List Char) : ∃ body units,
    l.print.toList ++ rest = '\x22' :: body ∧ stringUnits body = some (units, rest) ∧
      Literal.ofUnits units = l := by
  cases l with
  | text s =>
    refine ⟨_, _, ?_, stringUnits_escaped s.toList rest, Literal.ofUnits_toNat s⟩
    simp [Literal.print, String.toList_join, List.flatMap_map]
  | unpaired =>
    refine ⟨"\\ud800\"".toList ++ rest, [0xd800], rfl, ?_, by decide +kernel⟩
    have := stringUnits_hex (show hexUnit? 'd' '8' '0' '0' = some 0xd800 by decide +kernel)
      ('\x22' :: rest)
    simpa [stringUnits] using this

/-! ## Layouts -/

/-- A token as it is printed. -/
def Token.print : Token → String
  | .openArray => "["
  | .closeArray => "]"
  | .openObject => "\x7b"
  | .closeObject => "\x7d"
  | .comma => ","
  | .colon => ":"
  | .scalar s => s.print

/-- Whether a token shows where it ends, whatever follows it. -/
def Token.isDelimited : Token → Bool
  | .scalar (.number _) => false
  | _ => true

/-- A text is made of tokens, with blanks in front of them, between them and behind them. -/
inductive Layout : List Token → List Char → Prop where
  | nil : Layout [] []
  | blank {c : Char} {tokens : List Token} {text : List Char} (hc : isBlank c = true)
      (h : Layout tokens text) : Layout tokens (c :: text)
  | token {t : Token} {tokens : List Token} {text : List Char} (ht : t.isDelimited = true)
      (h : Layout tokens text) : Layout (t :: tokens) (t.print.toList ++ text)

theorem token?_print {t : Token} (ht : t.isDelimited = true) (rest : List Char) :
    ∃ c behind, t.print.toList ++ rest = c :: behind ∧ isBlank c = false ∧
      token? (c :: behind) = some (t, rest) := by
  cases t with
  | scalar s =>
    cases s with
    | null => exact ⟨_, _, rfl, by decide, rfl⟩
    | bool b => cases b <;> exact ⟨_, _, rfl, by decide, rfl⟩
    | number n => cases ht
    | string l =>
      obtain ⟨body, units, hprint, hunits, hl⟩ := stringUnits_print l rest
      refine ⟨_, body, hprint, by decide, ?_⟩
      simp [token?, hunits, hl]
  | _ => exact ⟨_, _, rfl, by decide, rfl⟩

/-- A text made of tokens is cut into these tokens. -/
theorem tokens?_of_layout {tokens : List Token} {text : List Char} (h : Layout tokens text) :
    tokens? text = some tokens := by
  induction h with
  | nil => rw [tokens?]
  | blank hc _ ih => rw [tokens?, if_pos hc, ih]
  | token ht _ ih =>
    obtain ⟨c, behind, hprint, hc, htoken⟩ := token?_print ht _
    rw [hprint, tokens?, hc, if_neg Bool.false_ne_true]
    split
    · next hnone =>
      rw [htoken] at hnone
      cases hnone
    · next hsome =>
      rw [htoken] at hsome
      cases hsome
      rw [ih]
      rfl

namespace Layout

variable {tokens others : List Token} {text rest : List Char}

theorem append (h : Layout tokens text) (hrest : Layout others rest) :
    Layout (tokens ++ others) (text ++ rest) := by
  induction h with
  | nil => exact hrest
  | blank hc _ ih => exact .blank hc ih
  | token ht _ ih =>
    rw [List.append_assoc]
    exact .token ht ih

theorem single {t : Token} (ht : t.isDelimited = true) : Layout [t] t.print.toList := by
  simpa using Layout.token ht .nil

theorem blanks (h : ∀ c ∈ text, isBlank c = true) : Layout [] text := by
  induction text with
  | nil => exact .nil
  | cons c text ih => exact .blank (h c (by simp)) (ih fun d hd => h d (by simp [hd]))

end Layout

end ParseForest.Json
