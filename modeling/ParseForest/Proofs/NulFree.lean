import ParseForest.NulTerminated
import ParseForest.Proofs.Mentions
import ParseForest.Proofs.Sentence
import ParseForest.Proofs.TreeJson

/-!
# Texts without NUL

A text without NUL passes unchanged through a NUL-terminated string (`argumentText?_toUTF8`,
`withoutNul_eq`). Printed trees are such texts whatever stands in them, as a string escapes its
control characters (`nulFree_listToJsonText`), and so are the messages about a text without NUL
(`nulFree_of_ofText?_error`) and about a sentence.
-/

namespace ParseForest

def NulFree (s : String) : Prop := '\x00' ∉ s.toList

instance (s : String) : Decidable (NulFree s) :=
  inferInstanceAs (Decidable (_ ∉ _))

/-! ## Pieces of texts -/

theorem nulFree_append {s t : String} : NulFree (s ++ t) ↔ NulFree s ∧ NulFree t := by
  simp [NulFree]

theorem nulFree_enclosed {opening s closing : String} (hopening : NulFree opening) (hs : NulFree s)
    (hclosing : NulFree closing) : NulFree (opening ++ s ++ closing) :=
  nulFree_append.mpr ⟨nulFree_append.mpr ⟨hopening, hs⟩, hclosing⟩

theorem nulFree_join {l : List String} (h : ∀ s ∈ l, NulFree s) : NulFree (String.join l) := by
  unfold NulFree
  rw [String.toList_join, List.mem_flatMap]
  rintro ⟨s, hs, hnul⟩
  exact h s hs hnul

theorem nulFree_intercalate {separator : String} (hseparator : NulFree separator) :
    ∀ {l : List String}, (∀ s ∈ l, NulFree s) → NulFree (separator.intercalate l)
  | [], _ => by simp [NulFree]
  | [s], h => by simpa using h
  | s :: t :: l, h => by
    obtain ⟨hs, hrest⟩ := List.forall_mem_cons.mp h
    rw [String.intercalate_cons_cons]
    exact nulFree_enclosed hs hseparator (nulFree_intercalate hseparator hrest)

theorem nulFree_toString {c : Char} (hc : c ≠ '\x00') : NulFree c.toString := by
  simpa [NulFree, Char.toString] using hc.symm

theorem digitChar_ne_nul : ∀ n < 16, '\x00' ≠ Nat.digitChar n := by decide

@[simp] theorem nul_not_mem_toDigits {base : Nat} (hb : 1 < base) (hb' : base ≤ 16) (n : Nat) :
    '\x00' ∉ Nat.toDigits base n := by
  induction n using Nat.strongRecOn with
  | ind n ih =>
    by_cases hn : n < base
    · rw [Nat.toDigits_of_lt_base hn, List.mem_singleton]
      exact digitChar_ne_nul n (by omega)
    · rw [Nat.toDigits_of_base_le hb (Nat.le_of_not_lt hn), List.mem_append, List.mem_singleton]
      rintro (h | h)
      · exact ih (n / base) (Nat.div_lt_self (by omega) hb) h
      · exact digitChar_ne_nul _ (Nat.lt_of_lt_of_le (Nat.mod_lt _ (by omega)) hb') h

/-! ## NUL-terminated strings -/

theorem toList_loop (bytes : ByteArray) (i : Nat) (r : List UInt8) :
    ByteArray.toList.loop bytes i r = r.reverse ++ bytes.data.toList.drop i := by
  fun_induction ByteArray.toList.loop bytes i r with
  | case1 i r h ih =>
    have hi : i < bytes.data.toList.length := by simpa using h
    rw [ih, List.drop_eq_getElem_cons hi]
    simp [ByteArray.get!, h]
  | case2 i r h =>
    rw [List.drop_eq_nil_of_le (by simpa using Nat.le_of_not_lt h)]
    simp

theorem toList_eq_data (bytes : ByteArray) : bytes.toList = bytes.data.toList := by
  simp [ByteArray.toList, toList_loop]

theorem zero_ne_ofNat {n : Nat} (h : 0 < n) (hn : n < 256) : 0 ≠ UInt8.ofNat n := by
  intro h0
  have h0 := congrArg UInt8.toNat h0
  rw [UInt8.toNat_ofNat', Nat.mod_eq_of_lt hn] at h0
  exact absurd h0 (Nat.ne_of_lt h)

/-- Only NUL has a zero among its bytes: a byte of a longer form has its highest bit set. -/
theorem zero_not_mem_utf8EncodeChar {c : Char} (hc : c ≠ '\x00') : 0 ∉ String.utf8EncodeChar c := by
  have hpos : 0 < c.val.toNat := by
    refine Nat.pos_of_ne_zero fun h => hc ?_
    exact Char.ext (UInt32.toNat_inj.mp h)
  intro h
  unfold String.utf8EncodeChar at h
  simp only at h
  split at h
  · simp only [List.mem_cons, List.not_mem_nil, or_false] at h
    exact zero_ne_ofNat hpos (by omega) h
  split at h
  · simp only [List.mem_cons, List.not_mem_nil, or_false] at h
    rcases h with h | h <;> exact zero_ne_ofNat (by omega) (by omega) h
  split at h
  · simp only [List.mem_cons, List.not_mem_nil, or_false] at h
    rcases h with h | h | h <;> exact zero_ne_ofNat (by omega) (by omega) h
  · simp only [List.mem_cons, List.not_mem_nil, or_false] at h
    rcases h with h | h | h | h <;> exact zero_ne_ofNat (by omega) (by omega) h

namespace NulTerminated

variable {s : String} (hs : NulFree s)
include hs

theorem zero_not_mem_toUTF8 : 0 ∉ s.toUTF8.toList := by
  have hbytes : s.toUTF8.toList = s.toList.flatMap String.utf8EncodeChar := by
    rw [toList_eq_data, String.toUTF8_eq_toByteArray, ← String.utf8Encode_toList, List.utf8Encode,
      List.data_toByteArray]
  rw [hbytes, List.mem_flatMap]
  rintro ⟨c, hc, h⟩
  exact zero_not_mem_utf8EncodeChar (fun h0 => hs (h0 ▸ hc)) h

/-- An argument is read as the text that its caller wrote. -/
theorem argumentText?_toUTF8 : argumentText? (some s.toUTF8) = some s := by
  have htake : s.toUTF8.toList.takeWhile (· ≠ 0) = s.toUTF8.toList := by
    refine List.takeWhile_eq_self_iff.mpr fun byte hbyte => decide_eq_true ?_
    exact ne_of_mem_of_not_mem hbyte (zero_not_mem_toUTF8 hs)
  have hbytes : (⟨s.toUTF8.toList.toArray⟩ : ByteArray) = s.toUTF8 := by
    rw [toList_eq_data]
  show String.fromUTF8? ⟨(s.toUTF8.toList.takeWhile (· ≠ 0)).toArray⟩ = some s
  rw [htake, hbytes]
  simp [String.fromUTF8?, String.fromUTF8, s.isValidUTF8]

theorem withText_toUTF8 (name : String) (go : String → Answer) :
    withText name (some s.toUTF8) go = go s := by
  rw [withText, argumentText?_toUTF8 hs]

theorem withoutNul_eq : withoutNul s = s := by
  have : s.toList.filter (· ≠ '\x00') = s.toList :=
    List.filter_eq_self.mpr fun c hc => decide_eq_true (ne_of_mem_of_not_mem hc hs)
  rw [withoutNul, this, String.ofList_toList]

end NulTerminated

/-! ## Printed trees -/

namespace Json

theorem nulFree_escapeChar (c : Char) : NulFree (escapeChar c) := by
  unfold escapeChar
  split_ifs with _ _ _ _ _ _ _ hc
  iterate 7 · decide
  · refine nulFree_append.mpr ⟨by decide, ?_⟩
    simp [NulFree, hexDigits]
  · refine nulFree_toString fun h => hc ?_
    rw [h]
    decide

theorem nulFree_print (l : Literal) : NulFree l.print := by
  cases l with
  | text s =>
    have : NulFree (String.join (s.toList.map escapeChar)) :=
      nulFree_join (List.forall_mem_map.mpr fun c _ => nulFree_escapeChar c)
    exact nulFree_enclosed (by decide) this (by decide)
  | unpaired => decide

theorem nul_not_mem_of_layout {tokens : List Token} {text : List Char} (h : Layout tokens text) :
    '\x00' ∉ text := by
  induction h with
  | nil => simp
  | @blank c tokens text hc _ ih =>
    rw [List.mem_cons]
    rintro (rfl | h)
    · cases hc
    · exact ih h
  | @token t tokens text ht _ ih =>
    rw [List.mem_append]
    rintro (h | h)
    · cases t with
      | scalar s =>
        cases s with
        | bool b => cases b <;> exact absurd h (by decide)
        | number n => cases ht
        | string l => exact nulFree_print l h
        | null => exact absurd h (by decide)
      | _ => exact absurd h (by decide)
    · exact ih h

end Json

namespace Tree

open Json (Value)

/-- No NUL stands in the JSON text of trees, even if their names and attributes hold some. -/
theorem nulFree_listToJsonText (pretty : Bool) (trees : List Tree) :
    NulFree (listToJsonText pretty trees) := by
  have h : (Value.array (listToJson trees)).NumberFree := itemsNumberFree_listToJson trees
  cases pretty with
  | true => exact Json.nul_not_mem_of_layout (Json.layout_prettyAt 0 h)
  | false => exact Json.nul_not_mem_of_layout (Json.layout_compact h)

end Tree

/-! ## Messages -/

@[simp] theorem toString_text (s : String) : toString s = s := rfl

@[simp] theorem toString_symbol (a : Symbol) : toString a = a.name := rfl

theorem nulFree_symbolJoin {separator : String} (hseparator : NulFree separator) {symbols : List Symbol}
    (h : ∀ a ∈ symbols, NulFree a.name) : NulFree (Symbol.join separator symbols) :=
  nulFree_intercalate hseparator (List.forall_mem_map.mpr h)

theorem nulFree_rule {rule : Rule} (h : ∀ a ∈ rule.lhs :: rule.rhs, NulFree a.name) :
    NulFree (toString rule) := by
  obtain ⟨hlhs, hrhs⟩ := List.forall_mem_cons.mp h
  have htext : NulFree rule.rhsText := by
    unfold Rule.rhsText
    split
    · decide
    · exact nulFree_symbolJoin (by decide) hrhs
  exact nulFree_enclosed hlhs (by decide) htext

theorem nulFree_quoted (c : Char) : NulFree (Character.quoted c) := by
  have hescape : NulFree (Character.escape Character.singleQuote c) := by
    unfold Character.escape Character.codePointEscape
    split_ifs with hnul
    iterate 6 · decide
    · simp +decide [NulFree]
    · exact nulFree_toString hnul
  exact nulFree_enclosed (by decide) hescape (by decide)

/-- The message about a problem shows nothing else than names, numbers and an escaped character. -/
theorem nulFree_problem {problem : Problem} (h : ∀ a ∈ problem.symbols, NulFree a.name) :
    NulFree problem.message := by
  -- opened as it stands, because the equations of the message take long to make
  delta Problem.message
  cases problem with
  | noRules | emptyName => decide
  | emptyStart a | keyword a | terminalDefined a id =>
    have ha := h a List.mem_cons_self
    simpa [NulFree] using ha
  | badCharacter a c =>
    have ha := h a List.mem_cons_self
    simpa [NulFree] using And.intro ha (nulFree_quoted c)
  | undefined a id rule =>
    obtain ⟨ha, hrule⟩ := List.forall_mem_cons.mp h
    simpa [NulFree] using And.intro ha (nulFree_rule hrule)
  | cycle path => exact nulFree_append.mpr ⟨by decide, nulFree_symbolJoin (by decide) h⟩

namespace Text

theorem nulFree_position (p : Position) : NulFree (toString p) := by
  show NulFree s!"{p.line}:{p.column}"
  simp [NulFree]

theorem nulFree_describe {t : Token} (h : ∀ name ∈ t.names, NulFree name) : NulFree t.describe := by
  cases t with
  | symbol name =>
    have hname := h name List.mem_cons_self
    simpa [Token.describe, NulFree] using hname
  | _ => decide

theorem nulFree_found {t : Located} (h : ∀ name ∈ t.token.names, NulFree name) :
    NulFree (s!" at {t.position}, found " ++ t.token.describe) := by
  simpa [NulFree] using And.intro (nulFree_position t.position) (nulFree_describe h)

theorem nulFree_fault {fault : Fault} (h : ∀ name ∈ fault.names, NulFree name) :
    NulFree fault.message := by
  delta Fault.message
  cases fault with
  | unexpectedCharacter c position =>
    have hc : NulFree (toString c) := h c.toString List.mem_cons_self
    simpa [NulFree] using And.intro hc (nulFree_position position)
  | unexpectedItem t => exact nulFree_append.mpr ⟨by decide, nulFree_found h⟩
  | missingColon t => exact nulFree_append.mpr ⟨by decide, nulFree_found h⟩
  | missingArrow lhs t =>
    obtain ⟨hlhs, ht⟩ := List.forall_mem_cons.mp h
    exact nulFree_append.mpr ⟨by simpa [NulFree] using hlhs, nulFree_found ht⟩
  | emptyNotAlone lhs position | noAlternative lhs position =>
    have hlhs := h lhs.name List.mem_cons_self
    simpa [NulFree] using And.intro hlhs (nulFree_position position)

end Text

namespace Error

variable {e : Error}

theorem nulFree_message (h : ∀ detail ∈ e.detail?, NulFree detail) : NulFree e.message := by
  have htitle : NulFree e.kind.title := by
    cases e.kind <;> decide
  unfold message
  cases hdetail : e.detail? with
  | none => exact htitle
  | some detail =>
    exact nulFree_enclosed htitle (by decide) (h detail hdetail)

theorem nulFree_of_kind_limit (h : e.kind = .limit) : NulFree e.message := by
  refine nulFree_message fun detail hdetail => ?_
  cases e with
  | tooManyWords | tooManyCombinations | tooManyTrees =>
    cases hdetail
    simp [NulFree]
  | _ => cases h

end Error

theorem nulFree_of_within {text : String} (htext : NulFree text) {name : String}
    (h : Text.Within text.toList name) : NulFree name :=
  fun hnul => htext (h _ hnul)

/-- The message about a grammar text without NUL holds no NUL. -/
theorem nulFree_of_ofText?_error {text : String} (htext : NulFree text) {e : Error}
    (h : Grammar.ofText? text = .error e) : NulFree e.message := by
  refine Error.nulFree_message fun detail hdetail => ?_
  rcases Grammar.within_of_ofText?_error h with ⟨fault, rfl, hnames⟩ | ⟨problem, rfl, hsymbols⟩
  · cases hdetail
    exact Text.nulFree_fault fun name hname => nulFree_of_within htext (hnames name hname)
  · cases hdetail
    exact nulFree_problem fun a ha => nulFree_of_within htext (hsymbols a ha)

theorem nulFree_of_latticeOfJson?_error {tags : String} {e : Error}
    (h : Lattice.ofJson? tags = .error e) : NulFree e.message := by
  unfold Lattice.ofJson? at h
  split at h
  · cases h
  · cases h
    decide

theorem nulFree_of_parseWords_error {g : Grammar} {words : List String} {lattice : Lattice}
    {limits : Limits} {e : Error} (h : g.parseWords words lattice limits = .error e) :
    NulFree e.message := by
  by_cases hsize : words.length = lattice.size
  · by_cases hover : g.ExceedsLimits words lattice limits
    · obtain ⟨e', he', hkind⟩ := Grammar.parseWords_of_exceedsLimits hsize hover
      cases h.symm.trans he'
      exact Error.nulFree_of_kind_limit hkind
    · cases h.symm.trans (Grammar.parseWords_of_not_exceedsLimits hsize hover)
  · cases h.symm.trans (Grammar.parseWords_of_ne hsize)
    refine Error.nulFree_message fun detail hdetail => ?_
    cases hdetail
    simp [NulFree]

end ParseForest
