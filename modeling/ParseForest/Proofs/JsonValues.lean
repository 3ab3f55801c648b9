import Mathlib.Data.List.Forall2
import ParseForest.Json.Reader
import ParseForest.Proofs.JsonTokens

/-!
# JSON values are read back

`Value.tokens` lists the tokens that write a value, and `readValue_tokens` reads them back in
front of any rest. Both printed forms of a value without numbers are layouts of its tokens
(`layout_compact`, `layout_prettyAt`), and the value of every layout is the value itself
(`Value.ofText?_of_layout`).
-/

namespace ParseForest.Json

/-! ## The tokens of a value -/

mutual

/-- The tokens that write a value. -/
def Value.tokens : Value → List Token
  | .scalar s => [.scalar s]
  | .array items => .openArray :: ([.comma].intercalate (itemTokens items) ++ [.closeArray])
  | .object fields => .openObject :: ([.comma].intercalate (fieldTokens fields) ++ [.closeObject])

/-- The tokens of the items of an array, item by item. -/
def itemTokens : List Value → List (List Token)
  | [] => []
  | item :: rest => item.tokens :: itemTokens rest

/-- The tokens of the fields of an object, field by field. -/
def fieldTokens : List (Literal × Value) → List (List Token)
  | [] => []
  | (key, value) :: rest => (.scalar (.string key) :: .colon :: value.tokens) :: fieldTokens rest

end

mutual

/-- No part of a value is a number. -/
def Value.NumberFree : Value → Prop
  | .scalar (.number _) => False
  | .scalar _ => True
  | .array items => ItemsNumberFree items
  | .object fields => FieldsNumberFree fields

def ItemsNumberFree : List Value → Prop
  | [] => True
  | item :: rest => item.NumberFree ∧ ItemsNumberFree rest

def FieldsNumberFree : List (Literal × Value) → Prop
  | [] => True
  | (_, value) :: rest => value.NumberFree ∧ FieldsNumberFree rest

end

theorem itemsNumberFree_iff (items : List Value) :
    ItemsNumberFree items ↔ ∀ item ∈ items, item.NumberFree := by
  induction items with
  | nil => simp [ItemsNumberFree]
  | cons item rest ih => simp [ItemsNumberFree, ih]

theorem fieldsNumberFree_iff (fields : List (Literal × Value)) :
    FieldsNumberFree fields ↔ ∀ field ∈ fields, field.2.NumberFree := by
  induction fields with
  | nil => simp [FieldsNumberFree]
  | cons field rest ih =>
    rw [FieldsNumberFree, ih, List.forall_mem_cons]

theorem numberFree_record (fields : List (String × Value)) :
    (Value.record fields).NumberFree ↔ ∀ field ∈ fields, field.2.NumberFree := by
  rw [Value.record, Value.NumberFree, fieldsNumberFree_iff, List.forall_mem_map]

/-! ## Reading the tokens -/

theorem readValue_openArray {steps : Nat} {tokens behind : List Token} {items : List Value}
    (hne : ∀ rest, tokens ≠ .closeArray :: rest) (h : readItems steps tokens = some (items, behind)) :
    readValue (steps + 1) (.openArray :: tokens) = some (.array items, behind) := by
  rw [readValue]
  · simp [h]
  · exact hne

theorem readValue_openObject {steps : Nat} {tokens behind : List Token}
    {fields : List (Literal × Value)} (hne : ∀ rest, tokens ≠ .closeObject :: rest)
    (h : readFields steps tokens = some (fields, behind)) :
    readValue (steps + 1) (.openObject :: tokens) = some (.object fields, behind) := by
  rw [readValue]
  · simp [h]
  · exact hne

theorem tokens_eq_cons (v : Value) : ∃ t rest, v.tokens = t :: rest ∧ t ≠ .closeArray := by
  cases v <;> simp [Value.tokens]

theorem intercalate_itemTokens (item next : Value) (items : List Value) :
    [Token.comma].intercalate (itemTokens (item :: next :: items)) =
      item.tokens ++ .comma :: [Token.comma].intercalate (itemTokens (next :: items)) := by
  simp [itemTokens]

theorem intercalate_fieldTokens (key : Literal) (value : Value) (next : Literal × Value)
    (fields : List (Literal × Value)) :
    [Token.comma].intercalate (fieldTokens ((key, value) :: next :: fields)) =
      .scalar (.string key) :: .colon ::
        (value.tokens ++ .comma :: [Token.comma].intercalate (fieldTokens (next :: fields))) := by
  simp [fieldTokens]

theorem itemTokens_ne_closeArray (item : Value) (items : List Value) (behind rest : List Token) :
    [Token.comma].intercalate (itemTokens (item :: items)) ++ behind ≠ .closeArray :: rest := by
  obtain ⟨t, tokens, htokens, ht⟩ := tokens_eq_cons item
  cases items with
  | nil => simp [itemTokens, htokens, ht]
  | cons next items => simp [intercalate_itemTokens, htokens, ht]

theorem fieldTokens_ne_closeObject (field : Literal × Value) (fields : List (Literal × Value))
    (behind rest : List Token) :
    [Token.comma].intercalate (fieldTokens (field :: fields)) ++ behind ≠ .closeObject :: rest := by
  obtain ⟨key, value⟩ := field
  cases fields with
  | nil => simp [fieldTokens]
  | cons next fields => simp [intercalate_fieldTokens]

mutual

/-- The tokens of a value are read back, whatever follows them. -/
theorem readValue_tokens : ∀ (v : Value) (steps : Nat) (rest : List Token),
    v.tokens.length ≤ steps → readValue steps (v.tokens ++ rest) = some (v, rest)
  | .scalar s, 0, _, h => by simp [Value.tokens] at h
  | .scalar s, steps + 1, rest, _ => by simp [Value.tokens, readValue]
  | .array _, 0, _, h => by simp [Value.tokens] at h
  | .array [], steps + 1, rest, _ => by simp [Value.tokens, itemTokens, readValue]
  | .array (item :: items), steps + 1, rest, h => by
    have hread := readItems_tokens item items steps rest (by
      simpa [Value.tokens] using h)
    simpa [Value.tokens] using readValue_openArray (itemTokens_ne_closeArray _ _ _) hread
  | .object _, 0, _, h => by simp [Value.tokens] at h
  | .object [], steps + 1, rest, _ => by simp [Value.tokens, fieldTokens, readValue]
  | .object ((key, value) :: fields), steps + 1, rest, h => by
    have hread := readFields_tokens key value fields steps rest (by
      simpa [Value.tokens] using h)
    simpa [Value.tokens] using readValue_openObject (fieldTokens_ne_closeObject _ _ _) hread

theorem readItems_tokens : ∀ (item : Value) (items : List Value) (steps : Nat) (rest : List Token),
    ([Token.comma].intercalate (itemTokens (item :: items))).length + 1 ≤ steps →
      readItems steps ([Token.comma].intercalate (itemTokens (item :: items)) ++
        .closeArray :: rest) = some (item :: items, rest)
  | item, _, 0, _, h => by simp at h
  | item, [], steps + 1, rest, h => by
    have := readValue_tokens item steps (.closeArray :: rest) (by
      simpa [itemTokens] using h)
    simp [itemTokens, readItems, this]
  | item, next :: items, steps + 1, rest, h => by
    rw [intercalate_itemTokens] at h ⊢
    simp only [List.length_append, List.length_cons] at h
    have hfirst := readValue_tokens item steps (.comma ::
      ([Token.comma].intercalate (itemTokens (next :: items)) ++ .closeArray :: rest)) (by omega)
    have hmore := readItems_tokens next items steps rest (by omega)
    simp [readItems, hfirst, hmore]

theorem readFields_tokens : ∀ (key : Literal) (value : Value) (fields : List (Literal × Value))
    (steps : Nat) (rest : List Token),
    ([Token.comma].intercalate (fieldTokens ((key, value) :: fields))).length + 1 ≤ steps →
      readFields steps ([Token.comma].intercalate (fieldTokens ((key, value) :: fields)) ++
        .closeObject :: rest) = some ((key, value) :: fields, rest)
  | _, _, _, 0, _, h => by simp at h
  | key, value, [], steps + 1, rest, h => by
    simp only [fieldTokens, List.intercalate_singleton, List.length_cons] at h
    have := readValue_tokens value steps (.closeObject :: rest) (by omega)
    simp [fieldTokens, readFields, this]
  | key, value, (nextKey, nextValue) :: fields, steps + 1, rest, h => by
    rw [intercalate_fieldTokens] at h ⊢
    simp only [List.length_append, List.length_cons] at h
    have hfirst := readValue_tokens value steps (.comma ::
      ([Token.comma].intercalate (fieldTokens ((nextKey, nextValue) :: fields)) ++
        .closeObject :: rest)) (by omega)
    have hmore := readFields_tokens nextKey nextValue fields steps rest (by omega)
    simp [readFields, hfirst, hmore]

end

theorem Value.ofTokens?_tokens (v : Value) : Value.ofTokens? v.tokens = some v := by
  have := readValue_tokens v v.tokens.length [] (Nat.le_refl _)
  rw [List.append_nil] at this
  simp [Value.ofTokens?, this]

/-- The value of a text made of the tokens of a value is this value. -/
theorem Value.ofText?_of_layout {v : Value} {text : String} (h : Layout v.tokens text.toList) :
    Value.ofText? text = some v := by
  simp [Value.ofText?, tokens?_of_layout h, Value.ofTokens?_tokens]

/-! ## Printed values -/

/-- Parts with a separator between two neighbours are made of the tokens of the parts with the
tokens of the separator between them. -/
theorem layout_intercalate {separator : String} {between : List Token}
    (hbetween : Layout between separator.toList) {parts : List (List Token)} {texts : List String}
    (h : List.Forall₂ (fun part text => Layout part text.toList) parts texts) :
    Layout (between.intercalate parts) (separator.intercalate texts).toList := by
  induction h with
  | nil => simpa using Layout.nil
  | cons hfirst hrest ih =>
    cases hrest with
    | nil => simpa using hfirst
    | cons =>
      simp only [List.intercalate_cons_cons, String.intercalate_cons_cons, String.toList_append]
      exact (hfirst.append hbetween).append ih

section
variable (opening closing : Token) (ho : opening.isDelimited = true) (hc : closing.isDelimited = true)
include ho hc

theorem layout_brackets {tokens : List Token} (text : String) (h : Layout tokens text.toList) :
    Layout (opening :: (tokens ++ [closing])) (opening.print ++ text ++ closing.print).toList := by
  simp only [String.toList_append, List.append_assoc]
  exact .token ho (h.append (.single hc))

theorem layout_bracketed (depth : Nat) {parts : List (List Token)} {texts : List String}
    (h : List.Forall₂ (fun part text => Layout part text.toList) parts texts) :
    Layout (opening :: ([.comma].intercalate parts ++ [closing]))
      (bracketed opening.print closing.print depth texts).toList := by
  have hbreak (depth : Nat) : Layout [] (lineBreak depth).toList := .blanks (by simp [lineBreak, isBlank])
  have hcomma : Layout [.comma] ("," ++ lineBreak (depth + 1)).toList := by
    rw [String.toList_append]
    exact .token (t := .comma) rfl (hbreak _)
  unfold bracketed
  cases h with
  | nil => simpa using layout_brackets opening closing ho hc "" .nil
  | cons hfirst hrest =>
    have hparts := layout_intercalate hcomma (.cons hfirst hrest)
    have := layout_brackets opening closing ho hc (lineBreak (depth + 1) ++ _ ++ lineBreak depth) (by
      simp only [String.toList_append]
      exact ((hbreak _).append hparts).append (hbreak _))
    simpa [String.append_assoc] using this

end

theorem layout_scalar {s : Scalar} (h : (Value.scalar s).NumberFree) :
    Layout [.scalar s] s.print.toList := by
  refine .single ?_
  cases s with
  | number => exact h.elim
  | _ => rfl

theorem layout_field (colon : String) (hcolon : Layout [.colon] colon.toList) (key : Literal)
    {tokens : List Token} {text : String} (h : Layout tokens text.toList) :
    Layout (.scalar (.string key) :: .colon :: tokens) (key.print ++ colon ++ text).toList := by
  simp only [String.toList_append]
  exact ((layout_scalar (s := .string key) trivial).append hcolon).append h

mutual

/-- The compact form of a value without numbers is a layout of its tokens. -/
theorem layout_compact : ∀ {v : Value}, v.NumberFree → Layout v.tokens v.compact.toList
  | .scalar _, h => layout_scalar h
  | .array _, h => layout_brackets .openArray .closeArray rfl rfl _
      (layout_intercalate (.single (t := .comma) rfl) (layout_compactItems h))
  | .object _, h => layout_brackets .openObject .closeObject rfl rfl _
      (layout_intercalate (.single (t := .comma) rfl) (layout_compactFields h))

theorem layout_compactItems : ∀ {items : List Value}, ItemsNumberFree items →
    List.Forall₂ (fun part text => Layout part text.toList) (itemTokens items) (compactItems items)
  | [], _ => .nil
  | _ :: _, h => .cons (layout_compact h.1) (layout_compactItems h.2)

theorem layout_compactFields : ∀ {fields : List (Literal × Value)}, FieldsNumberFree fields →
    List.Forall₂ (fun part text => Layout part text.toList) (fieldTokens fields) (compactFields fields)
  | [], _ => .nil
  | (key, _) :: _, h => .cons (layout_field ":" (.single (t := .colon) rfl) key (layout_compact h.1))
      (layout_compactFields h.2)

end

mutual

/-- The pretty form of a value without numbers is a layout of its tokens. -/
theorem layout_prettyAt (depth : Nat) : ∀ {v : Value}, v.NumberFree →
    Layout v.tokens (v.prettyAt depth).toList
  | .scalar _, h => layout_scalar h
  | .array _, h => layout_bracketed .openArray .closeArray rfl rfl depth
      (layout_prettyItems (depth + 1) h)
  | .object _, h => layout_bracketed .openObject .closeObject rfl rfl depth
      (layout_prettyFields (depth + 1) h)

theorem layout_prettyItems (depth : Nat) : ∀ {items : List Value}, ItemsNumberFree items →
    List.Forall₂ (fun part text => Layout part text.toList) (itemTokens items)
      (prettyItems depth items)
  | [], _ => .nil
  | _ :: _, h => .cons (layout_prettyAt depth h.1) (layout_prettyItems depth h.2)

theorem layout_prettyFields (depth : Nat) : ∀ {fields : List (Literal × Value)},
    FieldsNumberFree fields → List.Forall₂ (fun part text => Layout part text.toList)
      (fieldTokens fields) (prettyFields depth fields)
  | [], _ => .nil
  | (key, _) :: _, h => .cons
      (layout_field ": " (.token (t := .colon) rfl (.blank (c := ' ') rfl .nil)) key
        (layout_prettyAt depth h.1))
      (layout_prettyFields depth h.2)

end

end ParseForest.Json
