import ParseForest.Grammar.English
import ParseForest.Grammar.Json
import ParseForest.Proofs.JsonValues
import ParseForest.Proofs.RoundTrip

/-!
# Grammars are read back from JSON

A rule may be written as an object (`Rule.toJson`) or as an array of its two sides
(`Rule.toPair`); `decoder_toJson` and `decoder_toPair` read both. `Grammar.toJsonWith` writes
a grammar with any choice of the two forms, and `Grammar.ofJson?_toJson` reads each of these
documents back as the grammar.
-/

namespace ParseForest

open Json (Value Decoder Layout)

/-! ## The two forms of a rule -/

/-- A rule as an array of its two sides. -/
def Rule.toPair (rule : Rule) : Value :=
  .array [.text rule.lhs.name, Symbol.listToJson rule.rhs]

/-- A grammar as an object, in which the chosen rules are written as arrays. -/
def Grammar.toJsonWith (pairs : RuleId → Bool) (g : Grammar) : Value :=
  .record [("rules", .array (g.rules.zipIdx.map fun (rule, id) =>
      if pairs id then rule.toPair else rule.toJson)),
    ("terminals", Symbol.listToJson g.terminals.toList)]

theorem Grammar.toJsonWith_false (g : Grammar) : g.toJsonWith (fun _ => false) = g.toJson := by
  have : g.rules.zipIdx.map (fun entry => entry.1.toJson) = g.rules.map Rule.toJson := by
    rw [← List.zipIdx_map_fst 0 g.rules, List.map_map]
    simp
  simp [toJsonWith, toJson, this]

/-! ## No part is a number -/

theorem numberFree_listToJson (symbols : List Symbol) : (Symbol.listToJson symbols).NumberFree := by
  simp [Symbol.listToJson, Value.texts, Value.NumberFree, Json.itemsNumberFree_iff]

theorem numberFree_toJsonWith (pairs : RuleId → Bool) (g : Grammar) :
    (g.toJsonWith pairs).NumberFree := by
  have hrule (rule : Rule) : rule.toPair.NumberFree ∧ rule.toJson.NumberFree := by
    simp [Rule.toPair, Rule.toJson, Value.record, Value.NumberFree, Json.ItemsNumberFree,
      Json.FieldsNumberFree, numberFree_listToJson]
  have hrules : ∀ entry : Rule × RuleId,
      (if pairs entry.2 then entry.1.toPair else entry.1.toJson).NumberFree := by
    intro entry
    split
    · exact (hrule entry.1).1
    · exact (hrule entry.1).2
  simp only [Grammar.toJsonWith, Value.record, Value.NumberFree, List.map_cons, List.map_nil,
    Json.FieldsNumberFree, Json.itemsNumberFree_iff, numberFree_listToJson, and_true]
  intro item hitem
  obtain ⟨entry, _, rfl⟩ := List.mem_map.mp hitem
  exact hrules entry

/-! ## Decoding -/

section
variable (room : Nat)

theorem listToJson_eq (symbols : List Symbol) :
    Symbol.listToJson symbols = .array (symbols.map fun a => .text a.name) := by
  unfold Symbol.listToJson Value.texts
  rw [List.map_map]
  rfl

theorem isPlain_listToJson (symbols : List Symbol) :
    (Symbol.listToJson symbols).isPlain (room + 1) = true := by
  rw [listToJson_eq]
  induction symbols with
  | nil => simp [Value.isPlain, Json.plainItems]
  | cons a symbols ih => simpa [Value.isPlain, Json.plainItems, Json.Scalar.isPlain] using ih

/-- An array is decoded item by item. -/
theorem list_decoder_map {α β : Type} (decoder : Decoder β) (encode : α → Value) (value : α → β)
    {l : List α} (h : ∀ a ∈ l, decoder room (encode a) = some (value a)) :
    Decoder.list decoder (room + 1) (.array (l.map encode)) = some (l.map value) := by
  show (l.map encode).mapM (decoder room) = _
  induction l with
  | nil => rfl
  | cons a l ih => simp [h a (by simp), ih fun b hb => h b (by simp [hb])]

theorem list_decoder_listToJson (symbols : List Symbol) :
    Decoder.list Symbol.decoder (room + 1) (Symbol.listToJson symbols) = some symbols := by
  have := list_decoder_map room Symbol.decoder (fun a : Symbol => .text a.name) id
    (l := symbols) fun _ _ => rfl
  rw [listToJson_eq, this, List.map_id]

theorem decoder_toJson (rule : Rule) : Rule.decoder (room + 2) rule.toJson = some rule := by
  have hplain : rule.toJson.isPlain (room + 2) = true := by
    simp [Rule.toJson, Value.record, Value.isPlain, Json.plainFields, Json.Scalar.isPlain,
      isPlain_listToJson]
  have hfields : Decoder.record ["lhs", "rhs"] (room + 2) rule.toJson =
      some [some (.text rule.lhs.name), some (Symbol.listToJson rule.rhs)] := by
    simp [Rule.toJson, Value.record, Decoder.record, Decoder.lookup?]
  simp [Rule.decoder, Decoder.plain, hplain, hfields, Decoder.required, Symbol.decoder, Decoder.text,
    list_decoder_listToJson]

theorem decoder_toPair (rule : Rule) : Rule.decoder (room + 2) rule.toPair = some rule := by
  have hplain : rule.toPair.isPlain (room + 2) = true := by
    simp [Rule.toPair, Value.isPlain, Json.plainItems, Json.Scalar.isPlain, isPlain_listToJson]
  have hfields : Decoder.record ["lhs", "rhs"] (room + 2) rule.toPair =
      some [some (.text rule.lhs.name), some (Symbol.listToJson rule.rhs)] := by
    simp [Rule.toPair, Decoder.record]
  simp [Rule.decoder, Decoder.plain, hplain, hfields, Decoder.required, Symbol.decoder, Decoder.text,
    list_decoder_listToJson]

end

namespace Grammar

theorem tablesDecoder_toJsonWith (pairs : RuleId → Bool) (g : Grammar) :
    tablesDecoder Json.maxDepth (g.toJsonWith pairs) = some (g.rules, g.terminals.toList) := by
  have hfields : Decoder.record ["rules", "terminals"] 127 (g.toJsonWith pairs) =
      some [some (.array (g.rules.zipIdx.map fun (rule, id) =>
        if pairs id then rule.toPair else rule.toJson)),
        some (Symbol.listToJson g.terminals.toList)] := by
    simp [toJsonWith, Value.record, Decoder.record, Decoder.lookup?]
  have hrules := list_decoder_map 125 Rule.decoder (fun (entry : Rule × RuleId) =>
    if pairs entry.2 then entry.1.toPair else entry.1.toJson) Prod.fst (l := g.rules.zipIdx) (by
    intro entry _
    split
    · exact decoder_toPair 123 entry.1
    · exact decoder_toJson 123 entry.1)
  rw [List.zipIdx_map_fst] at hrules
  simp [tablesDecoder, Json.maxDepth, hfields, Decoder.required, hrules, list_decoder_listToJson]

theorem ofJson?_of_layout {pairs : RuleId → Bool} {g : Grammar} {text : String}
    (h : Layout (g.toJsonWith pairs).tokens text.toList) : ofJson? text = .ok g := by
  simp [ofJson?, Json.decode?, Value.ofText?_of_layout h, tablesDecoder_toJsonWith, ofTables?_own,
    Except.mapError]

/-- **The JSON text of a grammar is read back as the grammar**, and so is every document with
any choice of its rules written as arrays, with blanks anywhere between the tokens. -/
theorem ofJson?_toJson (g : Grammar) : ofJson? g.toJsonText = .ok g ∧
    ∀ pairs : RuleId → Bool,
      ofJson? (g.toJsonWith pairs).pretty = .ok g ∧ ofJson? (g.toJsonWith pairs).compact = .ok g ∧
      ∀ text : String, Layout (g.toJsonWith pairs).tokens text.toList → ofJson? text = .ok g := by
  have hpretty (pairs : RuleId → Bool) : ofJson? (g.toJsonWith pairs).pretty = .ok g :=
    ofJson?_of_layout (Json.layout_prettyAt 0 (numberFree_toJsonWith pairs g))
  refine ⟨?_, fun pairs => ⟨hpretty pairs, ?_, fun text => ofJson?_of_layout⟩⟩
  · rw [toJsonText, ← toJsonWith_false]
    exact hpretty _
  · exact ofJson?_of_layout (Json.layout_compact (numberFree_toJsonWith pairs g))

/-- Every other rule of the English grammar as an array, and a line break at the end. -/
theorem english_ofJson?_mixed :
    Layout (english.toJsonWith (· % 2 = 0)).tokens
      ((english.toJsonWith (· % 2 = 0)).compact ++ "\n").toList ∧
    ofJson? ((english.toJsonWith (· % 2 = 0)).compact ++ "\n") = .ok english := by
  have hlayout : Layout (english.toJsonWith (· % 2 = 0)).tokens
      ((english.toJsonWith (· % 2 = 0)).compact ++ "\n").toList := by
    rw [String.toList_append]
    simpa using (Json.layout_compact (numberFree_toJsonWith _ english)).append
      (Layout.blank (c := '\n') rfl .nil)
  exact ⟨hlayout, ((ofJson?_toJson english).2 (· % 2 = 0)).2.2 _ hlayout⟩

end Grammar

end ParseForest
