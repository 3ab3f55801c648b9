import ParseForest.Proofs.JsonValues
import ParseForest.Tree.Json

/-!
# Trees are read back from JSON as far as nesting allows

Each level of a tree opens two levels of JSON. With fewer levels left than that the decoder
refuses a tree, and else it gives the tree back (`decoder_toJson`); both printed forms are read
in this way (`ofJson?_printed`).
-/

namespace ParseForest

open Json (Value Decoder Layout)

namespace Attributes

/-! ## Attributes -/

theorem insertEntry_of_lt {key value : String} {l : List (String × String)}
    (h : ∀ e ∈ l, e.1 < key) : insertEntry key value l = l ++ [(key, value)] := by
  induction l with
  | nil => rfl
  | cons e l ih =>
    obtain ⟨k, v⟩ := e
    have hk : k < key := h (k, v) (by simp)
    have hnot : ¬key < k := fun hlt => String.lt_irrefl k (String.lt_trans hk hlt)
    rw [insertEntry, if_neg hnot, if_pos hk, ih fun e he => h e (by simp [he])]
    rfl

theorem entries_foldl_insert : ∀ (l : List (String × String)) (a : Attributes),
    (a.entries ++ l).Pairwise (·.1 < ·.1) →
    (l.foldl (fun a (key, value) => a.insert key value) a).entries = a.entries ++ l
  | [], a, _ => (List.append_nil _).symm
  | (key, value) :: l, a, h => by
    have hlast : (a.insert key value).entries = a.entries ++ [(key, value)] :=
      insertEntry_of_lt fun e he => (List.pairwise_append.mp h).2.2 e he (key, value) (by simp)
    have := entries_foldl_insert l (a.insert key value) (by rw [hlast]; simpa using h)
    rw [hlast, List.append_assoc] at this
    exact this

theorem ofList_entries (a : Attributes) : ofList a.entries = a := by
  have h : (ofList a.entries).entries = a.entries := entries_foldl_insert a.entries ∅ a.sorted
  obtain ⟨entries, sorted⟩ := a
  generalize ofList entries = b at h
  obtain ⟨_, _⟩ := b
  cases h
  rfl

theorem decoder_toJson (a : Attributes) (room : Nat) : decoder (room + 1) a.toJson = some a := by
  have hfields : Decoder.dictionary Decoder.text (room + 1) a.toJson = some a.entries := by
    simp only [toJson, Value.record, Decoder.dictionary, List.mapM_map]
    exact (List.mapM_pure (m := Option) (f := id)).trans (congrArg some (List.map_id _))
  rw [decoder, hfields, Option.map_some, ofList_entries]

theorem eq_empty_of_isEmpty {a : Attributes} (h : a.isEmpty = true) : a = ∅ := by
  obtain ⟨entries, _⟩ := a
  cases entries with
  | nil => rfl
  | cons => cases h

end Attributes

namespace Tree

/-! ## No part is a number -/

theorem numberFree_attributes (a : Attributes) : a.toJson.NumberFree := by
  rw [Attributes.toJson, Json.numberFree_record, List.forall_mem_map]
  exact fun _ _ => trivial

mutual

theorem numberFree_toJson : ∀ t : Tree, t.toJson.NumberFree
  | ⟨name, children, attributes, empty⟩ => by
    have hchildren : (Value.array (listToJson children)).NumberFree :=
      itemsNumberFree_listToJson children
    rw [toJson, Json.numberFree_record]
    simp only [List.forall_mem_append]
    refine ⟨⟨?_, ?_⟩, ?_⟩
    · exact List.forall_mem_cons.mpr ⟨trivial, List.forall_mem_singleton.mpr hchildren⟩
    · split
      · simp
      · exact List.forall_mem_singleton.mpr (numberFree_attributes attributes)
    · split
      · exact List.forall_mem_singleton.mpr trivial
      · simp

theorem itemsNumberFree_listToJson : ∀ trees : List Tree, Json.ItemsNumberFree (listToJson trees)
  | [] => trivial
  | t :: ts => ⟨numberFree_toJson t, itemsNumberFree_listToJson ts⟩

end

/-! ## Decoding -/

/-- The fields that a tree is written with, in the order in which a decoder asks for them. -/
theorem record_toJson (t : Tree) (room : Nat) :
    Decoder.record ["name", "children", "attributes", "empty"] (room + 1) t.toJson =
      some [some (.text t.name), some (.array (listToJson t.children)),
        if t.attributes.isEmpty then none else some t.attributes.toJson,
        if t.empty then some (.bool true) else none] := by
  obtain ⟨name, children, attributes, empty⟩ := t
  by_cases ha : attributes.isEmpty = true
  · cases empty <;> simp [toJson, ha, Value.record, Decoder.record, Decoder.lookup?]
  · cases empty <;> simp [toJson, ha, Value.record, Decoder.record, Decoder.lookup?]

theorem optional_attributes (a : Attributes) (room : Nat) :
    Decoder.optional ∅ Attributes.decoder (room + 1) (if a.isEmpty then none else some a.toJson) =
      some a := by
  by_cases ha : a.isEmpty = true
  · rw [if_pos ha, Attributes.eq_empty_of_isEmpty ha]
    rfl
  · rw [if_neg ha]
    exact Attributes.decoder_toJson a room

theorem optional_empty (empty : Bool) (room : Nat) :
    Decoder.optional false Decoder.bool room (if empty then some (.bool true) else none) =
      some empty := by
  cases empty <;> rfl

theorem depth_eq (t : Tree) : t.depth = 1 + depthList t.children := by
  obtain ⟨name, children, attributes, empty⟩ := t
  rw [depth]

mutual

/-- A tree is read back if two levels are left for each of its own, and else it is refused. -/
theorem decoder_toJson : ∀ (t : Tree) (room : Nat),
    decoder room t.toJson = if 2 * t.depth ≤ room then some t else none
  | t, 0 => by
    have hdepth : ¬2 * t.depth ≤ 0 := by rw [depth_eq]; omega
    rw [decoder, if_neg hdepth]
  | t, 1 => by
    have hdepth : ¬2 * t.depth ≤ 1 := by rw [depth_eq]; omega
    rw [decoder, record_toJson, if_neg hdepth]
    rfl
  | ⟨name, children, attributes, empty⟩, room + 2 => by
    have ih := mapM_decoder_listToJson children room
    have hdepth : 2 * depth ⟨name, children, attributes, empty⟩ ≤ room + 2 ↔
        2 * depthList children ≤ room := by rw [depth]; omega
    rw [decoder, record_toJson]
    simp only [Decoder.required, Decoder.text, Option.bind_some, ih, optional_attributes, optional_empty,
      hdepth]
    by_cases h : 2 * depthList children ≤ room
    · simp [h]
    · simp [h]

theorem mapM_decoder_listToJson : ∀ (ts : List Tree) (room : Nat),
    (listToJson ts).mapM (decoder room) = if 2 * depthList ts ≤ room then some ts else none
  | [], room => by simp [listToJson, depthList]
  | t :: ts, room => by
    have hdepth : 2 * depthList (t :: ts) ≤ room ↔ 2 * t.depth ≤ room ∧ 2 * depthList ts ≤ room := by
      rw [depthList]; omega
    simp only [listToJson, List.mapM_cons, decoder_toJson t room, mapM_decoder_listToJson ts room, hdepth]
    by_cases ht : 2 * t.depth ≤ room
    · by_cases hts : 2 * depthList ts ≤ room
      · simp [ht, hts]
      · simp [ht, hts]
    · simp [ht]

end

theorem ofJson?_of_layout {t : Tree} {text : String} (h : Layout t.toJson.tokens text.toList) :
    ofJson? text = if t.depth ≤ 63 then some t else none := by
  have hdepth : 2 * t.depth ≤ Json.maxDepth ↔ t.depth ≤ 63 := by rw [Json.maxDepth]; omega
  simp only [ofJson?, Json.decode?, Value.ofText?_of_layout h, Option.bind_some, decoder_toJson, hdepth]

/-- **Trees of up to 63 levels are read back.** The compact and the pretty text of a tree are both
read as the tree itself if it has no more than 63 levels, and are refused if it has more. -/
theorem ofJson?_printed (t : Tree) :
    ofJson? t.toJsonText = (if t.depth ≤ 63 then some t else none) ∧
    ofJson? t.toJson.pretty = (if t.depth ≤ 63 then some t else none) :=
  ⟨ofJson?_of_layout (Json.layout_compact (numberFree_toJson t)),
    ofJson?_of_layout (Json.layout_prettyAt 0 (numberFree_toJson t))⟩

end Tree

end ParseForest
