import Mathlib.Data.List.Induction
import ParseForest.Proofs.Closure
import ParseForest.Proofs.Nullable

/-!
# Charts hold the valid items

The state set behind a prefix of an input depends on that prefix alone (`setAfter`). It
holds an item exactly if the part of its rule before the dot derives what was read since
its start, and its rule is predicted there from the start rule (`mem_setAfter_iff`).
-/

namespace ParseForest

open ParseForest.Derivation Grammar

/-- A non-terminal can follow a word of terminals in what the start rule derives. -/
def Grammar.Predicts (g : Grammar) (w : List Symbol) (a : Symbol) : Prop :=
  (∀ b ∈ w, b ∈ g.terminals) ∧ ∃ γ, g.RewritesTo g.startRule.rhs (w ++ a :: γ)

/-- An item belongs behind a prefix: its rule is the start rule or predicted at its start, and
what stands before its dot derives the rest of the prefix. -/
def Item.Valid (g : Grammar) (w : List Symbol) (item : Item) : Prop :=
  ∃ rule, g.rule? item.rule = some rule ∧ item.dot ≤ rule.rhs.length ∧ item.start ≤ w.length ∧
    g.Generates (rule.rhs.take item.dot) (w.drop item.start) ∧
    (item.rule = 0 ∧ item.start = 0 ∨ g.Predicts (w.take item.start) rule.lhs)

section
variable {g : Grammar}

theorem Item.Valid.advance {w v : List Symbol} {a : Symbol} {item : Item} (h : item.Valid g w)
    (hn : item.next? g = some a) (hv : g.Generates [a] v) : item.advance.Valid g (w ++ v) := by
  obtain ⟨rule, hr, _, hs, hgen, hpred⟩ := h
  obtain ⟨rule', hr', ha⟩ := Item.next?_eq_some_iff.mp hn
  obtain rfl : rule = rule' := Option.some.inj (hr.symm.trans hr')
  obtain ⟨hlt, rfl⟩ := List.getElem?_eq_some_iff.mp ha
  refine ⟨rule, hr, hlt, by simp [Item.advance]; omega, ?_, ?_⟩
  · show g.Generates (rule.rhs.take (item.dot + 1)) ((w ++ v).drop item.start)
    rw [List.drop_append_of_le_length hs, List.take_succ_eq_append_getElem hlt]
    exact hgen.append hv
  · show item.rule = 0 ∧ item.start = 0 ∨ g.Predicts ((w ++ v).take item.start) rule.lhs
    rwa [List.take_append_of_le_length hs]

/-- A rule found as a whole advances what waited for it where it began. -/
theorem Item.Valid.complete {w : List Symbol} {a : Symbol} {item parent : Item} (h : item.Valid g w)
    (hf : item.found? g = some a) (hp : parent.Valid g (w.take item.start))
    (hn : parent.next? g = some a) : parent.advance.Valid g w := by
  obtain ⟨rule, hr, _, hs, hgen, _⟩ := h
  obtain ⟨rule', hr', hdot, rfl⟩ := Item.found?_eq_some_iff.mp hf
  obtain rfl : rule = rule' := Option.some.inj (hr.symm.trans hr')
  rw [hdot, List.take_length] at hgen
  have := hp.advance hn (generates_rule hr hgen)
  rwa [List.take_append_drop] at this

/-- The symbol behind the dot of a valid item is predicted. -/
theorem Item.Valid.predicts {w : List Symbol} {a : Symbol} {item : Item} (h : item.Valid g w)
    (hn : item.next? g = some a) : g.Predicts w a := by
  obtain ⟨rule, hr, _, _, ⟨ds, hd, hw⟩, hpred⟩ := h
  obtain ⟨rule', hr', ha⟩ := Item.next?_eq_some_iff.mp hn
  obtain rfl : rule = rule' := Option.some.inj (hr.symm.trans hr')
  obtain ⟨hlt, rfl⟩ := List.getElem?_eq_some_iff.mp ha
  have hterm := words_mem_terminals hd
  rw [hw] at hterm
  -- the part before the dot turns into what was read since the start
  have hrhs : g.RewritesTo rule.rhs (w.drop item.start ++ rule.rhs[item.dot] :: rule.rhs.drop (item.dot + 1)) := by
    have := (rewritesTo_words hd).context [] (rule.rhs.drop item.dot)
    rw [hw, List.nil_append, List.nil_append, List.take_append_drop] at this
    rwa [List.drop_eq_getElem_cons hlt] at this
  rcases hpred with ⟨hzero, hstart⟩ | ⟨hbefore, γ, hγ⟩
  · rw [hzero, g.rule?_zero] at hr
    obtain rfl := Option.some.inj hr
    rw [hstart, List.drop_zero] at hrhs hterm
    exact ⟨hterm, _, hrhs⟩
  · refine ⟨fun b hb => ?_, rule.rhs.drop (item.dot + 1) ++ γ, hγ.trans ?_⟩
    · rw [← List.take_append_drop item.start w] at hb
      exact (List.mem_append.mp hb).elim (hbefore b) (hterm b)
    · have hstep := (rewritesTo_rule (mem_rules_of_rule? hr)).trans hrhs
      have := hstep.context (w.take item.start) γ
      rw [← List.append_assoc (w.take item.start), List.take_append_drop] at this
      simpa only [List.append_assoc, List.cons_append, List.nil_append] using this

end

namespace Chart

/-- The state set behind a prefix of an input. -/
def setAfter (g : Grammar) (w : List Symbol) : ItemSet :=
  (build g w).last

/-- The items from which the set behind a prefix grows. -/
def kernelAfter (g : Grammar) (w : List Symbol) : List Item :=
  match w.getLast? with
  | none => [.initial]
  | some a => scans g (setAfter g w.dropLast) a

section
variable {g : Grammar}

/-! ## The sets of a chart -/

theorem build_concat (w : List Symbol) (a : Symbol) :
    build g (w ++ [a]) = extend g (build g w) a := by
  unfold build
  rw [List.foldl_append]
  rfl

theorem sets_ne_nil (w : List Symbol) : (build g w).sets ≠ [] := by
  induction w using List.reverseRecOn with
  | nil => simp [build, start]
  | append_singleton w a _ => simp [build_concat, extend]

theorem dropLast_sets_concat (w : List Symbol) (a : Symbol) :
    (build g (w ++ [a])).sets.dropLast = (build g w).sets := by
  rw [build_concat]
  exact List.dropLast_concat

theorem length_sets (w : List Symbol) : (build g w).sets.length = w.length + 1 := by
  induction w using List.reverseRecOn with
  | nil => rfl
  | append_singleton w a ih => simp [build_concat, extend, ih]

theorem setAfter_eq_close (w : List Symbol) :
    setAfter g w = close g (build g w).sets.dropLast (kernelAfter g w) := by
  induction w using List.reverseRecOn with
  | nil => rfl
  | append_singleton w a _ =>
    rw [dropLast_sets_concat]
    unfold setAfter kernelAfter
    rw [build_concat, List.getLast?_concat, List.dropLast_concat]
    simp [extend, last, setAfter]

/-- The set at a position of a chart is the set behind the prefix up to there. -/
theorem getElem?_sets (w : List Symbol) {k : Nat} (hk : k ≤ w.length) :
    (build g w).sets[k]? = some (setAfter g (w.take k)) := by
  induction w using List.reverseRecOn with
  | nil =>
    obtain rfl : k = 0 := Nat.le_zero.mp hk
    rfl
  | append_singleton w a ih =>
    rcases Nat.lt_or_ge w.length k with hlt | hge
    · obtain rfl : k = (w ++ [a]).length := by
        rw [List.length_append] at hk ⊢
        simp only [List.length_singleton] at hk ⊢
        omega
      have hlast : (build g (w ++ [a])).sets.getLast? = (build g (w ++ [a])).sets[(w ++ [a]).length]? := by
        rw [List.getLast?_eq_getElem?, length_sets]
        rfl
      rw [← hlast, List.take_length]
      unfold setAfter last
      rw [List.getLast?_eq_some_getLast (sets_ne_nil _), Option.getD_some]
    · rw [build_concat, extend, List.getElem?_append_left (by rw [length_sets]; omega), ih hge,
        List.take_append_of_le_length hge]

theorem getElem?_sets_eq_some_iff {w : List Symbol} {k : Nat} {set : ItemSet} :
    (build g w).sets[k]? = some set ↔ k ≤ w.length ∧ set = setAfter g (w.take k) := by
  by_cases hk : k ≤ w.length
  · simp [getElem?_sets w hk, hk, eq_comm]
  · have hnone : (build g w).sets[k]? = none := List.getElem?_eq_none (by rw [length_sets]; omega)
    simp [hnone, hk]

theorem getElem?_dropLast_sets (w : List Symbol) {k : Nat} {s : ItemSet} :
    (build g w).sets.dropLast[k]? = some s ↔ k < w.length ∧ s = setAfter g (w.take k) := by
  rw [List.getElem?_dropLast, length_sets, Nat.add_sub_cancel]
  by_cases hk : k < w.length
  · rw [if_pos hk, getElem?_sets w (Nat.le_of_lt hk)]
    simp [hk, eq_comm]
  · simp [hk]

theorem length_dropLast_sets (w : List Symbol) : (build g w).sets.dropLast.length = w.length := by
  rw [List.length_dropLast, length_sets, Nat.add_sub_cancel]

/-! ## What brings items into the sets -/

/-- An item found as a whole completes those in the set behind the prefix before it. -/
theorem getD_dropLast_sets (w : List Symbol) (k : Nat) (set : ItemSet) :
    ((build g w).sets.dropLast[k]?).getD set = if k < w.length then setAfter g (w.take k) else set := by
  split
  · next hk => rw [getElem?_dropLast_sets w |>.mpr ⟨hk, rfl⟩, Option.getD_some]
  · next hk =>
    rw [List.getElem?_eq_none (by rw [length_dropLast_sets]; omega), Option.getD_none]

theorem mem_scans {set : ItemSet} {a : Symbol} {b : Item} : b ∈ scans g set a ↔
    a ∈ g.terminals ∧ ∃ item ∈ set, item.next? g = some a ∧ b = item.advance := by
  unfold scans
  by_cases ha : a ∈ g.terminals
  · simp only [ha, if_true, true_and, mem_advanceOver]
  · simp [ha]

/-- **All ways into a chart.** A property of prefixes and items holds of all items in
the sets if it holds of the first one and scanning, predicting, skipping and
completing keep it. -/
theorem setAfter_induction {P : List Symbol → Item → Prop} (initial : P [] .initial)
    (scan : ∀ w a item, a ∈ g.terminals → P w item → item.next? g = some a →
      P (w ++ [a]) item.advance)
    (predict : ∀ w a item id rule, P w item → item.next? g = some a → a ∉ g.terminals →
      g.rule? id = some rule → rule.lhs = a → P w ⟨id, 0, w.length⟩)
    (skip : ∀ w a item, P w item → item.next? g = some a → a ∈ g.nullable → P w item.advance)
    (complete : ∀ w a item parent, P w item → item.found? g = some a →
      P (w.take item.start) parent → parent.next? g = some a → P w parent.advance)
    (w : List Symbol) : ∀ item ∈ setAfter g w, P w item := by
  induction hn : w.length using Nat.strongRecOn generalizing w with
  | ind n ih =>
    subst hn
    rw [setAfter_eq_close]
    refine close_induction (fun b hb => ?_) fun set item b hset hi hadd => ?_
    · rcases List.eq_nil_or_concat w with rfl | ⟨v, a, rfl⟩
      · rw [List.mem_singleton.mp hb]
        exact initial
      · rw [List.concat_eq_append] at hb ih ⊢
        unfold kernelAfter at hb
        rw [List.getLast?_concat, List.dropLast_concat] at hb
        obtain ⟨ha, item, hmem, hnext, rfl⟩ := mem_scans.mp hb
        exact scan v a item ha (ih v.length (by simp) v rfl item hmem) hnext
    · cases hadd with
      | predict hn ht hr ha =>
        rw [length_dropLast_sets]
        exact predict w _ item _ _ hi hn ht hr ha
      | skip hn _ hnull => exact skip w _ item hi hn hnull
      | @complete a parent hf hp hpn =>
        refine complete w a item parent hi hf ?_ hpn
        rw [getD_dropLast_sets] at hp
        split at hp
        · next hlt => exact ih item.start hlt _ (by rw [List.length_take]; omega) parent hp
        · next hge =>
          rw [List.take_of_length_le (Nat.le_of_not_lt hge)]
          exact hset parent hp

theorem inBounds_of_mem_setAfter (w : List Symbol) :
    ∀ item ∈ setAfter g w, item.InBounds g w.length := by
  refine setAfter_induction (P := fun w item => item.InBounds g w.length) ?_ ?_ ?_ ?_ ?_ w
  · exact ⟨_, g.rule?_zero, Nat.zero_le _, Nat.le_refl _⟩
  · intro w a item _ h hn
    exact (h.advance hn).mono (by simp)
  · intro w a item id rule _ _ _ hr _
    exact ⟨rule, hr, Nat.zero_le _, Nat.le_refl _⟩
  · intro w a item h hn _
    exact h.advance hn
  · intro w a item parent _ _ h hn
    exact (h.advance hn).mono (List.length_take_le' _ _)

theorem inBounds_of_mem_sets {w : List Symbol} {k : Nat} {set : ItemSet}
    (h : (build g w).sets[k]? = some set) : ∀ item ∈ set, item.InBounds g k := by
  obtain ⟨hk, rfl⟩ := getElem?_sets_eq_some_iff.mp h
  intro item hitem
  have := inBounds_of_mem_setAfter _ item hitem
  rwa [List.length_take_of_le hk] at this

/-! ## What the sets are closed under -/

theorem initial_mem_setAfter : Item.initial ∈ setAfter g [] := by
  rw [setAfter_eq_close]
  exact mem_close_of_mem_kernel (List.mem_singleton_self _)

theorem scan_mem_setAfter {w : List Symbol} {a : Symbol} {item : Item} (ha : a ∈ g.terminals)
    (h : item ∈ setAfter g w) (hn : item.next? g = some a) : item.advance ∈ setAfter g (w ++ [a]) := by
  rw [setAfter_eq_close]
  refine mem_close_of_mem_kernel ?_
  unfold kernelAfter
  rw [List.getLast?_concat, List.dropLast_concat]
  exact mem_scans.mpr ⟨ha, item, h, hn, rfl⟩

theorem exists_seen_of_mem_setAfter {w : List Symbol} {item : Item} (h : item ∈ setAfter g w) :
    ∃ seen : ItemSet, (∀ c ∈ seen, c ∈ setAfter g w) ∧
      ∀ b, Adds g (build g w).sets.dropLast seen item b → b ∈ setAfter g w := by
  have he : ∀ (k : Nat) (s : ItemSet), (build g w).sets.dropLast[k]? = some s →
      ∀ c ∈ s, c.InBounds g k := by
    intro k s hs c hc
    obtain ⟨hk, rfl⟩ := (getElem?_dropLast_sets w).mp hs
    have := inBounds_of_mem_setAfter _ c hc
    rwa [List.length_take, Nat.min_eq_left (Nat.le_of_lt hk)] at this
  have hk : ∀ c ∈ kernelAfter g w, c.InBounds g (build g w).sets.dropLast.length := by
    intro c hc
    rw [length_dropLast_sets]
    refine inBounds_of_mem_setAfter w c ?_
    rw [setAfter_eq_close]
    exact mem_close_of_mem_kernel hc
  rw [setAfter_eq_close] at h ⊢
  exact exists_seen_of_mem_close he hk h

theorem predict_mem_setAfter {w : List Symbol} {a : Symbol} {item : Item} {id : RuleId} {rule : Rule}
    (h : item ∈ setAfter g w) (hn : item.next? g = some a) (ht : a ∉ g.terminals)
    (hr : g.rule? id = some rule) (ha : rule.lhs = a) : ⟨id, 0, w.length⟩ ∈ setAfter g w := by
  obtain ⟨seen, _, hadd⟩ := exists_seen_of_mem_setAfter h
  have := hadd _ (.predict hn ht hr ha)
  rwa [length_dropLast_sets] at this

theorem skip_mem_setAfter {w : List Symbol} {a : Symbol} {item : Item} (h : item ∈ setAfter g w)
    (hn : item.next? g = some a) (ht : a ∉ g.terminals) (hnull : a ∈ g.nullable) :
    item.advance ∈ setAfter g w := by
  obtain ⟨seen, _, hadd⟩ := exists_seen_of_mem_setAfter h
  exact hadd _ (.skip hn ht hnull)

theorem complete_mem_setAfter {w : List Symbol} {a : Symbol} {item parent : Item}
    (h : item ∈ setAfter g w) (hf : item.found? g = some a) (hs : item.start < w.length)
    (hp : parent ∈ setAfter g (w.take item.start)) (hn : parent.next? g = some a) :
    parent.advance ∈ setAfter g w := by
  obtain ⟨seen, _, hadd⟩ := exists_seen_of_mem_setAfter h
  refine hadd _ (.complete hf ?_ hn)
  rw [getD_dropLast_sets, if_pos hs]
  exact hp

/-! ## All items are valid -/

theorem valid_of_mem_setAfter (w : List Symbol) : ∀ item ∈ setAfter g w, item.Valid g w := by
  refine setAfter_induction (P := fun w item => item.Valid g w) ?_ ?_ ?_ ?_ ?_ w
  · refine ⟨_, g.rule?_zero, Nat.zero_le _, Nat.le_refl _, ?_, .inl ⟨rfl, rfl⟩⟩
    exact generates_nil
  · intro w a item ha h hn
    exact h.advance hn (generates_terminal ha)
  · intro w a item id rule h hn _ hr ha
    refine ⟨rule, hr, Nat.zero_le _, Nat.le_refl _, ?_, .inr ?_⟩
    · show g.Generates (rule.rhs.take 0) (w.drop w.length)
      rw [List.drop_length]
      exact generates_nil
    · show g.Predicts (w.take w.length) rule.lhs
      rw [List.take_length, ha]
      exact h.predicts hn
  · intro w a item h hn hnull
    have := h.advance hn (generates_nil_of_mem_nullable a hnull)
    rwa [List.append_nil] at this
  · intro w a item parent h hf hp hn
    exact h.complete hf hp hn

/-! ## All valid items are found -/

theorem next?_of_drop {item : Item} {rule : Rule} {a : Symbol} {α : List Symbol}
    (hr : g.rule? item.rule = some rule) (h : rule.rhs.drop item.dot = a :: α) :
    item.next? g = some a ∧ rule.rhs.drop (item.dot + 1) = α := by
  refine ⟨Item.next?_eq_some_iff.mpr ⟨rule, hr, ?_⟩, ?_⟩
  · rw [← List.head?_drop, h, List.head?_cons]
  · rw [← List.tail_drop, h, List.tail_cons]

/-- The dot of an item moves over all that has derivations of the next input. An empty
derivation is skipped over, any other one completes the item from an earlier set. -/
theorem advance_mem_setAfter {α : List Symbol} {ds : List Derivation} (h : g.Derivations α ds) :
    ∀ {w β : List Symbol} {item : Item} {rule : Rule}, item ∈ setAfter g w →
      g.rule? item.rule = some rule → rule.rhs.drop item.dot = α ++ β →
      ⟨item.rule, item.dot + α.length, item.start⟩ ∈ setAfter g (w ++ words ds) := by
  induction h with
  | nil =>
    intro w β item rule hi _ _
    simpa using hi
  | @leaf a α ds ha _ ih =>
    intro w β item rule hi hr hd
    obtain ⟨hn, hd'⟩ := next?_of_drop hr hd
    have := ih (scan_mem_setAfter ha hi hn) hr hd'
    simpa [Item.advance, Nat.add_comm, Nat.add_left_comm] using this
  | @node id rule' cs α es hid hc _ ihc ih =>
    intro w β item rule hi hr hd
    obtain ⟨hn, hd'⟩ := next?_of_drop hr hd
    have ht := g.lhs_not_mem_terminals (mem_rules_of_rule? hid)
    have hwhole := ihc (β := []) (predict_mem_setAfter hi hn ht hid rfl) hid (by simp)
    have hadv : item.advance ∈ setAfter g (w ++ words cs) := by
      by_cases hw : words cs = []
      · rw [hw, List.append_nil]
        exact skip_mem_setAfter hi hn ht
          (nullable_closed (mem_rules_of_rule? hid) (mem_nullable_of_words_eq_nil hc hw))
      · have hf : Item.found? g ⟨id, 0 + rule'.rhs.length, w.length⟩ = some rule'.lhs :=
          Item.found?_eq_some_iff.mpr ⟨rule', hid, Nat.zero_add _, rfl⟩
        refine complete_mem_setAfter hwhole hf ?_ ?_ hn
        · have := List.length_pos_iff.mpr hw
          simpa using this
        · rw [List.take_left]
          exact hi
    have := ih hadv hr hd'
    simpa [Item.advance, Nat.add_comm, Nat.add_left_comm] using this

theorem advance_node_mem_setAfter {w α : List Symbol} {item : Item} {rule r : Rule} {id : RuleId}
    {cs : List Derivation} (hi : item ∈ setAfter g w) (hr : g.rule? item.rule = some rule)
    (hd : rule.rhs.drop item.dot = r.lhs :: α) (hid : g.rule? id = some r) (hc : g.Derivations r.rhs cs) :
    item.advance ∈ setAfter g (w ++ words cs) := by
  have := advance_mem_setAfter (.node hid hc .nil) hi hr (β := α) (by simpa using hd)
  rwa [words_node, words_nil, List.append_nil] at this

/-- What can follow a word of terminals in an expansion of the rest of an item is predicted
behind the word. -/
theorem predict_mem_of_expands {α β : List Symbol} (h : g.Expands α β) :
    ∀ {w v γ δ : List Symbol} {a : Symbol} {item : Item} {rule : Rule}, item ∈ setAfter g w →
      g.rule? item.rule = some rule → rule.rhs.drop item.dot = α ++ δ → β = v ++ a :: γ →
      (∀ b ∈ v, b ∈ g.terminals) → ∀ {id : RuleId} {r : Rule}, g.rule? id = some r → r.lhs = a →
      ⟨id, 0, (w ++ v).length⟩ ∈ setAfter g (w ++ v) := by
  induction h with
  | nil =>
    intro w v γ δ a item rule _ _ _ hβ
    simp at hβ
  | @keep b α β _ ih =>
    intro w v γ δ a item rule hi hr hd hβ hv id r hid ha
    obtain ⟨hn, hd'⟩ := next?_of_drop hr hd
    rcases List.cons_eq_append_iff.mp hβ with ⟨rfl, hc⟩ | ⟨v', rfl, hβ'⟩
    · obtain ⟨rfl, rfl⟩ := List.cons.inj hc
      rw [List.append_nil]
      exact predict_mem_setAfter hi hn (ha ▸ g.lhs_not_mem_terminals (mem_rules_of_rule? hid)) hid ha
    · have := ih (scan_mem_setAfter (hv b (by simp)) hi hn) hr hd' hβ'
        (fun c hc => hv c (by simp [hc])) hid ha
      simpa using this
  | @expand rule' α v' β' hmem he _ ihe ih =>
    intro w v γ δ a item rule hi hr hd hβ hv id r hid ha
    obtain ⟨hn, hd'⟩ := next?_of_drop hr hd
    obtain ⟨id', hid'⟩ := exists_rule?_of_mem hmem
    have ht := g.lhs_not_mem_terminals hmem
    have inside : ∀ x, v' = v ++ a :: x → ⟨id, 0, (w ++ v).length⟩ ∈ setAfter g (w ++ v) := fun x hx =>
      ihe (δ := []) (predict_mem_setAfter hi hn ht hid' rfl) hid' (by simp) hx hv hid ha
    rcases List.append_eq_append_iff.mp hβ with ⟨x, rfl, hx⟩ | ⟨x, hv', hx⟩
    · -- the expansion of the first symbol ends inside the word
      obtain ⟨ds, hds, rfl⟩ := he.generates fun b hb => hv b (by simp [hb])
      have hadv := advance_node_mem_setAfter hi hr hd hid' hds
      have := ih hadv hr hd' hx (fun b hb => hv b (by simp [hb])) hid ha
      simpa using this
    · rcases List.cons_eq_append_iff.mp hx with ⟨rfl, hβ'⟩ | ⟨x', rfl, _⟩
      · -- the expansion of the first symbol is the word
        rw [List.append_nil] at hv'
        subst hv'
        obtain ⟨ds, hds, rfl⟩ := he.generates hv
        have hadv := advance_node_mem_setAfter hi hr hd hid' hds
        have := ih (v := []) hadv hr hd' hβ' nofun hid ha
        simpa using this
      · exact inside x' hv'

theorem predicted_mem_setAfter {w : List Symbol} {id : RuleId} {rule : Rule}
    (h : g.Predicts w rule.lhs) (hr : g.rule? id = some rule) : ⟨id, 0, w.length⟩ ∈ setAfter g w := by
  obtain ⟨hw, γ, hγ⟩ := h
  have := predict_mem_of_expands hγ.expands (δ := []) initial_mem_setAfter g.rule?_zero
    (by simp [Item.initial]) rfl hw hr rfl
  rwa [List.nil_append] at this

/-- The set behind a prefix holds the items that are valid there and no others. -/
theorem mem_setAfter_iff {w : List Symbol} {item : Item} : item ∈ setAfter g w ↔ item.Valid g w := by
  refine ⟨valid_of_mem_setAfter w item, fun h => ?_⟩
  obtain ⟨rule, hr, hd, hs, ⟨ds, hds, hw⟩, hpred⟩ := h
  have hlen : (w.take item.start).length = item.start := by rw [List.length_take, Nat.min_eq_left hs]
  have hstart : ⟨item.rule, 0, item.start⟩ ∈ setAfter g (w.take item.start) := by
    rcases hpred with ⟨hzero, hstart⟩ | hpred
    · rw [hzero, hstart, List.take_zero]
      exact initial_mem_setAfter
    · have := predicted_mem_setAfter hpred hr
      rwa [hlen] at this
  have := advance_mem_setAfter hds hstart hr (β := rule.rhs.drop item.dot) (by simp)
  rw [hw, List.take_append_drop, List.length_take, Nat.min_eq_left hd, Nat.zero_add] at this
  exact this

theorem accepts_iff (w : List Symbol) :
    (build g w).accepts g = true ↔ g.Generates g.startRule.rhs w := by
  have : (build g w).accepts g = true ↔ acceptingItem g ∈ setAfter g w := by
    unfold accepts setAfter
    exact decide_eq_true_iff
  rw [this, mem_setAfter_iff]
  constructor
  · intro h
    obtain ⟨rule, hr, _, _, hgen, _⟩ := h
    obtain rfl := Option.some.inj (g.rule?_zero.symm.trans hr)
    simpa [acceptingItem] using hgen
  · intro h
    exact ⟨_, g.rule?_zero, Nat.le_refl _, Nat.zero_le _, by simpa [acceptingItem] using h, .inl ⟨rfl, rfl⟩⟩

/-- **Charts are exact.** The set at a position holds the items whose part before the dot
derives the input from their start up to there and whose rule is the start rule or predicted
at their start, and no others. So a chart accepts exactly what rule 0 derives. -/
theorem mem_sets_build_iff (g : Grammar) (input : List Symbol) :
    (build g input).sets.length = input.length + 1 ∧
    (∀ k item, (∃ set, (build g input).sets[k]? = some set ∧ item ∈ set) ↔
      k ≤ input.length ∧ ∃ rule, g.rule? item.rule = some rule ∧ item.dot ≤ rule.rhs.length ∧
        item.start ≤ k ∧ g.Generates (rule.rhs.take item.dot) ((input.take k).drop item.start) ∧
        (item.rule = 0 ∧ item.start = 0 ∨ g.Predicts (input.take item.start) rule.lhs)) ∧
    ((build g input).accepts g = true ↔ g.Generates g.startRule.rhs input) := by
  refine ⟨length_sets input, fun k item => ?_, accepts_iff input⟩
  have hvalid : k ≤ input.length → (item.Valid g (input.take k) ↔
      ∃ rule, g.rule? item.rule = some rule ∧ item.dot ≤ rule.rhs.length ∧ item.start ≤ k ∧
        g.Generates (rule.rhs.take item.dot) ((input.take k).drop item.start) ∧
        (item.rule = 0 ∧ item.start = 0 ∨ g.Predicts (input.take item.start) rule.lhs)) := by
    intro hk
    unfold Item.Valid
    rw [List.length_take, Nat.min_eq_left hk]
    refine exists_congr fun rule => and_congr_right fun _ => and_congr_right fun _ =>
      and_congr_right fun hs => ?_
    rw [List.take_take, Nat.min_eq_left hs]
  constructor
  · intro h
    obtain ⟨set, hset, hmem⟩ := h
    have hlt := (List.getElem?_eq_some_iff.mp hset).1
    rw [length_sets] at hlt
    have hk := Nat.le_of_lt_succ hlt
    rw [getElem?_sets input hk] at hset
    obtain rfl := Option.some.inj hset
    exact ⟨hk, (hvalid hk).mp (mem_setAfter_iff.mp hmem)⟩
  · intro h
    obtain ⟨hk, h⟩ := h
    exact ⟨_, getElem?_sets input hk, mem_setAfter_iff.mpr ((hvalid hk).mpr h)⟩

end

end Chart

end ParseForest
