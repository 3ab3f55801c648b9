import ParseForest.Proofs.Forest

/-!
# Extraction terminates

The extraction of a forest asks itself for the trees of rules over parts of the input.
`calls` lists what it asks for inside one call, and `Evaluates` is the recursion without a
bound on how deep calls nest. A call inside another one covers less of the input or lowers
the rank of its non-terminal (`weight_lt_of_mem_calls`), so chains of calls are short and
without repetition, and the bounded recursion finds what the unbounded one does.
-/

namespace ParseForest

open Grammar

namespace Forest

section
variable (g : Grammar) (index : SpanIndex) (input : List Symbol)
variable (trees : RuleId → Nat → Nat → List Tree)

/-- What is asked for to expand symbols over a part of the input, in order, if `trees` are the
answers. Behind an entry that has no tree nothing more is asked for. -/
def requests : List Symbol → Nat → Nat → List Application
  | [], _, _ => []
  | symbol :: rest, start, stop =>
    if stop < start + g.leastLength (symbol :: rest) then []
    else if symbol ∈ g.terminals then
      if input[start]? = some symbol then requests rest (start + 1) stop else []
    else
      (index.startingAt start).flatMap fun entry =>
        match g.rule? entry.rule with
        | none => []
        | some rule =>
          if rule.lhs ≠ symbol ∨ stop < entry.stop + g.leastLength rest then []
          else ⟨entry.rule, start, entry.stop⟩ ::
            match trees entry.rule start entry.stop with
            | [] => []
            | _ => requests rest entry.stop stop

/-- The calls directly inside a call, if `trees` are the answers to them. -/
def calls (ap : Application) : List Application :=
  match g.rule? ap.rule with
  | none => []
  | some rule => requests g index input trees rule.rhs ap.start ap.stop

/-- The answer to a call, if `trees` are the answers to the calls inside. -/
def answer (ap : Application) : List Tree :=
  match g.rule? ap.rule with
  | none => []
  | some rule =>
    if rule.rhs.isEmpty then [.emptyNode rule.lhs.name]
    else
      ((candidates g index input trees rule.rhs ap.start ap.stop).filter
        (·.width = ap.stop - ap.start)).map fun candidate => .branch rule.lhs.name candidate.trees

/-- The recursion without a bound: a call has an answer once all calls inside have theirs.
A call inside which others nest for ever has none. -/
inductive Evaluates : Application → List Tree → Prop
  | intro {ap} (trees : RuleId → Nat → Nat → List Tree) :
      (∀ c ∈ calls g index input trees ap, Evaluates c (trees c.rule c.start c.stop)) →
      Evaluates ap (answer g index input trees ap)

/-- A call can occur directly inside another one, whatever the answers before it are. -/
def Nests (outer inner : Application) : Prop :=
  ∃ trees, inner ∈ calls g index input trees outer

def rootCall : Application := ⟨0, 0, input.length⟩

/-- The extraction of a forest by the recursion without a bound. -/
def Extracts (forest : List Tree) : Prop :=
  if ⟨0, input.length⟩ ∈ index.startingAt 0 then Evaluates g index input (rootCall input) forest
  else forest = []

/-- The non-terminal that a call expands and the part of the input over which it does. -/
def callPart (ap : Application) : Option Symbol × Nat × Nat :=
  ((g.rule? ap.rule).map (·.lhs), ap.start, ap.stop)

end

section
variable {g : Grammar} {index : SpanIndex} {input : List Symbol}
  {trees : RuleId → Nat → Nat → List Tree}

theorem ruleTrees_succ (depth : Nat) (ap : Application) :
    ruleTrees g index input (depth + 1) ap.rule ap.start ap.stop =
      answer g index input (ruleTrees g index input depth) ap := rfl

/-! ## What is asked for decides the answer -/

theorem candidates_congr {other : RuleId → Nat → Nat → List Tree} {α : List Symbol} :
    ∀ {k m : Nat}, (∀ c ∈ requests g index input trees α k m,
        c ∈ requests g index input other α k m →
        trees c.rule c.start c.stop = other c.rule c.start c.stop) →
      candidates g index input trees α k m = candidates g index input other α k m := by
  induction α with
  | nil => intro k m _; rfl
  | cons a α ih =>
    intro k m h
    simp only [requests, candidates] at h ⊢
    by_cases hm : m < k + g.leastLength (a :: α)
    · simp [hm]
    simp only [hm, if_false] at h ⊢
    by_cases ha : a ∈ g.terminals
    · simp only [ha, if_true] at h ⊢
      by_cases hk : input[k]? = some a
      · simp only [hk, if_true] at h ⊢
        rw [ih h]
      · simp [hk]
    simp only [ha, if_false, List.mem_flatMap] at h ⊢
    refine List.flatMap_congr fun entry hentry => ?_
    replace h := fun c hc hc' => h c ⟨entry, hentry, hc⟩ ⟨entry, hentry, hc'⟩
    cases hr : g.rule? entry.rule with
    | none => rfl
    | some rule =>
      simp only [hr] at h ⊢
      by_cases hc : rule.lhs ≠ a ∨ m < entry.stop + g.leastLength α
      · simp [hc]
      simp only [hc, if_false, List.mem_cons] at h ⊢
      -- the entry itself is asked for first, whatever comes behind it
      have hfirst := h _ (.inl rfl) (.inl rfl)
      simp only at hfirst
      rw [hfirst] at h ⊢
      cases ht : other entry.rule k entry.stop with
      | nil => rfl
      | cons t ts =>
        simp only [ht] at h ⊢
        rw [ih fun c hc hc' => h c (.inr hc) (.inr hc')]

theorem answer_congr {other : RuleId → Nat → Nat → List Tree} {ap : Application}
    (h : ∀ c ∈ calls g index input trees ap, c ∈ calls g index input other ap →
      trees c.rule c.start c.stop = other c.rule c.start c.stop) :
    answer g index input trees ap = answer g index input other ap := by
  unfold calls at h
  unfold answer
  cases hr : g.rule? ap.rule with
  | none => rfl
  | some rule =>
    simp only [hr] at h ⊢
    rw [candidates_congr h]

theorem Evaluates.unique {ap : Application} {ts us : List Tree} (h : Evaluates g index input ap ts)
    (h' : Evaluates g index input ap us) : ts = us := by
  induction h generalizing us with
  | intro trees _ ih =>
    cases h' with
    | intro other hother => exact answer_congr fun c hc hc' => ih c hc (hother c hc')

/-! ## Calls inside a call -/

section
variable (hidx : index.Sound g)
  (hnull : ∀ {k entry rule}, entry ∈ index.startingAt k → g.rule? entry.rule = some rule →
    entry.stop = k → rule.lhs ∈ g.nullable)
include hidx hnull

/-- What is asked for belongs to a symbol of the list. If it begins where the part begins, all
symbols before are nullable, and it leaves room for the symbols behind. -/
theorem exists_of_mem_requests {c : Application} {α : List Symbol} : ∀ {k m : Nat},
    c ∈ requests g index input trees α k m → ∃ rule p q, g.rule? c.rule = some rule ∧
      α = p ++ rule.lhs :: q ∧ k ≤ c.start ∧ c.start ≤ c.stop ∧ c.stop + g.leastLength q ≤ m ∧
      (c.start = k → ∀ b ∈ p, b ∈ g.nullable) := by
  induction α with
  | nil => intro k m h; cases h
  | cons a α ih =>
    intro k m h
    simp only [requests] at h
    by_cases hm : m < k + g.leastLength (a :: α)
    · simp [hm] at h
    simp only [hm, if_false] at h
    by_cases ha : a ∈ g.terminals
    · by_cases hk : input[k]? = some a
      · simp only [ha, hk, if_true] at h
        obtain ⟨rule, p, q, hr, rfl, hs, hle, hq, _⟩ := ih h
        exact ⟨rule, a :: p, q, hr, rfl, by omega, hle, hq, by omega⟩
      · simp [ha, hk] at h
    simp only [ha, if_false, List.mem_flatMap] at h
    obtain ⟨entry, hentry, h⟩ := h
    have hle := hidx.le_stop hentry
    cases hr : g.rule? entry.rule with
    | none => simp [hr] at h
    | some rule =>
      simp only [hr] at h
      by_cases hc : rule.lhs ≠ a ∨ m < entry.stop + g.leastLength α
      · simp [hc] at h
      simp only [hc, if_false, List.mem_cons] at h
      obtain ⟨hlhs, hroom⟩ := not_or.mp hc
      obtain rfl := not_not.mp hlhs
      rcases h with rfl | h
      · exact ⟨rule, [], α, hr, rfl, Nat.le_refl k, hle, by simpa using hroom, by simp⟩
      · have hrest : c ∈ requests g index input trees α entry.stop m := by
          split at h
          · cases h
          · exact h
        obtain ⟨child, p, q, hcr, rfl, hs, hle', hq, hp⟩ := ih hrest
        refine ⟨child, rule.lhs :: p, q, hcr, rfl, by omega, hle', hq, fun hk => ?_⟩
        have hzero : entry.stop = k := by omega
        exact List.forall_mem_cons.mpr ⟨hnull hentry hr hzero, hp (by omega)⟩

theorem exists_of_mem_calls {c ap : Application} (h : c ∈ calls g index input trees ap) :
    ∃ rule child, g.rule? ap.rule = some rule ∧ g.rule? c.rule = some child ∧ c.start ≤ c.stop ∧
      c.stop - c.start ≤ ap.stop - ap.start ∧
      (c.stop - c.start = ap.stop - ap.start → child.lhs ∈ g.steps rule.lhs) := by
  unfold calls at h
  cases hr : g.rule? ap.rule with
  | none => simp [hr] at h
  | some rule =>
    simp only [hr] at h
    obtain ⟨child, p, q, hc, hrhs, hs, hle, hq, hp⟩ := exists_of_mem_requests hidx hnull h
    refine ⟨rule, child, rfl, hc, hle, by omega, fun heq => ?_⟩
    -- the same part: nothing stands before the child and nothing behind it
    have hq' : ∀ b ∈ q, b ∈ g.nullable := by
      have : g.leastLength q = 0 := by omega
      simpa [leastLength] using this
    refine mem_unitSteps.mpr ⟨rule, mem_rules_of_rule? hr, rfl, mem_unitSymbols.mpr
      ⟨g.lhs_not_mem_terminals (mem_rules_of_rule? hc), p, q, hrhs, ?_⟩⟩
    intro b hb
    rcases List.mem_append.mp hb with hb | hb
    · exact hp (by omega) b hb
    · exact hq' b hb

end

/-! ## Chains of calls -/

/-- What a call has still to cover, with the rank of its non-terminal. -/
def weight (g : Grammar) (r : Symbol → Nat) : Option Symbol × Nat × Nat → Nat
  | (lhs, start, stop) => g.nonterminals.size * (stop - start) + (lhs.map r).getD 0

theorem weight_callPart {r : Symbol → Nat} {ap : Application} {rule : Rule}
    (hr : g.rule? ap.rule = some rule) :
    weight g r (callPart g ap) = g.nonterminals.size * (ap.stop - ap.start) + r rule.lhs := by
  simp [weight, callPart, hr]

theorem lhs_mem_nonterminals {id : RuleId} {rule : Rule} (hr : g.rule? id = some rule) :
    rule.lhs ∈ g.nonterminals :=
  g.mem_nonterminals.mpr ⟨rule, mem_rules_of_rule? hr, rfl⟩

section
variable (hidx : index.Sound g)
  (hnull : ∀ {k entry rule}, entry ∈ index.startingAt k → g.rule? entry.rule = some rule →
    entry.stop = k → rule.lhs ∈ g.nullable)
  {r : Symbol → Nat} (hpos : ∀ a ∈ g.nonterminals, 0 < r a ∧ r a ≤ g.nonterminals.size)
  (hsteps : ∀ a ∈ g.nonterminals, ∀ b ∈ g.steps a, r b < r a)
include hidx hnull hpos hsteps

theorem weight_lt_of_mem_calls {c ap : Application} (h : c ∈ calls g index input trees ap) :
    0 < weight g r (callPart g c) ∧ weight g r (callPart g c) < weight g r (callPart g ap) := by
  obtain ⟨rule, child, hr, hc, _, hle, hstep⟩ := exists_of_mem_calls hidx hnull h
  rw [weight_callPart hr, weight_callPart hc]
  have hchild := lhs_mem_nonterminals hc
  refine ⟨?_, rank_add_lt hpos hsteps (lhs_mem_nonterminals hr) hchild hle hstep⟩
  have := (hpos _ hchild).1
  omega

/-- Along a chain of nested calls the weights go down, so no part is expanded twice for the same
non-terminal and the chain is no longer than its first weight. -/
theorem chain_bounded {l : List Application} : ∀ {ap : Application},
    0 < weight g r (callPart g ap) → (ap :: l).IsChain (Nests g index input) →
    (∀ c ∈ l, weight g r (callPart g c) < weight g r (callPart g ap)) ∧
    ((ap :: l).map (callPart g)).Nodup ∧ (ap :: l).length ≤ weight g r (callPart g ap) := by
  induction l with
  | nil => intro ap h _; exact ⟨nofun, by simp, h⟩
  | cons c l ih =>
    intro ap _ hchain
    obtain ⟨⟨trees, hc⟩, hchain⟩ := List.isChain_cons_cons.mp hchain
    obtain ⟨hcpos, hlt⟩ := weight_lt_of_mem_calls hidx hnull hpos hsteps hc
    obtain ⟨hall, hnodup, hlen⟩ := ih hcpos hchain
    have hbelow : ∀ d ∈ c :: l, weight g r (callPart g d) < weight g r (callPart g ap) :=
      List.forall_mem_cons.mpr ⟨hlt, fun d hd => Nat.lt_trans (hall d hd) hlt⟩
    refine ⟨hbelow, ?_, by rw [List.length_cons]; omega⟩
    rw [List.map_cons, List.nodup_cons]
    refine ⟨fun hm => ?_, hnodup⟩
    obtain ⟨d, hd, heq⟩ := List.mem_map.mp hm
    have := hbelow d hd
    rw [heq] at this
    exact Nat.lt_irrefl _ this

theorem evaluates_ruleTrees {depth : Nat} : ∀ {ap : Application}, 0 < weight g r (callPart g ap) →
    weight g r (callPart g ap) ≤ depth →
    Evaluates g index input ap (ruleTrees g index input depth ap.rule ap.start ap.stop) := by
  induction depth with
  | zero => intro ap hp hle; omega
  | succ depth ih =>
    intro ap _ hle
    rw [ruleTrees_succ]
    refine .intro _ fun c hc => ?_
    obtain ⟨hcpos, hlt⟩ := weight_lt_of_mem_calls hidx hnull hpos hsteps hc
    exact ih hcpos (by omega)

end

theorem weight_rootCall {r : Symbol → Nat}
    (hpos : ∀ a ∈ g.nonterminals, 0 < r a ∧ r a ≤ g.nonterminals.size) (input : List Symbol) :
    0 < weight g r (callPart g (rootCall input)) ∧
      weight g r (callPart g (rootCall input)) ≤ depthBound g input := by
  have hz : g.rule? (rootCall input).rule = some g.startRule := g.rule?_zero
  obtain ⟨hlo, hhi⟩ := hpos _ (lhs_mem_nonterminals hz)
  rw [weight_callPart hz, depthBound, Nat.mul_succ]
  simp only [rootCall, Nat.sub_zero]
  omega

end

/-- **Extraction terminates.** Over the chart of any input `a`, the extraction of the forest of any
input `b` without a bound on nesting has exactly one outcome, the forest that the bounded one
finds. On a chain of nested calls no non-terminal is expanded twice over the same part of the
input, and no chain is longer than non-terminals times positions. -/
theorem extraction_terminates (g : Grammar) (a b : List Symbol) :
    (∀ forest, Extracts g (.ofChart g (.build g a)) b forest ↔
      forest = ofIndex g (.ofChart g (.build g a)) b) ∧
    ∀ chain, (rootCall b :: chain).IsChain (Nests g (.ofChart g (.build g a)) b) →
      ((rootCall b :: chain).map (callPart g)).Nodup ∧
      (rootCall b :: chain).length ≤ g.nonterminals.size * (b.length + 1) := by
  obtain ⟨r, hpos, hsteps⟩ := g.exists_rank
  have hidx := SpanIndex.sound_build g a
  have hnull := @SpanIndex.lhs_mem_nullable_of_startingAt g a
  obtain ⟨hlo, hhi⟩ := weight_rootCall hpos b
  constructor
  · intro forest
    have heval : Evaluates g (.ofChart g (.build g a)) b (rootCall b) _ :=
      evaluates_ruleTrees hidx hnull hpos hsteps hlo hhi
    unfold Extracts ofIndex
    rw [if_congr (any_root_iff _ b) rfl rfl]
    split
    · exact ⟨fun h => h.unique heval, fun h => h ▸ heval⟩
    · rfl
  · intro chain hchain
    obtain ⟨_, hnodup, hlen⟩ := chain_bounded hidx hnull hpos hsteps hlo hchain
    exact ⟨hnodup, Nat.le_trans hlen hhi⟩

end Forest

end ParseForest
