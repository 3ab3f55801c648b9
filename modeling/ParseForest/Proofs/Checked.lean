import ParseForest.Grammar.English
import ParseForest.Proofs.InPlace
import ParseForest.Proofs.Nesting

/-!
# No run fails

The index and the forest are made once more with every access checked: a rule, a bucket or a
part of a list that is not there, a difference below zero and a nesting that is too deep
leave no result. Over the chart of any input there is always one (`ofSets?_eq_some`,
`ofIndex?_eq_some`), and it is the one of the functions without checks.
-/

namespace ParseForest

open Grammar

/-- A difference that is not below zero. -/
def sub? (a b : Nat) : Option Nat :=
  if b ≤ a then some (a - b) else none

/-- The part of a list from a place on that is not behind its end. -/
def from? {α : Type} (l : List α) (place : Nat) : Option (List α) :=
  if place ≤ l.length then some (l.drop place) else none

/-! ## The index -/

namespace SpanIndex

/-- The buckets with an item of the set at `stop`, if it was found as a whole. -/
def file? (g : Grammar) (stop : Nat) (buckets : List (List RuleSpan)) (item : Item) :
    Option (List (List RuleSpan)) := do
  let rule ← g.rule? item.rule
  if item.dot = rule.rhs.length then
    return buckets.set item.start ((← buckets[item.start]?) ++ [⟨item.rule, stop⟩])
  else return buckets

/-- The index of the sets of a chart, filled item by item. -/
def ofSets? (g : Grammar) (sets : List ItemSet) : Option SpanIndex := do
  return ⟨← sets.zipIdx.foldlM (fun buckets (set, stop) => set.items.foldlM (file? g stop) buckets)
    (List.replicate sets.length [])⟩

/-- What an item of the set at `stop` puts into the bucket of a start. -/
def ofItem (g : Grammar) (stop : Nat) (item : Item) (start : Nat) : List RuleSpan :=
  if item.start = start ∧ (item.found? g).isSome then [⟨item.rule, stop⟩] else []

theorem ofSet_eq_flatMap (g : Grammar) (start stop : Nat) (set : ItemSet) :
    ofSet g start stop set = set.items.flatMap (ofItem g stop · start) := by
  unfold ofSet
  induction set.items with
  | nil => rfl
  | cons item items ih =>
    rw [List.flatMap_cons, ← ih, List.filter_cons]
    by_cases h : item.start = start ∧ (item.found? g).isSome
    · rw [if_pos (decide_eq_true h), ofItem, if_pos h]
      rfl
    · rw [if_neg (by rw [decide_eq_false h]; exact Bool.false_ne_true), ofItem, if_neg h]
      rfl

theorem foldlM_table {α β : Type} (step : List (List β) → α → Option (List (List β)))
    (add : α → Nat → List β) {n : Nat} {l : List α}
    (hstep : ∀ a ∈ l, ∀ f : Nat → List β, step ((List.range n).map f) a =
      some ((List.range n).map fun i => f i ++ add a i)) (f : Nat → List β) :
    l.foldlM step ((List.range n).map f) =
      some ((List.range n).map fun i => f i ++ l.flatMap (add · i)) := by
  induction l generalizing f with
  | nil => simp
  | cons a l ih =>
    rw [List.foldlM_cons, hstep a (by simp)]
    have := ih (fun b hb => hstep b (by simp [hb])) fun i => f i ++ add a i
    simpa using this

theorem set_table {β : Type} {n i : Nat} (f : Nat → β) (b : β) :
    ((List.range n).map f).set i b = (List.range n).map fun j => if i = j then b else f j :=
  List.ext_getElem (by simp) fun j _ _ => by simp [List.getElem_set]

theorem file?_eq_some {g : Grammar} {stop n : Nat} {item : Item} {k : Nat} (h : item.InBounds g k)
    (hk : k < n) (f : Nat → List RuleSpan) : file? g stop ((List.range n).map f) item =
      some ((List.range n).map fun start => f start ++ ofItem g stop item start) := by
  obtain ⟨rule, hr, hdot, hstart⟩ := h
  have hlt : item.start < n := by omega
  by_cases hend : item.dot = rule.rhs.length
  · have hfound : item.found? g = some rule.lhs := Item.found?_eq_some_iff.mpr ⟨rule, hr, hend, rfl⟩
    have hfile : file? g stop ((List.range n).map f) item =
        some (((List.range n).map f).set item.start (f item.start ++ [⟨item.rule, stop⟩])) := by
      simp [file?, hr, hend, hlt]
    rw [hfile, set_table]
    refine congrArg some (List.map_congr_left fun start _ => ?_)
    by_cases hs : item.start = start
    · simp [ofItem, hs, hfound]
    · simp [ofItem, hs]
  · have hfound : item.found? g = none := by simp [Item.found?, hr, hend]
    simp [file?, hr, hend, ofItem, hfound]

theorem ofSets?_eq_some {g : Grammar} {sets : List ItemSet}
    (h : ∀ (k : Nat) (set : ItemSet), sets[k]? = some set → ∀ item ∈ set, item.InBounds g k) :
    ofSets? g sets = some (ofChart g ⟨sets⟩) := by
  have hset : ∀ entry ∈ sets.zipIdx, ∀ f : Nat → List RuleSpan,
      entry.1.items.foldlM (file? g entry.2) ((List.range sets.length).map f) =
        some ((List.range sets.length).map fun start => f start ++ ofSet g start entry.2 entry.1) := by
    intro entry hentry f
    have hk := List.mem_zipIdx_iff_getElem?.mp hentry
    simp only [ofSet_eq_flatMap]
    exact foldlM_table (file? g entry.2) (ofItem g entry.2) (fun item hitem =>
      file?_eq_some (h _ _ hk item hitem) (List.getElem?_eq_some_iff.mp hk).1) f
  have := foldlM_table (fun buckets (entry : ItemSet × Nat) => entry.1.items.foldlM (file? g entry.2) buckets)
    (fun entry start => ofSet g start entry.2 entry.1) hset fun _ => []
  have hempty : (List.range sets.length).map (fun _ => ([] : List RuleSpan)) =
    List.replicate sets.length [] := by simp
  rw [hempty] at this
  simp [ofSets?, this, ofChart]

end SpanIndex

/-! ## The forest -/

namespace Forest

section
variable (g : Grammar) (index : SpanIndex) (input : List Symbol)

/-- The candidates that begin with an entry for a symbol. -/
def candidatesAt (trees : RuleId → Nat → Nat → List Tree) (symbol : Symbol) (α : List Symbol)
    (start stop : Nat) (entry : RuleSpan) : List Candidate :=
  match g.rule? entry.rule with
  | none => []
  | some rule =>
    if rule.lhs ≠ symbol ∨ stop < entry.stop + g.leastLength α then []
    else match trees entry.rule start entry.stop with
      | [] => []
      | subtrees => combine rule.rhs.length (entry.stop - start) (stop - start) subtrees
          (candidates g index input trees α entry.stop stop)

/-- The candidates that begin with an entry for a symbol, given the trees for a rule over a part
and the candidates for the symbols behind it from a position on. -/
def candidatesAt? (trees : RuleId → Nat → Nat → Option (List Tree)) (symbol : Symbol)
    (restLength start stop : Nat) (behind : Nat → Option (List Candidate)) (entry : RuleSpan) :
    Option (List Candidate) := do
  let rule ← g.rule? entry.rule
  if rule.lhs ≠ symbol ∨ stop < entry.stop + restLength then return []
  else
    match ← trees entry.rule start entry.stop with
    | [] => return []
    | subtrees =>
      return combine rule.rhs.length (← sub? entry.stop start) (← sub? stop start) subtrees
        (← behind entry.stop)

/-- The candidates for the symbols of a rule from a dot on, given the trees for a rule over a part.
There are none if more symbols are left than steps. -/
def siblings? (trees : RuleId → Nat → Nat → Option (List Tree)) (id : RuleId) :
    Nat → Nat → Nat → Nat → Option (List Candidate)
  | 0, _, _, _ => none
  | steps + 1, dot, start, stop => do
    let rule ← g.rule? id
    match rule.rhs[dot]? with
    | none => return if start = stop then [⟨[], 0⟩] else []
    | some symbol =>
      if stop < start + g.leastLength (← from? rule.rhs dot) then return []
      else
        let restLength := g.leastLength (← from? rule.rhs (dot + 1))
        if symbol ∈ g.terminals then
          if input[start]? = some symbol then
            return (← siblings? trees id steps (dot + 1) (start + 1) stop).map fun candidate =>
              ⟨.leaf symbol.name :: candidate.trees, 1 + candidate.width⟩
          else return []
        else
          return (← (index.startingAt start).mapM (candidatesAt? g trees symbol restLength start stop
            fun behind => siblings? trees id steps (dot + 1) behind stop)).flatten

/-- The trees for a rule over a part of the input. There are none if rules nest deeper than the
bound. -/
def ruleTrees? : Nat → RuleId → Nat → Nat → Option (List Tree)
  | 0, _, _, _ => none
  | depth + 1, id, start, stop => do
    let rule ← g.rule? id
    if rule.rhs.isEmpty then return [.emptyNode rule.lhs.name]
    else
      let found ← siblings? g index input (ruleTrees? depth) id (rule.rhs.length + 1) 0 start stop
      let width ← sub? stop start
      return (found.filter (·.width = width)).map fun candidate =>
        .branch rule.lhs.name candidate.trees

/-- The trees of the first entry of the start rule over the whole input, if there is one. -/
def ofIndex? : Option (List Tree) :=
  match (index.startingAt 0).find? fun entry => entry.rule = 0 ∧ entry.stop = input.length with
  | some root => ruleTrees? g index input (depthBound g input) root.rule 0 root.stop
  | none => some []

end

section
variable {g : Grammar} {index : SpanIndex} {input : List Symbol}
  {trees : RuleId → Nat → Nat → List Tree} {checked : RuleId → Nat → Nat → Option (List Tree)}

theorem sub?_eq_some {a b : Nat} (h : b ≤ a) : sub? a b = some (a - b) :=
  if_pos h

theorem candidatesAt?_eq_some {symbol : Symbol} {α : List Symbol} {k m : Nat} {entry : RuleSpan} {rule : Rule}
    {behind : Nat → Option (List Candidate)} (hr : g.rule? entry.rule = some rule)
    (hk : k ≤ entry.stop) (hm : k ≤ m) (htrees : rule.lhs = symbol → entry.stop + g.leastLength α ≤ m →
      checked entry.rule k entry.stop = some (trees entry.rule k entry.stop))
    (hbehind : rule.lhs = symbol → entry.stop + g.leastLength α ≤ m → trees entry.rule k entry.stop ≠ [] →
      behind entry.stop = some (candidates g index input trees α entry.stop m)) :
    candidatesAt? g checked symbol (g.leastLength α) k m behind entry =
      some (candidatesAt g index input trees symbol α k m entry) := by
  simp only [candidatesAt?, candidatesAt, hr, Option.bind_eq_bind, Option.bind_some, Option.pure_def]
  by_cases hc : rule.lhs ≠ symbol ∨ m < entry.stop + g.leastLength α
  · simp [hc]
  obtain ⟨hlhs, hroom⟩ := not_or.mp hc
  replace hlhs := not_not.mp hlhs
  replace hroom := Nat.le_of_not_lt hroom
  simp only [hc, if_false, htrees hlhs hroom, Option.bind_some]
  cases ht : trees entry.rule k entry.stop with
  | nil => rfl
  | cons t ts =>
    have := hbehind hlhs hroom (by simp [ht])
    simp [sub?_eq_some hk, sub?_eq_some hm, this]

theorem mapM_eq_some_map {α β : Type} {step : α → Option β} (value : α → β) {l : List α}
    (h : ∀ a ∈ l, step a = some (value a)) : l.mapM step = some (l.map value) := by
  induction l with
  | nil => rfl
  | cons a l ih => simp [h a (by simp), ih fun b hb => h b (by simp [hb])]

section
variable (hidx : index.Sound g)
  (hrules : ∀ {k entry}, entry ∈ index.startingAt k → ∃ rule, g.rule? entry.rule = some rule)
include hidx hrules

theorem siblings?_eq_some {id : RuleId} {rule : Rule} (hr : g.rule? id = some rule) {steps : Nat} :
    ∀ {dot k m : Nat}, dot ≤ rule.rhs.length → rule.rhs.length < dot + steps →
    (∀ c ∈ requests g index input trees (rule.rhs.drop dot) k m,
      checked c.rule c.start c.stop = some (trees c.rule c.start c.stop)) →
    siblings? g index input checked id steps dot k m =
      some (candidates g index input trees (rule.rhs.drop dot) k m) := by
  induction steps with
  | zero => intro dot k m hdot hlt; omega
  | succ steps ih =>
    intro dot k m hdot hlt hchecked
    rw [siblings?]
    simp only [hr, Option.bind_eq_bind, Option.bind_some, Option.pure_def]
    cases hs : rule.rhs[dot]? with
    | none =>
      rw [List.drop_eq_nil_of_le (List.getElem?_eq_none_iff.mp hs)]
      rfl
    | some symbol =>
      obtain ⟨hin, hget⟩ := List.getElem?_eq_some_iff.mp hs
      have hdrop : rule.rhs.drop dot = symbol :: rule.rhs.drop (dot + 1) := by
        rw [List.drop_eq_getElem_cons hin, hget]
      have hhere : from? rule.rhs dot = some (symbol :: rule.rhs.drop (dot + 1)) := by
        rw [← hdrop]
        exact if_pos hdot
      have hbehind : from? rule.rhs (dot + 1) = some (rule.rhs.drop (dot + 1)) := if_pos hin
      rw [hdrop] at hchecked ⊢
      simp only [hhere, hbehind, Option.bind_some, candidates, requests] at hchecked ⊢
      by_cases hm : m < k + g.leastLength (symbol :: rule.rhs.drop (dot + 1))
      · simp [hm]
      simp only [hm, if_false] at hchecked ⊢
      by_cases ht : symbol ∈ g.terminals
      · simp only [ht, if_true] at hchecked ⊢
        by_cases hread : input[k]? = some symbol
        · simp only [hread, if_true] at hchecked ⊢
          simp [ih hin (by omega) hchecked]
        · simp [hread]
      simp only [ht, if_false, List.mem_flatMap] at hchecked ⊢
      rw [mapM_eq_some_map (candidatesAt g index input trees symbol (rule.rhs.drop (dot + 1)) k m), List.flatMap_def]
      · rfl
      · intro entry hentry
        obtain ⟨sub, hsub⟩ := hrules hentry
        have hle := hidx.le_stop hentry
        replace hchecked := fun c hc => hchecked c ⟨entry, hentry, hc⟩
        simp only [hsub] at hchecked
        refine candidatesAt?_eq_some hsub hle (by omega) (fun hlhs hroom => ?_) fun hlhs hroom hne => ?_
        · rw [if_neg (by simp [hlhs, hroom])] at hchecked
          exact hchecked ⟨entry.rule, k, entry.stop⟩ (List.mem_cons_self ..)
        · refine ih hin (by omega) fun c hc => hchecked c ?_
          rw [if_neg (by simp [hlhs, hroom])]
          refine List.mem_cons_of_mem _ ?_
          split
          · next h => exact absurd h hne
          · exact hc

theorem ruleTrees?_eq_some
    (hnull : ∀ {k entry rule}, entry ∈ index.startingAt k → g.rule? entry.rule = some rule →
      entry.stop = k → rule.lhs ∈ g.nullable)
    {r : Symbol → Nat} (hpos : ∀ a ∈ g.nonterminals, 0 < r a ∧ r a ≤ g.nonterminals.size)
    (hsteps : ∀ a ∈ g.nonterminals, ∀ b ∈ g.steps a, r b < r a) {depth : Nat} :
    ∀ {ap : Application} {rule : Rule}, g.rule? ap.rule = some rule → ap.start ≤ ap.stop →
      0 < weight g r (callPart g ap) → weight g r (callPart g ap) ≤ depth →
      ruleTrees? g index input depth ap.rule ap.start ap.stop =
        some (ruleTrees g index input depth ap.rule ap.start ap.stop) := by
  induction depth with
  | zero => intro ap rule _ _ hlo hhi; omega
  | succ depth ih =>
    intro ap rule hr hle _ hhi
    have hinner : ∀ c ∈ requests g index input (ruleTrees g index input depth) (rule.rhs.drop 0)
        ap.start ap.stop, ruleTrees? g index input depth c.rule c.start c.stop =
          some (ruleTrees g index input depth c.rule c.start c.stop) := by
      intro c hc
      have hcall : c ∈ calls g index input (ruleTrees g index input depth) ap := by
        simpa [calls, hr] using hc
      obtain ⟨_, child, _, hchild, hcle, _⟩ := exists_of_mem_calls hidx hnull hcall
      obtain ⟨hcpos, hlt⟩ := weight_lt_of_mem_calls hidx hnull hpos hsteps hcall
      exact ih hchild hcle hcpos (by omega)
    have hsiblings := siblings?_eq_some hidx hrules hr (Nat.zero_le _) (Nat.lt_add_left 0 (Nat.lt_succ_self _)) hinner
    rw [ruleTrees?, ruleTrees_succ, answer]
    simp only [hr, Option.bind_eq_bind, Option.bind_some, Option.pure_def, hsiblings, sub?_eq_some hle,
      List.drop_zero]
    split <;> rfl

end

/-- Over the chart of any input the forest of any input is extracted without a failure. -/
theorem ofIndex?_eq_some (g : Grammar) (a b : List Symbol) :
    ofIndex? g (.ofChart g (.build g a)) b = some (ofIndex g (.ofChart g (.build g a)) b) := by
  obtain ⟨r, hpos, hsteps⟩ := g.exists_rank
  have hrules : ∀ {k entry}, entry ∈ (SpanIndex.ofChart g (.build g a)).startingAt k →
      ∃ rule, g.rule? entry.rule = some rule := by
    intro k entry hentry
    obtain ⟨_, rule, _, hr, _⟩ := SpanIndex.mem_startingAt_build.mp hentry
    exact ⟨rule, hr⟩
  obtain ⟨hlo, hhi⟩ := weight_rootCall hpos b
  have hroot : ruleTrees? g _ b (depthBound g b) 0 0 b.length = some _ :=
    ruleTrees?_eq_some (SpanIndex.sound_build g a) hrules (@SpanIndex.lhs_mem_nullable_of_startingAt g a)
      hpos hsteps g.rule?_zero (Nat.zero_le _) hlo hhi
  unfold ofIndex? ofIndex
  cases hfind : ((SpanIndex.ofChart g (.build g a)).startingAt 0).find? fun entry =>
      entry.rule = 0 ∧ entry.stop = b.length with
  | none =>
    rw [if_neg]
    rw [List.any_eq_true]
    rintro ⟨entry, hentry, h⟩
    exact List.find?_eq_none.mp hfind entry hentry h
  | some root =>
    have hentry := List.find?_some hfind
    rw [if_pos (List.any_eq_true.mpr ⟨root, List.mem_of_find?_eq_some hfind, hentry⟩)]
    obtain ⟨rule, stop⟩ := root
    obtain ⟨rfl, rfl⟩ := of_decide_eq_true hentry
    exact hroot

end

end Forest

/-! ## A whole run -/

/-- Whether the last set holds the accepting item, for which the start rule is looked up. -/
def Chart.accepts? (g : Grammar) (sets : List ItemSet) : Option Bool := do
  let start ← g.rule? 0
  return (⟨0, start.rhs.length, 0⟩ : Item) ∈ sets.getLast?.getD ∅

/-- What a run brings forth. -/
structure Run where
  chart : Chart
  accepted : Bool
  index : SpanIndex
  forest : List Tree

/-- The chart of an input, with its verdict and its index, and the forest that the index allows of
another input, with every access checked. -/
def run? (g : Grammar) (a b : List Symbol) : Option Run := do
  let sets ← Chart.build? g a
  let accepted ← Chart.accepts? g sets
  let index ← SpanIndex.ofSets? g sets
  return ⟨⟨sets⟩, accepted, index, ← Forest.ofIndex? g index b⟩

/-- **No run fails.** The items of each set of a chart are within bounds, and a run with every access
checked brings forth what the functions without checks do: each rule, set, bucket and
symbol that it asks for is there, no item starts behind the position of its set, no
difference is below zero, and no pass and no nesting goes on for ever. -/
theorem run?_eq_some (g : Grammar) (a b : List Symbol) :
    (∀ (k : Nat) (set : ItemSet), (Chart.build g a).sets[k]? = some set →
      ∀ item ∈ set, item.InBounds g k) ∧
    run? g a b = some {
      chart := .build g a
      accepted := (Chart.build g a).accepts g
      index := .ofChart g (.build g a)
      forest := Forest.ofIndex g (.ofChart g (.build g a)) b } := by
  have hbounds : ∀ (k : Nat) (set : ItemSet), (Chart.build g a).sets[k]? = some set →
      ∀ item ∈ set, item.InBounds g k := fun _ _ => Chart.inBounds_of_mem_sets
  have haccepts : Chart.accepts? g (Chart.build g a).sets = some ((Chart.build g a).accepts g) := by
    rw [Chart.accepts?, g.rule?_zero]
    rfl
  have hindex : SpanIndex.ofSets? g (Chart.build g a).sets = some (.ofChart g (.build g a)) :=
    SpanIndex.ofSets?_eq_some hbounds
  refine ⟨hbounds, ?_⟩
  simp [run?, Chart.build?_eq_some, haccepts, hindex, Forest.ofIndex?_eq_some]

/-- A sentence of two tags, the item that accepts it, and the run over its own chart. -/
theorem english_run? :
    (Chart.build english [⟨"N"⟩, ⟨"V"⟩]).sets[2]? = some (Chart.build english [⟨"N"⟩, ⟨"V"⟩]).last ∧
    Chart.acceptingItem english ∈ (Chart.build english [⟨"N"⟩, ⟨"V"⟩]).last ∧
    (Chart.acceptingItem english).InBounds english 2 ∧
    (run? english [⟨"N"⟩, ⟨"V"⟩] [⟨"N"⟩, ⟨"V"⟩]).isSome := by
  have hset := Chart.getElem?_sets (g := english) [⟨"N"⟩, ⟨"V"⟩] (Nat.le_refl 2)
  have hitem : Chart.acceptingItem english ∈ (Chart.build english [⟨"N"⟩, ⟨"V"⟩]).last :=
    of_decide_eq_true (show (Chart.build english [⟨"N"⟩, ⟨"V"⟩]).accepts english = true by decide +kernel)
  obtain ⟨hbounds, hrun⟩ := run?_eq_some english [⟨"N"⟩, ⟨"V"⟩] [⟨"N"⟩, ⟨"V"⟩]
  exact ⟨hset, hitem, hbounds 2 _ hset _ hitem, Option.isSome_of_eq_some hrun⟩

end ParseForest
