import Mathlib.Logic.Function.Basic
import ParseForest.Proofs.Mentions

/-!
# The search for a cycle with marks

`Searches` is the depth-first search without a bound on its depth: it marks the symbols on one path,
which it extends and shortens as it goes, and those behind which it has searched. The active symbols
are those on the path (`Trail.Matches`), so the search finds what the bounded one does
(`ends_foldlM`). It always stops, and the end of the path at which it stops is the cycle that a refused
table is told (`Grammar.ofTables?_cycle`).
-/

namespace ParseForest

inductive Mark where
  | active
  | done
deriving DecidableEq

/-- The marks that a search has made, and the path on which it stands, from its first symbol. -/
structure Trail where
  marks : Symbol → Option Mark
  path : List Symbol

namespace Trail

def start : Trail :=
  ⟨fun _ => none, []⟩

def enter (t : Trail) (a : Symbol) : Trail :=
  ⟨Function.update t.marks a (some .active), t.path ++ [a]⟩

def leave (t : Trail) (a : Symbol) : Trail :=
  ⟨Function.update t.marks a (some .done), t.path.dropLast⟩

/-- A symbol on the path is put at its end once more. -/
def close (t : Trail) (a : Symbol) : Trail :=
  ⟨t.marks, t.path ++ [a]⟩

/-- The path from the first place of its last symbol on. -/
def loop (t : Trail) : List Symbol :=
  t.path.dropWhile fun a => t.path.getLast? ≠ some a

end Trail

/-- A search visits symbols one after the other, and tells whether it came back to an active one. -/
inductive Searches (steps : Symbol → List Symbol) : Trail → List Symbol → Bool → Trail → Prop
  | nil {t} : Searches steps t [] false t
  | skip {t a l found last} : t.marks a = some .done → Searches steps t l found last →
      Searches steps t (a :: l) found last
  | close {t a l} : t.marks a = some .active → Searches steps t (a :: l) true (t.close a)
  | descend {t a l last} : t.marks a = none → Searches steps (t.enter a) (steps a) true last →
      Searches steps t (a :: l) true last
  | leave {t a l mid found last} : t.marks a = none → Searches steps (t.enter a) (steps a) false mid →
      Searches steps (mid.leave a) l found last → Searches steps t (a :: l) found last

section
variable {steps : Symbol → List Symbol} {t mid last : Trail} {l : List Symbol} {found : Bool} {a : Symbol}

/-! ## One outcome -/

theorem Searches.unique (h : Searches steps t l found last) : ∀ {found' : Bool} {last' : Trail},
    Searches steps t l found' last' → found = found' ∧ last = last' := by
  induction h with
  | nil =>
    intro found' last' h'
    cases h'
    exact ⟨rfl, rfl⟩
  | skip hm _ ih =>
    intro found' last' h'
    cases h' with
    | skip _ h' => exact ih h'
    | close hm' => rw [hm] at hm'; cases hm'
    | descend hm' _ => rw [hm] at hm'; cases hm'
    | leave hm' _ _ => rw [hm] at hm'; cases hm'
  | close hm =>
    intro found' last' h'
    cases h' with
    | close _ => exact ⟨rfl, rfl⟩
    | skip hm' _ => rw [hm] at hm'; cases hm'
    | descend hm' _ => rw [hm] at hm'; cases hm'
    | leave hm' _ _ => rw [hm] at hm'; cases hm'
  | descend hm _ ih =>
    intro found' last' h'
    cases h' with
    | descend _ h' => exact ih h'
    | leave _ h' _ => cases (ih h').1
    | skip hm' _ => rw [hm] at hm'; cases hm'
    | close hm' => rw [hm] at hm'; cases hm'
  | leave hm _ _ ihb ih =>
    intro found' last' h'
    cases h' with
    | descend _ h' => cases (ihb h').1
    | leave _ hb h' =>
      obtain ⟨_, rfl⟩ := ihb hb
      exact ih h'
    | skip hm' _ => rw [hm] at hm'; cases hm'
    | close hm' => rw [hm] at hm'; cases hm'

theorem Searches.cons (h : Searches steps t [a] false mid) (hl : Searches steps mid l found last) :
    Searches steps t (a :: l) found last := by
  cases h with
  | skip hm h =>
    cases h
    exact .skip hm hl
  | leave hm hb h =>
    cases h
    exact .leave hm hb hl

theorem Searches.cons_true (h : Searches steps t [a] true last) (l : List Symbol) :
    Searches steps t (a :: l) true last := by
  cases h with
  | skip _ h => cases h
  | close hm => exact .close hm
  | descend hm hb => exact .descend hm hb
  | leave _ _ h => cases h

/-! ## The active symbols are those on the path -/

/-- A trail tells what a search knows that has a path, listed from its end, and finished symbols. -/
structure Trail.Matches (t : Trail) (path done : List Symbol) : Prop where
  path_eq : t.path = path.reverse
  active_iff : ∀ b, t.marks b = some .active ↔ b ∈ path
  done_iff : ∀ b, t.marks b = some .done ↔ b ∈ done

section
variable {path done : List Symbol}

theorem Trail.matches_start : Trail.start.Matches [] [] :=
  ⟨rfl, fun b => by simp [start], fun b => by simp [start]⟩

theorem Trail.Matches.marks_eq_none (h : t.Matches path done) (hd : a ∉ done) (hp : a ∉ path) :
    t.marks a = none := by
  cases hm : t.marks a with
  | none => rfl
  | some mark =>
    cases mark with
    | active => exact absurd ((h.active_iff a).mp hm) hp
    | done => exact absurd ((h.done_iff a).mp hm) hd

theorem Trail.Matches.enter (h : t.Matches path done) (hd : a ∉ done) :
    (t.enter a).Matches (a :: path) done := by
  refine ⟨by simp [Trail.enter, h.path_eq], fun b => ?_, fun b => ?_⟩
  all_goals
    by_cases hb : b = a
    · subst hb
      simp [Trail.enter, hd]
    · simp [Trail.enter, hb, h.active_iff, h.done_iff]

theorem Trail.Matches.leave (h : t.Matches (a :: path) done) (hp : a ∉ path) :
    (t.leave a).Matches path (a :: done) := by
  refine ⟨by simp [Trail.leave, h.path_eq], fun b => ?_, fun b => ?_⟩
  all_goals
    by_cases hb : b = a
    · subst hb
      simp [Trail.leave, hp]
    · simp [Trail.leave, hb, h.active_iff, h.done_iff]

/-- What is cut out of the path is what stands on it behind the symbol that closes it. -/
theorem Trail.Matches.loop_close (h : t.Matches path done) (hn : path.Nodup) (ha : a ∈ path) :
    (t.close a).loop = a :: (path.takeWhile (· ≠ a)).reverse ++ [a] := by
  obtain ⟨p, q, rfl, hp⟩ := List.eq_append_cons_of_mem ha
  have hq : a ∉ q := (List.nodup_cons.mp (List.nodup_append.mp hn).2.1).1
  have hdrop : ∀ b ∈ q.reverse, decide (some a ≠ some b) = true := by
    intro b hb
    have hne : b ≠ a := ne_of_mem_of_not_mem (List.mem_reverse.mp hb) hq
    simpa using Ne.symm hne
  have hpath : (t.close a).path = q.reverse ++ (a :: (p.reverse ++ [a])) := by
    simp [Trail.close, h.path_eq]
  have hlast : (t.close a).path.getLast? = some a := by simp [Trail.close]
  rw [takeWhile_ne_append_cons hp, Trail.loop, hlast, hpath, List.dropWhile_append_of_pos hdrop,
    List.dropWhile_cons_of_neg (by simp), List.cons_append]

end

/-! ## What the bounded search finds -/

/-- The search over some symbols ends as a bounded one does that starts with the same path: with the
same finished symbols, or with the same cycle at the end of its path. -/
def Ends (steps : Symbol → List Symbol) (t : Trail) (path l : List Symbol) :
    Except (List Symbol) (List Symbol) → Prop
  | .ok done => ∃ last, last.Matches path done ∧ Searches steps t l false last
  | .error cycle => ∃ last, last.loop = cycle ∧ Searches steps t l true last

theorem ends_foldlM {path : List Symbol}
    {search : List Symbol → Symbol → Except (List Symbol) (List Symbol)} :
    ∀ {t : Trail} {done l : List Symbol}, (∀ b ∈ l, ∀ (t : Trail) (done : List Symbol),
      t.Matches path done → Ends steps t path [b] (search done b)) →
    t.Matches path done → Ends steps t path l (l.foldlM search done)
  | t, done, [], _, hm => ⟨t, hm, .nil⟩
  | t, done, b :: l, hsearch, hm => by
    rw [List.foldlM_cons]
    have hb := hsearch b List.mem_cons_self t done hm
    cases hr : search done b with
    | error cycle =>
      rw [hr] at hb
      obtain ⟨last, hloop, hs⟩ := hb
      exact ⟨last, hloop, hs.cons_true l⟩
    | ok done' =>
      rw [hr] at hb
      obtain ⟨mid, hmid, hs⟩ := hb
      have hl := ends_foldlM (fun c hc => hsearch c (List.mem_cons_of_mem b hc)) hmid
      change Ends steps t path (b :: l) (l.foldlM search done')
      cases hr' : l.foldlM search done' with
      | error cycle =>
        rw [hr'] at hl
        obtain ⟨last, hloop, hrest⟩ := hl
        exact ⟨last, hloop, hs.cons hrest⟩
      | ok done'' =>
        rw [hr'] at hl
        obtain ⟨last, hlast, hrest⟩ := hl
        exact ⟨last, hlast, hs.cons hrest⟩

section
variable {U : SymbolSet} (hU : ∀ a ∈ U, ∀ b ∈ steps a, b ∈ U)
include hU

theorem ends_cycleBelow {depth : Nat} : ∀ {t : Trail} {path done : List Symbol} {a : Symbol},
    path.Nodup → (∀ b ∈ path, b ∈ U) → U.size < depth + path.length → a ∈ U → t.Matches path done →
    Ends steps t path [a] (cycleBelow steps depth path done a) := by
  induction depth with
  | zero =>
    -- a path without repetition is no longer than there are symbols
    intro t path done a hn hp hlt
    have := SymbolSet.length_le_size hn hp
    omega
  | succ depth ih =>
    intro t path done a hn hp hlt ha hm
    unfold cycleBelow
    by_cases hd : a ∈ done
    · rw [if_pos hd]
      exact ⟨t, hm, .skip ((hm.done_iff a).mpr hd) .nil⟩
    rw [if_neg hd]
    by_cases hpath : a ∈ path
    · rw [if_pos hpath]
      exact ⟨t.close a, hm.loop_close hn hpath, .close ((hm.active_iff a).mpr hpath)⟩
    rw [if_neg hpath]
    have hnone := hm.marks_eq_none hd hpath
    have hbelow : Ends steps (t.enter a) (a :: path) (steps a)
        ((steps a).foldlM (cycleBelow steps depth (a :: path)) done) := by
      apply ends_foldlM _ (hm.enter hd)
      intro b hb t' done' hm'
      apply ih (List.nodup_cons.mpr ⟨hpath, hn⟩) (List.forall_mem_cons.mpr ⟨ha, hp⟩) _ (hU a ha b hb) hm'
      rw [List.length_cons]
      omega
    cases hr : (steps a).foldlM (cycleBelow steps depth (a :: path)) done with
    | error cycle =>
      rw [hr] at hbelow
      obtain ⟨last, hloop, hs⟩ := hbelow
      exact ⟨last, hloop, .descend hnone hs⟩
    | ok done' =>
      rw [hr] at hbelow
      obtain ⟨mid, hmid, hs⟩ := hbelow
      exact ⟨mid.leave a, hmid.leave hpath, .leave hnone hs .nil⟩

theorem ends_starts {starts : List Symbol} (hs : ∀ a ∈ starts, a ∈ U) :
    Ends steps .start [] starts (starts.foldlM (cycleBelow steps (U.size + 1) []) []) := by
  apply ends_foldlM _ Trail.matches_start
  intro a ha t done hm
  exact ends_cycleBelow hU List.nodup_nil nofun (Nat.lt_succ_self U.size) (hs a ha) hm

theorem exists_searches_iff {starts : List Symbol} (hs : ∀ a ∈ starts, a ∈ U) :
    ∃ found last, ∀ found' last',
      Searches steps .start starts found' last' ↔ found' = found ∧ last' = last := by
  have hends := ends_starts hU hs
  obtain ⟨found, last, h⟩ : ∃ found last, Searches steps .start starts found last := by
    cases hr : starts.foldlM (cycleBelow steps (U.size + 1) []) [] with
    | error cycle =>
      rw [hr] at hends
      obtain ⟨last, _, h⟩ := hends
      exact ⟨true, last, h⟩
    | ok done =>
      rw [hr] at hends
      obtain ⟨last, _, h⟩ := hends
      exact ⟨false, last, h⟩
  refine ⟨found, last, fun found' last' => ⟨fun h' => h'.unique h, ?_⟩⟩
  rintro ⟨rfl, rfl⟩
  exact h

end

end

/-! ## Tables that are refused for a cycle -/

/-- A table passes all checks that come before the one for a cycle. -/
structure PassesChecks (rules : List Rule) (terminals : List Symbol) : Prop where
  start : startProblem? rules = none
  terminal_name : ∀ a ∈ terminals, nameProblem? a = none
  rule_name : ∀ rule ∈ rules, ∀ a ∈ rule.lhs :: rule.rhs, nameProblem? a = none
  definitions : definitionsProblem? rules (.ofList terminals) = none

/-- Some rule for `a` holds `b` at one place, and all symbols beside it vanish. -/
def DerivesAlone (rules : List Rule) (a b : Symbol) : Prop :=
  ∃ rule ∈ rules, ∃ p q, rule.lhs = a ∧ rule.rhs = p ++ b :: q ∧
    ∀ c ∈ p ++ q, Relation.ReflTransGen (Replaces rules) [c] []

/-- A cycle of non-terminals, each of which derives the next one alone, without a detour. -/
structure SimpleCycle (rules : List Rule) (terminals cycle : List Symbol) : Prop where
  two_le_length : 2 ≤ cycle.length
  closed : cycle.head? = cycle.getLast?
  nodup : cycle.dropLast.Nodup
  nonterminal : ∀ a ∈ cycle, a ∉ terminals ∧ ∃ rule ∈ rules, rule.lhs = a
  step : ∀ i a b, cycle[i]? = some a → cycle[i + 1]? = some b → DerivesAlone rules a b

section
variable {rules : List Rule} {terminals : List Symbol}

theorem derivesAlone_of_mem_unitSteps {set : SymbolSet} {a b : Symbol}
    (h : b ∈ unitSteps rules set (nullableOf rules) a) : DerivesAlone rules a b := by
  obtain ⟨rule, hr, hlhs, hu⟩ := mem_unitSteps.mp h
  obtain ⟨_, p, q, hrhs, hnull⟩ := mem_unitSymbols.mp hu
  exact ⟨rule, hr, p, q, hlhs, hrhs, fun c hc => replacesTo_nil_of_mem_nullableOf c (hnull c hc)⟩

namespace PassesChecks

variable (h : PassesChecks rules terminals)
include h

/-- A step leads to a non-terminal. -/
theorem nonterminal {nullable : SymbolSet} {a b : Symbol}
    (hb : b ∈ unitSteps rules (.ofList terminals) nullable a) :
    b ∉ terminals ∧ ∃ rule ∈ rules, rule.lhs = b := by
  obtain ⟨rule, hr, _, hu⟩ := mem_unitSteps.mp hb
  obtain ⟨ht, p, q, hrhs, _⟩ := mem_unitSymbols.mp hu
  have hdef := (definitionsProblem?_eq_none_iff.mp h.definitions rule hr).2 b (by simp [hrhs])
  rw [SymbolSet.mem_ofList] at ht hdef
  exact ⟨ht, hdef.resolve_left ht⟩

/-- A table that passes the checks before the last one can only be refused for a cycle. -/
theorem derivationCycle?_eq_some {problem : Problem}
    (hp : problem? rules (.ofList terminals) = some problem) : ∃ cycle, problem = .cycle cycle ∧
      derivationCycle? rules (.ofList terminals) (nullableOf rules) = some cycle := by
  have hnames : (SymbolSet.ofList terminals).toList.findSome? nameProblem? = none := by
    rw [List.findSome?_eq_none_iff]
    intro a ha
    exact h.terminal_name a (SymbolSet.mem_ofList.mp (SymbolSet.mem_toList.mp ha))
  have hrules : rules.findSome? (fun rule => (rule.lhs :: rule.rhs).findSome? nameProblem?) = none := by
    simp only [List.findSome?_eq_none_iff]
    exact h.rule_name
  unfold problem? at hp
  simp only [h.start, hnames, hrules, h.definitions, Option.orElse_eq_or, Option.none_or,
    Option.orElse_eq_orElse, Option.map_eq_some_iff] at hp
  obtain ⟨cycle, hcycle, rfl⟩ := hp
  exact ⟨cycle, rfl, hcycle⟩

theorem simpleCycle {cycle : List Symbol}
    (hc : IsCycle (unitSteps rules (.ofList terminals) (nullableOf rules)) cycle) :
    SimpleCycle rules terminals cycle := by
  obtain ⟨a, l, rfl, hn, hchain⟩ := hc
  refine ⟨by simp, ?_, by rwa [List.dropLast_concat], ?_, ?_⟩
  · rw [List.getLast?_concat]
    rfl
  · intro b hb
    -- the first symbol stands at the end too, where it is the step of another one
    have hb : b ∈ l ++ [a] := by simpa [or_comm] using hb
    obtain ⟨c, hc⟩ := exists_of_isChain hchain b hb
    exact h.nonterminal hc
  · intro i b c hb hc
    obtain ⟨_, rfl⟩ := List.getElem?_eq_some_iff.mp hb
    obtain ⟨hlt, rfl⟩ := List.getElem?_eq_some_iff.mp hc
    exact derivesAlone_of_mem_unitSteps (hchain.getElem i hlt)

end PassesChecks

/-- **A reported cycle is one, and the search for it stops.** If a table passes all other checks, the
search over its non-terminals, in any order, comes to one end. If the table is refused, the search that
starts with them in their order has come back to a symbol on its path, and the message shows the path
from there on: a simple cycle, each symbol of which derives the next one alone. -/
theorem ofTables?_cycle (h : PassesChecks rules terminals) :
    (∀ starts, (∀ a ∈ starts, ∃ rule ∈ rules, rule.lhs = a) → ∃ found last, ∀ found' last',
      Searches (unitSteps rules (.ofList terminals) (nullableOf rules)) .start starts found' last' ↔
        found' = found ∧ last' = last) ∧
    ∀ problem, Grammar.ofTables? rules terminals = .error problem → ∃ last,
      Searches (unitSteps rules (.ofList terminals) (nullableOf rules)) .start
        (SymbolSet.ofList (rules.map Rule.lhs)).toList true last ∧
      problem = .cycle last.loop ∧
      problem.message = "derivation cycle: " ++ " -> ".intercalate (last.loop.map Symbol.name) ∧
      SimpleCycle rules terminals last.loop := by
  have hmem : ∀ a, a ∈ SymbolSet.ofList (rules.map Rule.lhs) ↔ ∃ rule ∈ rules, rule.lhs = a := by
    intro a
    rw [SymbolSet.mem_ofList, List.mem_map]
  have hclosed : ∀ a ∈ SymbolSet.ofList (rules.map Rule.lhs),
      ∀ b ∈ unitSteps rules (.ofList terminals) (nullableOf rules) a,
        b ∈ SymbolSet.ofList (rules.map Rule.lhs) :=
    fun a _ b hb => (hmem b).mpr (h.nonterminal hb).2
  constructor
  · intro starts hs
    exact exists_searches_iff hclosed fun a ha => (hmem a).mpr (hs a ha)
  · intro problem hp
    obtain ⟨cycle, rfl, hcycle⟩ := h.derivationCycle?_eq_some (Grammar.problem?_of_ofTables?_error hp)
    have hsimple := h.simpleCycle (isCycle_of_derivationCycle? hcycle)
    have hends := ends_starts hclosed fun a ha => SymbolSet.mem_toList.mp ha
    unfold derivationCycle? at hcycle
    simp only at hcycle
    split at hcycle
    · next cycle' hfold =>
      cases hcycle
      rw [hfold] at hends
      obtain ⟨last, rfl, hsearch⟩ := hends
      exact ⟨last, hsearch, rfl, rfl, hsimple⟩
    · cases hcycle

/-- A table with a cycle behind a start from which there is none, and beside a symbol that vanishes. -/
def loopedRules : List Rule :=
  [⟨⟨"S"⟩, Symbol.ofNames ["x", "C"]⟩, ⟨⟨"A"⟩, Symbol.ofNames ["x"]⟩, ⟨⟨"B"⟩, Symbol.ofNames ["N", "C", "N"]⟩,
    ⟨⟨"C"⟩, Symbol.ofNames ["A"]⟩, ⟨⟨"C"⟩, Symbol.ofNames ["D", "N"]⟩, ⟨⟨"D"⟩, Symbol.ofNames ["C"]⟩, ⟨⟨"N"⟩, []⟩]

theorem ofTables?_loopedRules :
    PassesChecks loopedRules [⟨"x"⟩] ∧
    Grammar.ofTables? loopedRules [⟨"x"⟩] = .error (.cycle (Symbol.ofNames ["C", "D", "C"])) ∧
    SimpleCycle loopedRules [⟨"x"⟩] (Symbol.ofNames ["C", "D", "C"]) ∧
    (∃ found last, ∀ found' last',
      Searches (unitSteps loopedRules (.ofList [⟨"x"⟩]) (nullableOf loopedRules)) .start
        (Symbol.ofNames ["D", "A"]) found' last' ↔ found' = found ∧ last' = last) := by
  have h : PassesChecks loopedRules [⟨"x"⟩] := by
    constructor <;> decide +kernel
  have hrefused : Grammar.ofTables? loopedRules [⟨"x"⟩] =
      .error (.cycle (Symbol.ofNames ["C", "D", "C"])) := by decide +kernel
  obtain ⟨hstops, hcycle⟩ := ofTables?_cycle h
  obtain ⟨last, _, hloop, _, hsimple⟩ := hcycle _ hrefused
  rw [← Problem.cycle.inj hloop] at hsimple
  exact ⟨h, hrefused, hsimple, hstops _ (by decide)⟩

end

end ParseForest
