import ParseForest.Command.Run
import ParseForest.Proofs.Forest

/-!
# What the exit code tells

The exit code of an invocation tells whether its command finds an answer in the files, and it
depends on nothing else (`Command.code_outcome`). An input has trees if and only if its chart accepts
it (`isEmpty_parse`), so to print the trees and to print the chart come to the same exit code
(`Command.exitCode_parse_chart`). To be quiet keeps the exit code and takes away what a command
writes, except that the command for the version writes all the same (`Command.quiet_outcome`).
-/

namespace ParseForest

open ParseForest.Derivation Grammar

theorem isEmpty_parse (g : Grammar) (input : List Symbol) :
    (g.parse input).isEmpty = !(Chart.build g input).accepts g := by
  by_cases hacc : (Chart.build g input).accepts g = true
  · obtain ⟨cs, hd, hw⟩ := (Chart.accepts_iff input).mp hacc
    have hmem : toTree g (node 0 cs) ∈ g.parse input := by
      rw [parse_eq_map]
      exact List.mem_map_of_mem (mem_parses_own_iff.mpr ⟨cs, rfl, hd, hw⟩)
    rw [hacc, List.isEmpty_eq_false_iff.mpr (List.ne_nil_of_mem hmem)]
    rfl
  · simp [parse, hacc]

namespace Command

/-- Whether a command finds an answer in the files. -/
def finds (files : Files) : Command → Except Error Bool
  | .check grammar _ | .format grammar | .hash grammar => do
    let _ ← grammarOf files grammar
    return true
  | .parse grammar _ _ symbols => do
    let g ← grammarOf files grammar
    return !(g.parse (Symbol.ofNames symbols)).isEmpty
  | .chart grammar symbols => do
    let g ← grammarOf files grammar
    return (Chart.build g (Symbol.ofNames symbols)).accepts g
  | .sentence grammar tags _ _ maxWords maxCombinations maxTrees words => do
    let limits := limitsWith maxWords maxCombinations maxTrees
    let (g, lattice, limits) ← loadSentence files grammar tags limits
    let trees ← g.parseWords (sentenceWords words) lattice limits
    return !trees.isEmpty
  | .version => return true

def ExitCode.ofFound : Except Error Bool → ExitCode
  | .ok true => .success
  | .ok false => .noParse
  | .error _ => .failure

/-- A result tells by its exit code what was found, and writes nothing if it is to be silent. -/
inductive Tells (silent : Prop) : Except Error Bool → Except Error Outcome → Prop
  | outcome {found : Except Error Bool} {outcome : Outcome} (hcode : outcome.code = .ofFound found)
      (hout : silent → outcome.out = "") : Tells silent found (.ok outcome)
  | error {e : Error} : Tells silent (.error e) (.error e)

/-! ## Runs of commands -/

section
variable {silent : Prop} {setting : Setting} (hsilent : silent → setting.quiet = true)

theorem Tells.bind {α : Type} {x : Except Error α} {f : α → Except Error Bool}
    {k : α → Except Error Outcome} (h : ∀ a, Tells silent (f a) (k a)) :
    Tells silent (x >>= f) (x >>= k) := by
  cases x with
  | error e => exact .error
  | ok a => exact h a

include hsilent

theorem tells_answer {found : Except Error Bool} {code : ExitCode} (hcode : code = .ofFound found)
    (text : String) : Tells silent found (.ok (answer setting code text)) := by
  refine .outcome hcode fun hs => ?_
  simp [answer, hsilent hs]

theorem tells_forest (json pretty : Bool) (trees : List Tree) :
    Tells silent (.ok !trees.isEmpty) (.ok (forestOutcome setting json pretty trees)) := by
  unfold forestOutcome
  refine .outcome ?_ fun hs => ?_
  · cases trees <;> cases setting.quiet <;> cases json <;> rfl
  · simp [hsilent hs]

end

theorem tells_run (setting : Setting) (command : Command) :
    Tells (setting.quiet = true ∧ command ≠ .version) (command.finds setting.files)
      (command.run setting) := by
  cases command with
  | check grammar json =>
    simp only [run, finds]
    cases grammarOf setting.files grammar with
    | ok g =>
      show Tells _ (.ok true) (.ok (answer setting .success _))
      exact tells_answer And.left rfl _
    | error e =>
      show Tells _ (.error e)
        (if (json && !setting.quiet) = true then .ok (answer setting .failure _) else .error e)
      by_cases hjson : (json && !setting.quiet) = true
      · rw [if_pos hjson]
        exact tells_answer And.left rfl _
      · rw [if_neg hjson]
        exact .error
  | format grammar | hash grammar => exact .bind fun g => tells_answer And.left rfl _
  | parse grammar json pretty symbols => exact .bind fun g => tells_forest And.left json pretty _
  | chart grammar symbols =>
    refine .bind fun g => tells_answer And.left ?_ _
    cases (Chart.build g (Symbol.ofNames symbols)).accepts g <;> rfl
  | sentence grammar tags json pretty maxWords maxCombinations maxTrees words =>
    exact .bind fun loaded => .bind fun trees => tells_forest And.left json pretty trees
  | version => exact .outcome rfl fun hs => absurd rfl hs.2

/-! ## Invocations -/

theorem code_outcome_and_out (i : Invocation) (files : Files) (color : Bool) :
    (i.outcome files color).code = .ofFound (i.command.finds files) ∧
      (i.quiet = true ∧ i.command ≠ .version → (i.outcome files color).out = "") := by
  have htells := tells_run ⟨files, color, i.quiet⟩ i.command
  unfold Invocation.outcome
  generalize i.command.finds files = found at htells ⊢
  generalize i.command.run ⟨files, color, i.quiet⟩ = result at htells ⊢
  cases htells with
  | outcome hcode hout => exact ⟨hcode, hout⟩
  | error => exact ⟨rfl, fun _ => rfl⟩

theorem code_outcome (i : Invocation) (files : Files) (color : Bool) :
    (i.outcome files color).code = .ofFound (i.command.finds files) :=
  (code_outcome_and_out i files color).1

theorem out_outcome_quiet {i : Invocation} (hquiet : i.quiet = true) (h : i.command ≠ .version)
    (files : Files) (color : Bool) : (i.outcome files color).out = "" :=
  (code_outcome_and_out i files color).2 ⟨hquiet, h⟩

theorem out_outcome_version (verbosity : Nat) (quiet : Bool) (files : Files) (color : Bool) :
    (Invocation.outcome ⟨.version, verbosity, quiet⟩ files color).out =
      "canopy 0.1.0 (canopy-core 0.1.0)\n" := by
  show s!"canopy {versionNumber} (canopy-core {versionNumber})\n" = _
  decide +kernel

/-- **Trees and charts tell the same.** The commands that print the trees and the chart of an input
have the same exit code: 2 without a grammar, 0 if its start rule derives the input and 1 if not. -/
theorem exitCode_parse_chart (files : Files) (grammar : Option String) (symbols : List String)
    (json pretty quiet quiet' color color' : Bool) (verbosity verbosity' : Nat) :
    let parsed := Invocation.outcome ⟨.parse grammar json pretty symbols, verbosity, quiet⟩ files color
    let charted := Invocation.outcome ⟨.chart grammar symbols, verbosity', quiet'⟩ files color'
    parsed.code.toNat = charted.code.toNat ∧
    (charted.code.toNat = 2 ↔ ∃ e, grammarOf files grammar = .error e) ∧
    (charted.code.toNat = 0 ↔ ∃ g, grammarOf files grammar = .ok g ∧
      g.Generates g.startRule.rhs (Symbol.ofNames symbols)) ∧
    (charted.code.toNat = 1 ↔ ∃ g, grammarOf files grammar = .ok g ∧
      ¬g.Generates g.startRule.rhs (Symbol.ofNames symbols)) := by
  simp only [code_outcome, finds, bind, Except.bind, pure, Except.pure]
  cases grammarOf files grammar with
  | error e => simp [ExitCode.ofFound, ExitCode.toNat]
  | ok g =>
    simp only [isEmpty_parse, ← Chart.accepts_iff, Except.ok.injEq, exists_eq_left']
    cases (Chart.build g (Symbol.ofNames symbols)).accepts g <;>
      simp [ExitCode.ofFound, ExitCode.toNat]

/-- **Quiet commands.** To be quiet keeps the exit code, and it leaves nothing written unless the
command is the one for the version. -/
theorem quiet_outcome (command : Command) (verbosity : Nat) (files : Files) (color : Bool) :
    let quiet := Invocation.outcome ⟨command, verbosity, true⟩ files color
    let loud := Invocation.outcome ⟨command, verbosity, false⟩ files color
    quiet.code = loud.code ∧ (quiet.out = "" ↔ command ≠ .version) := by
  refine ⟨?_, ?_, ?_⟩
  · rw [code_outcome, code_outcome]
  · rintro hout rfl
    rw [out_outcome_version] at hout
    exact absurd hout (by decide)
  · exact fun h => out_outcome_quiet rfl h files color

theorem execute_quiet_version :
    execute (fun _ => .error .notFound) false ["--quiet", "version"] =
      ⟨.success, "canopy 0.1.0 (canopy-core 0.1.0)\n", ""⟩ := by
  decide +kernel

end Command

end ParseForest
