import ParseForest.Command.Run
import ParseForest.Proofs.NulFree

/-!
# Both front ends give the same answer

`Spaced words text` says that a text is made of words with blanks around them, and the words
of a text are the only ones that it is made of (`wordsOf_eq_iff`). A command that prints trees as
JSON and the entry point for NUL-terminated strings come to the same trees or the same error
(`Command.agrees_of_result`), so what one prints is what the other returns (`Command.frontEnds_agree`).
-/

namespace ParseForest

/-! ## Words between blanks -/

/-- A text is made of words with blanks between them, and with blanks around them or not. -/
inductive Spaced : List String → List Char → Prop where
  | nil : Spaced [] []
  | blank {c : Char} {words : List String} {text : List Char} (hc : Character.isBlank c = true)
      (h : Spaced words text) : Spaced words (c :: text)
  | word {word : String} {words : List String} {text : List Char} (hne : word ≠ "")
      (hword : ∀ c ∈ word.toList, Character.isBlank c = false)
      (hend : ∀ c ∈ text.head?, Character.isBlank c = true) (h : Spaced words text) :
      Spaced (word :: words) (word.toList ++ text)

section
variable {separates : Char → Bool} {c : Char} {word text : List Char}

theorem splitRuns_separator (hc : separates c = true) :
    splitRuns separates (c :: text) = splitRuns separates text := by
  rw [splitRuns.eq_def]
  simp [hc]

theorem splitRuns_run (hne : word ≠ []) (hword : ∀ c ∈ word, separates c = false)
    (hend : ∀ c ∈ text.head?, separates c = true) :
    splitRuns separates (word ++ text) = word :: splitRuns separates text := by
  induction word with
  | nil => exact absurd rfl hne
  | cons c word ih =>
    obtain ⟨hc, hword⟩ := List.forall_mem_cons.mp hword
    rw [List.cons_append, splitRuns.eq_def]
    cases word with
    | nil =>
      cases text with
      | nil => simp [hc, splitRuns]
      | cons d text =>
        have hd : separates d = true := hend d rfl
        cases hruns : splitRuns separates (d :: text) <;> simp [hc, hd, hruns]
    | cons d word =>
      have hd : separates d = false := hword d List.mem_cons_self
      have hruns := ih (List.cons_ne_nil d word) hword
      rw [List.cons_append] at hruns ⊢
      simp [hc, hd, hruns]

end

theorem splitRuns_of_spaced {words : List String} {text : List Char} (h : Spaced words text) :
    splitRuns Character.isBlank text = words.map String.toList := by
  induction h with
  | nil => rfl
  | blank hc _ ih => rw [splitRuns_separator hc, ih]
  | @word word words text hne hword hend _ ih =>
    have hne : word.toList ≠ [] := by simpa using hne
    rw [splitRuns_run hne hword hend, ih, List.map_cons]

theorem Spaced.run {word text : List Char} {words : List String} (hne : word ≠ [])
    (hword : ∀ c ∈ word, Character.isBlank c = false)
    (hend : ∀ c ∈ text.head?, Character.isBlank c = true) (h : Spaced words text) :
    Spaced (.ofList word :: words) (word ++ text) := by
  have : Spaced (.ofList word :: words) ((String.ofList word).toList ++ text) :=
    .word (by simpa using hne) (by simpa using hword) hend h
  rwa [String.toList_ofList] at this

theorem exists_spaced_cons {c : Char} {words : List String} {text : List Char}
    (hc : Character.isBlank c = false) (h : Spaced words text) : ∃ more, Spaced more (c :: text) := by
  have hchar : ∀ d ∈ [c], Character.isBlank d = false := List.forall_mem_singleton.mpr hc
  cases h with
  | nil => exact ⟨_, .run (List.cons_ne_nil c []) hchar (by simp) .nil⟩
  | blank hd h => exact ⟨_, .run (List.cons_ne_nil c []) hchar (by simpa using hd) (.blank hd h)⟩
  | @word word _ _ _ hword hend h =>
    exact ⟨_, .run (List.cons_ne_nil c word.toList) (List.forall_mem_cons.mpr ⟨hc, hword⟩) hend h⟩

theorem exists_spaced : ∀ text : List Char, ∃ words, Spaced words text
  | [] => ⟨[], .nil⟩
  | c :: text => by
    obtain ⟨words, h⟩ := exists_spaced text
    by_cases hc : Character.isBlank c = true
    · exact ⟨words, .blank hc h⟩
    · exact exists_spaced_cons (Bool.eq_false_iff.mpr hc) h

/-- The words of a text are the words of which it is made. -/
theorem wordsOf_eq_iff {text : String} {words : List String} :
    wordsOf text = words ↔ Spaced words text.toList := by
  have hspaced {words : List String} (h : Spaced words text.toList) : wordsOf text = words := by
    rw [wordsOf, splitRuns_of_spaced h, List.map_map]
    simp [Function.comp_def]
  refine ⟨fun h => ?_, hspaced⟩
  obtain ⟨others, hothers⟩ := exists_spaced text.toList
  rw [← h, hspaced hothers]
  exact hothers

/-! ## The two front ends -/

namespace Command

open NulTerminated (Answer)

/-- What a command leaves behind its log agrees with an answer: either it prints the result, with
a line end, or it reports the message of the error and its exit code is 2. -/
inductive Agrees (log : String) (color : Bool) : Outcome → Answer → Prop where
  | result {code : ExitCode} {text : String} (hcode : code.toNat < 2) :
      Agrees log color ⟨code, text ++ "\n", log⟩ ⟨some text, none⟩
  | error {code : ExitCode} {message : String} (hcode : code.toNat = 2) :
      Agrees log color
        ⟨code, "", log ++ (Paint.boldRed.apply color "error:" ++ " " ++ message ++ "\n")⟩
        ⟨none, some message⟩

/-- The log of a command as it is written. -/
def logText (command : Command) (verbosity : Nat) (files : Files) (color : Bool) : String :=
  String.join ((command.log verbosity files).map (·.render color))

/-- A command that is not to be quiet agrees with an answer. -/
def AgreesWith (command : Command) (files : Files) (color : Bool) (verbosity : Nat)
    (answer : Answer) : Prop :=
  Agrees (command.logText verbosity files color) color
    (Invocation.outcome ⟨command, verbosity, false⟩ files color) answer

section
variable {files : Files} {color : Bool} {verbosity : Nat} {path text : String}

/-- A command and an entry point that come to the same trees or the same error agree. -/
theorem agrees_of_result {command : Command} {result : Except Error (List Tree)}
    (hrun : command.run ⟨files, color, false⟩ =
      result.map (forestOutcome ⟨files, color, false⟩ true true))
    (herror : ∀ e, result = .error e → NulFree e.message) :
    command.AgreesWith files color verbosity
      (.ofResult (result.map (Tree.listToJsonText true))) := by
  unfold AgreesWith Invocation.outcome
  simp only [hrun, Bool.false_eq_true, if_false]
  cases result with
  | ok trees =>
    have hnul := NulTerminated.withoutNul_eq (Tree.nulFree_listToJsonText true trees)
    simp only [Except.map, Answer.ofResult, hnul, forestOutcome, Bool.false_eq_true, if_false, if_true,
      String.append_empty]
    refine .result ?_
    split <;> decide
  | error e =>
    have hnul := NulTerminated.withoutNul_eq (herror e rfl)
    simp only [Except.map, Answer.ofResult, Answer.ofMessage, hnul, failed]
    exact .error rfl

/-- The trees of a list of symbols by a grammar text. -/
def forestOf (text : String) (symbols : List String) : Except Error (List Tree) :=
  (Grammar.ofText? text).map fun g => g.parse (Symbol.ofNames symbols)

/-- The trees of words by a grammar text and the text of their tags. -/
def sentenceForestOf (text : String) (words : List String) (tags : String) :
    Except Error (List Tree) := do
  let g ← Grammar.ofText? text
  let lattice ← Lattice.ofJson? tags
  g.parseWords words lattice {}

section
variable (hfile : files path = .ok text) (hpath : Grammar.isJsonPath path = false)
include hfile hpath

theorem grammarOf_text : grammarOf files (some path) = Grammar.ofText? text := by
  simp [grammarOf, Grammar.ofFile?, hfile, hpath, Except.mapError, bind, Except.bind]

theorem run_parse (symbols : List String) :
    (Command.parse (some path) true true symbols).run ⟨files, color, false⟩ =
      (forestOf text symbols).map (forestOutcome ⟨files, color, false⟩ true true) := by
  simp only [run, forestOf, grammarOf_text hfile hpath]
  cases Grammar.ofText? text <;> rfl

theorem run_sentence {arguments words : List String} {tags : String}
    (hwords : wordsOf (" ".intercalate arguments) = words) (htags : tags.toList.head? ≠ some '@') :
    (Command.sentence (some path) tags true true none none none arguments).run ⟨files, color, false⟩ =
      (sentenceForestOf text words tags).map (forestOutcome ⟨files, color, false⟩ true true) := by
  have htext : tagText files tags = .ok tags := by
    unfold tagText
    split
    · next h => simp [h] at htags
    · rfl
  have hlimits : limitsWith none none none = {} := rfl
  simp only [run, loadSentence, sentenceForestOf, grammarOf_text hfile hpath, htext, sentenceWords,
    hwords, hlimits, bind, Except.bind]
  cases Grammar.ofText? text with
  | error e => rfl
  | ok g =>
    cases Lattice.ofJson? tags with
    | error e => rfl
    | ok lattice =>
      simp only [pure, Except.pure]
      cases g.parseWords words lattice {} <;> rfl

end

theorem answer_parse (htext : NulFree text) {input : String} (hinput : NulFree input)
    {symbols : List String} (hsymbols : wordsOf input = symbols) :
    NulTerminated.parse (some text.toUTF8) (some input.toUTF8) =
      .ofResult ((forestOf text symbols).map (Tree.listToJsonText true)) := by
  simp only [NulTerminated.parse, NulTerminated.withText_toUTF8 htext,
    NulTerminated.withText_toUTF8 hinput, hsymbols, forestOf]
  cases Grammar.ofText? text <;> rfl

theorem answer_parseWords (htext : NulFree text) {sentence tags : String} (hsentence : NulFree sentence)
    (htags : NulFree tags) {words : List String} (hwords : wordsOf sentence = words) :
    NulTerminated.parseWords (some text.toUTF8) (some sentence.toUTF8) (some tags.toUTF8) =
      .ofResult ((sentenceForestOf text words tags).map (Tree.listToJsonText true)) := by
  simp only [NulTerminated.parseWords, NulTerminated.withText_toUTF8 htext,
    NulTerminated.withText_toUTF8 hsentence, NulTerminated.withText_toUTF8 htags, hwords,
    sentenceForestOf, bind, Except.bind]
  cases Grammar.ofText? text with
  | error e => rfl
  | ok g =>
    cases Lattice.ofJson? tags with
    | error e => rfl
    | ok lattice =>
      simp only
      cases g.parseWords words lattice {} <;> rfl

theorem nulFree_of_forestOf_error (htext : NulFree text) {symbols : List String} {e : Error}
    (h : forestOf text symbols = .error e) : NulFree e.message := by
  unfold forestOf at h
  cases hgrammar : Grammar.ofText? text with
  | error e' =>
    rw [hgrammar] at h
    cases h
    exact nulFree_of_ofText?_error htext hgrammar
  | ok g =>
    rw [hgrammar] at h
    cases h

theorem nulFree_of_sentenceForestOf_error (htext : NulFree text) {words : List String} {tags : String}
    {e : Error} (h : sentenceForestOf text words tags = .error e) : NulFree e.message := by
  rcases error_of_bind h with hgrammar | ⟨g, -, h⟩
  · exact nulFree_of_ofText?_error htext hgrammar
  rcases error_of_bind h with hlattice | ⟨lattice, -, h⟩
  · exact nulFree_of_latticeOfJson?_error hlattice
  · exact nulFree_of_parseWords_error h

end

/-- **What a command prints is what an entry point returns.** -/
theorem frontEnds_agree (files : Files) (color : Bool) (verbosity : Nat) {path text : String}
    (hfile : files path = .ok text) (hpath : Grammar.isJsonPath path = false) (htext : NulFree text) :
    (∀ (symbols : List String) (input : String), Spaced symbols input.toList → NulFree input →
      (Command.parse (some path) true true symbols).AgreesWith files color verbosity
        (NulTerminated.parse (some text.toUTF8) (some input.toUTF8))) ∧
    ∀ (words arguments : List String) (sentence tags : String),
      Spaced words (" ".intercalate arguments).toList → Spaced words sentence.toList →
      NulFree sentence → NulFree tags → tags.toList.head? ≠ some '@' →
      (Command.sentence (some path) tags true true none none none arguments).AgreesWith
        files color verbosity
        (NulTerminated.parseWords (some text.toUTF8) (some sentence.toUTF8) (some tags.toUTF8)) := by
  refine ⟨fun symbols input hsymbols hinput => ?_,
    fun words arguments sentence tags harguments hwords hsentence htags hfirst => ?_⟩
  · rw [answer_parse htext hinput (wordsOf_eq_iff.mpr hsymbols)]
    exact agrees_of_result (run_parse hfile hpath symbols) fun e => nulFree_of_forestOf_error htext
  · rw [answer_parseWords htext hsentence htags (wordsOf_eq_iff.mpr hwords)]
    exact agrees_of_result (run_sentence hfile hpath (wordsOf_eq_iff.mpr harguments) hfirst)
      fun e => nulFree_of_sentenceForestOf_error htext

def toyText : String := "terminals: a b\nS -> a S | b\n"

def toyTags : String := "[[\"a\"], [\"b\"]]"

def toyFiles : Files := fun path => if path = "toy.txt" then .ok toyText else .error .notFound

/-- Two words under a toy grammar: one argument for both, blanks of several kinds between them. -/
theorem frontEnds_agree_toy :
    (toyFiles "toy.txt" = .ok toyText ∧ Grammar.isJsonPath "toy.txt" = false ∧ NulFree toyText) ∧
    (Spaced ["a", "b"] "a\t b\n".toList ∧ NulFree "a\t b\n") ∧
    (Spaced ["to", "be"] (" ".intercalate ["to be"]).toList ∧ Spaced ["to", "be"] " to\nbe".toList ∧
      NulFree " to\nbe" ∧ NulFree toyTags ∧ toyTags.toList.head? ≠ some '@') ∧
    (Command.parse (some "toy.txt") true true ["a", "b"]).AgreesWith toyFiles true 3
      (NulTerminated.parse (some toyText.toUTF8) (some "a\t b\n".toUTF8)) ∧
    (Command.sentence (some "toy.txt") toyTags true true none none none ["to be"]).AgreesWith
      toyFiles true 3
      (NulTerminated.parseWords (some toyText.toUTF8) (some " to\nbe".toUTF8)
        (some toyTags.toUTF8)) := by
  have hfile : toyFiles "toy.txt" = .ok toyText := if_pos rfl
  have hpath : Grammar.isJsonPath "toy.txt" = false := by decide +kernel
  have htext : NulFree toyText := by decide +kernel
  have hinput : Spaced ["a", "b"] "a\t b\n".toList := wordsOf_eq_iff.mp (by decide +kernel)
  have harguments : Spaced ["to", "be"] (" ".intercalate ["to be"]).toList :=
    wordsOf_eq_iff.mp (by decide +kernel)
  have hwords : Spaced ["to", "be"] " to\nbe".toList := wordsOf_eq_iff.mp (by decide +kernel)
  have hnul : NulFree "a\t b\n" ∧ NulFree " to\nbe" ∧ NulFree toyTags := by decide +kernel
  have hfirst : toyTags.toList.head? ≠ some '@' := by decide +kernel
  obtain ⟨hparse, hsentence⟩ := frontEnds_agree toyFiles true 3 hfile hpath htext
  exact ⟨⟨hfile, hpath, htext⟩, ⟨hinput, hnul.1⟩, ⟨harguments, hwords, hnul.2.1, hnul.2.2, hfirst⟩,
    hparse _ _ hinput hnul.1, hsentence _ _ _ _ harguments hwords hnul.2.1 hnul.2.2 hfirst⟩

end Command

end ParseForest
