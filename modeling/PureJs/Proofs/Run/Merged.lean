import Mathlib.Data.List.Basic
import PureJs.Run.Job

/-!
How a command line and a configuration make a job. What is given on the command line counts, and
what it leaves open is as configured. An empty text counts as nothing given where the output, the
externs or the namespace is asked for, but not where the entry module is.
-/

namespace PureJs

structure FirstPlaces (values kept : List String) : Prop where
  same : ∀ value, value ∈ kept ↔ value ∈ values
  ordered : kept.Pairwise fun left right => values.idxOf left < values.idxOf right

theorem place_before {values : List String} {wanted : String → Bool} {left right : String}
    (first : wanted left = true) (second : wanted right = true)
    (before : (values.filter wanted).idxOf left < (values.filter wanted).idxOf right) :
    values.idxOf left < values.idxOf right := by
  induction values with
  | nil => exact before
  | cons value rest ih =>
    by_cases here : value = left
    · subst here
      have apart : value ≠ right := by
        rintro rfl
        exact Nat.lt_irrefl _ before
      rw [List.idxOf_cons_self, List.idxOf_cons_ne _ apart]
      exact Nat.succ_pos _
    by_cases there : value = right
    · subst there
      rw [List.filter_cons_of_pos second, List.idxOf_cons_self] at before
      exact absurd before (Nat.not_lt_zero _)
    rw [List.idxOf_cons_ne _ here, List.idxOf_cons_ne _ there]
    apply Nat.succ_lt_succ
    apply ih
    by_cases kept : wanted value = true
    · rw [List.filter_cons_of_pos kept, List.idxOf_cons_ne _ here,
        List.idxOf_cons_ne _ there] at before
      exact Nat.lt_of_succ_lt_succ before
    · rwa [List.filter_cons_of_neg kept] at before

theorem FirstPlaces.cons {value : String} {rest kept : List String}
    (places : FirstPlaces (rest.filter (! · == value)) kept) :
    FirstPlaces (value :: rest) (value :: kept) := by
  have apart : ∀ {other}, other ∈ kept → value ≠ other := by
    rintro other member rfl
    simpa using (places.same value).mp member
  constructor
  · intro other
    rw [List.mem_cons, List.mem_cons, places.same, List.mem_filter]
    by_cases here : other = value <;> simp [here]
  · rw [List.pairwise_cons]
    constructor
    · intro other member
      rw [List.idxOf_cons_self, List.idxOf_cons_ne _ (apart member)]
      exact Nat.succ_pos _
    · refine places.ordered.imp_of_mem fun {left right} first second before => ?_
      rw [List.idxOf_cons_ne _ (apart first), List.idxOf_cons_ne _ (apart second)]
      have unlike : ∀ {other}, other ∈ kept → (! other == value) = true := by
        intro other member
        simpa using (apart member).symm
      exact Nat.succ_lt_succ (place_before (unlike first) (unlike second) before)

theorem erase_dups_first_places (values : List String) : FirstPlaces values values.eraseDups := by
  match values with
  | [] => exact ⟨fun _ => Iff.rfl, .nil⟩
  | value :: rest =>
    rw [List.eraseDups_cons]
    exact .cons (erase_dups_first_places _)
termination_by values.length
decreasing_by
  have shorter := List.length_filter_le (! · == value) rest
  simp only [List.length_cons]
  omega

namespace Job

def chosen (given : List CommandLine.Value) (configured : List String) : List String :=
  if given = [] then configured else given.filterMap CommandLine.Value.text?

theorem names_worded {given : List CommandLine.Value} (worded : .blank ∉ given) :
    given.mapM CommandLine.Value.text? = some (given.filterMap CommandLine.Value.text?) := by
  induction given with
  | nil => rfl
  | cons value rest ih =>
    rw [List.mem_cons, not_or] at worded
    cases value with
    | blank => exact absurd rfl worded.1
    | text name => simp [List.mapM_cons, ih worded.2, CommandLine.Value.text?]

theorem prefer_names {given : List CommandLine.Value} (worded : .blank ∉ given)
    (configured : List String) : preferNames given configured = .ok (chosen given configured) := by
  unfold preferNames chosen
  cases given with
  | nil => rfl
  | cons value rest => simp [names_worded worded]

theorem prefer_given_iff {given configured : Option String} :
    preferGiven given configured = given.or configured ↔
      (given = some "" → configured = some "") := by
  unfold preferGiven
  split
  · simp
  · simp
  · rename_i text full
    simp only [Option.some_or, true_iff]
    exact fun empty => absurd (Option.some.inj empty) full

theorem prefer_text_iff {given : Option String} {configured : String} :
    (preferGiven given (some configured)).getD "" = given.getD configured ↔
      (given = some "" → configured = "") := by
  unfold preferGiven
  split
  · simp
  · simp
  · rename_i text full
    simp only [Option.getD_some, true_iff]
    exact fun empty => absurd (Option.some.inj empty) full

theorem entry_resolved {name : String} (full : name ≠ "") :
    Options.resolveEntry true (some name) = .ok (some name) := by
  simp [Options.resolveEntry]

section Arguments

variable {args : CommandLine.Arguments} {config : Config}

theorem of_arguments (named : args.entryModule ≠ some "") (roots : .blank ∉ args.rootModules)
    (outputs : .blank ∉ args.outputModules) :
    ofArguments args config = .ok {
      files := args.files
      options := Options.distinctModules {
        noPrelude := args.noPrelude || config.noPrelude
        noLoops := args.noLoops || config.noLoops
        noDirectBlocks := args.noDirectBlocks || config.noDirectBlocks
        entryModule := args.entryModule.or config.entryModule
        noOptimizations := args.noOptimizations || config.noOptimizations
        verboseErrors := args.verboseErrors || config.verboseErrors
        browserNamespace :=
          (preferGiven args.browserNamespace (some config.browserNamespace)).getD ""
        rootModules := chosen args.rootModules config.rootModules
        outputModules := chosen args.outputModules config.outputModules }
      useInput := args.stdin
      output := preferGiven args.output config.output
      externs := preferGiven args.externs config.externs
      withHeader := !(args.noHeader || config.noHeader) } := by
  unfold ofArguments
  rw [prefer_names roots, prefer_names outputs]
  cases entry : args.entryModule with
  | none => rfl
  | some name =>
    have full : name ≠ "" := fun same => named (entry.trans (congrArg some same))
    dsimp only
    rw [entry_resolved full]
    rfl

/-- The job has what the command line asks for; what is left open there is as configured. Nothing is
said of the texts in place of which an empty one can be given. -/
structure Merged (args : CommandLine.Arguments) (config : Config) (job : Job) : Prop where
  entryModule : job.options.entryModule = args.entryModule.or config.entryModule
  rootModules : FirstPlaces (chosen args.rootModules config.rootModules) job.options.rootModules
  outputModules :
    FirstPlaces (chosen args.outputModules config.outputModules) job.options.outputModules
  noPrelude : job.options.noPrelude = (args.noPrelude || config.noPrelude)
  noLoops : job.options.noLoops = (args.noLoops || config.noLoops)
  noDirectBlocks : job.options.noDirectBlocks = (args.noDirectBlocks || config.noDirectBlocks)
  noOptimizations : job.options.noOptimizations = (args.noOptimizations || config.noOptimizations)
  verboseErrors : job.options.verboseErrors = (args.verboseErrors || config.verboseErrors)
  noHeader : (!job.withHeader) = (args.noHeader || config.noHeader)

/-- A command line that names its modules makes a job with every configuration. A switch of the job
is on if one of the two has it on. The entry module and the lists of modules are those given, or
else those configured. A text that is given is kept exactly if it is not empty, or the configured
one is empty as well. -/
theorem given_flags_win (named : args.entryModule ≠ some "")
    (worded : ∀ value ∈ args.rootModules ++ args.outputModules, value ≠ .blank) :
    ∃ job, ofArguments args config = .ok job ∧ Merged args config job ∧
      (job.output = args.output.or config.output ↔
        (args.output = some "" → config.output = some "")) ∧
      (job.externs = args.externs.or config.externs ↔
        (args.externs = some "" → config.externs = some "")) ∧
      (job.options.browserNamespace = args.browserNamespace.getD config.browserNamespace ↔
        (args.browserNamespace = some "" → config.browserNamespace = "")) := by
  have roots : .blank ∉ args.rootModules :=
    fun member => worded .blank (List.mem_append_left _ member) rfl
  have outputs : .blank ∉ args.outputModules :=
    fun member => worded .blank (List.mem_append_right _ member) rfl
  exact ⟨_, of_arguments named roots outputs, ⟨rfl, erase_dups_first_places _,
    erase_dups_first_places _, rfl, rfl, rfl, rfl, rfl, Bool.not_not _⟩, prefer_given_iff,
    prefer_given_iff, prefer_text_iff⟩

end Arguments

def appConfig : Config :=
  { Config.default with
    entryModule := some "App"
    browserNamespace := "NS"
    rootModules := ["App", "Lib", "App"]
    output := some "dist/app.js"
    externs := some "dist/app.e.purs" }

def appArguments : CommandLine.Arguments :=
  { CommandLine.Arguments.empty with
    files := ["A.purs"]
    output := some "x.js"
    entryModule := some "Main"
    rootModules := [.text "B", .text "A", .text "B"] }

theorem app_flags_win :
    CommandLine.read ["--main", "-m", "B", "-mA", "--module=B", "-o", "x.js", "A.purs"] =
        .ok appArguments ∧
      appArguments.entryModule ≠ some "" ∧
      (∀ value ∈ appArguments.rootModules ++ appArguments.outputModules, value ≠ .blank) ∧
      ∃ job, ofArguments appArguments appConfig = .ok job ∧ Merged appArguments appConfig job ∧
        job.output = some "x.js" ∧ job.externs = some "dist/app.e.purs" ∧
        job.options.browserNamespace = "NS" ∧ job.options.rootModules = ["B", "A"] := by
  have named : appArguments.entryModule ≠ some "" := by decide
  have worded : ∀ value ∈ appArguments.rootModules ++ appArguments.outputModules,
      value ≠ .blank := by decide
  obtain ⟨job, made, merged, output, externs, namespaces⟩ :=
    @given_flags_win appArguments appConfig named worded
  refine ⟨rfl, named, worded, job, made, merged, output.mpr (by decide), externs.mpr (by decide),
    namespaces.mpr (by decide), ?_⟩
  cases made
  rfl

theorem empty_output_replaced :
    ∃ args job, CommandLine.read ["-o", "", "A.purs"] = .ok args ∧ args.output = some "" ∧
      ofArguments args appConfig = .ok job ∧ job.output = some "dist/app.js" ∧
      job.output ≠ args.output.or appConfig.output := by
  exact ⟨_, _, rfl, rfl, rfl, rfl, by decide⟩

end Job

end PureJs
