import PureJs.Proofs.Program.FileNames
import PureJs.Proofs.Run.Reading
import PureJs.Proofs.Run.Results
import PureJs.Proofs.Run.Unwatched

/-!
A run is all or nothing up to the writing: a run that is refused leaves the files alone, and a run
that succeeds has put the results of its compilation where the job wants them.
-/

namespace PureJs

namespace Job

def outcome [Simplifier] (job : Job) (version : String) (units : List SourceUnit) :
    List String × Except CompileFault Compiled :=
  compileSources job.options (headerLines job.withHeader version) units

def Rejects [Simplifier] (job : Job) (version : String) (units : List SourceUnit)
    (rejection : Rejection) :
    Prop :=
  parseUnits units = .error (.rejected rejection) ∨
    ∃ modules, parseUnits units = .ok modules ∧
      compileModules job.options (headerLines job.withHeader version) modules = .error rejection

def Compiles [Simplifier] (job : Job) (version : String) (units : List SourceUnit)
    (compiled : Compiled) :
    Prop :=
  ∃ modules, parseUnits units = .ok modules ∧
    compileModules job.options (headerLines job.withHeader version) modules = .ok compiled

variable {job : Job} {version : String} {units : List SourceUnit} {compiled : Compiled}
  {rejection : Rejection} {debug : Bool}

theorem Rejects.outcome [Simplifier] (rejects : job.Rejects version units rejection) :
    ∃ stage, (job.outcome version units).2 = .error (.rejected stage rejection) := by
  unfold Job.outcome compileSources
  rcases rejects with parsed | ⟨modules, parsed, refused⟩
  · exact ⟨.parse, by rw [parsed]⟩
  · exact ⟨.compile, by rw [parsed]; dsimp only; rw [refused]⟩

theorem compiles_iff [Simplifier] :
    job.Compiles version units compiled ↔ (job.outcome version units).2 = .ok compiled := by
  unfold Job.Compiles Job.outcome compileSources
  constructor
  · rintro ⟨modules, parsed, result⟩
    rw [parsed]
    dsimp only
    rw [result]
  · intro result
    cases parsed : parseUnits units with
    | error fault =>
      rw [parsed] at result
      cases fault <;> cases result
    | ok modules =>
      rw [parsed] at result
      refine ⟨modules, rfl, ?_⟩
      dsimp only at result
      split at result
      · cases result
      · rename_i given done
        cases result
        exact done

/-- The machine when the sources of a job have been read and compiled: no more than the log has been
written. -/
def ready [Simplifier] (job : Job) (debug : Bool) (version : String) (start : Watched)
    (units : List SourceUnit) : Watched :=
  (start.asked (job.sourceFiles.map .read)).told (logText debug (job.readLines units ++
    s!"inputs read: {units.length} unit(s)" :: (job.outcome version units).1))

def conclude (job : Job) (debug : Bool) (outcome : Except CompileFault Compiled) :
    ExceptT Crash (StateM Watched) UInt32 :=
  match outcome with
  | .error (.rejected stage rejection) => failIn debug stage rejection.message
  | .error (.numeral fault) => throw (.numeral fault)
  | .error .exhausted => throw .exhausted
  | .ok compiled => do
    match ← route debug compiled.javascript (some compiled.externs) job.output job.externs with
    | .error fault => failIn debug .write fault.message
    | .ok () =>
      logDebug debug "outputs written"
      pure exitSuccess

/-- The run has failed, and the machine has no more than the log and the diagnostic to show for
it. -/
def Diagnosed (debug : Bool) (start : Watched) (message : String)
    (finish : Except Crash UInt32 × Watched) : Prop :=
  finish.1 = .ok exitFailure ∧
    ∃ lines, finish.2.machine = (start.told (logText debug lines ++ (message ++ "\n"))).machine

structure AllOrNothing [Simplifier] (job : Job) (debug : Bool) (version : String) (start : Watched)
    (finish : Except Crash UInt32 × Watched) : Prop where
  /-- a source text that cannot be read is told, and no file behind it is opened -/
  unreadable : ∀ fault, job.sources start.machine = .error fault →
    Diagnosed debug start fault.message finish ∧
      ∃ opened behind, job.sourceFiles = opened ++ behind ∧ opened.getLast? = fault.path ∧
        finish.2.requests = start.requests ++ opened.map .read
  /-- what the parser or the compiler rejects is told, and the files have only been read -/
  rejected : ∀ units rejection, job.sources start.machine = .ok units →
    job.Rejects version units rejection →
      Diagnosed debug start rejection.message finish ∧
        finish.2.requests = start.requests ++ job.sourceFiles.map .read
  /-- a run succeeds only with source texts that are compiled -/
  success : finish.1 = .ok exitSuccess →
    ∃ units compiled, job.sources start.machine = .ok units ∧ job.Compiles version units compiled
  /-- what they are compiled to is written -/
  written : ∀ units compiled, job.sources start.machine = .ok units →
    job.Compiles version units compiled →
      job.WrittenInTurn debug compiled start (job.ready debug version start units) finish
  /-- only an integer literal without a value ends a run without an answer, and before it writes -/
  crash : ∀ crash, finish.1 = .error crash → (∃ fault, crash = .numeral fault) ∧
    finish.2.machine.files = start.machine.files ∧ finish.2.machine.out = start.machine.out

end Job

namespace Watched

variable {start last : Watched} {job : Job} {version : String} {units : List SourceUnit}

theorem run_read_compiled [Simplifier] (debug : Bool) (version : String) (free : job.NulFree)
    (read : job.sources start.machine = .ok units) :
    start.run (job.run debug version) =
      (job.ready debug version start units).run
        (job.conclude debug (job.outcome version units).2) := by
  unfold Job.run Job.ready
  rw [run_bind (run_resolveInputs_ok debug free.files read)]
  dsimp only
  rw [run_bind (run_logDebug _ debug _), told_told, ← logText_append]
  unfold Job.outcome
  generalize compileSources job.options (headerLines job.withHeader version) units = result
  obtain ⟨notes, outcome⟩ := result
  dsimp only
  rw [run_bind (run_forM_logDebug _ debug notes), told_told, ← logText_append, List.append_assoc]
  rfl

theorem diagnosed (start : Watched) (debug : Bool) (lines : List String) (stage : Stage)
    (message : String) (requests : List Request) :
    Job.Diagnosed debug start message (.ok exitFailure,
      ((start.asked requests).told (logText debug lines)).told (failText debug stage message)) := by
  refine ⟨rfl, lines ++ [stage.label ++ " stage failed"], ?_⟩
  unfold failText
  rw [told_told, ← String.append_assoc, ← logText_append]
  rfl

theorem unreadable_all_or_nothing [Simplifier] {fault : InputFault} (debug : Bool)
    (version : String)
    (free : job.NulFree) (unread : job.sources start.machine = .error fault) :
    job.AllOrNothing debug version start (start.run (job.run debug version)) := by
  obtain ⟨opened, behind, lines, split, last, ran⟩ :=
    run_resolveInputs_error debug free.files unread
  have none : ∀ units, job.sources start.machine ≠ .ok units := by
    intro units read
    rw [unread] at read
    cases read
  unfold Job.run
  rw [run_bind ran]
  dsimp only
  rw [run_failIn]
  exact {
    unreadable := by
      intro other same
      cases unread.symm.trans same
      exact ⟨diagnosed start debug lines .read fault.message _, opened, behind, split, last, rfl⟩
    rejected := fun units _ read => absurd read (none units)
    success := nofun
    written := fun units _ read => absurd read (none units)
    crash := nofun }

theorem not_compiled [Simplifier] {fault : CompileFault}
    (read : job.sources start.machine = .ok units)
    (failed : (job.outcome version units).2 = .error fault) (others : List SourceUnit)
    (compiled : Compiled) (same : job.sources start.machine = .ok others) :
    ¬job.Compiles version others compiled := by
  intro compiles
  cases read.symm.trans same
  rw [Job.compiles_iff, failed] at compiles
  cases compiles

theorem rejected_all_or_nothing [Simplifier] {stage : Stage} {rejection : Rejection} (debug : Bool)
    (free : job.NulFree) (read : job.sources start.machine = .ok units)
    (rejected : (job.outcome version units).2 = .error (.rejected stage rejection)) :
    job.AllOrNothing debug version start (start.run (job.run debug version)) := by
  rw [run_read_compiled debug version free read, rejected]
  unfold Job.conclude
  dsimp only
  rw [run_failIn]
  have refuses := not_compiled read rejected
  exact {
    unreadable := by
      intro fault unread
      cases read.symm.trans unread
    rejected := by
      intro others other same rejects
      cases read.symm.trans same
      obtain ⟨place, ends⟩ := rejects.outcome
      cases rejected.symm.trans ends
      exact ⟨diagnosed start debug _ stage rejection.message _, rfl⟩
    success := nofun
    written := fun units compiled same compiles =>
      absurd compiles (refuses units compiled same)
    crash := nofun }

theorem crash_all_or_nothing [Simplifier] {fault : Text.NumeralFault} (debug : Bool)
    (free : job.NulFree) (read : job.sources start.machine = .ok units)
    (failed : (job.outcome version units).2 = .error (.numeral fault)) :
    job.AllOrNothing debug version start (start.run (job.run debug version)) := by
  rw [run_read_compiled debug version free read, failed]
  have refuses := not_compiled read failed
  exact {
    unreadable := by
      intro fault unread
      cases read.symm.trans unread
    rejected := by
      intro others other same rejects
      cases read.symm.trans same
      obtain ⟨place, ends⟩ := rejects.outcome
      cases failed.symm.trans ends
    success := nofun
    written := fun units compiled same compiles =>
      absurd compiles (refuses units compiled same)
    crash := by
      rintro _ ⟨⟩
      exact ⟨⟨fault, rfl⟩, rfl, rfl⟩ }

section

variable {compiled : Compiled} {fault : OutputFault}

theorem run_compiled_ok [Simplifier] (debug : Bool) (free : job.NulFree)
    (read : job.sources start.machine = .ok units)
    (done : (job.outcome version units).2 = .ok compiled)
    (routed : (job.ready debug version start units).run (route debug compiled.javascript
      (some compiled.externs) job.output job.externs) = (.ok (.ok ()), last)) :
    start.run (job.run debug version) =
      (.ok exitSuccess, last.told (logText debug ["outputs written"])) := by
  rw [run_read_compiled debug version free read, done]
  unfold Job.conclude
  rw [run_bind routed]
  exact run_bind (run_logDebug _ debug _)

theorem run_compiled_error [Simplifier] (debug : Bool) (free : job.NulFree)
    (read : job.sources start.machine = .ok units)
    (done : (job.outcome version units).2 = .ok compiled)
    (routed : (job.ready debug version start units).run (route debug compiled.javascript
      (some compiled.externs) job.output job.externs) = (.ok (.error fault), last)) :
    start.run (job.run debug version) =
      (.ok exitFailure, last.told (failText debug .write fault.message)) := by
  rw [run_read_compiled debug version free read, done]
  unfold Job.conclude
  rw [run_bind routed]
  exact run_failIn _ _ _ _

end

theorem compiled_written_in_turn [Simplifier] {compiled : Compiled} (debug : Bool)
    (free : job.NulFree)
    (read : job.sources start.machine = .ok units)
    (done : (job.outcome version units).2 = .ok compiled) :
    job.WrittenInTurn debug compiled start (job.ready debug version start units)
      (start.run (job.run debug version)) := by
  obtain ⟨result, written, ran, wrote⟩ := gives_writeCode (job.ready debug version start units)
    debug compiled.javascript free.output
  have fresh : (job.ready debug version start units).machine =
    { start.machine with err := (job.ready debug version start units).machine.err } := rfl
  rcases result with fault | ⟨⟩
  · obtain ⟨path, inside, about, failed⟩ := wrote
    rw [run_compiled_error debug free read done (run_route_error compiled.externs ran)]
    exact code_unwritten_in_turn fresh ran inside about failed
  · have goes := run_route_ok compiled.externs ran
    cases given : job.externs with
    | none =>
      have routed := goes.trans (by rw [given])
      rw [run_compiled_ok debug free read done routed]
      exact code_only_in_turn fresh ran given wrote _
    | some path =>
      obtain ⟨result, last, ends, also⟩ :=
        gives_writeResult written debug (free.externs path given) compiled.externs
      have routed := (goes.trans (by rw [given])).trans ends
      rcases result with fault | ⟨⟩
      · rw [run_compiled_error debug free read done routed]
        exact externs_unwritten_in_turn fresh ran given ends wrote also.2
      · rw [run_compiled_ok debug free read done routed]
        exact both_written_in_turn fresh ran given ends wrote also _

theorem compiled_all_or_nothing [Simplifier] {compiled : Compiled} (debug : Bool)
    (free : job.NulFree) (read : job.sources start.machine = .ok units)
    (done : (job.outcome version units).2 = .ok compiled) :
    job.AllOrNothing debug version start (start.run (job.run debug version)) := by
  have turn := compiled_written_in_turn debug free read done
  exact {
    unreadable := by
      intro fault unread
      cases read.symm.trans unread
    rejected := by
      intro others other again rejects
      cases read.symm.trans again
      obtain ⟨place, ends⟩ := rejects.outcome
      cases done.symm.trans ends
    success := fun _ => ⟨units, compiled, read, Job.compiles_iff.mpr done⟩
    written := by
      intro others other again compiles
      cases read.symm.trans again
      rw [Job.compiles_iff, done] at compiles
      cases compiles
      exact turn
    crash := fun crash ends => absurd ends (turn.answered crash) }

end Watched

/-- Whatever is on a machine, a run of a job is all or nothing, and it is the same run with or
without a record of what the machine is asked for. -/
theorem Job.run_all_or_nothing [Simplifier] (start : Watched) (debug : Bool) (version : String)
    (job : Job)
    (free : job.NulFree) :
    job.AllOrNothing debug version start (start.run (job.run debug version)) ∧
      start.machine.run (job.run debug version) =
        ((start.run (job.run debug version)).1, (start.run (job.run debug version)).2.machine) := by
  refine ⟨?_, Job.run_alike debug version job start⟩
  cases read : job.sources start.machine with
  | error fault => exact Watched.unreadable_all_or_nothing debug version free read
  | ok units =>
    cases result : (job.outcome version units).2 with
    | ok compiled => exact Watched.compiled_all_or_nothing debug free read result
    | error fault =>
      cases fault with
      | rejected stage rejection => exact Watched.rejected_all_or_nothing debug free read result
      | numeral fault => exact Watched.crash_all_or_nothing debug free read result
      | exhausted => exact absurd result sources_not_exhausted

def moduleOnInput (troubles : List (Option Trouble)) : Watched where
  machine := {
    files := { FileTree.empty with troubles := troubles }
    current := []
    input := "module A where\nx = 1\n".toUTF8.toList
    out := ""
    err := "" }
  requests := []

def inputJob (output externs : String) : Job where
  files := []
  options := { Options.default with noPrelude := true }
  useInput := true
  output := some output
  externs := some externs
  withHeader := false

def exitsWith (code : UInt32) (finish : Except Crash UInt32 × Watched) : Bool :=
  match finish.1 with
  | .ok given => given = code
  | .error _ => false

theorem exit_of_exitsWith {code : UInt32} {finish : Except Crash UInt32 × Watched}
    (exits : exitsWith code finish = true) : finish.1 = .ok code := by
  unfold exitsWith at exits
  split at exits
  · rename_i given result
    rw [result, of_decide_eq_true exits]
  · cases exits

def fullDisk : Option Trouble := some (.brokenOff 0 "No space left on device")

theorem Job.new_directory_all_or_nothing :
    (inputJob "d/a.js" "d/a.e").NulFree ∧
      ((moduleOnInput []).run ((inputJob "d/a.js" "d/a.e").run true "1")).1 = .ok exitSuccess ∧
      (inputJob "d/a.js" "d/a.e").AllOrNothing true "1" (moduleOnInput [])
        ((moduleOnInput []).run ((inputJob "d/a.js" "d/a.e").run true "1")) ∧
      ((moduleOnInput [none, fullDisk]).run ((inputJob "d/a.js" "d/a.e").run true "1")).1 =
        .ok exitFailure ∧
      (inputJob "d/a.js" "d/a.e").AllOrNothing true "1" (moduleOnInput [none, fullDisk])
        ((moduleOnInput [none, fullDisk]).run ((inputJob "d/a.js" "d/a.e").run true "1")) := by
  have free : (inputJob "d/a.js" "d/a.e").NulFree := ⟨by decide, by decide, by decide⟩
  exact ⟨free, exit_of_exitsWith (by decide +kernel),
    (Job.run_all_or_nothing (moduleOnInput []) true "1" _ free).1,
    exit_of_exitsWith (by decide +kernel),
    (Job.run_all_or_nothing (moduleOnInput [none, fullDisk]) true "1" _ free).1⟩

def losesCode (code : UInt32) (troubles : List (Option Trouble)) (compiled : Compiled) : Bool :=
  let finish := (moduleOnInput troubles).run ((inputJob "a" "a").run false "1")
  exitsWith code finish &&
    finish.2.machine.files.readFile [] "a" ≠ .ok compiled.javascript.toUTF8.toList

theorem code_lost {code : UInt32} {troubles : List (Option Trouble)}
    (loses : ((inputJob "a" "a").outcome "1"
      [⟨none, "module A where\nx = 1\n"⟩]).2.toOption.any (losesCode code troubles) = true) :
    ∃ units compiled finish,
      (inputJob "a" "a").sources (moduleOnInput troubles).machine = .ok units ∧
      (inputJob "a" "a").Compiles "1" units compiled ∧
      (moduleOnInput troubles).run ((inputJob "a" "a").run false "1") = (.ok code, finish) ∧
      ¬(inputJob "a" "a").CodeStands compiled.javascript (moduleOnInput troubles).machine
        finish.machine := by
  obtain ⟨compiled, done, lost⟩ := any_gives loses
  simp only [losesCode, Bool.and_eq_true, decide_eq_true_eq] at lost
  have text : readableText (moduleOnInput troubles).machine.input =
      .ok "module A where\nx = 1\n" := by
    show readableText "module A where\nx = 1\n".toUTF8.toList = _
    decide +kernel
  have used : (inputJob "a" "a").useInput = true := rfl
  have read : (inputJob "a" "a").sources (moduleOnInput troubles).machine =
      .ok [⟨none, "module A where\nx = 1\n"⟩] := by
    unfold Job.sources
    rw [if_pos used, text]
  exact ⟨_, compiled, _, read, Job.compiles_iff.mpr done,
    Prod.ext (exit_of_exitsWith lost.1) rfl, fun stands => lost.2 stands.2⟩

/-- Paths that get in the way of each other. With one file for both results the code is lost,
whether the externs are written or not, and the externs path is touched though the code is not
written. So it is when the way to the code is made where the externs were to go. -/
theorem Job.conflicting_paths :
    (∃ units compiled finish,
      (inputJob "a" "a").sources (moduleOnInput []).machine = .ok units ∧
      (inputJob "a" "a").Compiles "1" units compiled ∧
      (moduleOnInput []).run ((inputJob "a" "a").run false "1") = (.ok exitSuccess, finish) ∧
      ¬(inputJob "a" "a").CodeStands compiled.javascript (moduleOnInput []).machine
        finish.machine) ∧
    (∃ units compiled finish,
      (inputJob "a" "a").sources (moduleOnInput [none, fullDisk]).machine = .ok units ∧
      (inputJob "a" "a").Compiles "1" units compiled ∧
      (moduleOnInput [none, fullDisk]).run ((inputJob "a" "a").run false "1") =
        (.ok exitFailure, finish) ∧
      ¬(inputJob "a" "a").CodeStands compiled.javascript (moduleOnInput [none, fullDisk]).machine
        finish.machine) ∧
    (∃ finish, (moduleOnInput [fullDisk]).run ((inputJob "a" "a").run false "1") =
        (.ok exitFailure, finish) ∧
      (moduleOnInput [fullDisk]).machine.files.get? ["a"] = none ∧
      finish.machine.files.get? ["a"] = some (.file [])) ∧
    ∃ finish, (moduleOnInput []).run ((inputJob "e/" "e").run false "1") =
        (.ok exitFailure, finish) ∧
      (moduleOnInput []).machine.files.get? ["e"] = none ∧
      finish.machine.files.get? ["e"] = some .directory := by
  refine ⟨code_lost (by decide +kernel), code_lost (by decide +kernel), ?_, ?_⟩
  · exact ⟨_, Prod.ext (exit_of_exitsWith (by decide +kernel)) rfl, by decide +kernel,
      by decide +kernel⟩
  · exact ⟨_, Prod.ext (exit_of_exitsWith (by decide +kernel)) rfl, by decide +kernel,
      by decide +kernel⟩

end PureJs
