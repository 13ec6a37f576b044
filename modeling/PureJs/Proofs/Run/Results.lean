import PureJs.Main
import PureJs.Proofs.Run.Writing

/-!
What comes of writing the two results of a compilation. The code goes first; without it the externs
are not tried, and if the externs cannot be written the code stays.
-/

namespace PureJs

def failText (debug : Bool) (stage : Stage) (message : String) : String :=
  logText debug [stage.label ++ " stage failed"] ++ (message ++ "\n")

namespace Job

def writeCode (job : Job) (debug : Bool) (javascript : String) :
    ExceptT Crash (StateM Watched) (Except OutputFault Unit) :=
  route debug javascript none job.output none

def CodeWritten (job : Job) (debug : Bool) (javascript : String) (start after : Watched) : Prop :=
  match job.output with
  | some path => start.Written debug path javascript after
  | none => after = { start with
      machine := { start.machine with out := start.machine.out ++ (javascript ++ "\n") } }

/-- The code is where the job wants it: in its file, or on standard output with a line feed. The
path starts from the directory that is the current one at the start. -/
def CodeStands (job : Job) (javascript : String) (start finish : Machine) : Prop :=
  match job.output with
  | some path => finish.out = start.out ∧
      finish.files.readFile start.current path = .ok javascript.toUTF8.toList
  | none => finish.out = start.out ++ (javascript ++ "\n")

def ExternsStand (job : Job) (externs : String) (start finish : Machine) : Prop :=
  ∀ path ∈ job.externs, finish.files.readFile start.current path = .ok externs.toUTF8.toList

def OneFile (job : Job) (start finish : Machine) : Prop :=
  ∃ path ∈ job.output, ∃ externs ∈ job.externs,
    finish.files.find start.current path = finish.files.find start.current externs

/-- What comes of writing the results of a compilation, the code first and the externs behind it. -/
structure WrittenInTurn (job : Job) (debug : Bool) (compiled : Compiled) (start ready : Watched)
    (finish : Except Crash UInt32 × Watched) : Prop where
  /-- success means that the results are in place; the externs take a file that both lead to -/
  success : finish.1 = .ok exitSuccess →
    (¬job.OneFile start.machine finish.2.machine →
      job.CodeStands compiled.javascript start.machine finish.2.machine) ∧
    job.ExternsStand compiled.externs start.machine finish.2.machine
  /-- if the code cannot be written, that is told and the run is over -/
  code_unwritten : ∀ fault written,
    ready.run (job.writeCode debug compiled.javascript) = (.ok (.error fault), written) →
      finish = (.ok exitFailure, written.told (failText debug .write fault.message)) ∧
        ∃ path ∈ job.output, fault.path = path ∧
          ready.Unwritten path compiled.javascript written
  /-- if the externs cannot be written, that is told and the code stays in a file of its own -/
  externs_unwritten : ∀ path fault written last, path ∈ job.externs →
    ready.run (job.writeCode debug compiled.javascript) = (.ok (.ok ()), written) →
    written.run (writeResult debug path compiled.externs) = (.ok (.error fault), last) →
      finish = (.ok exitFailure, last.told (failText debug .write fault.message)) ∧
        written.Unwritten path compiled.externs last ∧
        (¬job.OneFile start.machine finish.2.machine →
          job.CodeStands compiled.javascript start.machine finish.2.machine)
  /-- places that no path of a result leads to are as they were, or are new directories -/
  elsewhere : ∀ way, (∀ path, path ∈ job.output ∨ path ∈ job.externs →
      finish.2.machine.files.find start.machine.current path ≠ .ok way) →
    FileTree.Undisturbed start.machine.files finish.2.machine.files way
  answered : ∀ crash, finish.1 ≠ .error crash

end Job

namespace Watched

variable {start written last : Watched} {debug : Bool} {job : Job} {fault : OutputFault}
  {javascript : String}

theorem run_failIn (start : Watched) (debug : Bool) (stage : Stage) (message : String) :
    start.run (failIn debug stage message) =
      (.ok exitFailure, start.told (failText debug stage message)) := by
  unfold failIn failText
  rw [run_bind (run_logDebug start debug _), run_bind (run_err _ _), told_told]
  rfl

theorem run_route_error (externs : String)
    (ran : start.run (job.writeCode debug javascript) = (.ok (.error fault), written)) :
    start.run (route debug javascript (some externs) job.output job.externs) =
      (.ok (.error fault), written) := by
  unfold Job.writeCode at ran
  unfold route at ran ⊢
  cases given : job.output with
  | none =>
    rw [given] at ran
    obtain ⟨_, middle, wrote, rest⟩ := run_bind_gives ran
    cases rest
  | some path =>
    rw [given] at ran
    obtain ⟨result, middle, wrote, rest⟩ := run_bind_gives ran
    dsimp only
    rw [run_bind wrote]
    rcases result with other | ⟨⟩ <;> cases rest
    rfl

theorem run_route_ok (externs : String)
    (ran : start.run (job.writeCode debug javascript) = (.ok (.ok ()), written)) :
    start.run (route debug javascript (some externs) job.output job.externs) =
      match job.externs with
      | some path => written.run (writeResult debug path externs)
      | none => (.ok (.ok ()), written) := by
  unfold Job.writeCode at ran
  unfold route at ran ⊢
  cases given : job.output with
  | none =>
    rw [given] at ran
    obtain ⟨_, middle, wrote, rest⟩ := run_bind_gives ran
    cases rest
    dsimp only
    rw [run_bind wrote, run_bind (run_pure written _)]
    cases job.externs with
    | none => exact run_pure written _
    | some path => dsimp only
  | some path =>
    rw [given] at ran
    obtain ⟨result, middle, wrote, rest⟩ := run_bind_gives ran
    dsimp only
    rw [run_bind wrote]
    rcases result with fault | ⟨⟩ <;> cases rest
    cases job.externs with
    | none => exact run_pure written _
    | some path => dsimp only

theorem gives_writeCode (start : Watched) (debug : Bool) (javascript : String)
    (free : ∀ path ∈ job.output, Path.NulFree path) :
    start.Gives (job.writeCode debug javascript) fun result after =>
      match result with
      | .ok () => job.CodeWritten debug javascript start after
      | .error fault => ∃ path ∈ job.output, fault.path = path ∧
        start.Unwritten path javascript after := by
  unfold Job.writeCode Job.CodeWritten route
  cases given : job.output with
  | none => exact ⟨.ok (), _, run_bind (run_out start _), rfl⟩
  | some path =>
    dsimp only
    refine (gives_writeResult start debug (free path given) javascript).bind ?_
    rintro (fault | ⟨⟩) after wrote
    · exact .pure ⟨path, rfl, wrote⟩
    · exact .pure wrote

theorem stands_beside {path : String} {machine : Machine}
    (here : written.machine.current = machine.current)
    (code : job.CodeStands javascript machine written.machine)
    (out : last.machine.out = written.machine.out)
    (touches : FileTree.Touches written.machine.current path written.machine.files
      last.machine.files)
    (inside : path ∈ job.externs) (apart : ¬job.OneFile machine last.machine) :
    job.CodeStands javascript machine last.machine := by
  unfold Job.CodeStands at code ⊢
  cases given : job.output with
  | none =>
    rw [given] at code
    exact out.trans code
  | some target =>
    rw [given] at code
    rw [here] at touches
    refine ⟨out.trans code.1, touches.read code.2 fun same => apart ?_⟩
    exact ⟨target, given, path, inside, same⟩

section Fresh

-- from here on, no more than the log has been written before the results are
variable {ready : Watched} {compiled : Compiled} {path : String}
  (fresh : ready.machine = { start.machine with err := ready.machine.err })
include fresh

theorem code_current (code : job.CodeWritten debug javascript ready written) :
    written.machine.current = start.machine.current := by
  have same : ready.machine.current = start.machine.current := by rw [fresh]
  unfold Job.CodeWritten at code
  cases given : job.output with
  | none =>
    rw [given] at code
    rw [code]
    exact same
  | some path =>
    rw [given] at code
    exact code.current.trans same

theorem code_stands (code : job.CodeWritten debug javascript ready written) :
    job.CodeStands javascript start.machine written.machine := by
  have current : ready.machine.current = start.machine.current := by rw [fresh]
  have out : ready.machine.out = start.machine.out := by rw [fresh]
  unfold Job.CodeWritten at code
  unfold Job.CodeStands
  cases given : job.output with
  | none =>
    rw [given] at code
    rw [code, ← out]
  | some path =>
    rw [given] at code
    exact ⟨code.out.trans out, current ▸ code.read⟩

theorem code_undisturbed {way : List String}
    (code : job.CodeWritten debug javascript ready written)
    (away : ∀ path ∈ job.output,
      written.machine.files.find start.machine.current path ≠ .ok way) :
    FileTree.Undisturbed start.machine.files written.machine.files way := by
  have current : ready.machine.current = start.machine.current := by rw [fresh]
  have files : ready.machine.files = start.machine.files := by rw [fresh]
  unfold Job.CodeWritten at code
  cases given : job.output with
  | none =>
    rw [given] at code
    rw [code, ← files]
    exact .inl rfl
  | some path =>
    rw [given] at code
    rw [← files]
    exact code.touches.elsewhere way (current ▸ away path given)

theorem code_unwritten_in_turn
    (ran : ready.run (job.writeCode debug compiled.javascript) = (.ok (.error fault), written))
    (inside : path ∈ job.output) (about : fault.path = path)
    (failed : ready.Unwritten path compiled.javascript written) :
    job.WrittenInTurn debug compiled start ready
      (.ok exitFailure, written.told (failText debug .write fault.message)) where
  success := nofun
  code_unwritten := by
    intro other after again
    cases ran.symm.trans again
    exact ⟨rfl, path, inside, about, failed⟩
  externs_unwritten := by
    intro _ _ _ _ _ again
    cases ran.symm.trans again
  elsewhere := by
    intro way away
    have files : ready.machine.files = start.machine.files := by rw [fresh]
    have current : ready.machine.current = start.machine.current := by rw [fresh]
    have same := failed.touches.elsewhere way (current ▸ away path (.inl inside))
    exact files ▸ same
  answered := nofun

theorem externs_unwritten_in_turn
    (ran : ready.run (job.writeCode debug compiled.javascript) = (.ok (.ok ()), written))
    (inside : path ∈ job.externs)
    (stopped : written.run (writeResult debug path compiled.externs) = (.ok (.error fault), last))
    (code : job.CodeWritten debug compiled.javascript ready written)
    (failed : written.Unwritten path compiled.externs last) :
    job.WrittenInTurn debug compiled start ready
      (.ok exitFailure, last.told (failText debug .write fault.message)) where
  success := nofun
  code_unwritten := by
    intro other after again
    cases ran.symm.trans again
  externs_unwritten := by
    intro other _ _ _ inside' again stopped'
    cases ran.symm.trans again
    cases inside.symm.trans inside'
    cases stopped.symm.trans stopped'
    have stands : ¬job.OneFile start.machine last.machine →
        job.CodeStands compiled.javascript start.machine last.machine :=
      stands_beside (code_current fresh code) (code_stands fresh code) failed.out failed.touches
        inside
    exact ⟨rfl, failed, stands⟩
  elsewhere := by
    intro way away
    have here := code_current fresh code
    refine (code_undisturbed fresh code fun target given leads => ?_).trans
      (failed.touches.elsewhere way fun leads => away path (.inr inside) (here ▸ leads))
    exact away target (.inl given) (FileTree.find_keeps failed.touches.keeps leads)
  answered := nofun

theorem code_only_in_turn
    (ran : ready.run (job.writeCode debug compiled.javascript) = (.ok (.ok ()), written))
    (none : job.externs = none) (code : job.CodeWritten debug compiled.javascript ready written)
    (text : String) :
    job.WrittenInTurn debug compiled start ready (.ok exitSuccess, written.told text) where
  success _ := by
    have stands : job.CodeStands compiled.javascript start.machine written.machine :=
      code_stands fresh code
    refine ⟨fun _ => stands, fun path inside => ?_⟩
    rw [none] at inside
    cases inside
  code_unwritten := by
    intro other after again
    cases ran.symm.trans again
  externs_unwritten := by
    intro path _ _ _ inside
    rw [none] at inside
    cases inside
  elsewhere := by
    intro way away
    have same : FileTree.Undisturbed start.machine.files written.machine.files way :=
      code_undisturbed fresh code fun target given => away target (.inl given)
    exact same
  answered := nofun

theorem both_written_in_turn
    (ran : ready.run (job.writeCode debug compiled.javascript) = (.ok (.ok ()), written))
    (inside : path ∈ job.externs)
    (ends : written.run (writeResult debug path compiled.externs) = (.ok (.ok ()), last))
    (code : job.CodeWritten debug compiled.javascript ready written)
    (wrote : written.Written debug path compiled.externs last)
    (text : String) :
    job.WrittenInTurn debug compiled start ready (.ok exitSuccess, last.told text) where
  success _ := by
    have here := code_current fresh code
    have stands : ¬job.OneFile start.machine last.machine →
        job.CodeStands compiled.javascript start.machine last.machine :=
      stands_beside here (code_stands fresh code) wrote.out wrote.touches inside
    refine ⟨stands, fun other again => ?_⟩
    cases inside.symm.trans again
    rw [← here]
    exact wrote.read
  code_unwritten := by
    intro other after again
    cases ran.symm.trans again
  externs_unwritten := by
    intro other _ _ _ inside' again stopped
    cases ran.symm.trans again
    cases inside.symm.trans inside'
    cases ends.symm.trans stopped
  elsewhere := by
    intro way away
    have here := code_current fresh code
    refine (code_undisturbed fresh code fun target given leads => ?_).trans
      (wrote.touches.elsewhere way fun leads => away path (.inr inside) (here ▸ leads))
    exact away target (.inl given) (FileTree.find_keeps wrote.touches.keeps leads)
  answered := nofun

end Fresh

end Watched

end PureJs
