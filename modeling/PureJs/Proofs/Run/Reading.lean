import PureJs.Proofs.Host.Watched
import PureJs.Run.Input
import PureJs.Run.Job

/-!
What a run reads. The source texts of a job are those that its machine has, files are only read, one
after the other, and none behind one that cannot be read.
-/

namespace PureJs

def Machine.sourceText (machine : Machine) (path : String) : Except InputFault String :=
  match machine.files.readFile machine.current path with
  | .error fault => .error ⟨some path, fault.message⟩
  | .ok bytes => (readableText bytes).mapError fun fault => ⟨some path, fault.message⟩

def Machine.sourceTexts (machine : Machine) (paths : List String) :
    Except InputFault (List SourceUnit) :=
  paths.mapM fun path => (machine.sourceText path).map fun text => ⟨some path, text⟩

namespace Job

def sourceFiles (job : Job) : List String := if job.useInput then [] else job.files

/-- The source texts that a job has on a machine. -/
def sources (job : Job) (machine : Machine) : Except InputFault (List SourceUnit) :=
  if job.useInput then
    match readableText machine.input with
    | .error fault => .error ⟨none, fault.message⟩
    | .ok text => .ok [⟨none, text⟩]
  else
    (machine.sourceTexts job.files).map fun units =>
      if job.options.noPrelude then units else Prelude.unit :: units

def readLines (job : Job) (units : List SourceUnit) : List String :=
  if job.useInput then
    units.map fun unit => s!"read {unit.text.length} characters from standard input"
  else job.files.map ("read " ++ ·)

/-- The machine can take the paths of the job for paths. -/
structure NulFree (job : Job) : Prop where
  files : ∀ path ∈ job.files, Path.NulFree path
  output : ∀ path ∈ job.output, Path.NulFree path
  externs : ∀ path ∈ job.externs, Path.NulFree path

end Job

namespace Watched

variable {start : Watched} {paths : List String} {path : String}
  {units : List SourceUnit} {fault : InputFault}

theorem run_readSource (start : Watched) (free : Path.NulFree path) :
    start.run (readSource path) =
      (.ok (start.machine.sourceText path), start.asked [.read path]) := by
  unfold readSource Machine.sourceText
  rw [run_bind (run_read start path)]
  cases read : start.machine.files.readFile start.machine.current path with
  | error fault =>
    have told : fault ≠ .nullByte := fun null => FileTree.read_no_null free (null ▸ read)
    exact run_bind (run_reason _ told)
  | ok bytes =>
    dsimp only
    cases readableText bytes with
    | error fault => rfl
    | ok text => rfl

theorem source_fault_path {machine : Machine}
    (unread : machine.sourceText path = .error fault) : fault.path = some path := by
  unfold Machine.sourceText at unread
  split at unread
  · cases unread
    rfl
  · rename_i bytes _
    cases text : readableText bytes with
    | error mistake =>
      rw [text] at unread
      cases unread
      rfl
    | ok chars =>
      rw [text] at unread
      cases unread

theorem sourceTexts_cons (machine : Machine) (path : String) (rest : List String) :
    machine.sourceTexts (path :: rest) =
      (do
        let text ← machine.sourceText path
        let units ← machine.sourceTexts rest
        pure (⟨some path, text⟩ :: units)) := by
  unfold Machine.sourceTexts
  rw [List.mapM_cons]
  cases machine.sourceText path <;> rfl

theorem run_readSources_ok (debug : Bool) (free : ∀ path ∈ paths, Path.NulFree path)
    (read : start.machine.sourceTexts paths = .ok units) :
    start.run (readSources debug paths) =
      (.ok (.ok units),
        (start.asked (paths.map .read)).told (logText debug (paths.map ("read " ++ ·)))) := by
  induction paths generalizing start units with
  | nil =>
    cases read
    rw [List.map_nil, List.map_nil, logText, asked_nothing, told_nothing]
    rfl
  | cons path rest ih =>
    rw [sourceTexts_cons] at read
    obtain ⟨text, here, others⟩ := bind_gives read
    obtain ⟨later, more, same⟩ := bind_gives others
    cases same
    unfold readSources
    rw [run_bind (run_readSource start (free path List.mem_cons_self)), here]
    dsimp only
    rw [run_bind (run_logDebug _ debug _)]
    have behind : ((start.asked [.read path]).told (logText debug ["read " ++ path])).run
        (readSources debug rest) = _ :=
      ih (fun other inside => free other (List.mem_cons_of_mem _ inside)) more
    rw [run_bind behind, told_asked, asked_asked, told_told, ← logText_append]
    rfl

/-- The files in front of one that cannot be read have been read, those behind it are left alone. -/
theorem run_readSources_error (debug : Bool) (free : ∀ path ∈ paths, Path.NulFree path)
    (unread : start.machine.sourceTexts paths = .error fault) :
    ∃ before path later, paths = before ++ path :: later ∧
      start.machine.sourceText path = .error fault ∧
      start.run (readSources debug paths) =
        (.ok (.error fault), (start.asked ((before ++ [path]).map .read)).told
          (logText debug (before.map ("read " ++ ·)))) := by
  induction paths generalizing start with
  | nil => cases unread
  | cons path rest ih =>
    rw [sourceTexts_cons] at unread
    unfold readSources
    have goes := run_readSource start (free path List.mem_cons_self)
    rcases bind_fails unread with here | ⟨text, here, others⟩
    · refine ⟨[], path, rest, rfl, here, ?_⟩
      rw [run_bind goes, here, List.map_nil, logText, told_nothing]
      rfl
    · rcases bind_fails others with behind | ⟨_, _, same⟩
      · have free' := fun other inside => free other (List.mem_cons_of_mem _ inside)
        have behind' : ((start.asked [.read path]).told
            (logText debug ["read " ++ path])).machine.sourceTexts rest = .error fault := behind
        obtain ⟨before, stop, later, rfl, fails, ran⟩ := ih free' behind'
        refine ⟨path :: before, stop, later, rfl, fails, ?_⟩
        rw [run_bind goes, here]
        dsimp only
        rw [run_bind (run_logDebug _ debug _), run_bind ran]
        rw [told_asked, asked_asked, told_told, ← logText_append]
        rfl
      · cases same

variable {job : Job}

theorem run_resolveInputs_ok (debug : Bool) (free : ∀ path ∈ job.files, Path.NulFree path)
    (read : job.sources start.machine = .ok units) :
    start.run (resolveInputs debug job.useInput job.options.noPrelude job.files) =
      (.ok (.ok units), (start.asked (job.sourceFiles.map .read)).told
        (logText debug (job.readLines units))) := by
  unfold Job.sources at read
  unfold resolveInputs Job.sourceFiles Job.readLines
  by_cases used : job.useInput = true
  · rw [if_pos used] at read
    rw [if_pos used, if_pos used, if_pos used]
    rw [run_bind (run_input start)]
    cases text : readableText start.machine.input with
    | error fault =>
      rw [text] at read
      cases read
    | ok chars =>
      rw [text] at read
      cases read
      dsimp only
      rw [run_bind (run_logDebug start debug _), List.map_nil,
        asked_nothing]
      rfl
  · rw [if_neg used] at read
    rw [if_neg used, if_neg used, if_neg used]
    cases texts : start.machine.sourceTexts job.files with
    | error fault =>
      rw [texts] at read
      cases read
    | ok given =>
      rw [texts] at read
      cases read
      rw [run_bind (run_readSources_ok debug free texts)]
      rfl

/-- Files are read up to the one that the fault is about, and those behind it are left alone. -/
theorem run_resolveInputs_error (debug : Bool) (free : ∀ path ∈ job.files, Path.NulFree path)
    (unread : job.sources start.machine = .error fault) :
    ∃ opened behind lines, job.sourceFiles = opened ++ behind ∧
      opened.getLast? = fault.path ∧
      start.run (resolveInputs debug job.useInput job.options.noPrelude job.files) =
        (.ok (.error fault), (start.asked (opened.map .read)).told (logText debug lines)) := by
  unfold Job.sources at unread
  unfold resolveInputs Job.sourceFiles
  by_cases used : job.useInput = true
  · rw [if_pos used] at unread
    rw [if_pos used, if_pos used]
    cases text : readableText start.machine.input with
    | error fault =>
      rw [text] at unread
      cases unread
      refine ⟨[], [], [], rfl, rfl, ?_⟩
      rw [run_bind (run_input start), List.map_nil, asked_nothing, logText, told_nothing, text]
      rfl
    | ok chars =>
      rw [text] at unread
      cases unread
  · rw [if_neg used] at unread
    rw [if_neg used, if_neg used]
    cases texts : start.machine.sourceTexts job.files with
    | error other =>
      rw [texts] at unread
      cases unread
      obtain ⟨before, path, later, split, fails, ran⟩ := run_readSources_error debug free texts
      have named : fault.path = some path := source_fault_path fails
      refine ⟨before ++ [path], later, before.map ("read " ++ ·), by simp [split],
        by simp [named], ?_⟩
      rw [run_bind ran]
      rfl
    | ok given =>
      rw [texts] at unread
      cases unread

end Watched

end PureJs
