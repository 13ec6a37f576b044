import PureJs.Host.Machine
import PureJs.Proofs.Host.Files
import PureJs.Run.Fault

/-!
A machine that keeps a record of what it is asked for, and what runs on it give. A run that may
crash is followed step by step: each step starts from what the one before it has left behind.
-/

namespace PureJs

inductive Request
  | read (path : String)
  | write (path : String)
  | makeDirectory (path : String)
  | look (path : String)
  deriving DecidableEq, Repr

/-- A machine with all that was asked about its files, in order. -/
structure Watched where
  machine : Machine
  requests : List Request
  deriving DecidableEq, Repr

def logText (debug : Bool) : List String → String
  | [] => ""
  | line :: rest => (if debug then "DEBUG: " ++ line ++ "\n" else "") ++ logText debug rest

theorem logText_append (debug : Bool) (first second : List String) :
    logText debug (first ++ second) = logText debug first ++ logText debug second := by
  induction first with
  | nil => exact String.empty_append.symm
  | cons line rest ih => rw [List.cons_append, logText, logText, ih, ← String.append_assoc]

theorem logText_silent (lines : List String) : logText false lines = "" := by
  induction lines with
  | nil => rfl
  | cons line rest ih => rw [logText, ih]; rfl

namespace Watched

variable {α β : Type}

def asked (watched : Watched) (more : List Request) : Watched :=
  { watched with requests := watched.requests ++ more }

def told (watched : Watched) (text : String) : Watched :=
  { watched with machine := { watched.machine with err := watched.machine.err ++ text } }

@[simp] theorem asked_requests (watched : Watched) (more : List Request) :
    (watched.asked more).requests = watched.requests ++ more := rfl

theorem told_asked (watched : Watched) (text : String) (more : List Request) :
    (watched.told text).asked more = (watched.asked more).told text := rfl

theorem asked_asked (watched : Watched) (first second : List Request) :
    (watched.asked first).asked second = watched.asked (first ++ second) := by
  unfold asked
  rw [List.append_assoc]

theorem told_told (watched : Watched) (first second : String) :
    (watched.told first).told second = watched.told (first ++ second) := by
  unfold told
  rw [String.append_assoc]

theorem asked_nothing (watched : Watched) : watched.asked [] = watched := by
  unfold asked
  rw [List.append_nil]

theorem told_nothing (watched : Watched) : watched.told "" = watched := by
  unfold told
  rw [String.append_empty]

def ask (request : Request) : StateM Watched Unit := modify (asked · [request])

def onMachine (use : StateM Machine α) : StateM Watched α := fun watched =>
  let (value, machine) := use watched.machine
  (value, { watched with machine := machine })

instance : Host (StateM Watched) where
  readFile path := do
    ask (.read path)
    onMachine (Host.readFile path)
  writeFile path text := do
    ask (.write path)
    onMachine (Host.writeFile path text)
  makeDirectory path := do
    ask (.makeDirectory path)
    onMachine (Host.makeDirectory path)
  isFile path := do
    ask (.look path)
    onMachine (Host.isFile path)
  isDirectory path := do
    ask (.look path)
    onMachine (Host.isDirectory path)
  currentDirectory := onMachine Host.currentDirectory
  input := onMachine Host.input
  out text := onMachine (Host.out text)
  err text := onMachine (Host.err text)

/-- What a run gives and what it leaves behind. -/
def run (start : Watched) (steps : ExceptT Crash (StateM Watched) α) : Except Crash α × Watched :=
  steps.run.run start

variable {start middle : Watched} {first : ExceptT Crash (StateM Watched) α}
  {next : α → ExceptT Crash (StateM Watched) β}

theorem run_pure (start : Watched) (value : α) : start.run (pure value) = (.ok value, start) := rfl

theorem run_bind {value : α} (goes : start.run first = (.ok value, middle)) :
    start.run (first >>= next) = middle.run (next value) := by
  unfold run ExceptT.run StateT.run at goes ⊢
  simp only [bind, ExceptT.bind, ExceptT.mk, StateT.bind, goes, ExceptT.bindCont]

theorem run_bind_error {crash : Crash} (fails : start.run first = (.error crash, middle)) :
    start.run (first >>= next) = (.error crash, middle) := by
  unfold run ExceptT.run StateT.run at fails ⊢
  simp only [bind, ExceptT.bind, ExceptT.mk, StateT.bind, fails, ExceptT.bindCont]
  rfl

theorem run_bind_gives {result : β} {after : Watched}
    (goes : start.run (first >>= next) = (.ok result, after)) :
    ∃ value middle, start.run first = (.ok value, middle) ∧
      middle.run (next value) = (.ok result, after) := by
  obtain ⟨given, middle, ran⟩ : ∃ given middle, start.run first = (given, middle) := ⟨_, _, rfl⟩
  cases given with
  | error crash =>
    rw [run_bind_error ran] at goes
    cases goes
  | ok value => exact ⟨value, middle, ran, run_bind ran ▸ goes⟩

theorem run_reason (start : Watched) {fault : FileFault} (told : fault ≠ .nullByte) :
    start.run (liftM fault.reason) = (.ok fault.message, start) := by
  cases fault with
  | nullByte => exact absurd rfl told
  | _ => rfl

theorem run_read (start : Watched) (path : String) :
    start.run (Host.readFile path) =
      (.ok (start.machine.files.readFile start.machine.current path),
        start.asked [.read path]) := rfl

theorem run_input (start : Watched) : start.run Host.input = (.ok start.machine.input, start) := rfl

theorem run_err (start : Watched) (text : String) :
    start.run (Host.err text) = (.ok (), start.told text) := rfl

theorem run_logDebug (start : Watched) (debug : Bool) (line : String) :
    start.run (logDebug debug line) = (.ok (), start.told (logText debug [line])) := by
  cases debug with
  | false => rw [logText_silent, told_nothing]; rfl
  | true => rw [logText, logText, String.append_empty]; rfl

theorem run_forM_logDebug (start : Watched) (debug : Bool) (lines : List String) :
    start.run (lines.forM (logDebug debug)) = (.ok (), start.told (logText debug lines)) := by
  induction lines generalizing start with
  | nil => rw [logText, told_nothing]; rfl
  | cons line rest ih =>
    show start.run (logDebug debug line >>= fun _ => rest.forM (logDebug debug)) = _
    rw [run_bind (run_logDebug start debug line), ih, told_told, ← logText_append,
      List.singleton_append]

theorem run_out (start : Watched) (text : String) :
    start.run (Host.out text) =
      (.ok (), { start with machine := { start.machine with out := start.machine.out ++ text } }) :=
  rfl

theorem run_isDirectory (start : Watched) (path : String) :
    ∃ answer, start.run (Host.isDirectory path) = (.ok answer, start.asked [.look path]) :=
  ⟨_, rfl⟩

theorem run_isFile (start : Watched) (path : String) :
    ∃ answer, start.run (Host.isFile path) = (.ok answer, start.asked [.look path]) := ⟨_, rfl⟩

def changed (start : Watched) (files : FileTree) : Watched :=
  { start with machine := { start.machine with files := files } }

theorem run_change (start : Watched) (change : Machine → Except FileFault Unit × FileTree) :
    start.run (ExceptT.lift (onMachine (Machine.changeFiles change))) =
      (.ok (change start.machine).1, start.changed (change start.machine).2) := rfl

theorem run_makeDirectory (start : Watched) (path : String) :
    start.run (Host.makeDirectory path) =
      (.ok (start.machine.files.makeDirectory start.machine.current path).1,
        (start.asked [.makeDirectory path]).changed
          (start.machine.files.makeDirectory start.machine.current path).2) :=
  run_change (start.asked [.makeDirectory path])
    fun machine => machine.files.makeDirectory machine.current path

theorem run_writeFile (start : Watched) (path text : String) :
    start.run (Host.writeFile path text) =
      (.ok (start.machine.files.writeFile start.machine.current path text.toUTF8.toList).1,
        (start.asked [.write path]).changed
          (start.machine.files.writeFile start.machine.current path text.toUTF8.toList).2) :=
  run_change (start.asked [.write path])
    fun machine => machine.files.writeFile machine.current path text.toUTF8.toList

def Gives (start : Watched) (steps : ExceptT Crash (StateM Watched) α)
    (post : α → Watched → Prop) : Prop :=
  ∃ value after, start.run steps = (.ok value, after) ∧ post value after

theorem Gives.pure {value : α} {post : α → Watched → Prop} (holds : post value start) :
    start.Gives (pure value) post := ⟨value, start, rfl, holds⟩

theorem Gives.bind {mid : α → Watched → Prop} {post : β → Watched → Prop}
    (goes : start.Gives first mid)
    (rest : ∀ value middle, mid value middle → middle.Gives (next value) post) :
    start.Gives (first >>= next) post := by
  obtain ⟨value, middle, ran, holds⟩ := goes
  obtain ⟨result, after, goes, ends⟩ := rest value middle holds
  exact ⟨result, after, (run_bind ran).trans goes, ends⟩

theorem Gives.mono {post weak : α → Watched → Prop} (goes : start.Gives first post)
    (weaker : ∀ value after, post value after → weak value after) : start.Gives first weak := by
  obtain ⟨value, after, ran, holds⟩ := goes
  exact ⟨value, after, ran, weaker value after holds⟩

end Watched

end PureJs
