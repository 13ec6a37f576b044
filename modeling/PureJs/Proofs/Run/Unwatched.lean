import PureJs.Main
import PureJs.Proofs.Run.Writing

/-! The record that a machine keeps makes no difference to a run. -/

namespace PureJs

variable {α β : Type}

/-- What a run gives and what it leaves of a machine. -/
def Machine.run (start : Machine) (steps : ExceptT Crash (StateM Machine) α) :
    Except Crash α × Machine := steps.run.run start

def Alike (watched : ExceptT Crash (StateM Watched) α) (plain : ExceptT Crash (StateM Machine) α) :
    Prop :=
  ∀ start : Watched,
    start.machine.run plain = ((start.run watched).1, (start.run watched).2.machine)

namespace Alike

theorem pure (value : α) : Alike (Pure.pure value) (Pure.pure value) := fun _ => rfl

theorem throw (crash : Crash) :
    Alike (MonadExcept.throw crash : ExceptT Crash (StateM Watched) α)
      (MonadExcept.throw crash) := fun _ => rfl

theorem bind {first : ExceptT Crash (StateM Watched) α} {first' : ExceptT Crash (StateM Machine) α}
    {next : α → ExceptT Crash (StateM Watched) β} {next' : α → ExceptT Crash (StateM Machine) β}
    (one : Alike first first') (others : ∀ value, Alike (next value) (next' value)) :
    Alike (first >>= next) (first' >>= next') := by
  intro start
  have begins := one start
  obtain ⟨result, middle, ran⟩ : ∃ result middle, start.run first = (result, middle) :=
    ⟨_, _, rfl⟩
  rw [ran] at begins
  show (StateT.bind first'.run (ExceptT.bindCont next')) start.machine = _
  unfold Machine.run ExceptT.run StateT.run at begins
  cases result with
  | error crash =>
    rw [Watched.run_bind_error ran]
    simp only [StateT.bind, ExceptT.run, begins, ExceptT.bindCont]
    rfl
  | ok value =>
    rw [Watched.run_bind ran]
    simp only [StateT.bind, ExceptT.run, begins, ExceptT.bindCont]
    exact others value middle

end Alike

theorem logDebug_alike (debug : Bool) (line : String) :
    Alike (logDebug debug line) (logDebug debug line) := by
  cases debug <;> exact fun _ => rfl

theorem makeDirectory_alike (path : String) :
    Alike (Host.makeDirectory path) (Host.makeDirectory path) := fun _ => rfl

theorem readSource_alike (path : String) : Alike (readSource path) (readSource path) := by
  unfold readSource
  refine .bind (fun _ => rfl) ?_
  rintro (fault | bytes)
  · exact .bind (by cases fault <;> exact fun _ => rfl) fun reason => .pure _
  · dsimp only
    cases readableText bytes <;> exact .pure _

theorem readSources_alike (debug : Bool) (paths : List String) :
    Alike (readSources debug paths) (readSources debug paths) := by
  induction paths with
  | nil => exact .pure _
  | cons path rest ih =>
    unfold readSources
    refine (readSource_alike path).bind ?_
    rintro (fault | text)
    · exact .pure _
    · refine (logDebug_alike debug _).bind fun _ => ih.bind ?_
      rintro (fault | units) <;> exact .pure _

theorem resolveInputs_alike (debug useInput noPrelude : Bool) (paths : List String) :
    Alike (resolveInputs debug useInput noPrelude paths)
      (resolveInputs debug useInput noPrelude paths) := by
  unfold resolveInputs
  cases useInput with
  | true =>
    refine .bind (fun _ => rfl) fun bytes => ?_
    cases readableText bytes with
    | error fault => exact .pure _
    | ok text => exact (logDebug_alike debug _).bind fun _ => .pure _
  | false =>
    refine (readSources_alike debug paths).bind ?_
    rintro (fault | units) <;> exact .pure _

theorem ensureDirectory_alike (path : String) :
    Alike (ensureDirectory path) (ensureDirectory path) := by
  unfold ensureDirectory
  refine .bind (makeDirectory_alike path) ?_
  rintro (fault | ⟨⟩)
  · refine .bind (fun _ => rfl) ?_
    rintro (_ | _) <;> exact .pure _
  · exact .pure _

theorem isThere_alike (path : String) : Alike (isThere path) (isThere path) := by
  unfold isThere
  refine .bind (fun _ => rfl) ?_
  rintro (_ | _)
  · exact fun _ => rfl
  · exact .pure _

theorem ensureDirectories_alike (depth : Nat) (path : String) :
    Alike (ensureDirectories depth path) (ensureDirectories depth path) := by
  induction depth generalizing path with
  | zero => exact ensureDirectory_alike path
  | succ depth ih =>
    obtain ⟨head, tail, _, same⟩ := Watched.ensureDirectories_succ depth path
    rw [same, same]
    split
    · exact ensureDirectory_alike path
    · refine (isThere_alike head).bind ?_
      rintro (_ | _)
      · refine (ih head).bind fun result => ?_
        have last : Alike (if tail = "." then pure (.ok ()) else ensureDirectory path)
            (if tail = "." then pure (.ok ()) else ensureDirectory path) := by
          split
          · exact .pure _
          · exact ensureDirectory_alike path
        match result with
        | .ok () | .error .alreadyThere => exact last
        | .error .nullByte | .error .missing | .error .isDirectory | .error .notDirectory
        | .error .nameTooLong | .error (.other _) => exact .pure _
      · exact ensureDirectory_alike path

theorem reason_alike (fault : FileFault) : Alike (liftM fault.reason) (liftM fault.reason) := by
  cases fault <;> exact fun _ => rfl

theorem makeParents_alike (path : String) : Alike (makeParents path) (makeParents path) := by
  unfold makeParents
  dsimp only
  split
  · exact .pure _
  · refine (ensureDirectories_alike _ _).bind ?_
    rintro (fault | ⟨⟩)
    · exact (reason_alike fault).bind fun _ => .pure _
    · exact .pure _

theorem writeResult_alike (debug : Bool) (path text : String) :
    Alike (writeResult debug path text) (writeResult debug path text) := by
  unfold writeResult
  refine (makeParents_alike path).bind ?_
  rintro (fault | ⟨⟩)
  · exact .pure _
  · refine .bind (fun _ => rfl) ?_
    rintro (fault | ⟨⟩)
    · exact (reason_alike fault).bind fun _ => .pure _
    · exact (logDebug_alike debug _).bind fun _ => .pure _

theorem route_alike (debug : Bool) (javascript : String) (externs output path : Option String) :
    Alike (route debug javascript externs output path)
      (route debug javascript externs output path) := by
  unfold route
  cases output with
  | none =>
    refine .bind (fun _ => rfl) fun _ => .bind (.pure _) fun written => ?_
    dsimp only
    split
    · exact writeResult_alike _ _ _
    · exact .pure _
  | some target =>
    refine (writeResult_alike debug target javascript).bind fun written => ?_
    dsimp only
    split
    · exact writeResult_alike _ _ _
    · exact .pure _

theorem failIn_alike (debug : Bool) (stage : Stage) (message : String) :
    Alike (failIn debug stage message) (failIn debug stage message) := by
  unfold failIn
  exact (logDebug_alike debug _).bind fun _ => .bind (fun _ => rfl) fun _ => .pure _

theorem notes_alike (debug : Bool) (notes : List String) :
    Alike (notes.forM (logDebug debug)) (notes.forM (logDebug debug)) := by
  induction notes with
  | nil => exact .pure _
  | cons note rest ih => exact (logDebug_alike debug note).bind fun _ => ih

theorem Job.run_alike [Simplifier] (debug : Bool) (version : String) (job : Job) :
    Alike (job.run debug version) (job.run debug version) := by
  unfold Job.run
  refine (resolveInputs_alike _ _ _ _).bind ?_
  rintro (fault | units)
  · exact failIn_alike _ _ _
  · refine (logDebug_alike debug _).bind fun _ => ?_
    dsimp only
    refine (notes_alike debug _).bind fun _ => ?_
    split
    · exact failIn_alike _ _ _
    · exact .throw _
    · exact .throw _
    · refine (route_alike _ _ _ _ _).bind ?_
      rintro (fault | ⟨⟩)
      · exact failIn_alike _ _ _
      · exact (logDebug_alike debug _).bind fun _ => .pure _

end PureJs
