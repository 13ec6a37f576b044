import PureJs.Proofs.Host.Watched
import PureJs.Run.Output

/-!
What the writing of a result does. Directories are made on the way to its path, then there is one
write; if anything of this fails, the files are what they were but for new directories.
-/

namespace PureJs

inductive Request.OnTheWay (path : String) : Request → Prop
  | look {front : String} (begins : front.toList <+: path.toList) : OnTheWay path (.look front)
  | makeDirectory {front : String} (begins : front.toList <+: path.toList) :
      OnTheWay path (.makeDirectory front)

theorem Request.OnTheWay.further {front path : String} {request : Request}
    (near : request.OnTheWay front) (begins : front.toList <+: path.toList) :
    request.OnTheWay path := by
  cases near with
  | look start => exact .look (start.trans begins)
  | makeDirectory start => exact .makeDirectory (start.trans begins)

namespace Watched

structure Prepared (start : Watched) (path : String) (after : Watched) : Prop where
  machine : after.machine = { start.machine with files := after.machine.files }
  grows : FileTree.Grows start.machine.files after.machine.files
  requests : ∃ more, after.requests = start.requests ++ more ∧
    ∀ request ∈ more, request.OnTheWay path

variable {start middle after : Watched} {path front text : String}

theorem Prepared.refl (start : Watched) (path : String) : start.Prepared path start :=
  ⟨rfl, FileTree.Grows.refl _, [], (List.append_nil _).symm, nofun⟩

theorem Prepared.trans (first : start.Prepared path middle) (second : middle.Prepared path after) :
    start.Prepared path after := by
  obtain ⟨early, asked, earlier⟩ := first.requests
  obtain ⟨late, more, later⟩ := second.requests
  refine ⟨?_, first.grows.trans second.grows, early ++ late, ?_, ?_⟩
  · rw [second.machine, first.machine]
  · rw [more, asked, List.append_assoc]
  · intro request inside
    exact (List.mem_append.mp inside).elim (earlier request) (later request)

theorem Prepared.further (near : start.Prepared front after)
    (begins : front.toList <+: path.toList) : start.Prepared path after := by
  obtain ⟨more, asked, each⟩ := near.requests
  exact ⟨near.machine, near.grows, more, asked,
    fun request inside => (each request inside).further begins⟩

theorem prepared_asked {request : Request} (near : request.OnTheWay path) :
    start.Prepared path (start.asked [request]) := by
  refine ⟨rfl, FileTree.Grows.refl _, [request], rfl, ?_⟩
  simpa using near

theorem gives_isDirectory (start : Watched) (path : String) :
    start.Gives (Host.isDirectory path) fun _ after => start.Prepared path after := by
  obtain ⟨answer, ran⟩ := run_isDirectory start path
  exact ⟨answer, _, ran, prepared_asked (.look List.prefix_rfl)⟩

theorem gives_isFile (start : Watched) (path : String) :
    start.Gives (Host.isFile path) fun _ after => start.Prepared path after := by
  obtain ⟨answer, ran⟩ := run_isFile start path
  exact ⟨answer, _, ran, prepared_asked (.look List.prefix_rfl)⟩

def Told (result : Except FileFault Unit) : Prop := result ≠ .error .nullByte

theorem gives_makeDirectory (start : Watched) (free : Path.NulFree path) :
    start.Gives (Host.makeDirectory path) fun result after =>
      Told result ∧ start.Prepared path after := by
  have asked : start.Prepared path (start.asked [.makeDirectory path]) :=
    prepared_asked (.makeDirectory List.prefix_rfl)
  exact ⟨_, _, run_makeDirectory start path, FileTree.make_no_null free, rfl,
    FileTree.made_grows rfl, asked.requests⟩

theorem gives_ensureDirectory (start : Watched) (free : Path.NulFree path) :
    start.Gives (ensureDirectory path) fun result after =>
      Told result ∧ start.Prepared path after := by
  unfold ensureDirectory
  refine (gives_makeDirectory start free).bind ?_
  rintro (fault | ⟨⟩) middle ⟨told, made⟩
  · refine (gives_isDirectory middle path).bind ?_
    rintro (_ | _) after looked
    · exact .pure ⟨told, made.trans looked⟩
    · exact .pure ⟨nofun, made.trans looked⟩
  · exact .pure ⟨nofun, made⟩

theorem gives_isThere (start : Watched) (path : String) :
    start.Gives (isThere path) fun _ after => start.Prepared path after := by
  unfold isThere
  refine (gives_isFile start path).bind ?_
  rintro (_ | _) middle looked
  · exact (gives_isDirectory middle path).mono fun _ _ again => looked.trans again
  · exact .pure looked

theorem ensureDirectories_succ (depth : Nat) (path : String) :
    ∃ head tail : String, head.toList <+: path.toList ∧ ∀ (m : Type → Type) [Monad m] [Host m],
      (ensureDirectories (depth + 1) path : m (Except FileFault Unit)) =
        if head = "" ∨ tail = "" then ensureDirectory path
        else (do
          if ← isThere head then ensureDirectory path
          else
            match ← ensureDirectories depth head with
            | .ok () | .error .alreadyThere =>
              if tail = "." then pure (.ok ()) else ensureDirectory path
            | .error fault => pure (.error fault)) := by
  refine ⟨_, _, ?_, fun _ _ _ => rfl⟩
  have front := Path.split_begins path
  split
  · rename_i head split
    rw [split] at front
    exact (Path.split_begins head).trans front
  · exact front

theorem gives_ensureDirectories (depth : Nat) (start : Watched) (free : Path.NulFree path) :
    start.Gives (ensureDirectories depth path) fun result after =>
      Told result ∧ start.Prepared path after := by
  induction depth generalizing start path with
  | zero => exact gives_ensureDirectory start free
  | succ depth ih =>
    obtain ⟨head, tail, begins, same⟩ := ensureDirectories_succ depth path
    rw [same]
    by_cases bare : head = "" ∨ tail = ""
    · rw [if_pos bare]
      exact gives_ensureDirectory start free
    · rw [if_neg bare]
      refine (gives_isThere start head).bind ?_
      intro there middle looked
      have near := looked.further begins
      have finish : ∀ start : Watched, start.Gives (ensureDirectory path) fun result after =>
          Told result ∧ start.Prepared path after := fun start => gives_ensureDirectory start free
      cases there with
      | true => exact (finish middle).mono fun _ _ made => ⟨made.1, near.trans made.2⟩
      | false =>
        refine (ih middle (free.front begins)).bind ?_
        intro result after above
        have above' := near.trans (above.2.further begins)
        have last : after.Gives (if tail = "." then pure (.ok ()) else ensureDirectory path)
            fun result last => Told result ∧ start.Prepared path last := by
          split
          · exact .pure ⟨nofun, above'⟩
          · exact (finish after).mono fun _ _ made => ⟨made.1, above'.trans made.2⟩
        match result with
        | .ok () => exact last
        | .error .alreadyThere => exact last
        | .error .nullByte => exact absurd rfl above.1
        | .error .missing | .error .isDirectory | .error .notDirectory | .error .nameTooLong
        | .error (.other _) => exact .pure ⟨nofun, above'⟩

/-- A result is a fault of the path that it is about, or none. -/
def About (path : String) (result : Except OutputFault Unit) : Prop :=
  ∀ fault, result = .error fault → fault.path = path

theorem run_fault (start : Watched) (path : String) {fault : FileFault}
    (told : fault ≠ .nullByte) :
    start.run (do pure (.error ⟨path, ← fault.reason⟩) :
        ExceptT Crash (StateM Watched) (Except OutputFault Unit)) =
      (.ok (.error ⟨path, fault.message⟩), start) := run_bind (run_reason start told)

theorem gives_makeParents (start : Watched) (free : Path.NulFree path) :
    start.Gives (makeParents path) fun result after =>
      About path result ∧ start.Prepared path after := by
  unfold makeParents
  dsimp only
  split
  · exact .pure ⟨nofun, .refl start path⟩
  · refine (gives_ensureDirectories _ start (free.front (Path.split_begins path))).bind ?_
    rintro (fault | ⟨⟩) after ⟨told, made⟩
    · have ends := run_fault after path fun null => told (null ▸ rfl)
      refine ⟨_, _, ends, ?_, made.further (Path.split_begins path)⟩
      rintro _ ⟨⟩
      rfl
    · exact .pure ⟨nofun, made.further (Path.split_begins path)⟩

def AsksFor (start : Watched) (path : String) (after : Watched) : Prop :=
  ∃ more, after.requests = start.requests ++ more ∧
    ∀ request ∈ more, request = .write path ∨ request.OnTheWay path

structure Unwritten (start : Watched) (path text : String) (after : Watched) : Prop where
  machine : after.machine = { start.machine with files := after.machine.files }
  touches : FileTree.Touches start.machine.current path start.machine.files after.machine.files
  left : ∀ way, after.machine.files.find start.machine.current path = .ok way →
    FileTree.Undisturbed start.machine.files after.machine.files way ∨
      ∃ count, after.machine.files.get? way = some (.file (text.toUTF8.toList.take count))
  asks : start.AsksFor path after

structure Written (start : Watched) (debug : Bool) (path text : String) (after : Watched) :
    Prop where
  machine : after.machine = { start.machine with
    files := after.machine.files
    err := start.machine.err ++ logText debug ["wrote " ++ path] }
  touches : FileTree.Touches start.machine.current path start.machine.files after.machine.files
  read : after.machine.files.readFile start.machine.current path = .ok text.toUTF8.toList
  asks : start.AsksFor path after

theorem Prepared.asks (made : start.Prepared path after) : start.AsksFor path after := by
  obtain ⟨more, asked, each⟩ := made.requests
  exact ⟨more, asked, fun request inside => .inr (each request inside)⟩

theorem Prepared.unwritten (made : start.Prepared path after) (text : String) :
    start.Unwritten path text after :=
  ⟨made.machine, made.grows.touches, fun way _ => .inl (made.grows way), made.asks⟩

theorem Prepared.write_asked (made : start.Prepared path middle) (files : FileTree) :
    start.AsksFor path ((middle.asked [.write path]).changed files) := by
  obtain ⟨more, asked, each⟩ := made.requests
  refine ⟨more ++ [.write path], ?_, ?_⟩
  · show (middle.asked [.write path]).requests = _
    rw [asked_requests, asked, List.append_assoc]
  · intro request inside
    rcases List.mem_append.mp inside with early | last
    · exact .inr (each request early)
    · exact .inl (List.mem_singleton.mp last)

theorem gives_writeResult (start : Watched) (debug : Bool) (free : Path.NulFree path)
    (text : String) :
    start.Gives (writeResult debug path text) fun result after =>
      match result with
      | .ok () => start.Written debug path text after
      | .error fault => fault.path = path ∧ start.Unwritten path text after := by
  unfold writeResult
  refine (gives_makeParents start free).bind ?_
  rintro (fault | ⟨⟩) ready ⟨about, made⟩
  · exact .pure ⟨about fault rfl, made.unwritten text⟩
  · have current : ready.machine.current = start.machine.current := by rw [made.machine]
    have ran := run_writeFile ready path text
    obtain ⟨result, files, wrote⟩ : ∃ result files, ready.machine.files.writeFile
        ready.machine.current path text.toUTF8.toList = (result, files) := ⟨_, _, rfl⟩
    have told : result ≠ .error .nullByte := by
      have none : (ready.machine.files.writeFile ready.machine.current path
          text.toUTF8.toList).1 ≠ .error .nullByte := FileTree.write_no_null free _
      rwa [wrote] at none
    rw [wrote] at ran
    rw [current] at wrote
    have touches := made.grows.then_touches (FileTree.write_touches wrote)
    have machine : { ready.machine with files := files } =
        { start.machine with files := files } := by
      rw [made.machine]
    rcases result with fault | ⟨⟩
    · refine ⟨_, _, (run_bind ran).trans (run_fault _ path fun null => told (null ▸ rfl)), rfl,
        machine, touches, ?_, made.write_asked files⟩
      intro way leads
      exact (FileTree.left_unwritten wrote leads).imp_left (made.grows way).trans
    · refine ⟨.ok (), _, (run_bind ran).trans (run_bind (run_logDebug _ debug _)), ?_, touches,
        FileTree.read_written wrote, made.write_asked files⟩
      show ({ ready.machine with
        files := files
        err := ready.machine.err ++ logText debug ["wrote " ++ path] } : Machine) = _
      rw [made.machine]
      rfl

section

variable {debug : Bool}

theorem Unwritten.current (failed : start.Unwritten path text after) :
    after.machine.current = start.machine.current := by rw [failed.machine]

theorem Unwritten.out (failed : start.Unwritten path text after) :
    after.machine.out = start.machine.out := by rw [failed.machine]

theorem Written.current (written : start.Written debug path text after) :
    after.machine.current = start.machine.current := by rw [written.machine]

theorem Written.out (written : start.Written debug path text after) :
    after.machine.out = start.machine.out := by rw [written.machine]

end

end Watched

end PureJs
