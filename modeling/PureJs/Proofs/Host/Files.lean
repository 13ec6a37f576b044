import Mathlib.Data.List.Basic
import PureJs.Host.FileTree
import PureJs.Proofs.Steps

/-!
What file operations do to a tree. Making a directory only adds one, and writing a file changes this
file only, so that paths go on leading to the same places; and a file has what was written last.
-/

namespace PureJs

def Path.NulFree (path : String) : Prop := '\x00' ∉ path.toList

instance (path : String) : Decidable (Path.NulFree path) :=
  inferInstanceAs (Decidable ('\x00' ∉ path.toList))

theorem Path.NulFree.front {front path : String} (free : Path.NulFree path)
    (begins : front.toList <+: path.toList) : Path.NulFree front :=
  fun inside => free (begins.subset inside)

theorem Path.split_begins (path : String) : (Path.split path).1.toList <+: path.toList := by
  unfold Path.split
  dsimp only
  rw [String.toList_ofList, ← List.reverse_suffix, List.reverse_reverse]
  have parent := List.dropWhile_suffix (· ≠ '/') (l := path.toList.reverse)
  split
  · exact parent
  · exact (List.dropWhile_suffix _).trans parent

namespace FileTree

variable {tree other last : FileTree} {current : List String} {path : String}

theorem lookup_filter_ne {way target : List String} (entries : List (List String × Entry))
    (away : target ≠ way) :
    (entries.filter (·.1 ≠ way)).lookup target = entries.lookup target := by
  induction entries with
  | nil => rfl
  | cons entry rest ih =>
    obtain ⟨key, value⟩ := entry
    by_cases same : key = way
    · subst same
      rw [List.filter_cons_of_neg (by simp), ih, List.lookup_cons, beq_eq_false_iff_ne.mpr away]
    · rw [List.filter_cons_of_pos (by simp [same]), List.lookup_cons, List.lookup_cons, ih]

theorem get_insert {way : List String} (below : way ≠ []) (entry : Entry)
    (target : List String) :
    (tree.insert way entry).get? target =
      if target = way then some entry else tree.get? target := by
  unfold get? insert
  by_cases same : target = way
  · subst same
    simp [below]
  · rw [if_neg same]
    dsimp only
    rw [List.lookup_cons, lookup_filter_ne _ same, beq_eq_false_iff_ne.mpr same]

structure Keeps (tree other : FileTree) : Prop where
  directory : ∀ way, tree.get? way = some .directory → other.get? way = some .directory
  present : ∀ way, tree.get? way ≠ none → other.get? way ≠ none

def Undisturbed (tree other : FileTree) (way : List String) : Prop :=
  other.get? way = tree.get? way ∨ tree.get? way = none ∧ other.get? way = some .directory

theorem Undisturbed.trans {way : List String} (first : Undisturbed tree other way)
    (second : Undisturbed other last way) : Undisturbed tree last way := by
  rcases second with same | ⟨missing, made⟩
  · unfold Undisturbed
    rw [same]
    exact first
  · rcases first with before | ⟨_, there⟩
    · exact .inr ⟨before ▸ missing, made⟩
    · rw [there] at missing
      cases missing

def Grows (tree other : FileTree) : Prop := ∀ way, Undisturbed tree other way

theorem Grows.refl (tree : FileTree) : Grows tree tree := fun _ => .inl rfl

theorem Grows.trans (first : Grows tree other) (second : Grows other last) : Grows tree last :=
  fun way => (first way).trans (second way)

theorem Grows.same (grows : Grows tree other) {way : List String} {entry : Entry}
    (there : tree.get? way = some entry) : other.get? way = some entry := by
  rcases grows way with same | ⟨missing, _⟩
  · rw [same, there]
  · rw [there] at missing
    cases missing

theorem Grows.keeps (grows : Grows tree other) : Keeps tree other := by
  refine ⟨fun way there => grows.same there, fun way there => ?_⟩
  obtain ⟨entry, found⟩ := Option.ne_none_iff_exists'.mp there
  rw [grows.same found]
  exact Option.some_ne_none entry

theorem Keeps.trans (first : Keeps tree other) (second : Keeps other last) : Keeps tree last :=
  ⟨fun way there => second.directory way (first.directory way there),
    fun way there => second.present way (first.present way there)⟩

theorem step_keeps (keeps : Keeps tree other) {way next : List String} {name : String}
    (goes : tree.step way name = .ok next) : other.step way name = .ok next := by
  unfold step at goes ⊢
  split at goes
  · cases goes
  · rename_i here
    rw [if_neg (not_not.mpr (keeps.directory way (not_not.mp here)))]
    split at goes
    · rename_i stays
      rw [if_pos stays]
      exact goes
    · rename_i moves
      rw [if_neg moves]
      split at goes
      · rename_i up
        rw [if_pos up]
        exact goes
      · rename_i down
        rw [if_neg down]
        split at goes
        · cases goes
        · rename_i short
          rw [if_neg short]
          split at goes
          · cases goes
          · rename_i there
            rw [Option.isNone_iff_eq_none] at there
            have still := keeps.present _ there
            rw [if_neg (by rwa [Option.isNone_iff_eq_none])]
            exact goes

theorem steps_keep (keeps : Keeps tree other) {names : List String} {way next : List String}
    (goes : names.foldlM tree.step way = .ok next) : names.foldlM other.step way = .ok next :=
  fold_follows (fun _ _ _ _ step => step_keeps keeps step) goes

theorem find_keeps (keeps : Keeps tree other) {way : List String}
    (found : tree.find current path = .ok way) : other.find current path = .ok way := by
  unfold find at found ⊢
  obtain ⟨_, fine, goes⟩ := bind_gives found
  rw [fine]
  exact steps_keep keeps goes

theorem find_of_read {content : List UInt8} (read : tree.readFile current path = .ok content) :
    ∃ way, tree.find current path = .ok way ∧ tree.get? way = some (.file content) := by
  obtain ⟨way, found, rest⟩ := bind_gives read
  refine ⟨way, found, ?_⟩
  cases there : tree.get? way with
  | none =>
    rw [there] at rest
    cases rest
  | some entry =>
    rw [there] at rest
    cases entry with
    | directory => cases rest
    | file bytes =>
      cases rest
      rfl

theorem read_of_find {way : List String} {content : List UInt8}
    (found : tree.find current path = .ok way) (there : tree.get? way = some (.file content)) :
    tree.readFile current path = .ok content := by
  simp only [readFile, found, there, bind, Except.bind, pure, Except.pure]

/-- Nothing is changed but that directories may have been added, and the file may have that the path
leads to. -/
structure Touches (current : List String) (path : String) (tree other : FileTree) : Prop where
  keeps : Keeps tree other
  elsewhere : ∀ way, other.find current path ≠ .ok way → Undisturbed tree other way

theorem Grows.touches (grows : Grows tree other) : Touches current path tree other :=
  ⟨grows.keeps, fun way _ => grows way⟩

theorem Grows.then_touches (grows : Grows tree other) (touches : Touches current path other last) :
    Touches current path tree last :=
  ⟨grows.keeps.trans touches.keeps,
    fun way away => (grows way).trans (touches.elsewhere way away)⟩

theorem Touches.read {content : List UInt8} {target : String}
    (touches : Touches current path tree other)
    (read : tree.readFile current target = .ok content)
    (away : other.find current target ≠ other.find current path) :
    other.readFile current target = .ok content := by
  obtain ⟨way, goes, there⟩ := find_of_read read
  have still := find_keeps touches.keeps goes
  rcases touches.elsewhere way (fun leads => away (still.trans leads.symm)) with same | new
  · exact read_of_find still (same.trans there)
  · rw [there] at new
    cases new.1

/-! What making and writing find on their way. -/

theorem parts_ne_nil (path : String) : Path.parts path ≠ [] := by
  unfold Path.parts
  rw [ne_eq, List.map_eq_nil_iff]
  exact List.splitOn_ne_nil _ _

theorem parent_found {way : List String} {name : String}
    (found : tree.findParent current path = .ok (way, name)) :
    checkPath path = .ok () ∧ tree.get? way = some .directory ∧
      (Path.parts path).dropLast.foldlM tree.step (origin current path) = .ok way ∧
      Path.parts path = (Path.parts path).dropLast ++ [name] := by
  obtain ⟨_, fine, rest⟩ := bind_gives found
  obtain ⟨reached, goes, rest⟩ := bind_gives rest
  split at rest
  · cases rest
  · rename_i there
    cases rest
    refine ⟨fine, not_not.mp there, goes, ?_⟩
    rw [List.getLastD_eq_getLast?, List.getLast?_eq_some_getLast (parts_ne_nil path),
      Option.getD_some, List.dropLast_append_getLast (parts_ne_nil path)]

theorem past_trouble_grows (tree : FileTree) : Grows tree tree.pastTrouble := fun _ => .inl rfl

theorem directory_opened {way : List String}
    (opened : tree.openDirectory current path = .ok way) : way ≠ [] ∧ tree.get? way = none := by
  obtain ⟨_, _, rest⟩ := bind_gives opened
  obtain ⟨⟨front, name⟩, _, rest⟩ := bind_gives rest
  dsimp only at rest
  split at rest
  · cases rest
  · split at rest
    · cases rest
    · split at rest
      · cases rest
      · rename_i missing
        cases rest
        exact ⟨by simp, by simpa using missing⟩

theorem made_grows {result : Except FileFault Unit}
    (made : tree.makeDirectory current path = (result, other)) : Grows tree other := by
  unfold makeDirectory at made
  split at made
  · cases made
    exact Grows.refl tree
  · rename_i way opened
    obtain ⟨below, missing⟩ := directory_opened opened
    split at made <;> cases made
    · intro target
      have found : (tree.pastTrouble.insert way .directory).get? target = _ :=
        get_insert below .directory target
      by_cases same : target = way
      · rw [if_pos same] at found
        exact .inr ⟨same ▸ missing, found⟩
      · rw [if_neg same] at found
        exact .inl found
    · exact past_trouble_grows tree

theorem insert_file_keeps {way : List String} (below : way ≠ [])
    (free : tree.get? way ≠ some .directory) (content : List UInt8) :
    Keeps tree (tree.pastTrouble.insert way (.file content)) := by
  constructor
  · intro target there
    rw [get_insert below, if_neg (by rintro rfl; exact free there)]
    exact there
  · intro target there
    rw [get_insert below]
    split
    · exact Option.some_ne_none _
    · exact there

theorem step_enters {way : List String} {name : String}
    (here : tree.get? way = some .directory) (plain : ¬(name = "" ∨ name = "." ∨ name = ".."))
    (short : ¬nameLimit < name.utf8ByteSize) (there : tree.get? (way ++ [name]) ≠ none) :
    tree.step way name = .ok (way ++ [name]) := by
  rw [not_or, not_or] at plain
  unfold step
  rw [if_neg (not_not.mpr here), if_neg (not_or.mpr ⟨plain.1, plain.2.1⟩), if_neg plain.2.2,
    if_neg short, if_neg (by rwa [Option.isNone_iff_eq_none])]

theorem file_opened {way : List String} (opened : tree.openFile current path = .ok way) :
    way ≠ [] ∧ tree.get? way ≠ some .directory ∧
      ∀ content, (tree.pastTrouble.insert way (.file content)).find current path = .ok way := by
  obtain ⟨⟨front, name⟩, found, rest⟩ := bind_gives opened
  dsimp only at rest
  split at rest
  · cases rest
  · rename_i plain
    split at rest
    · cases rest
    · rename_i short
      split at rest
      · cases rest
      · rename_i free
        cases rest
        have below : front ++ [name] ≠ [] := by simp
        refine ⟨below, free, fun content => ?_⟩
        have keeps := insert_file_keeps below free content
        obtain ⟨fine, here, goes, parts⟩ := parent_found found
        unfold find
        rw [fine, parts]
        have enters := step_enters (keeps.directory front here) plain short
          (by rw [get_insert below, if_pos rfl]; exact Option.some_ne_none _)
        simp only [bind, Except.bind, List.foldlM_append, steps_keep keeps goes,
          List.foldlM_cons, List.foldlM_nil, enters, pure, Except.pure]

theorem filled_touches {way : List String} (opened : tree.openFile current path = .ok way)
    (content : List UInt8) :
    Touches current path tree (tree.pastTrouble.insert way (.file content)) := by
  obtain ⟨below, free, found⟩ := file_opened opened
  refine ⟨insert_file_keeps below free content, fun target away => .inl ?_⟩
  rw [get_insert below, if_neg]
  · rfl
  · rintro rfl
    exact away (found content)

theorem write_touches {content : List UInt8} {result : Except FileFault Unit}
    (wrote : tree.writeFile current path content = (result, other)) :
    Touches current path tree other := by
  unfold writeFile at wrote
  split at wrote
  · cases wrote
    exact (Grows.refl tree).touches
  · rename_i way opened
    split at wrote <;> cases wrote
    · exact filled_touches opened content
    · exact (past_trouble_grows tree).touches
    · exact filled_touches opened _

theorem read_written {content : List UInt8}
    (wrote : tree.writeFile current path content = (.ok (), other)) :
    other.readFile current path = .ok content := by
  unfold writeFile at wrote
  split at wrote
  · cases wrote
  · rename_i way opened
    obtain ⟨below, _, found⟩ := file_opened opened
    split at wrote <;> cases wrote
    exact read_of_find (found content) (by rw [get_insert below, if_pos rfl])

theorem left_unwritten {content : List UInt8} {fault : FileFault} {way : List String}
    (failed : tree.writeFile current path content = (.error fault, other))
    (leads : other.find current path = .ok way) :
    Undisturbed tree other way ∨ ∃ count, other.get? way = some (.file (content.take count)) := by
  unfold writeFile at failed
  split at failed
  · cases failed
    exact .inl (Grows.refl tree way)
  · rename_i place opened
    obtain ⟨below, _, found⟩ := file_opened opened
    split at failed <;> cases failed
    · exact .inl (past_trouble_grows tree way)
    · rename_i count reason _
      cases (found _).symm.trans leads
      exact .inr ⟨count, by rw [get_insert below, if_pos rfl]⟩

/-! A path that the machine can take is never refused for what it is made of. -/

theorem checkPath_no_null (free : Path.NulFree path) : checkPath path ≠ .error .nullByte := by
  unfold checkPath
  rw [if_neg free]
  split
  · nofun
  · split <;> nofun

theorem step_no_null (way : List String) (name : String) :
    tree.step way name ≠ .error .nullByte := by
  unfold step
  split
  · nofun
  · split
    · nofun
    · split
      · nofun
      · split
        · nofun
        · split <;> nofun

theorem steps_no_null (names way : List String) :
    names.foldlM tree.step way ≠ .error .nullByte := by
  intro failed
  obtain ⟨name, _, middle, fails⟩ := fold_fails failed
  exact step_no_null middle name fails

theorem read_no_null (free : Path.NulFree path) :
    tree.readFile current path ≠ .error .nullByte := by
  intro failed
  rcases bind_fails failed with unfound | ⟨way, _, unread⟩
  · rcases bind_fails unfound with refused | ⟨_, _, stopped⟩
    · exact checkPath_no_null free refused
    · exact steps_no_null _ _ stopped
  · split at unread <;> cases unread

theorem parent_no_null (free : Path.NulFree path) :
    tree.findParent current path ≠ .error .nullByte := by
  intro failed
  rcases bind_fails failed with refused | ⟨_, _, failed⟩
  · exact checkPath_no_null free refused
  · rcases bind_fails failed with stopped | ⟨way, _, failed⟩
    · exact steps_no_null _ _ stopped
    · split at failed <;> cases failed

theorem open_no_null (free : Path.NulFree path) :
    tree.openFile current path ≠ .error .nullByte := by
  intro failed
  rcases bind_fails failed with unfound | ⟨⟨way, name⟩, _, failed⟩
  · exact parent_no_null free unfound
  · dsimp only at failed
    split at failed
    · cases failed
    · split at failed
      · cases failed
      · split at failed <;> cases failed

theorem write_no_null (free : Path.NulFree path) (content : List UInt8) :
    (tree.writeFile current path content).1 ≠ .error .nullByte := by
  unfold writeFile
  split
  · rename_i fault failed
    rintro ⟨⟩
    exact open_no_null free failed
  · split <;> nofun

theorem withoutSlashes_begins (path : String) : (withoutSlashes path).toList <+: path.toList := by
  unfold withoutSlashes
  dsimp only
  split
  · exact List.prefix_rfl
  · rw [String.toList_ofList, ← List.reverse_suffix, List.reverse_reverse]
    exact List.dropWhile_suffix _

theorem open_directory_no_null (free : Path.NulFree path) :
    tree.openDirectory current path ≠ .error .nullByte := by
  intro failed
  rcases bind_fails failed with refused | ⟨_, _, failed⟩
  · exact checkPath_no_null free refused
  · rcases bind_fails failed with unfound | ⟨⟨way, name⟩, _, failed⟩
    · exact parent_no_null (free.front (withoutSlashes_begins path)) unfound
    · dsimp only at failed
      split at failed
      · cases failed
      · split at failed
        · cases failed
        · split at failed <;> cases failed

theorem make_no_null (free : Path.NulFree path) :
    (tree.makeDirectory current path).1 ≠ .error .nullByte := by
  unfold makeDirectory
  split
  · rename_i fault failed
    rintro ⟨⟩
    exact open_directory_no_null free failed
  · split
    · nofun
    · rename_i trouble _
      cases trouble <;> nofun

end FileTree

end PureJs
