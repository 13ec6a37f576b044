import PureJs.Proofs.Program.FileNames
import PureJs.Proofs.Syntax.CarriedModules

/-!
Texts joined by a line feed have the modules of the one and then those of the other. So it makes no
difference how the modules of a program are spread over texts.
-/

namespace PureJs.Module

open Cursor

theorem all_header {file : String} {text : List Char} {fuel : Nat} {c : Cursor}
    {modules : List Module} (parsed : parseAll file text fuel c = .ok modules)
    (some : c.tokens ≠ []) :
    c.atModuleHeader = true := by
  cases fuel with
  | zero => cases parsed
  | succ fuel =>
    rw [parseAll, if_neg (by simp [atEnd, some])] at parsed
    by_contra missing
    have first : parseOne file text c = c.demand "'module' in column 1" := by
      unfold parseOne
      rw [if_pos (by simpa using missing)]
      rfl
    simp only [first, demand, bind, Except.bind] at parsed
    cases parsed

theorem ofText_scanned {file : String} {text : List Char} {tokens : List Token} {finish : Token}
    (scanned : Token.scan text = .ok (tokens ++ [finish])) :
    ofText file text = parseAll file text (tokens.length + 1) ⟨tokens, finish, false, [1]⟩ := by
  have start : Cursor.ofTokens (tokens ++ [finish]) = ⟨tokens, finish, false, [1]⟩ := by
    simp [Cursor.ofTokens]
  unfold ofText
  rw [scanned]
  simp only [start]

theorem ofText_nil (file : String) : ofText file [] = .ok [] := ofText_scanned Token.scan_nil

theorem ofText_reads {file : String} {text : List Char} {modules : List Module}
    (parsed : ofText file text = .ok modules) :
    ∃ tokens finish, Token.scan text = .ok (tokens ++ [finish]) ∧ finish.kind = .endOfInput ∧
      parseAll file text (tokens.length + 1) ⟨tokens, finish, false, [1]⟩ = .ok modules := by
  have read := parsed
  unfold ofText at read
  split at read
  · cases read
  · rename_i all scanned
    obtain ⟨tokens, place, stop, rfl⟩ := Token.scan_ends scanned
    rw [ofText_scanned scanned] at parsed
    exact ⟨tokens, _, scanned, rfl, parsed⟩

theorem outer_scanned {text : List Char} {tokens : List Token} {finish : Token}
    (scanned : Token.scan text = .ok (tokens ++ [finish])) :
    Outer text ⟨tokens, finish, false, [1]⟩ := by
  have ready := scanned_ready scanned
  have start : Cursor.ofTokens (tokens ++ [finish]) = ⟨tokens, finish, false, [1]⟩ := by
    simp [Cursor.ofTokens]
  rw [start] at ready
  refine ⟨⟨ready, ?_⟩, rfl, ?_⟩
  · intro t member
    exact Token.scan_columns scanned t (List.mem_append_left [finish] member)
  · intro t member
    exact Token.scan_within scanned t (List.mem_append_left [finish] member)

/-- What stands at the end of a text is read as it is alone, at any depth that is large enough. -/
theorem all_behind {file : String} {text : List Char} {tokens : List Token} {finish : Token}
    {modules : List Module} (outer : Outer text ⟨tokens, finish, false, [1]⟩)
    (parsed : parseAll file text (tokens.length + 1) ⟨tokens, finish, false, [1]⟩ = .ok modules)
    (lines : Nat) (front : List Char) {more : Nat} (enough : tokens.length + 1 ≤ more) :
    parseAll file (front ++ text) more
      ⟨tokens.map (Token.moved lines front.length), Token.moved lines front.length finish, false,
        [1]⟩ = .ok (modules.map (relocate (.below lines))) := by
  let around : Surroundings :=
    ⟨lines, front.length, [], Token.moved lines front.length finish⟩
  have sound : around.Sound := ⟨outer.proper.ready.finish, nofun⟩
  have stands : Stands around text (front ++ text) := ⟨front, [], by simp, rfl⟩
  have ends : ∀ more, 1 ≤ more →
      parseAll file (front ++ text) more ⟨around.behind, around.finish, false, [1]⟩ = .ok [] := by
    intro more some
    cases more with
    | zero => exact absurd some (by decide)
    | succ more => rfl
  have carried := all_carry sound stands outer file rfl (Nat.add_le_add_right enough 1) parsed ends
  simpa [Cursor.inside, around, Surroundings.move] using carried

/-- Behind a line feed, the modules of a text are those that it has alone, and so are the modules of
the text before it. -/
theorem ofText_join {file : String} {text other : List Char} {modules others : List Module}
    (parsed : ofText file text = .ok modules) (more : ofText file other = .ok others) :
    ofText file (text ++ '\n' :: other) =
      .ok (modules ++ others.map (relocate (.below (Token.lineCount text)))) := by
  obtain ⟨tokens, finish, scanned, last, read⟩ := ofText_reads parsed
  obtain ⟨tokens', finish', scanned', last', read'⟩ := ofText_reads more
  have outer := outer_scanned scanned
  have joined := Token.scan_join scanned scanned'
  rw [List.dropLast_concat, List.map_append, ← List.append_assoc, List.map_singleton] at joined
  let around : Surroundings :=
    ⟨0, 0, tokens'.map (Token.moved (Token.lineCount text) (text.length + 1)),
      Token.moved (Token.lineCount text) (text.length + 1) finish'⟩
  have sound : around.Sound := by
    refine ⟨last', fun t member => ?_⟩
    cases tokens' with
    | nil => cases member
    | cons first rest =>
      cases member
      have header : first.kind = .keyword .moduleWord ∧ first.opensLine = true ∧
          first.column = 1 := by
        have begins := all_header read' (List.cons_ne_nil first rest)
        simpa [atModuleHeader, Cursor.kind, peek, and_assoc] using begins
      exact header
  have stands : Stands around text (text ++ '\n' :: other) := ⟨[], '\n' :: other, by simp, rfl⟩
  have later : ∀ more, tokens'.length + 1 ≤ more →
      parseAll file (text ++ '\n' :: other) more ⟨around.behind, around.finish, false, [1]⟩ =
        .ok (others.map (relocate (.below (Token.lineCount text)))) := by
    intro more enough
    have behind := all_behind (outer_scanned scanned') read' (Token.lineCount text)
      (text ++ ['\n']) enough
    simpa using behind
  have enough : tokens.length + 1 + (tokens'.length + 1) ≤
      (tokens ++ tokens'.map (Token.moved (Token.lineCount text) (text.length + 1))).length + 1 +
        1 := by
    simp only [List.length_append, List.length_map]
    omega
  have carried := all_carry sound stands outer file rfl enough read later
  have kept : tokens.map around.move = tokens := List.map_id' tokens
  have unmoved : modules.map (relocate (.below around.lines)) = modules := by
    have still : relocate (.below around.lines) = id := funext relocate_id
    rw [still, List.map_id]
  simp only [Cursor.inside, kept, unmoved] at carried
  rw [ofText_scanned joined]
  exact carried

/-- The module without the name of its file and without places. -/
def plain (m : Module) : Module := (m.relocate fun _ => .start).unfiled

theorem relocated_plain (f : Position → Position) (m : Module) :
    (m.relocate f).plain = m.plain := by
  unfold plain
  rw [relocate_relocate]
  rfl

theorem plain_of_unfiled {modules others : List Module}
    (same : others.map unfiled = modules.map unfiled) : others.map plain = modules.map plain := by
  have kept : plain = (relocate fun _ => .start) ∘ unfiled := rfl
  rw [kept, ← List.map_map, ← List.map_map, same]

theorem ofText_file {file : String} {text : List Char} {modules : List Module}
    (parsed : ofText file text = .ok modules) (other : String) :
    ∃ others, ofText other text = .ok others ∧ others.map plain = modules.map plain := by
  have here := text_unfiled text file
  have there := text_unfiled text other
  rw [here, parsed] at there
  cases read : ofText other text with
  | error fault =>
    rw [read] at there
    cases there
  | ok others =>
    rw [read] at there
    exact ⟨others, rfl, plain_of_unfiled (Except.ok.inj there).symm⟩

theorem units_joined (file : String) {units : List SourceUnit} {modules : List Module}
    (parsed : parseUnits units = .ok modules) :
    ∃ together, ofText file (['\n'].intercalate (units.map (·.text.toList))) = .ok together ∧
      together.map plain = modules.map plain := by
  induction units generalizing modules with
  | nil =>
    cases parsed
    exact ⟨[], ofText_nil file, rfl⟩
  | cons unit rest ih =>
    unfold parseUnits at parsed
    cases first : ofText unit.file unit.text.toList with
    | error fault =>
      rw [first] at parsed
      cases parsed
    | ok front =>
      cases later : parseUnits rest with
      | error fault =>
        simp only [first, later, bind, Except.bind, pure, Except.pure] at parsed
        cases parsed
      | ok back =>
        simp only [first, later, bind, Except.bind, pure, Except.pure] at parsed
        cases parsed
        obtain ⟨here, read, same⟩ := ofText_file first file
        obtain ⟨behind, together, alike⟩ := ih later
        cases rest with
        | nil =>
          cases later
          exact ⟨here, by simpa using read, by simpa using same⟩
        | cons next others =>
          have lowered : ∀ f, (behind.map (relocate f)).map plain = behind.map plain := by
            intro f
            rw [List.map_map]
            exact List.map_congr_left fun m _ => relocated_plain f m
          have joined := ofText_join read together
          rw [← List.singleton_append, ← List.append_assoc] at joined
          rw [List.map_cons, List.map_cons, List.intercalate_cons_cons]
          refine ⟨_, joined, ?_⟩
          rw [List.map_append, List.map_append, same, lowered, alike]

/-- Texts joined by a line feed have the modules of both, and nothing but places changes. So the
modules of a program are those of all its texts in one, up to places and the names of files. -/
theorem joined_texts_read :
    (∀ file text other modules others, ofText file text = .ok modules →
      ofText file other = .ok others →
        ofText file (text ++ '\n' :: other) =
          .ok (modules ++ others.map (relocate (.below (Token.lineCount text))))) ∧
    ∀ file units modules, parseUnits units = .ok modules →
      ∃ together, ofText file ("\n".intercalate (units.map SourceUnit.text)).toList = .ok together ∧
        together.map plain = modules.map plain := by
  constructor
  · intro file text other modules others parsed more
    exact ofText_join parsed more
  · intro file units modules parsed
    rw [String.toList_intercalate, List.map_map]
    exact units_joined file parsed

def upperText : String := "module A where\nx = do\n  a\n  b  -- c"

def lowerText : String := "  \nmodule B where\nf ::\n a\n"

def splitUnits : List SourceUnit := [⟨none, upperText⟩, ⟨some "b", lowerText⟩]

def heading (m : Module) : String × List String × List String :=
  (m.name, m.declaredNames, m.signatures.map (·.name))

theorem split_units_joined :
    ∃ upper lower modules together,
      ofText unnamedFile upperText.toList = .ok upper ∧ upper.map heading = [("A", ["x"], [])] ∧
      ofText unnamedFile lowerText.toList = .ok lower ∧ lower.map heading = [("B", [], ["f"])] ∧
      ofText unnamedFile (upperText.toList ++ '\n' :: lowerText.toList) =
        .ok (upper ++ lower.map (relocate (.below (Token.lineCount upperText.toList)))) ∧
      parseUnits splitUnits = .ok modules ∧
      modules.map heading = [("A", ["x"], []), ("B", [], ["f"])] ∧
      ofText unnamedFile ("\n".intercalate (splitUnits.map SourceUnit.text)).toList =
        .ok together ∧
      together.map plain = modules.map plain := by
  obtain ⟨upper, read, first⟩ := any_gives
    (show (ofText unnamedFile upperText.toList).toOption.any
      (·.map heading = [("A", ["x"], [])]) = true by decide +kernel)
  obtain ⟨lower, more, second⟩ := any_gives
    (show (ofText unnamedFile lowerText.toList).toOption.any
      (·.map heading = [("B", [], ["f"])]) = true by decide +kernel)
  obtain ⟨modules, parsed, both⟩ := any_gives
    (show (parseUnits splitUnits).toOption.any
      (·.map heading = [("A", ["x"], []), ("B", [], ["f"])]) = true by decide +kernel)
  have joined := joined_texts_read.1 unnamedFile _ _ _ _ read more
  obtain ⟨together, whole, same⟩ := joined_texts_read.2 unnamedFile _ _ parsed
  exact ⟨upper, lower, modules, together, read, of_decide_eq_true first, more,
    of_decide_eq_true second, joined, parsed, of_decide_eq_true both, whole, same⟩

end PureJs.Module
