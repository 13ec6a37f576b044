import PureJs.Proofs.Emit.ModuleScopes
import PureJs.Proofs.Program.InputOrder
import PureJs.Proofs.Text.LineEnds

/-!
The code of foreign imports in the program. It stands there line by line, but its lines end at
characters as well that do not end lines in JavaScript, in the middle of string literals if need be.
-/

namespace PureJs

namespace Js

/-- A line at a level, without blanks at its end. -/
def indented (level : Nat) (line : List Char) : String :=
  String.ofList (Text.trimEnd ((pad level).toList ++ line))

/-- The lines stand in the text one below the other, with nothing else on them. -/
def StandIn (lines : List String) (text : String) : Prop :=
  ∃ front back : String, text = front ++ "\n" ++ String.join (lines.map (· ++ "\n")) ++ back

theorem alike_indented {left right : List Char} (alike : Text.Alike left right) (level : Nat) :
    indented level left = indented level right :=
  congrArg String.ofList (alike.append (pad level).toList)

theorem verbatim_lines_iff (level : Nat) (text : String) :
    verbatimLines level text = (Text.betweenLineEnds text.toList).map (indented level) ↔
      Text.PlainEnds text.toList := by
  constructor
  · intro same
    have lengths := congrArg List.length same
    rw [verbatimLines, List.length_map, List.length_map] at lengths
    exact (Text.lines_more text.toList).2 lengths.symm
  · intro plain
    show (Text.lines text.toList).map (indented level) = _
    rw [← List.forall₂_eq_eq_eq, List.forall₂_map_left_iff, List.forall₂_map_right_iff]
    exact (Text.lines_alike plain).imp fun _ _ alike => alike_indented alike level

section StandIn

variable {lines : List String} {text : String}

theorem StandIn.inside (stand : StandIn lines text) (before after : String) :
    StandIn lines (before ++ text ++ after) := by
  obtain ⟨front, back, rfl⟩ := stand
  exact ⟨before ++ front, back ++ after, by simp only [String.append_assoc]⟩

theorem joined_ends (lines : List String) :
    ∃ front, ∀ rest, "\n" ++ (String.join (lines.map (· ++ "\n")) ++ rest) =
      front ++ ("\n" ++ rest) := by
  rcases List.eq_nil_or_concat lines with rfl | ⟨others, last, rfl⟩
  · exact ⟨"", fun rest => by simp⟩
  · refine ⟨"\n" ++ String.join (others.map (· ++ "\n")) ++ last, fun rest => ?_⟩
    simp [String.join_append, String.append_assoc]

theorem StandIn.function {level : Nat} {params : List String} {body : List Statement}
    {s : Statement} (member : s ∈ body) :
    StandIn (s.lines (level + 1)) ((Expr.function params body).text level) := by
  obtain ⟨before, after, rfl⟩ := List.append_of_mem member
  obtain ⟨front, ends⟩ := joined_ends (bodyLines (level + 1) before)
  have split : bodyLines (level + 1) (before ++ s :: after) =
      bodyLines (level + 1) before ++ (s.lines (level + 1) ++ bodyLines (level + 1) after) := by
    simp [Module.body_lines]
  have opening : ") \x7b\n" = ") \x7b" ++ "\n" := rfl
  refine ⟨"function (" ++ ", ".intercalate params ++ ") \x7b" ++ front,
    String.join ((bodyLines (level + 1) after).map (· ++ "\n")) ++ pad level ++ "\x7d", ?_⟩
  rw [Expr.text, split, opening, List.map_append, List.map_append, String.join_append,
    String.join_append]
  simp only [String.append_assoc, ends]

theorem intercalate_split (sep : String) (before after : List String) (text : String) :
    ∃ front back, sep.intercalate (before ++ text :: after) = front ++ text ++ back := by
  induction before with
  | nil =>
    cases after with
    | nil => exact ⟨"", "", by simp⟩
    | cons next rest =>
      exact ⟨"", sep ++ sep.intercalate (next :: rest), by simp [String.append_assoc]⟩
  | cons first before ih =>
    obtain ⟨front, back, inner⟩ := ih
    have some : before ++ text :: after ≠ [] := by simp
    obtain ⟨next, rest, split⟩ := List.exists_cons_of_ne_nil some
    refine ⟨first ++ sep ++ front, back, ?_⟩
    rw [List.cons_append, split, String.intercalate_cons_cons, ← split, inner]
    simp only [String.append_assoc]

theorem StandIn.intercalate {texts : List String} (stand : StandIn lines text)
    (member : text ∈ texts) (sep : String) : StandIn lines (sep.intercalate texts) := by
  obtain ⟨before, after, rfl⟩ := List.append_of_mem member
  obtain ⟨front, back, whole⟩ := intercalate_split sep before after text
  exact whole ▸ stand.inside front back

end StandIn

end Js

namespace Module

theorem block_text (options : Options) (m : Module) :
    block options m = [Js.pad 1 ++ (Js.moduleObject m.name).text 1 ++ " = (" ++
      (Js.Expr.function [] (m.body options)).text 1 ++ ")();"] := by
  have opening : " = (" = " = " ++ "(" := rfl
  have closing : ")();" = ")" ++ ("(" ++ (")" ++ ";")) := rfl
  show [Js.pad 1 ++ (Js.moduleObject m.name).text 1 ++ " = " ++
    ("(" ++ (Js.Expr.function [] (m.body options)).text 1 ++ ")" ++
      "(" ++ ", ".intercalate [] ++ ")") ++ ";"] = _
  rw [String.intercalate_nil, opening, closing]
  simp only [String.append_assoc, String.empty_append]

theorem declaration_in_block {m : Module} (distinct : m.declaredNames.Nodup) {d : Declaration}
    (listed : d ∈ m.declarations) (options : Options) :
    ∃ text ∈ block options m,
      Js.StandIn ((Emit.declaration options ⟨m.name, options.directBlocks⟩ d).lines 2) text := by
  have written := List.mem_map_of_mem (f := Emit.declaration options ⟨m.name, options.directBlocks⟩)
    ((mem_ordered_declarations distinct).mpr listed)
  have member : Emit.declaration options ⟨m.name, options.directBlocks⟩ d ∈ m.body options :=
    List.mem_append_left _ (List.mem_append_right _ written)
  have inside : Js.StandIn _ ((Js.Expr.function [] (m.body options)).text 1) := .function member
  rw [block_text]
  exact ⟨_, List.mem_singleton_self _, inside.inside _ _⟩

theorem declaration_in_program {modules : List Module} {m : Module} (member : m ∈ modules)
    (distinct : m.declaredNames.Nodup) {d : Declaration} (listed : d ∈ m.declarations)
    (options : Options) (header : List String) :
    Js.StandIn ((Emit.declaration options ⟨m.name, options.directBlocks⟩ d).lines 2)
      (emitProgram options header modules).text := by
  obtain ⟨text, inside, stand⟩ := declaration_in_block distinct listed options
  obtain ⟨before, after, whole⟩ := program_blocks options header
  rw [whole]
  refine stand.intercalate (List.mem_append_left _ (List.mem_append_right _ ?_)) "\n"
  exact List.mem_flatten.mpr ⟨_, List.mem_map_of_mem member, inside⟩

/-- The lines of a foreign import are those of its text between line feeds and carriage returns,
indented and without blanks at their ends, just if no other line end stands in front of the last
character of the text. They stand in the program as they are. -/
theorem foreign_lines_whole_iff [Simplifier] (d : ForeignDeclaration) (options : Options) :
    (∀ setting level, (Emit.declaration options setting (.foreign d)).lines level =
        (Text.betweenLineEnds d.javascript.toList).map (Js.indented level) ↔
          Text.PlainEnds d.javascript.toList) ∧
      ∀ {header modules ordered compiled}, check options modules = .ok ordered →
        compileModules options header modules = .ok compiled →
          ∀ m ∈ output options ordered, .foreign d ∈ m.declarations →
            Js.StandIn ((Emit.declaration options ⟨m.name, options.directBlocks⟩
              (.foreign d)).lines 2) compiled.javascript := by
  refine ⟨fun setting level => Js.verbatim_lines_iff level d.javascript, ?_⟩
  intro header modules ordered compiled checked done m member listed
  obtain ⟨same, accepted, -, written⟩ := compile_modules_ok done
  cases checked.symm.trans accepted
  rw [written]
  exact declaration_in_program member (emitted_declared_distinct checked member) listed options
    header

def writesForeign [Simplifier] (units : List SourceUnit) (javascript : String) : Bool :=
  (parseUnits units).toOption.any fun modules =>
    (compileModules Options.default [] modules).isOk &&
      (check Options.default modules).toOption.any fun ordered =>
        (output Options.default ordered).any fun m =>
          m.declarations.any fun d => d.foreign?.any (·.javascript = javascript)

theorem writes_foreign [Simplifier] {units : List SourceUnit} {javascript : String}
    (writes : writesForeign units javascript = true) :
    ∃ modules ordered compiled, parseUnits units = .ok modules ∧
      check Options.default modules = .ok ordered ∧
        compileModules Options.default [] modules = .ok compiled ∧
          ∃ m ∈ output Options.default ordered, ∃ d, .foreign d ∈ m.declarations ∧
            d.javascript = javascript := by
  obtain ⟨modules, parsed, both⟩ := any_gives writes
  obtain ⟨done, accepts⟩ := (Bool.and_eq_true _ _).mp both
  obtain ⟨ordered, checked, inside⟩ := any_gives accepts
  obtain ⟨m, member, some⟩ := List.any_eq_true.mp inside
  obtain ⟨declaration, listed, passes⟩ := List.any_eq_true.mp some
  cases compiles : compileModules Options.default [] modules with
  | error rejection =>
    rw [compiles] at done
    cases done
  | ok compiled =>
    cases declaration with
    | value d => cases passes
    | foreign d =>
      exact ⟨modules, ordered, compiled, parsed, checked, compiles, m, member, d, listed,
        of_decide_eq_true passes⟩

def listedUnits : List SourceUnit :=
  [⟨none, "module A where\nforeign import f \"var f = 1; \\r\\n\\n  f();\\t\\r\" :: T\n"⟩]

theorem listed_lines_whole :
    ∃ modules ordered compiled, parseUnits listedUnits = .ok modules ∧
      check Options.default modules = .ok ordered ∧
        compileModules Options.default [] modules = .ok compiled ∧
          ∃ m ∈ output Options.default ordered, ∃ d, .foreign d ∈ m.declarations ∧
            Text.PlainEnds d.javascript.toList ∧
              Js.StandIn ["        var f = 1;", "", "          f();"] compiled.javascript := by
  obtain ⟨modules, ordered, compiled, parsed, checked, done, m, member, d, listed, text⟩ :=
    writes_foreign (show writesForeign listedUnits "var f = 1; \r\n\n  f();\t\r" = true by
      decide +kernel)
  have plain : Text.PlainEnds d.javascript.toList := by
    rw [text]
    decide
  obtain ⟨whole, stand⟩ := foreign_lines_whole_iff d Options.default
  have inside := stand checked done m member listed
  have lines : (Text.betweenLineEnds d.javascript.toList).map (Js.indented 2) =
      ["        var f = 1;", "", "          f();"] := by
    rw [text]
    decide
  rw [(whole _ 2).mpr plain, lines] at inside
  exact ⟨modules, ordered, compiled, parsed, checked, done, m, member, d, listed, plain, inside⟩

def pagedUnits : List SourceUnit :=
  [⟨none, "module A where\nforeign import page \"var page = 'a\x0cb';\" :: String\n"⟩]

theorem form_feed_breaks_line :
    ∃ modules ordered, parseUnits pagedUnits = .ok modules ∧
      check Options.default modules = .ok ordered ∧
        ∃ m ∈ output Options.default ordered, ∃ d, .foreign d ∈ m.declarations ∧
          d.javascript = "var page = 'a\x0cb';" ∧
            ∀ setting level, (Emit.declaration Options.default setting (.foreign d)).lines level ≠
              (Text.betweenLineEnds d.javascript.toList).map (Js.indented level) := by
  obtain ⟨modules, ordered, _, parsed, checked, -, m, member, d, listed, text⟩ :=
    writes_foreign (show writesForeign pagedUnits "var page = 'a\x0cb';" = true by decide +kernel)
  have broken : ¬Text.PlainEnds d.javascript.toList := by
    rw [text]
    decide
  exact ⟨modules, ordered, parsed, checked, m, member, d, listed, text, fun setting level same =>
    broken ((Js.verbatim_lines_iff level d.javascript).mp same)⟩

end Module

end PureJs
