import PureJs.Proofs.Emit.OperatorTrees
import PureJs.Proofs.Program.Parts
import PureJs.Proofs.Syntax.NodesInOrder

/-!
The code of a program is read as what it is the code of: the text of every expression, if the names
and numbers that it takes from the source are legal, has one operator tree, which is that of the
expression.
-/

namespace PureJs

namespace Expr

structure Clear (e : Expr) : Prop where
  formed : e.Formed
  digital : e.EachLiteral Emit.Digital

theorem Clear.at {e part : Expr} {path : List Branch} (clear : e.Clear)
    (stands : e.at? path = some part) : part.Clear :=
  ⟨at_of_parts part_formed clear.formed stands, at_of_parts part_literals clear.digital stands⟩

theorem Clear.fold [Simplifier] {e : Expr} (clear : e.Clear) : e.fold.Clear :=
  ⟨fold_formed clear.formed, fold_literals Emit.digital_foldable clear.digital⟩

theorem Clear.read {e : Expr} (clear : e.Clear) (setting : Emit.Setting) (level : Nat) :
    (e.Legal setting.module →
      ∃ lexemes, Js.lex ((Emit.expr setting e).text level).toList = some lexemes ∧
        ∀ tree, Js.Reads 0 lexemes tree ↔ tree = Emit.exprTree setting e) ∧
    (¬e.Legal setting.module → Js.lex ((Emit.expr setting e).text level).toList = none) := by
  obtain ⟨lexemes, written⟩ := Emit.expr_shows clear.formed clear.digital level
  have reads := written.reads.looser (Nat.zero_le _)
  obtain ⟨whole, stuck⟩ := written.cuts.alone
  refine ⟨fun legal => ⟨lexemes, whole legal, fun tree => ⟨fun other => other.unique reads, ?_⟩⟩,
    stuck⟩
  rintro rfl
  exact reads

end Expr

namespace Module

theorem ofText_digital {file : String} {text : List Char} {modules : List Module}
    (parsed : ofText file text = .ok modules) : ∀ m ∈ modules, m.EachLiteral Emit.Digital := by
  intro m member d value
  obtain ⟨before, name, params, assign, inner, after, finish, scanned, -, -, -, -, -, laid, -⟩ :=
    declaration_laid_out parsed member value
  apply Expr.laid_literals Emit.digital_foldable laid
  intro t inside kind
  have alone := token_alone scanned (t := t) (by simp [inside]) kind (by simp) (by simp)
  obtain ⟨whole, fraction, split, some, behind, digits⟩ := Piece.Alone.pointed alone
  have each := List.forall_mem_append.mp digits
  exact ⟨whole, fraction, split, some, behind, each.1, each.2⟩

theorem check_clear {options : Options} {units : List SourceUnit} {modules ordered : List Module}
    (parsed : parseUnits units = .ok modules) (checked : check options modules = .ok ordered)
    {m : Module} (member : m ∈ ordered) {d : ValueDeclaration}
    (value : Declaration.value d ∈ m.declarations) : d.body.Clear := by
  have formed := check_formed (parseUnits_formed parsed) checked m member (.value d) value
  have digital := check_literals (parseUnits_each (fun _ _ _ => ofText_digital) parsed) checked
  exact ⟨formed.body, digital m member d value⟩

/-- The code of every expression of an accepted program, and of what it is folded to, is read as
what it is the code of, if the names and numbers that it takes from the source are legal: it is cut
into lexemes that have the operator tree of the expression in the grammar of JavaScript, and no
other. Otherwise it cannot be cut into lexemes. -/
theorem code_keeps_structure [Simplifier] {options : Options} {units : List SourceUnit}
    {modules ordered : List Module} (parsed : parseUnits units = .ok modules)
    (checked : check options modules = .ok ordered) {m : Module} (member : m ∈ ordered)
    {d : ValueDeclaration} (value : Declaration.value d ∈ m.declarations) {path : List Branch}
    {part e : Expr} (stands : d.body.at? path = some part) (folded : e = part ∨ e = part.fold)
    (setting : Emit.Setting) (level : Nat) :
    (e.Legal setting.module →
      ∃ lexemes, Js.lex ((Emit.expr setting e).text level).toList = some lexemes ∧
        ∀ tree, Js.Reads 0 lexemes tree ↔ tree = Emit.exprTree setting e) ∧
    (¬e.Legal setting.module → Js.lex ((Emit.expr setting e).text level).toList = none) := by
  have clear := (check_clear parsed checked member value).at stands
  rcases folded with rfl | rfl
  · exact clear.read setting level
  · exact clear.fold.read setting level

def nestedUnits : List SourceUnit :=
  [⟨none, "module A where\nf x y = (if x then \\z -> z else y) (x - (1 - 2) * -y)\n"⟩]

def plainOptions : Options := { Options.default with noPrelude := true, noOptimizations := true }

def nestedText : String :=
  "(x ? (function (z) \x7b\n    return z;\n\x7d) : y)(x - ((-1) * (-y)))"

/-- A conditional that is called, with a lambda in it, and a number that folding makes negative. -/
theorem nested_code_keeps_structure :
    ∃ modules ordered, parseUnits nestedUnits = .ok modules ∧
      check plainOptions modules = .ok ordered ∧ ∃ m ∈ ordered,
        ∃ d, Declaration.value d ∈ m.declarations ∧ d.body.at? [] = some d.body ∧
          (Emit.expr ⟨"A", true⟩ d.body.fold).text 0 = nestedText ∧ d.body.fold.Legal "A" ∧
          ∃ lexemes, Js.lex nestedText.toList = some lexemes ∧
            ∀ tree, Js.Reads 0 lexemes tree ↔ tree = Emit.exprTree ⟨"A", true⟩ d.body.fold := by
  obtain ⟨modules, ordered, parsed, checked, m, member, d, value, same⟩ :=
    has_value (show hasValue plainOptions nestedUnits (fun _ d =>
      (Emit.expr ⟨"A", true⟩ d.body.fold).text 0 = nestedText) = true by decide +kernel)
  have listed : m ∈ ordered := member
  have whole : d.body.at? [] = some d.body := rfl
  have text := of_decide_eq_true same
  have read := code_keeps_structure parsed checked listed value whole (.inr rfl) ⟨"A", true⟩ 0
  rw [text] at read
  have cut : (Js.lex nestedText.toList).isSome = true := by decide +kernel
  have legal : d.body.fold.Legal "A" := by
    by_contra illegal
    rw [read.2 illegal] at cut
    cases cut
  exact ⟨modules, ordered, parsed, checked, m, listed, d, value, whole, text, legal,
    read.1 legal⟩

def paddedDifference : List SourceUnit := [⟨none, "module A where\nx = 01.5 - 2\n"⟩]

/-- A zero in front of other digits stays in the code, which is not read then. -/
theorem padded_difference_unread :
    ∃ modules ordered, parseUnits paddedDifference = .ok modules ∧
      check plainOptions modules = .ok ordered ∧ ∃ m ∈ ordered,
        ∃ d, Declaration.value d ∈ m.declarations ∧
          (Emit.expr ⟨"A", true⟩ d.body).text 0 = "01.5 - 2" ∧
          Js.lex ((Emit.expr ⟨"A", true⟩ d.body).text 0).toList = none := by
  obtain ⟨modules, ordered, parsed, checked, m, member, d, value, same⟩ :=
    has_value (show hasValue plainOptions paddedDifference (fun _ d =>
      (Emit.expr ⟨"A", true⟩ d.body).text 0 = "01.5 - 2") = true by decide +kernel)
  have text := of_decide_eq_true same
  refine ⟨modules, ordered, parsed, checked, m, member, d, value, text, ?_⟩
  rw [text]
  decide +kernel

end Module

end PureJs
