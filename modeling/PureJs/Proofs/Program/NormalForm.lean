import Mathlib.Algebra.Group.Int.Defs
import PureJs.Proofs.Program.Fold
import PureJs.Proofs.Program.TailCalls

/-!
What folding leaves. No part of a folded expression can be evaluated from literals alone, and
nothing else is ever rewritten, so that folding again changes nothing.
-/

namespace PureJs

/-- The integer is in the range in which JavaScript has every integer. -/
def Exact (n : Int) : Prop := -2 ^ 53 ≤ n ∧ n ≤ 2 ^ 53

theorem is_exact_iff {n : Int} : isExact n = true ↔ Exact n := by
  rw [isExact, Bool.and_eq_true, decide_eq_true_eq, decide_eq_true_eq]
  rfl

namespace Operator

inductive Computes : Operator → Int → Int → Int → Prop
  | sum (a b : Int) : Computes add a b (a + b)
  | difference (a b : Int) : Computes sub a b (a - b)
  | product (a b : Int) : Computes mul a b (a * b)

def comparisons : List Operator := [equal, notEqual, less, lessEqual, greater, greaterEqual]

def connectives : List Operator := [and, or, equal, notEqual]

section Answers

variable [Simplifier] (exact : Simplifier.Exact) {op : Operator} {a b : Int}
include exact

theorem computes_known {c : Int} (result : op.Computes a b c) :
    op.onIntegers? a b = some (.integer c) := by
  cases result <;> exact congrArg (Option.map Literal.integer) (exact.integer _)

theorem compares_known (compares : op ∈ comparisons) :
    ∃ c, op.onIntegers? a b = some (.bool c) := by
  simp only [comparisons, List.mem_cons, List.not_mem_nil, or_false] at compares
  rcases compares with rfl | rfl | rfl | rfl | rfl | rfl <;>
    exact ⟨_, congrArg (Option.map Literal.bool) (exact.bool _)⟩

theorem connects_known {a b : Bool} (connects : op ∈ connectives) :
    ∃ c, op.onBools? a b = some (.bool c) := by
  simp only [connectives, List.mem_cons, List.not_mem_nil, or_false] at connects
  rcases connects with rfl | rfl | rfl | rfl <;>
    exact ⟨_, congrArg (Option.map Literal.bool) (exact.bool _)⟩

theorem known_computes {value : Literal} (known : op.onIntegers? a b = some value) :
    op ∈ comparisons ∨ ∃ c, op.Computes a b c ∧ value = .integer c := by
  cases op
  case add =>
    cases (computes_known exact (.sum a b)).symm.trans known
    exact .inr ⟨_, .sum a b, rfl⟩
  case sub =>
    cases (computes_known exact (.difference a b)).symm.trans known
    exact .inr ⟨_, .difference a b, rfl⟩
  case mul =>
    cases (computes_known exact (.product a b)).symm.trans known
    exact .inr ⟨_, .product a b, rfl⟩
  case equal | notEqual | less | lessEqual | greater | greaterEqual => exact .inl (by decide)
  all_goals cases known

end Answers

theorem known_connects [Simplifier] {op : Operator} {a b : Bool} {value : Literal}
    (known : op.onBools? a b = some value) : op ∈ connectives := by
  cases op
  case and | or | equal | notEqual => decide
  all_goals cases known

end Operator

namespace Literal

/-- The operator gives a literal for the two, and all integers that come up are exact. -/
inductive Combine : Operator → Literal → Literal → Prop
  | strings {a b : String} : Combine .append (string a) (string b)
  | bools {op : Operator} {a b : Bool} (known : op ∈ Operator.connectives) :
    Combine op (bool a) (bool b)
  | compared {op : Operator} {a b : Int} (known : op ∈ Operator.comparisons) (left : Exact a)
    (right : Exact b) : Combine op (integer a) (integer b)
  | computed {op : Operator} {a b c : Int} (result : op.Computes a b c) (left : Exact a)
    (right : Exact b) (exact : Exact c) : Combine op (integer a) (integer b)

theorem integers_combine [Simplifier] {op : Operator} {a b : Int} (left : Exact a)
    (right : Exact b) :
    (integer a).combine? op (integer b) = (op.onIntegers? a b).filter (!·.isInexact) := by
  rw [combine?, is_exact_iff.mpr left, is_exact_iff.mpr right]
  rfl

theorem combine_known [Simplifier] (exact : Simplifier.Exact) {op : Operator}
    {left right : Literal} (combine : Combine op left right) :
    ∃ value, left.combine? op right = some value := by
  cases combine with
  | strings => exact ⟨_, rfl⟩
  | bools connects =>
    obtain ⟨c, known⟩ := Operator.connects_known exact connects
    exact ⟨.bool c, known⟩
  | compared compares left right =>
    obtain ⟨c, known⟩ := Operator.compares_known exact compares
    rw [integers_combine left right, known]
    exact ⟨.bool c, rfl⟩
  | @computed _ _ _ c result left right small =>
    rw [integers_combine left right, Operator.computes_known exact result]
    exact ⟨.integer c, Option.filter_eq_some_iff.mpr
      ⟨rfl, by simp [isInexact, is_exact_iff.mpr small]⟩⟩

theorem known_combine [Simplifier] (exact : Simplifier.Exact) {op : Operator}
    {left right value : Literal} (known : left.combine? op right = some value) :
    Combine op left right := by
  unfold combine? at known
  split at known
  · rename_i a b
    split at known
    · rename_i both
      rw [Bool.and_eq_true, is_exact_iff, is_exact_iff] at both
      obtain ⟨result, kept⟩ := Option.filter_eq_some_iff.mp known
      rcases Operator.known_computes exact result with compares | ⟨c, computes, rfl⟩
      · exact .compared compares both.1 both.2
      · have small : Exact c := is_exact_iff.mp (by simpa [isInexact] using kept)
        exact .computed computes both.1 both.2 small
    · cases known
  · exact .bools (Operator.known_connects known)
  · split at known
    · rename_i same
      subst same
      exact .strings
    · cases known
  · cases known

end Literal

namespace Expr

/-- The expression can be evaluated, or a branch of it chosen, by the literals that it is made of.
-/
inductive Redex : Expr → Prop
  | negation {place inner : Position} {n : Int} : Redex (negate place (literal inner (.integer n)))
  | choice {place inner : Position} {value : Bool} {yes no : Expr} :
    Redex (cond place (literal inner (.bool value)) yes no)
  | operation {place first second : Position} {op : Operator} {a b : Literal}
    (combine : Literal.Combine op a b) :
    Redex (binary place op (literal first a) (literal second b))

def Normal (e : Expr) : Prop := ∀ path part, e.at? path = some part → ¬part.Redex

theorem normal_iff {e : Expr} :
    e.Normal ↔ ¬e.Redex ∧ ∀ step inner, e.part? step = some inner → inner.Normal := by
  constructor
  · intro normal
    refine ⟨normal [] e rfl, fun step inner here path part there => ?_⟩
    exact normal (step :: path) part (Option.bind_eq_some_iff.mpr ⟨inner, here, there⟩)
  · rintro ⟨root, parts⟩ path part there
    cases path with
    | nil =>
      cases there
      exact root
    | cons step path =>
      obtain ⟨inner, here, later⟩ := Option.bind_eq_some_iff.mp there
      exact parts step inner here path part later

section Forms

variable {place : Position}

theorem literal_normal {value : Literal} : (literal place value).Normal :=
  normal_iff.mpr ⟨nofun, fun step _ here => by cases step <;> cases here⟩

theorem var_normal {name : String} {qualifier resolved : Option String} :
    (var place name qualifier resolved).Normal :=
  normal_iff.mpr ⟨nofun, fun step _ here => by cases step <;> cases here⟩

theorem array_normal_iff {items : List Expr} :
    (array place items).Normal ↔ ∀ e ∈ items, e.Normal := by
  rw [normal_iff]
  constructor
  · rintro ⟨-, parts⟩ e member
    obtain ⟨index, known⟩ := List.mem_iff_getElem?.mp member
    exact parts (.item index) e known
  · intro each
    refine ⟨nofun, fun step inner here => ?_⟩
    cases step with
    | item index => exact each inner (List.mem_of_getElem? here)
    | _ => cases here

theorem block_normal_iff {statements : List Statement} :
    (block place statements).Normal ↔ ∀ s ∈ statements, s.expr.Normal := by
  rw [normal_iff]
  constructor
  · rintro ⟨-, parts⟩ s member
    obtain ⟨index, known⟩ := List.mem_iff_getElem?.mp member
    exact parts (.statement index) s.expr (Option.map_eq_some_iff.mpr ⟨s, known, rfl⟩)
  · intro each
    refine ⟨nofun, fun step inner here => ?_⟩
    cases step with
    | statement index =>
      obtain ⟨s, known, rfl⟩ := Option.map_eq_some_iff.mp here
      exact each s (List.mem_of_getElem? known)
    | _ => cases here

theorem app_normal_iff {function argument : Expr} :
    (app place function argument).Normal ↔ function.Normal ∧ argument.Normal := by
  rw [normal_iff]
  constructor
  · exact fun ⟨_, parts⟩ => ⟨parts .function _ rfl, parts .argument _ rfl⟩
  · rintro ⟨first, second⟩
    refine ⟨nofun, fun step inner here => ?_⟩
    cases step <;> cases here
    · exact first
    · exact second

theorem lambda_normal_iff {params : List String} {body : Expr} :
    (lambda place params body).Normal ↔ body.Normal := by
  rw [normal_iff]
  constructor
  · exact fun ⟨_, parts⟩ => parts .body _ rfl
  · exact fun inner => ⟨nofun, fun step _ here => by cases step <;> cases here; exact inner⟩

theorem negate_normal_iff {operand : Expr} :
    (negate place operand).Normal ↔ ¬(negate place operand).Redex ∧ operand.Normal := by
  rw [normal_iff]
  refine and_congr_right fun _ => ⟨fun parts => parts .operand _ rfl, ?_⟩
  exact fun inner step _ here => by cases step <;> cases here; exact inner

theorem cond_normal_iff {condition yes no : Expr} :
    (cond place condition yes no).Normal ↔
      ¬(cond place condition yes no).Redex ∧ condition.Normal ∧ yes.Normal ∧ no.Normal := by
  rw [normal_iff]
  refine and_congr_right fun _ => ⟨fun parts => ?_, ?_⟩
  · exact ⟨parts .condition _ rfl, parts .yes _ rfl, parts .no _ rfl⟩
  · rintro ⟨first, second, third⟩ step _ here
    cases step <;> cases here
    · exact first
    · exact second
    · exact third

theorem binary_normal_iff {op : Operator} {left right : Expr} :
    (binary place op left right).Normal ↔
      ¬(binary place op left right).Redex ∧ left.Normal ∧ right.Normal := by
  rw [normal_iff]
  refine and_congr_right fun _ => ⟨fun parts => ⟨parts .left _ rfl, parts .right _ rfl⟩, ?_⟩
  rintro ⟨first, second⟩ step _ here
  cases step <;> cases here
  · exact first
  · exact second

/-! What folding makes of folded parts is normal, and it is the expression itself if that is no
redex. -/

theorem fold_negate_normal {operand : Expr} (normal : operand.Normal) :
    (foldNegate place operand).Normal := by
  unfold foldNegate
  split
  · exact literal_normal
  · rename_i other
    refine negate_normal_iff.mpr ⟨?_, normal⟩
    rintro ⟨⟩
    exact other _ _ rfl

theorem fold_cond_normal {condition yes no : Expr} (first : condition.Normal)
    (second : yes.Normal) (third : no.Normal) : (foldCond place condition yes no).Normal := by
  unfold foldCond
  split
  · split
    · exact second
    · exact third
  · rename_i other
    refine cond_normal_iff.mpr ⟨?_, first, second, third⟩
    rintro ⟨⟩
    exact other _ _ rfl

theorem fold_binary_normal [Simplifier] (exact : Simplifier.Exact) {op : Operator}
    {left right : Expr} (first : left.Normal)
    (second : right.Normal) : (foldBinary place op left right).Normal := by
  unfold foldBinary
  split
  · split
    · exact literal_normal
    · rename_i unknown
      refine binary_normal_iff.mpr ⟨?_, first, second⟩
      rintro ⟨⟩
      rename_i combine
      obtain ⟨value, known⟩ := Literal.combine_known exact combine
      cases unknown.symm.trans known
  · rename_i other
    refine binary_normal_iff.mpr ⟨?_, first, second⟩
    rintro ⟨⟩
    exact other _ _ _ _ rfl rfl

theorem fold_negate_eq {operand : Expr} (irreducible : ¬(negate place operand).Redex) :
    foldNegate place operand = negate place operand := by
  unfold foldNegate
  split
  · exact absurd .negation irreducible
  · rfl

theorem fold_cond_eq {condition yes no : Expr}
    (irreducible : ¬(cond place condition yes no).Redex) :
    foldCond place condition yes no = cond place condition yes no := by
  unfold foldCond
  split
  · exact absurd .choice irreducible
  · rfl

theorem fold_binary_eq [Simplifier] (exact : Simplifier.Exact) {op : Operator} {left right : Expr}
    (irreducible : ¬(binary place op left right).Redex) :
    foldBinary place op left right = binary place op left right := by
  unfold foldBinary
  split
  · split
    · rename_i known
      exact absurd (.operation (Literal.known_combine exact known)) irreducible
    · rfl
  · rfl

end Forms

mutual

theorem fold_normal [Simplifier] (exact : Simplifier.Exact) (e : Expr) : e.fold.Normal := by
  cases e with
  | literal place value => exact literal_normal
  | array place items => exact array_normal_iff.mpr (fold_list_normal exact items)
  | var place name qualifier resolved => exact var_normal
  | app place function argument =>
    exact app_normal_iff.mpr ⟨fold_normal exact function, fold_normal exact argument⟩
  | lambda place params body => exact lambda_normal_iff.mpr (fold_normal exact body)
  | cond place condition yes no =>
    exact fold_cond_normal (fold_normal exact condition) (fold_normal exact yes)
      (fold_normal exact no)
  | binary place op left right =>
    exact fold_binary_normal exact (fold_normal exact left) (fold_normal exact right)
  | negate place operand => exact fold_negate_normal (fold_normal exact operand)
  | block place statements => exact block_normal_iff.mpr (fold_statements_normal exact statements)

theorem fold_list_normal [Simplifier] (exact : Simplifier.Exact) (items : List Expr) :
    ∀ e ∈ foldList items, e.Normal := by
  cases items with
  | nil => nofun
  | cons e rest => exact List.forall_mem_cons.mpr ⟨fold_normal exact e, fold_list_normal exact rest⟩

theorem fold_statements_normal [Simplifier] (exact : Simplifier.Exact)
    (statements : List Statement) :
    ∀ s ∈ foldStatements statements, s.expr.Normal := by
  match statements with
  | [] => nofun
  | .bind _ _ e :: rest | .define _ _ e :: rest | .run _ e :: rest =>
    exact List.forall_mem_cons.mpr ⟨fold_normal exact e, fold_statements_normal exact rest⟩

end

mutual

theorem fold_eq_of_normal [Simplifier] (exact : Simplifier.Exact) {e : Expr} (normal : e.Normal) :
    e.fold = e := by
  cases e with
  | literal place value => rfl
  | array place items =>
    exact congrArg (array place) (fold_list_eq exact (array_normal_iff.mp normal))
  | var place name qualifier resolved => rfl
  | app place function argument =>
    obtain ⟨first, second⟩ := app_normal_iff.mp normal
    exact congrArg₂ (app place) (fold_eq_of_normal exact first) (fold_eq_of_normal exact second)
  | lambda place params body =>
    exact congrArg (lambda place params) (fold_eq_of_normal exact (lambda_normal_iff.mp normal))
  | cond place condition yes no =>
    obtain ⟨irreducible, first, second, third⟩ := cond_normal_iff.mp normal
    rw [fold, fold_eq_of_normal exact first, fold_eq_of_normal exact second,
      fold_eq_of_normal exact third]
    exact fold_cond_eq irreducible
  | binary place op left right =>
    obtain ⟨irreducible, first, second⟩ := binary_normal_iff.mp normal
    rw [fold, fold_eq_of_normal exact first, fold_eq_of_normal exact second]
    exact fold_binary_eq exact irreducible
  | negate place operand =>
    obtain ⟨irreducible, inner⟩ := negate_normal_iff.mp normal
    rw [fold, fold_eq_of_normal exact inner]
    exact fold_negate_eq irreducible
  | block place statements =>
    exact congrArg (block place) (fold_statements_eq exact (block_normal_iff.mp normal))

theorem fold_list_eq [Simplifier] (exact : Simplifier.Exact) {items : List Expr}
    (normal : ∀ e ∈ items, e.Normal) :
    foldList items = items := by
  cases items with
  | nil => rfl
  | cons e rest =>
    obtain ⟨first, others⟩ := List.forall_mem_cons.mp normal
    exact congrArg₂ List.cons (fold_eq_of_normal exact first) (fold_list_eq exact others)

theorem fold_statements_eq [Simplifier] (exact : Simplifier.Exact) {statements : List Statement}
    (normal : ∀ s ∈ statements, s.expr.Normal) : foldStatements statements = statements := by
  match statements, normal with
  | [], _ => rfl
  | .bind .. :: rest, normal | .define .. :: rest, normal | .run .. :: rest, normal =>
    obtain ⟨first, others⟩ := List.forall_mem_cons.mp normal
    have same := fold_eq_of_normal exact first
    rw [Statement.expr] at same
    rw [foldStatements, same, fold_statements_eq exact others]

end

/-- Folding comes to an end at once: no part of what it gives can be evaluated, and doing it twice
is doing it once, with the places of all expressions and statements. -/
theorem fold_reaches_normal_form [Simplifier] (exact : Simplifier.Exact) (e : Expr) :
    e.fold.Normal ∧ e.fold.fold = e.fold :=
  ⟨fold_normal exact e, fold_eq_of_normal exact (fold_normal exact e)⟩

def layeredLiterals : Expr :=
  .cond ⟨1, 1⟩
    (.binary ⟨1, 10⟩ .less
      (.binary ⟨1, 6⟩ .sub (.literal ⟨1, 4⟩ (.integer 1)) (.literal ⟨1, 8⟩ (.integer 2)))
      (.literal ⟨1, 12⟩ (.integer 0)))
    (.array ⟨1, 19⟩ [
      .negate ⟨1, 20⟩
        (.binary ⟨1, 24⟩ .mul (.literal ⟨1, 22⟩ (.integer 2)) (.literal ⟨1, 26⟩ (.integer 3))),
      .binary ⟨1, 47⟩ .add (.literal ⟨1, 30⟩ (.integer (2 ^ 53)))
        (.literal ⟨1, 49⟩ (.integer 1))])
    (.var ⟨1, 57⟩ "y" none none)

theorem layered_literals_normal :
    Simplifier.Exact ∧
      layeredLiterals.fold = .array ⟨1, 19⟩ [
        .literal ⟨1, 20⟩ (.integer (-6)),
        .binary ⟨1, 47⟩ .add (.literal ⟨1, 30⟩ (.integer (2 ^ 53)))
          (.literal ⟨1, 49⟩ (.integer 1))] ∧
      layeredLiterals.fold.Normal ∧ layeredLiterals.fold.fold = layeredLiterals.fold :=
  ⟨Simplifier.values_exact, rfl,
    fold_reaches_normal_form Simplifier.values_exact layeredLiterals⟩

end Expr

end PureJs
