import PureJs.Program.TailCall
import PureJs.Proofs.Program.Scope

/-!
Where a declaration refers to itself. A reference is found by the way to it through the expression.
Tail recursion is seen from these ways alone: each leads through branches of conditionals to a call
and on to the head of its arguments, of which there are as many as parameters.
-/

namespace PureJs

/-- A step from an expression to one that is a part of it. -/
inductive Branch
  | function
  | argument
  | item (index : Nat)
  | body
  | condition
  | yes
  | no
  | left
  | right
  | operand
  | statement (index : Nat)
  deriving DecidableEq, Repr

namespace Expr

def part? : Expr → Branch → Option Expr
  | array _ items, .item index => items[index]?
  | app _ function _, .function => some function
  | app _ _ argument, .argument => some argument
  | lambda _ _ body, .body => some body
  | cond _ condition _ _, .condition => some condition
  | cond _ _ yes _, .yes => some yes
  | cond _ _ _ no, .no => some no
  | binary _ _ left _, .left => some left
  | binary _ _ _ right, .right => some right
  | negate _ operand, .operand => some operand
  | block _ statements, .statement index => statements[index]?.map Statement.expr
  | _, _ => none

/-- What stands in the expression at the end of the way. -/
def at? (e : Expr) : List Branch → Option Expr
  | [] => some e
  | step :: path => (e.part? step).bind (·.at? path)

/-- At the end of the way, the value of the module is named. -/
def RefersTo (module name : String) (e : Expr) (path : List Branch) : Prop :=
  ∃ place written, e.at? path = some (var place name written (some module))

inductive Applies : Expr → Expr → List Expr → Prop
  | none {head : Expr} : Applies head head []
  | more {place : Position} {function head argument : Expr} {args : List Expr}
    (inner : Applies function head args) :
    Applies (app place function argument) head (args ++ [argument])

variable {module name : String}

theorem at_append (e : Expr) (front back : List Branch) :
    e.at? (front ++ back) = (e.at? front).bind (·.at? back) := by
  induction front generalizing e with
  | nil => rfl
  | cons step rest ih =>
    rw [List.cons_append, at?, at?, Option.bind_assoc]
    exact Option.bind_congr fun inner _ => ih inner

theorem refers_nil_iff {e : Expr} : e.RefersTo module name [] ↔ e.isValue module name = true := by
  cases e with
  | var place text written resolved =>
    simp only [RefersTo, at?, isValue, Option.some.injEq, var.injEq, decide_eq_true_eq,
      Bool.and_eq_true]
    constructor
    · rintro ⟨_, _, rfl, rfl, rfl, rfl⟩
      exact ⟨rfl, rfl⟩
    · rintro ⟨rfl, rfl⟩
      exact ⟨place, written, rfl, rfl, rfl, rfl⟩
  | _ => simp [RefersTo, at?, isValue]

theorem refers_cons_iff {e : Expr} {step : Branch} {path : List Branch} :
    e.RefersTo module name (step :: path) ↔
      ∃ inner, e.part? step = some inner ∧ inner.RefersTo module name path := by
  simp only [RefersTo, at?, Option.bind_eq_some_iff]
  constructor
  · rintro ⟨place, written, inner, here, there⟩
    exact ⟨inner, here, place, written, there⟩
  · rintro ⟨inner, here, place, written, there⟩
    exact ⟨place, written, inner, here, there⟩

theorem refers_append_iff {e : Expr} {front back : List Branch} :
    e.RefersTo module name (front ++ back) ↔
      ∃ inner, e.at? front = some inner ∧ inner.RefersTo module name back := by
  simp only [RefersTo, at_append, Option.bind_eq_some_iff]
  constructor
  · rintro ⟨place, written, inner, here, there⟩
    exact ⟨inner, here, place, written, there⟩
  · rintro ⟨inner, here, place, written, there⟩
    exact ⟨place, written, inner, here, there⟩

section Mentions

theorem list_occurrences_eq (locals : List String) (items : List Expr) :
    listOccurrences locals items = items.flatMap (occurrences locals) := by
  induction items with
  | nil => rfl
  | cons e rest ih => rw [listOccurrences, ih, List.flatMap_cons]

theorem mentions_iff {e : Expr} (locals : List String) :
    e.mentions module name = true ↔
      ∃ use ∈ e.occurrences locals, use.resolved = some module ∧ use.name = name := by
  rw [mentions, decide_eq_true_eq]
  exact mem_references locals

theorem mentions_statements_iff (locals : List String) {statements : List Statement} :
    (∃ use ∈ statementOccurrences locals statements,
        use.resolved = some module ∧ use.name = name) ↔
      ∃ s ∈ statements, s.expr.mentions module name = true := by
  induction statements generalizing locals with
  | nil => simp [statementOccurrences]
  | cons s rest ih =>
    have split : ∀ inner, (∃ use ∈ s.expr.occurrences locals ++ statementOccurrences inner rest,
        use.resolved = some module ∧ use.name = name) ↔
          ∃ t ∈ s :: rest, t.expr.mentions module name = true := by
      intro inner
      simp only [List.mem_append, List.mem_cons, or_and_right, exists_or, exists_eq_left, ih inner,
        ← mentions_iff locals]
    cases s with
    | bind _ bound e | define _ bound e => exact split (bound :: locals)
    | run _ e => exact split locals

theorem mentions_value {e : Expr} (value : e.isValue module name = true) :
    e.mentions module name = true := by
  cases e with
  | var place text written resolved =>
    simp only [isValue, Bool.and_eq_true, decide_eq_true_eq] at value
    exact (mentions_iff []).mpr ⟨_, List.mem_singleton_self _, value⟩
  | _ => cases value

theorem value_has_no_part {e : Expr} (value : e.isValue module name = true) (step : Branch) :
    e.part? step = none := by
  cases e with
  | var => cases step <;> rfl
  | _ => cases value

theorem mentions_part {e inner : Expr} {step : Branch} (here : e.part? step = some inner)
    (mentioned : inner.mentions module name = true) : e.mentions module name = true := by
  have found := fun locals => (mentions_iff (e := inner) locals).mp mentioned
  cases e with
  | array place items =>
    cases step with
    | item index =>
      obtain ⟨use, member, refers⟩ := found []
      have inside : use ∈ (array place items).occurrences [] := by
        rw [occurrences, list_occurrences_eq]
        exact List.mem_flatMap.mpr ⟨inner, List.mem_of_getElem? here, member⟩
      exact (mentions_iff []).mpr ⟨use, inside, refers⟩
    | _ => cases here
  | lambda place params body =>
    cases step with
    | body =>
      cases here
      obtain ⟨use, member, refers⟩ := found (params ++ [])
      exact (mentions_iff []).mpr ⟨use, member, refers⟩
    | _ => cases here
  | block place statements =>
    cases step with
    | statement index =>
      obtain ⟨s, known, rfl⟩ := Option.map_eq_some_iff.mp here
      exact (mentions_iff []).mpr ((mentions_statements_iff []).mpr
        ⟨s, List.mem_of_getElem? known, mentioned⟩)
    | _ => cases here
  | literal | var => cases step <;> cases here
  | app | cond | binary | negate =>
    obtain ⟨use, member, refers⟩ := found []
    refine (mentions_iff []).mpr ⟨use, ?_, refers⟩
    cases step <;> cases here <;> simp [occurrences, member]

theorem value_or_part {e : Expr} (mentioned : e.mentions module name = true) :
    e.isValue module name = true ∨
      ∃ step inner, e.part? step = some inner ∧ inner.mentions module name = true := by
  obtain ⟨use, member, refers⟩ := (mentions_iff []).mp mentioned
  have part : ∀ step {inner locals}, e.part? step = some inner → use ∈ inner.occurrences locals →
      ∃ step inner, e.part? step = some inner ∧ inner.mentions module name = true :=
    fun _ _ _ here inside => ⟨_, _, here, (mentions_iff _).mpr ⟨use, inside, refers⟩⟩
  cases e with
  | literal place value => exact absurd member List.not_mem_nil
  | var place text written resolved =>
    rw [List.mem_singleton.mp member] at refers
    exact .inl (by simpa [isValue] using refers)
  | array place items =>
    rw [occurrences, list_occurrences_eq] at member
    obtain ⟨item, inside, here⟩ := List.mem_flatMap.mp member
    obtain ⟨index, known⟩ := List.mem_iff_getElem?.mp inside
    exact .inr (part (.item index) known here)
  | app place function argument =>
    rcases List.mem_append.mp member with first | second
    · exact .inr (part .function rfl first)
    · exact .inr (part .argument rfl second)
  | lambda place params body => exact .inr (part .body rfl member)
  | cond place condition yes no =>
    rcases List.mem_append.mp member with front | last
    · rcases List.mem_append.mp front with first | second
      · exact .inr (part .condition rfl first)
      · exact .inr (part .yes rfl second)
    · exact .inr (part .no rfl last)
  | binary place op left right =>
    rcases List.mem_append.mp member with first | second
    · exact .inr (part .left rfl first)
    · exact .inr (part .right rfl second)
  | negate place operand => exact .inr (part .operand rfl member)
  | block place statements =>
    obtain ⟨s, inside, there⟩ := (mentions_statements_iff []).mp ⟨use, member, refers⟩
    obtain ⟨index, known⟩ := List.mem_iff_getElem?.mp inside
    exact .inr ⟨.statement index, s.expr, by simp [part?, known], there⟩

theorem part_smaller {e inner : Expr} {step : Branch} (here : e.part? step = some inner) :
    sizeOf inner < sizeOf e := by
  cases e with
  | array place items =>
    cases step with
    | item index =>
      have smaller := List.sizeOf_lt_of_mem (List.mem_of_getElem? here)
      simp only [array.sizeOf_spec]
      omega
    | _ => cases here
  | block place statements =>
    cases step with
    | statement index =>
      obtain ⟨s, known, rfl⟩ := Option.map_eq_some_iff.mp here
      have smaller := List.sizeOf_lt_of_mem (List.mem_of_getElem? known)
      have inside : sizeOf s.expr < sizeOf s := by
        cases s <;> simp only [Statement.expr, Statement.bind.sizeOf_spec,
          Statement.define.sizeOf_spec, Statement.run.sizeOf_spec] <;> omega
      simp only [block.sizeOf_spec]
      omega
    | _ => cases here
  | _ => cases step <;> cases here <;> simp <;> omega

theorem mentions_iff_refers {e : Expr} :
    e.mentions module name = true ↔ ∃ path, e.RefersTo module name path := by
  constructor
  · intro mentioned
    induction size : sizeOf e using Nat.strongRecOn generalizing e with
    | ind n ih =>
      rcases value_or_part mentioned with value | ⟨step, inner, here, there⟩
      · exact ⟨[], refers_nil_iff.mpr value⟩
      · obtain ⟨path, refers⟩ := ih _ (size ▸ part_smaller here) there rfl
        exact ⟨step :: path, refers_cons_iff.mpr ⟨inner, here, refers⟩⟩
  · rintro ⟨path, refers⟩
    induction path generalizing e with
    | nil => exact mentions_value (refers_nil_iff.mp refers)
    | cons step rest ih =>
      obtain ⟨inner, here, there⟩ := refers_cons_iff.mp refers
      exact mentions_part here (ih there)

end Mentions

section Applications

theorem unapply_onto (e : Expr) (rest : List Expr) :
    e.unapplyOnto rest = (e.unapply.1, e.unapply.2 ++ rest) := by
  match e with
  | .app place function argument =>
    have inner := function.unapply_onto [argument]
    have whole := function.unapply_onto (argument :: rest)
    show unapplyOnto (argument :: rest) function =
      ((unapplyOnto [argument] function).1, (unapplyOnto [argument] function).2 ++ rest)
    rw [whole, inner, List.append_assoc, List.singleton_append]
  | .literal .. | .array .. | .var .. | .lambda .. | .cond .. | .binary .. | .negate ..
  | .block .. => rfl

theorem unapply_app (place : Position) (function argument : Expr) :
    (app place function argument).unapply =
      (function.unapply.1, function.unapply.2 ++ [argument]) :=
  function.unapply_onto [argument]

theorem unapply_applies (e : Expr) : e.Applies e.unapply.1 e.unapply.2 := by
  match e with
  | .app place function argument =>
    rw [unapply_app]
    exact .more function.unapply_applies
  | .literal .. | .array .. | .var .. | .lambda .. | .cond .. | .binary .. | .negate ..
  | .block .. => exact .none

theorem refers_functions {e : Expr} {count : Nat}
    (refers : e.RefersTo module name (List.replicate count .function)) :
    e.unapply.1.isValue module name = true ∧ e.unapply.2.length = count := by
  induction count generalizing e with
  | zero =>
    have value := refers_nil_iff.mp refers
    cases e with
    | var => exact ⟨value, rfl⟩
    | _ => cases value
  | succ count ih =>
    obtain ⟨inner, here, there⟩ := refers_cons_iff.mp refers
    cases e with
    | app place function argument =>
      cases here
      obtain ⟨value, long⟩ := ih there
      rw [unapply_app]
      exact ⟨value, by simp [long]⟩
    | _ => cases here

theorem Applies.head_refers {e head : Expr} {args : List Expr} (applies : e.Applies head args)
    (value : head.isValue module name = true) :
    e.RefersTo module name (List.replicate args.length .function) := by
  induction applies with
  | none => exact refers_nil_iff.mpr value
  | more inner ih =>
    rw [List.length_append, List.length_singleton, List.replicate_succ]
    exact refers_cons_iff.mpr ⟨_, rfl, ih value⟩

theorem Applies.refers_iff {e head : Expr} {args : List Expr} (applies : e.Applies head args)
    (value : head.isValue module name = true)
    (free : ∀ arg ∈ args, ¬arg.mentions module name = true) (path : List Branch) :
    e.RefersTo module name path ↔ path = List.replicate args.length .function := by
  refine ⟨fun refers => ?_, fun same => same ▸ applies.head_refers value⟩
  induction applies generalizing path with
  | none =>
    cases path with
    | nil => rfl
    | cons step rest =>
      obtain ⟨inner, here, _⟩ := refers_cons_iff.mp refers
      rw [value_has_no_part value step] at here
      cases here
  | @more place function head argument args inner ih =>
    rw [List.forall_mem_append] at free
    cases path with
    | nil => exact absurd (refers_nil_iff.mp refers) Bool.false_ne_true
    | cons step rest =>
      obtain ⟨part, here, there⟩ := refers_cons_iff.mp refers
      cases step with
      | function =>
        cases here
        rw [ih value free.1 rest there, List.length_append, List.length_singleton,
          List.replicate_succ]
      | argument =>
        cases here
        exact absurd (mentions_iff_refers.mpr ⟨rest, there⟩)
          (free.2 _ (List.mem_singleton_self _))
      | _ => cases here

theorem Applies.argument_refers {e head arg : Expr} {args : List Expr}
    (applies : e.Applies head args) (member : arg ∈ args)
    (mentioned : arg.mentions module name = true) :
    ∃ path, e.RefersTo module name path ∧ Branch.argument ∈ path := by
  induction applies with
  | none => exact absurd member List.not_mem_nil
  | more inner ih =>
    rcases List.mem_append.mp member with earlier | last
    · obtain ⟨path, refers, inside⟩ := ih earlier
      exact ⟨.function :: path, refers_cons_iff.mpr ⟨_, rfl, refers⟩,
        List.mem_cons_of_mem _ inside⟩
    · obtain ⟨path, refers⟩ := mentions_iff_refers.mp mentioned
      rw [List.mem_singleton.mp last] at refers
      exact ⟨.argument :: path, refers_cons_iff.mpr ⟨_, rfl, refers⟩, List.mem_cons_self⟩

theorem Applies.argument_at {e head arg : Expr} {args : List Expr} (applies : e.Applies head args)
    (member : arg ∈ args) : ∃ path, e.at? path = some arg := by
  induction applies with
  | none => exact absurd member List.not_mem_nil
  | more inner ih =>
    rcases List.mem_append.mp member with earlier | last
    · obtain ⟨path, stands⟩ := ih earlier
      exact ⟨.function :: path, stands⟩
    · rw [List.mem_singleton.mp last]
      exact ⟨[.argument], rfl⟩

end Applications

end Expr

def Branch.IsTurn (step : Branch) : Prop := step = .yes ∨ step = .no

namespace ValueDeclaration

variable {module : String} {d : ValueDeclaration} {e : Expr}

/-- The way leads to a tail position with a call, and on to the head of as many arguments as the
declaration has parameters. -/
def HeadsTailCall (d : ValueDeclaration) (path : List Branch) : Prop :=
  ∃ turns : List Branch, (∀ step ∈ turns, step.IsTurn) ∧
    path = turns ++ List.replicate d.params.length .function

theorem self_call_eq {args : List Expr} (call : d.selfCall? module e = some args) :
    e.unapply.1.isValue module d.name = true ∧ e.unapply.2 = args ∧
      args.length = d.params.length := by
  unfold selfCall? at call
  dsimp only at call
  split at call
  · rename_i full
    rw [Bool.and_eq_true, decide_eq_true_eq] at full
    cases call
    exact ⟨full.1, rfl, full.2⟩
  · cases call

theorem self_call_applies {args : List Expr} (call : d.selfCall? module e = some args) :
    ∃ head, head.isValue module d.name = true ∧ e.Applies head args ∧
      args.length = d.params.length := by
  obtain ⟨value, rfl, full⟩ := self_call_eq call
  exact ⟨_, value, e.unapply_applies, full⟩

theorem self_call_none (none : d.selfCall? module e = none) :
    ¬e.RefersTo module d.name (List.replicate d.params.length .function) := by
  intro refers
  obtain ⟨value, full⟩ := Expr.refers_functions refers
  unfold selfCall? at none
  simp [value, full] at none

theorem HeadsTailCall.steps {path : List Branch} (heads : d.HeadsTailCall path) :
    ∀ step ∈ path, step.IsTurn ∨ step = .function := by
  obtain ⟨turns, each, rfl⟩ := heads
  intro step member
  rcases List.mem_append.mp member with turn | function
  · exact .inl (each step turn)
  · exact .inr (List.eq_of_mem_replicate function)

theorem HeadsTailCall.turn {path : List Branch} (heads : d.HeadsTailCall path) {step : Branch}
    (turn : step.IsTurn) : d.HeadsTailCall (step :: path) := by
  obtain ⟨turns, each, rfl⟩ := heads
  exact ⟨step :: turns, List.forall_mem_cons.mpr ⟨turn, each⟩, rfl⟩

theorem HeadsTailCall.behind {path : List Branch} {step : Branch}
    (heads : d.HeadsTailCall (step :: path)) (turn : step.IsTurn) : d.HeadsTailCall path := by
  obtain ⟨turns, each, same⟩ := heads
  cases turns with
  | nil =>
    have function := List.eq_of_mem_replicate (same ▸ List.mem_cons_self : step ∈ _)
    subst function
    rcases turn with other | other <;> cases other
  | cons first rest =>
    obtain ⟨rfl, rfl⟩ := List.cons.inj same
    exact ⟨rest, (List.forall_mem_cons.mp each).2, rfl⟩

theorem tail_calls_other
    (other : ∀ place condition yes no, e = .cond place condition yes no → False) :
    d.tailCallsOnly module e =
      match d.selfCall? module e with
      | some args => !args.any (·.mentions module d.name)
      | none => !e.mentions module d.name :=
  tailCallsOnly.eq_2 module d e other

theorem heads_without_turn
    (other : ∀ place condition yes no, e = .cond place condition yes no → False)
    {path : List Branch} (refers : e.RefersTo module d.name path) (heads : d.HeadsTailCall path) :
    path = List.replicate d.params.length .function := by
  obtain ⟨turns, each, rfl⟩ := heads
  cases turns with
  | nil => rfl
  | cons step rest =>
    obtain ⟨inner, here, _⟩ := Expr.refers_cons_iff.mp refers
    have turn := each step List.mem_cons_self
    cases e with
    | cond => exact (other _ _ _ _ rfl).elim
    | _ => rcases turn with rfl | rfl <;> cases here

/-- The references in an expression in tail position are heads of full calls in tail position, if
the analysis says so, and only then. -/
theorem tail_calls_only_iff :
    d.tailCallsOnly module e = true ↔
      ∀ path, e.RefersTo module d.name path → d.HeadsTailCall path := by
  induction e using hasTailCall.induct with
  | case1 place condition yes no ihYes ihNo =>
    rw [tailCallsOnly, Bool.and_eq_true, Bool.and_eq_true, ihYes, ihNo, Bool.not_eq_true',
      Bool.eq_false_iff]
    constructor
    · rintro ⟨⟨silent, left⟩, right⟩ path refers
      cases path with
      | nil => exact absurd (Expr.refers_nil_iff.mp refers) Bool.false_ne_true
      | cons step rest =>
        obtain ⟨inner, here, there⟩ := Expr.refers_cons_iff.mp refers
        cases step with
        | condition =>
          cases here
          exact absurd (Expr.mentions_iff_refers.mpr ⟨rest, there⟩) silent
        | yes =>
          cases here
          exact (left rest there).turn (.inl rfl)
        | no =>
          cases here
          exact (right rest there).turn (.inr rfl)
        | _ => cases here
    · intro all
      refine ⟨⟨?_, ?_⟩, ?_⟩
      · intro mentioned
        obtain ⟨path, refers⟩ := Expr.mentions_iff_refers.mp mentioned
        have heads := all (.condition :: path) (Expr.refers_cons_iff.mpr ⟨_, rfl, refers⟩)
        rcases heads.steps _ List.mem_cons_self with (wrong | wrong) | wrong <;> cases wrong
      · intro path refers
        exact (all (.yes :: path) (Expr.refers_cons_iff.mpr ⟨_, rfl, refers⟩)).behind (.inl rfl)
      · intro path refers
        exact (all (.no :: path) (Expr.refers_cons_iff.mpr ⟨_, rfl, refers⟩)).behind (.inr rfl)
  | case2 e other =>
    rw [tail_calls_other other]
    cases call : d.selfCall? module e with
    | some args =>
      obtain ⟨head, value, applies, full⟩ := self_call_applies call
      rw [Bool.not_eq_true', Bool.eq_false_iff, Ne, List.any_eq_true]
      constructor
      · intro silent path refers
        have free : ∀ arg ∈ args, ¬arg.mentions module d.name = true :=
          fun arg member mentioned => silent ⟨arg, member, mentioned⟩
        rw [(applies.refers_iff value free path).mp refers, full]
        exact ⟨[], nofun, rfl⟩
      · rintro all ⟨arg, member, mentioned⟩
        obtain ⟨path, refers, inside⟩ := applies.argument_refers member mentioned
        rcases (all path refers).steps _ inside with (wrong | wrong) | wrong <;> cases wrong
    | none =>
      rw [Bool.not_eq_true', Bool.eq_false_iff, Ne, Expr.mentions_iff_refers]
      constructor
      · exact fun silent path refers => absurd ⟨path, refers⟩ silent
      · rintro all ⟨path, refers⟩
        have functions := heads_without_turn other refers (all path refers)
        exact self_call_none call (functions ▸ refers)

theorem has_tail_call_iff (only : d.tailCallsOnly module e = true) :
    d.hasTailCall module e = true ↔ e.mentions module d.name = true := by
  induction e using hasTailCall.induct with
  | case1 place condition yes no ihYes ihNo =>
    rw [tailCallsOnly, Bool.and_eq_true, Bool.and_eq_true, Bool.not_eq_true', Bool.eq_false_iff]
      at only
    rw [hasTailCall, Bool.or_eq_true, ihYes only.1.2, ihNo only.2]
    have first : (Expr.cond place condition yes no).part? .yes = some yes := rfl
    have second : (Expr.cond place condition yes no).part? .no = some no := rfl
    constructor
    · rintro (left | right)
      · exact Expr.mentions_part first left
      · exact Expr.mentions_part second right
    · intro mentioned
      rcases Expr.value_or_part mentioned with value | ⟨step, inner, here, there⟩
      · cases value
      · cases step with
        | condition =>
          cases here
          exact absurd there only.1.1
        | yes =>
          cases here
          exact .inl there
        | no =>
          cases here
          exact .inr there
        | _ => cases here
  | case2 e other =>
    rw [tail_calls_other other] at only
    rw [hasTailCall.eq_2 _ _ _ other]
    cases call : d.selfCall? module e with
    | some args =>
      obtain ⟨head, value, applies, _⟩ := self_call_applies call
      exact ⟨fun _ => Expr.mentions_iff_refers.mpr ⟨_, applies.head_refers value⟩, fun _ => rfl⟩
    | none =>
      rw [call, Bool.not_eq_true'] at only
      simp [only]

/-- A declaration is tail recursive when it has parameters and refers to itself, and does so as the
head of full calls in tail position only. -/
theorem is_tail_recursive_iff :
    d.isTailRecursive module = true ↔ d.params ≠ [] ∧
      (∃ path, d.body.RefersTo module d.name path) ∧
      ∀ path, d.body.RefersTo module d.name path → d.HeadsTailCall path := by
  rw [isTailRecursive, Bool.and_eq_true, Bool.and_eq_true, Bool.not_eq_true', Ne,
    ← List.isEmpty_iff, Bool.not_eq_true, ← tail_calls_only_iff, ← Expr.mentions_iff_refers,
    and_assoc]
  exact and_congr_right fun _ =>
    ⟨fun both => ⟨(has_tail_call_iff both.1).mp both.2, both.1⟩,
      fun both => ⟨both.2, (has_tail_call_iff both.2).mpr both.1⟩⟩

end ValueDeclaration

end PureJs
