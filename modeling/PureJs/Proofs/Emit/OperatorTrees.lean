import PureJs.Emit
import PureJs.Proofs.Js.Identifier
import PureJs.Proofs.Js.Legible
import PureJs.Proofs.Program.Literals

/-!
The code of an expression shows the tree of the expression: the operands of each operator, the
branches of each conditional, the callee and the arguments of each call and the items of each array
are the trees of the parts they are the code of. It shows it just if the names and numbers that it
takes from the source are legal.
-/

namespace PureJs

namespace Expr

mutual

/-- Each name and each number with a fraction that the code has as it was read is legal there. -/
def Legal (module : String) : Expr → Prop
  | literal _ (.number text) => ∃ q, Js.DecimalLiteral text.toList q
  | literal _ (.integer _) | literal _ (.string _) | literal _ (.bool _) => True
  | array _ items => ListLegal module items
  | var _ name _ resolved =>
    resolved = none ∨ resolved = some module → Js.IsIdentifier (Js.identifier name)
  | app _ function argument => function.Legal module ∧ argument.Legal module
  | lambda _ params body =>
    (∀ x ∈ params, Js.IsIdentifier (Js.identifier x)) ∧ body.Legal module
  | cond _ condition yes no => condition.Legal module ∧ yes.Legal module ∧ no.Legal module
  | binary _ _ left right => left.Legal module ∧ right.Legal module
  | negate _ operand => operand.Legal module
  | block _ statements => StatementsLegal module statements

def ListLegal (module : String) : List Expr → Prop
  | [] => True
  | e :: rest => e.Legal module ∧ ListLegal module rest

def StatementsLegal (module : String) : List Statement → Prop
  | [] => True
  | .bind _ name e :: rest | .define _ name e :: rest =>
    Js.IsIdentifier (Js.identifier name) ∧ e.Legal module ∧ StatementsLegal module rest
  | .run _ e :: rest => e.Legal module ∧ StatementsLegal module rest

end

end Expr

namespace Emit

open Js (Tree TreeStatement Shows ListShows BodyShows Word callLevel unaryLevel primaryLevel)

def literalTree : Literal → Tree
  | .integer (.ofNat n) => .number n.repr
  | .integer (.negSucc n) => .negate (.number (n + 1).repr)
  | .number text => .number text
  | .string value => .string (Json.quote value)
  | .bool value => .bool value

def varTree (setting : Setting) (name : String) (resolved : Option String) : Tree :=
  match resolved with
  | none => .name (Js.identifier name)
  | some module =>
    if module = setting.module then .name (Js.identifier name)
    else
      let object := Tree.entry (.name Js.container) (.string (Json.quote module))
      if Js.isProperty name then .property object name
      else .entry object (.string (Json.quote name))

def givingTree (param : String) (value : Tree) : Tree := .function [param] [.give value]

mutual

def exprTree (setting : Setting) : Expr → Tree
  | .literal _ value => literalTree value
  | .array _ items => .array (listTrees setting items)
  | .var _ name _ resolved => varTree setting name resolved
  | .app _ function argument => .call (exprTree setting function) [exprTree setting argument]
  | .lambda _ params body =>
    params.foldr (fun param inner => givingTree (Js.identifier param) inner) (exprTree setting body)
  | .cond _ condition yes no =>
    .cond (exprTree setting condition) (exprTree setting yes) (exprTree setting no)
  | .binary _ op left right => .binary op.toJs (exprTree setting left) (exprTree setting right)
  | .negate _ operand => .negate (exprTree setting operand)
  | .block _ statements =>
    if setting.directBlocks then .function [] (directTrees setting statements)
    else chainedTree setting statements

def listTrees (setting : Setting) : List Expr → List Tree
  | [] => []
  | e :: rest => exprTree setting e :: listTrees setting rest

def directTrees (setting : Setting) : List Statement → List TreeStatement
  | [] => []
  | [.bind _ _ e] | [.define _ _ e] | [.run _ e] => [.give (.call (exprTree setting e) [])]
  | .bind _ name e :: rest =>
    .var (Js.identifier name) (.call (exprTree setting e) []) :: directTrees setting rest
  | .define _ name e :: rest =>
    .var (Js.identifier name) (exprTree setting e) :: directTrees setting rest
  | .run _ e :: rest => .run (.call (exprTree setting e) []) :: directTrees setting rest

def chainedTree (setting : Setting) : List Statement → Tree
  | [] => .array []
  | [.bind _ _ e] | [.define _ _ e] | [.run _ e] => exprTree setting e
  | .define _ name e :: rest =>
    .call (givingTree (Js.identifier name) (chainedTree setting rest)) [exprTree setting e]
  | .bind _ name e :: rest =>
    .call (.call (.name bindName) [exprTree setting e])
      [givingTree (Js.identifier name) (chainedTree setting rest)]
  | .run _ e :: rest =>
    .call (.call (.name bindName) [exprTree setting e])
      [givingTree unusedName (chainedTree setting rest)]

end

def Digital : Literal → Prop
  | .number text => ∃ whole fraction, Js.Pointed text.toList whole fraction
  | .integer _ | .string _ | .bool _ => True

theorem digital_foldable : Expr.Foldable Digital :=
  ⟨fun _ => trivial, fun _ => trivial, fun _ => trivial⟩

/-! Names -/

def Named (c : Char) : Prop := Piece.continuesName c = true ∨ c = '$'

theorem identifier_named {name : String} (lexical : Lexical name) :
    ∀ c ∈ (Js.identifier name).toList, Named c := by
  have prime : ∀ c ∈ "$prime".toList, Named c := by
    have all : "$prime".toList.all (fun c => Piece.continuesName c || c = '$') = true := by decide
    intro c member
    simpa [Named] using List.all_eq_true.mp all c member
  have spelled : ∀ c ∈ (Js.spellPrimes name).toList, Named c := by
    rw [Js.spelled_chars, List.forall_mem_flatMap]
    intro c member
    unfold Js.spellChar
    split
    · exact prime
    · exact List.forall_mem_singleton.mpr (.inl (lexical.2 c member))
  unfold Js.identifier
  dsimp only
  split
  · rw [String.toList_append, List.forall_mem_append]
    have mark : "$$".toList = ['$', '$'] := by decide
    exact ⟨by simp [mark, Named], spelled⟩
  · exact spelled

theorem identifier_starts {name : String} (lexical : Lexical name) :
    ∃ c tail, (Js.identifier name).toList = c :: tail ∧
      (Piece.startsName c = true ∨ c = '$') := by
  unfold Js.identifier
  dsimp only
  split
  · exact ⟨'$', _, String.toList_append .., .inr rfl⟩
  · obtain ⟨c, tail, chars, start⟩ := Js.spelled_starts lexical
    exact ⟨c, tail, chars, .inl start⟩

theorem named_continues {c : Char} (named : Named c) :
    Js.continuesWord c = Js.continuesIdentifier c := by
  have joiners : ['\u200c', '\u200d'].all (fun c => !Piece.continuesName c && c ≠ '$') = true := by
    decide +kernel
  have other : c ∉ ['\u200c', '\u200d'] := by
    intro member
    have none := List.all_eq_true.mp joiners c member
    rcases named with name | rfl
    · simp [name] at none
    · simp at none
  rw [Js.continuesWord, decide_eq_false other, Bool.or_false]

theorem legal_identifier_word {name : String} (lexical : Lexical name)
    (legal : Js.IsIdentifier (Js.identifier name)) : Word True (Js.identifier name) := by
  have named := identifier_named lexical
  obtain ⟨c, tail, chars, -⟩ := identifier_starts lexical
  have begins := legal.begins
  have continues := legal.continues
  rw [chars] at named begins continues
  refine .of_chars chars (by simpa using begins) ?_ legal.free
  rw [List.all_eq_true]
  intro d member
  rw [named_continues (named d (List.mem_cons_of_mem c member))]
  exact continues d member

theorem illegal_identifier_stuck {name : String} (lexical : Lexical name)
    (illegal : ¬Js.IsIdentifier (Js.identifier name)) (rest : List Char) :
    Js.lex ((Js.identifier name).toList ++ rest) = none := by
  have named := identifier_named lexical
  obtain ⟨c, tail, chars, starts⟩ := identifier_starts lexical
  rw [chars] at named
  rw [chars, List.cons_append]
  cases begins : Js.beginsIdentifier c with
  | false =>
    have none : Js.continuesWord c = false := by
      rw [named_continues (named c List.mem_cons_self), Bool.eq_false_iff]
      intro continues
      rcases starts with start | rfl
      · rw [Js.start_begins start continues] at begins
        cases begins
      · exact absurd begins (by decide +kernel)
    exact (Js.name_sticks (named c List.mem_cons_self) none).stuck _
  | true =>
    have some : ∃ d ∈ tail, Js.continuesWord d = false := by
      by_contra all
      simp only [not_exists, not_and, Bool.not_eq_false] at all
      refine illegal ⟨by simp [chars, begins], fun d member => ?_,
        fun word => Js.identifier_not_reserved name (Js.strict_reserved word)⟩
      rw [chars, List.tail_cons] at member
      rw [← named_continues (named d (List.mem_cons_of_mem c member))]
      exact all d member
    obtain ⟨front, d, back, split, none, each⟩ := Js.split_at_first some
    exact Js.word_stuck begins split each none
      (Js.name_sticks (named d (by simp [split])) none) rest

/-- The name of a value is cut as one word if it is an identifier, and cannot be cut otherwise. -/
theorem identifier_cuts {name : String} (lexical : Lexical name) :
    Js.Cuts Js.Closing (Js.identifier name) (Js.IsIdentifier (Js.identifier name))
      [.word (Js.identifier name)] :=
  ⟨fun legal => (legal_identifier_word lexical legal).cuts.whole trivial,
    fun illegal rest _ => illegal_identifier_stuck lexical illegal rest⟩

theorem identifier_word {name : String} (lexical : Lexical name) :
    Word (Js.IsIdentifier (Js.identifier name)) (Js.identifier name) := by
  refine ⟨identifier_cuts lexical, ?_,
    fun word => Js.identifier_not_reserved name (Js.strict_reserved word)⟩
  obtain ⟨c, tail, chars, start | rfl⟩ := identifier_starts lexical
  · exact ⟨c, tail, chars, Js.visible_if (by decide +kernel) start,
      Js.unlisted (by decide +kernel) start, Js.no_figure (by decide) start⟩
  · exact ⟨'$', tail, chars, by decide⟩

theorem property_word {name : String} (lexical : Lexical name)
    (property : Js.isProperty name = true) : Word True name := by
  obtain ⟨c, tail, chars, starts, each⟩ := Piece.LexicalChars.split lexical
  simp only [Js.isProperty, Js.isPlainName, Bool.and_eq_true, decide_eq_true_eq] at property
  obtain ⟨⟨-, plain⟩, free⟩ := property
  have feed : name.toList.getLast? ≠ some '\n' := by
    intro last
    have continues := lexical.2 '\n' (List.mem_of_getLast? last)
    exact absurd continues (by decide)
  rw [if_neg feed, chars, List.all_cons, Bool.and_eq_true, List.all_eq_true] at plain
  have begins : Js.beginsIdentifier c = true := by
    rcases Bool.or_eq_true_iff.mp plain.1 with start | digit
    · exact Js.plain_begins start
    · rw [Js.no_figure (by decide) starts] at digit
      cases digit
  refine .of_chars chars begins ?_ fun word => free (Js.strict_reserved word)
  rw [List.all_eq_true]
  intro d member
  rw [named_continues (.inl (each d member))]
  rcases Bool.or_eq_true_iff.mp (plain.2 d member) with start | digit
  · exact Js.begins_continues (Js.plain_begins start)
  · exact Js.figure_continues digit

/-! Code -/

def rank (e : Expr) : Nat := if isAtomic e then callLevel else 0

theorem rank_le (e : Expr) : rank e ≤ primaryLevel := by
  unfold rank
  split <;> decide

section Parts

variable {e : Expr} {code : Js.Expr} {legal licit : Prop} {tree : Tree}

theorem shows_operand (shown : Shows (rank e) legal code tree) :
    Shows callLevel legal (asOperand e code) tree := by
  unfold asOperand rank at *
  split
  · rename_i atomic
    rwa [if_pos atomic] at shown
  · rename_i atomic
    rw [if_neg atomic] at shown
    exact (Js.shows_paren shown).looser (by decide)

theorem callable_atomic (callable : isCallable e = true) : isAtomic e = true := by
  cases e <;> first | rfl | cases callable

theorem shows_callee (shown : Shows (rank e) legal code tree) :
    Shows callLevel legal (asCallee e code) tree := by
  unfold asCallee
  split
  · rename_i callable
    rwa [rank, if_pos (callable_atomic callable)] at shown
  · exact (Js.shows_paren (shown.looser (Nat.zero_le _))).looser (by decide)

theorem shows_perform (shown : Shows (rank e) legal code tree) :
    Shows callLevel legal (perform e code) (.call tree []) :=
  (Js.shows_call (shows_callee shown) Js.list_none).iff (and_iff_left trivial)

theorem shows_giving {param : String} (word : Word licit param) (shown : Shows 0 legal code tree) :
    Shows 0 (licit ∧ legal) (giving param code) (givingTree param tree) :=
  (Js.shows_function (fun _ => licit) (List.forall_mem_singleton.mpr word)
    (Js.body_give shown Js.body_none)).iff (by simp)

theorem shows_curried {params : List String} (lexical : ∀ param ∈ params, Lexical param)
    (shown : Shows 0 legal code tree) :
    Shows 0 ((∀ param ∈ params, Js.IsIdentifier (Js.identifier param)) ∧ legal)
      (curried params code)
      (params.foldr (fun param inner => givingTree (Js.identifier param) inner) tree) := by
  induction params with
  | nil => exact shown.iff (by simp)
  | cons param rest ih =>
    rw [List.forall_mem_cons] at lexical
    exact (shows_giving (identifier_word lexical.1) (ih lexical.2)).iff (by simp [and_assoc])

end Parts

theorem literal_shows {place : Position} {value : Literal} (digital : Digital value)
    (module : String) :
    Shows (rank (.literal place value)) ((Expr.literal place value).Legal module) (literal value)
      (literalTree value) := by
  cases value with
  | integer n =>
    cases n with
    | ofNat n => exact (Js.shows_natural n).looser (rank_le _)
    | negSucc n =>
      have low : rank (.literal place (.integer (.negSucc n))) = 0 := if_neg (by simp [isAtomic])
      rw [low]
      exact (Js.shows_negative n).looser (Nat.zero_le _)
  | number text =>
    obtain ⟨whole, fraction, pointed⟩ := digital
    exact (Js.shows_pointed pointed).looser (rank_le _)
  | string value => exact (Js.shows_string value).looser (rank_le _)
  | bool value => exact (Js.shows_bool value).looser (rank_le _)

theorem var_shows (setting : Setting) {place : Position} {name : String} {qualifier : Option String}
    (lexical : Lexical name) (resolved : Option String) :
    Shows callLevel ((Expr.var place name qualifier resolved).Legal setting.module)
      (var setting name resolved) (varTree setting name resolved) := by
  have own : Shows callLevel (Js.IsIdentifier (Js.identifier name)) (.name (Js.identifier name))
      (.name (Js.identifier name)) :=
    (Js.shows_name (identifier_word lexical)).looser (by decide)
  unfold Expr.Legal
  cases resolved with
  | none => simpa [var, varTree] using own
  | some module =>
    have chars : Js.container.toList = ['_', 'p', 's'] := by decide
    have container : Word True Js.container :=
      .of_chars chars (by decide +kernel) (by decide +kernel) (by decide)
    have object : Shows callLevel True (.name Js.container) (.name Js.container) :=
      (Js.shows_name container).looser (by decide)
    unfold var varTree Js.select Js.moduleObject
    dsimp only
    split
    · rename_i same
      simpa [same] using own
    · rename_i other
      have free : (some module = none ∨ some module = some setting.module →
          Js.IsIdentifier (Js.identifier name)) ↔ True := by simp [other]
      rw [free]
      split
      · rename_i property
        exact Js.shows_property object module (property_word lexical property)
      · exact Js.shows_entry (Js.shows_entry object module) name

theorem operator_below (op : Operator) : op.toJs.level + 1 ≤ callLevel := by
  cases op <;> decide

theorem bind_word : Word True bindName := by
  have chars : bindName.toList = '$' :: ['b', 'i', 'n', 'd'] := by decide
  exact .of_chars chars (by decide +kernel) (by decide +kernel) (by decide)

theorem unused_word : Word True unusedName := by
  have chars : unusedName.toList = '$' :: ['u', 'n', 'u', 's', 'e', 'd'] := by decide
  exact .of_chars chars (by decide +kernel) (by decide +kernel) (by decide)

section Trees

variable {setting : Setting}

mutual

theorem expr_shows {e : Expr} (formed : e.Formed) (each : e.EachLiteral Digital) :
    Shows (rank e) (e.Legal setting.module) (expr setting e) (exprTree setting e) := by
  cases e with
  | literal place value => exact literal_shows each setting.module
  | array place items =>
    exact (Js.shows_array (list_shows formed each)).looser (rank_le _)
  | var place name qualifier resolved => exact var_shows setting formed resolved
  | app place function argument =>
    have last := (expr_shows formed.2 each.2).looser (Nat.zero_le _)
    exact Js.shows_call (shows_callee (expr_shows formed.1 each.1)) (Js.list_last last)
  | lambda place params body =>
    exact shows_curried formed.2.1 ((expr_shows formed.2.2 each).looser (Nat.zero_le _))
  | cond place condition yes no =>
    exact Js.shows_cond ((shows_operand (expr_shows formed.1 each.1)).looser (by decide))
      ((shows_operand (expr_shows formed.2.1 each.2.1)).looser (by decide))
      ((shows_operand (expr_shows formed.2.2 each.2.2)).looser (by decide))
  | binary place op left right =>
    have below := operator_below op
    have whole := Js.shows_binary
      ((shows_operand (expr_shows formed.1 each.1)).looser (by omega))
      ((shows_operand (expr_shows formed.2 each.2)).looser below)
    exact whole.looser (Nat.zero_le _)
  | negate place operand =>
    have inner : operand.Formed := formed
    exact (Js.shows_negate (shows_operand (expr_shows inner each))).looser (Nat.zero_le _)
  | block place statements =>
    show Shows 0 _ _ _
    unfold expr exprTree
    split
    · exact (Js.shows_function (fun _ => True) (fun _ none => absurd none List.not_mem_nil)
        (direct_shows formed.2 formed.1 each)).iff (by simp [Expr.Legal])
    · exact chained_shows formed.2 formed.1 each

theorem list_shows {items : List Expr} (formed : Expr.ListFormed items)
    (each : Expr.ListEachLiteral Digital items) :
    ListShows (Expr.ListLegal setting.module items) (list setting items)
      (listTrees setting items) := by
  cases items with
  | nil => exact Js.list_none
  | cons e rest =>
    exact Js.list_next ((expr_shows formed.1 each.1).looser (Nat.zero_le _))
      (list_shows formed.2 each.2)

theorem direct_shows {statements : List Statement}
    (runs : statements.getLast?.any Statement.isRun = true)
    (formed : Expr.StatementsFormed statements)
    (each : Expr.StatementsEachLiteral Digital statements) :
    BodyShows (Expr.StatementsLegal setting.module statements) (direct setting statements)
      (directTrees setting statements) := by
  match statements, runs, formed, each with
  | [.run ..], _, formed, each =>
    have given := shows_perform (expr_shows formed.1 each.1)
    exact Js.body_give (given.looser (Nat.zero_le _)) Js.body_none
  | .bind .. :: next :: rest, runs, formed, each =>
    have ran := shows_perform (expr_shows formed.2.1 each.1)
    exact Js.body_var (identifier_word formed.1) (ran.looser (Nat.zero_le _))
      (direct_shows (by simpa using runs) formed.2.2 each.2)
  | .define .. :: next :: rest, runs, formed, each =>
    have value := expr_shows formed.2.1 each.1
    exact Js.body_var (identifier_word formed.1) (value.looser (Nat.zero_le _))
      (direct_shows (by simpa using runs) formed.2.2 each.2)
  | .run .. :: next :: rest, runs, formed, each =>
    exact Js.body_run (shows_perform (expr_shows formed.1 each.1))
      (direct_shows (by simpa using runs) formed.2 each.2)

theorem chained_shows {statements : List Statement}
    (runs : statements.getLast?.any Statement.isRun = true)
    (formed : Expr.StatementsFormed statements)
    (each : Expr.StatementsEachLiteral Digital statements) :
    Shows 0 (Expr.StatementsLegal setting.module statements) (chained setting statements)
      (chainedTree setting statements) := by
  have binds : Shows callLevel True (.name bindName) (.name bindName) :=
    (Js.shows_name bind_word).looser (by decide)
  match statements, runs, formed, each with
  | [.run ..], _, formed, each =>
    exact ((expr_shows formed.1 each.1).looser (Nat.zero_le _)).iff (and_iff_left trivial).symm
  | .define .. :: next :: rest, runs, formed, each =>
    have value := (expr_shows formed.2.1 each.1).looser (Nat.zero_le _)
    have later := chained_shows (by simpa using runs) formed.2.2 each.2
    have handed := Js.shows_paren (shows_giving (identifier_word formed.1) later)
    have whole := Js.shows_call (handed.looser (by decide)) (Js.list_last value)
    exact (whole.looser (Nat.zero_le _)).iff
      ⟨fun ⟨⟨named, others⟩, here⟩ => ⟨named, here, others⟩,
        fun ⟨named, here, others⟩ => ⟨⟨named, others⟩, here⟩⟩
  | .bind .. :: next :: rest, runs, formed, each =>
    have action := (expr_shows formed.2.1 each.1).looser (Nat.zero_le _)
    have later := chained_shows (by simpa using runs) formed.2.2 each.2
    have whole := Js.shows_call (Js.shows_call binds (Js.list_last action))
      (Js.list_last (shows_giving (identifier_word formed.1) later))
    exact (whole.looser (Nat.zero_le _)).iff
      ⟨fun ⟨⟨_, here⟩, named, others⟩ => ⟨named, here, others⟩,
        fun ⟨named, here, others⟩ => ⟨⟨trivial, here⟩, named, others⟩⟩
  | .run .. :: next :: rest, runs, formed, each =>
    have action := (expr_shows formed.1 each.1).looser (Nat.zero_le _)
    have later := chained_shows (by simpa using runs) formed.2 each.2
    have whole := Js.shows_call (Js.shows_call binds (Js.list_last action))
      (Js.list_last (shows_giving unused_word later))
    exact (whole.looser (Nat.zero_le _)).iff
      ⟨fun ⟨⟨_, here⟩, _, others⟩ => ⟨here, others⟩,
        fun ⟨here, others⟩ => ⟨⟨trivial, here⟩, trivial, others⟩⟩

end

end Trees

end Emit

end PureJs
