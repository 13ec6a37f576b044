import PureJs.Proofs.Syntax.Surroundings

/-!
An expression is read inside its surroundings as it is alone, with other places. Every part of the
parser stops where the tokens end, because a module header stops it as the end of the input does.
-/

namespace PureJs

namespace Expr

mutual

def relocate (f : Position → Position) : Expr → Expr
  | literal place value => literal (f place) value
  | array place items => array (f place) (relocateList f items)
  | var place name qualifier resolved => var (f place) name qualifier resolved
  | app place function argument => app (f place) (relocate f function) (relocate f argument)
  | lambda place params body => lambda (f place) params (relocate f body)
  | cond place condition yes no =>
    cond (f place) (relocate f condition) (relocate f yes) (relocate f no)
  | binary place op left right => binary (f place) op (relocate f left) (relocate f right)
  | negate place operand => negate (f place) (relocate f operand)
  | block place statements => block (f place) (relocateStatements f statements)

def relocateList (f : Position → Position) : List Expr → List Expr
  | [] => []
  | e :: rest => relocate f e :: relocateList f rest

def relocateStatements (f : Position → Position) : List Statement → List Statement
  | [] => []
  | .bind place name e :: rest => .bind (f place) name (relocate f e) :: relocateStatements f rest
  | .define place name e :: rest =>
    .define (f place) name (relocate f e) :: relocateStatements f rest
  | .run place e :: rest => .run (f place) (relocate f e) :: relocateStatements f rest

end

end Expr

namespace Expr

mutual

theorem relocate_relocate (f g : Position → Position) (e : Expr) :
    (e.relocate f).relocate g = e.relocate (g ∘ f) := by
  cases e with
  | literal place value => rfl
  | var place name qualifier resolved => rfl
  | array place items => simp only [relocate, relocate_list_again, Function.comp]
  | app place function argument => simp only [relocate, relocate_relocate, Function.comp]
  | lambda place params body => simp only [relocate, relocate_relocate, Function.comp]
  | cond place condition yes no => simp only [relocate, relocate_relocate, Function.comp]
  | binary place op left right => simp only [relocate, relocate_relocate, Function.comp]
  | negate place operand => simp only [relocate, relocate_relocate, Function.comp]
  | block place statements => simp only [relocate, relocate_statements_again, Function.comp]

theorem relocate_list_again (f g : Position → Position) (items : List Expr) :
    relocateList g (relocateList f items) = relocateList (g ∘ f) items := by
  cases items with
  | nil => rfl
  | cons e rest => simp only [relocateList, relocate_relocate, relocate_list_again]

theorem relocate_statements_again (f g : Position → Position) (statements : List Statement) :
    relocateStatements g (relocateStatements f statements) =
      relocateStatements (g ∘ f) statements := by
  cases statements with
  | nil => rfl
  | cons s rest =>
    cases s <;>
      simp only [relocateStatements, relocate_relocate, relocate_statements_again, Function.comp]

end

mutual

theorem relocate_id (e : Expr) : e.relocate id = e := by
  cases e with
  | literal place value => rfl
  | var place name qualifier resolved => rfl
  | array place items => simp only [relocate, relocate_list_id, id]
  | app place function argument => simp only [relocate, relocate_id, id]
  | lambda place params body => simp only [relocate, relocate_id, id]
  | cond place condition yes no => simp only [relocate, relocate_id, id]
  | binary place op left right => simp only [relocate, relocate_id, id]
  | negate place operand => simp only [relocate, relocate_id, id]
  | block place statements => simp only [relocate, relocate_statements_id, id]

theorem relocate_list_id (items : List Expr) : relocateList id items = items := by
  cases items with
  | nil => rfl
  | cons e rest => simp only [relocateList, relocate_id, relocate_list_id]

theorem relocate_statements_id (statements : List Statement) :
    relocateStatements id statements = statements := by
  cases statements with
  | nil => rfl
  | cons s rest =>
    cases s <;> simp only [relocateStatements, relocate_id, relocate_statements_id, id]

end

end Expr

def Statement.relocate (f : Position → Position) : Statement → Statement
  | .bind place name e => .bind (f place) name (e.relocate f)
  | .define place name e => .define (f place) name (e.relocate f)
  | .run place e => .run (f place) (e.relocate f)

namespace Expr

open Cursor

variable {f : Position → Position}

theorem relocate_list (items : List Expr) : relocateList f items = items.map (relocate f) := by
  induction items with
  | nil => rfl
  | cons e rest ih => rw [relocateList, ih, List.map_cons]

theorem relocate_statements (statements : List Statement) :
    relocateStatements f statements = statements.map (Statement.relocate f) := by
  induction statements with
  | nil => rfl
  | cons s rest ih => cases s <;> rw [relocateStatements, ih, List.map_cons] <;> rfl

theorem relocate_place (e : Expr) : (e.relocate f).place = f e.place := by
  cases e <;> rfl

end Expr

def Surroundings.lower (around : Surroundings) : Expr → Expr :=
  Expr.relocate (.below around.lines)

namespace Expr

open Cursor

structure AllCarry (around : Surroundings) (fuel more : Nat) : Prop where
  parse : ∀ c, c.Proper →
    Carries around c around.lower (parse fuel c) (parse more (c.inside around))
  binary : ∀ least c, c.Proper →
    Carries around c around.lower (parseBinary fuel least c)
      (parseBinary more least (c.inside around))
  chain : ∀ least left c, c.Proper → c.fresh = false →
    Carries around c around.lower (parseChain fuel least left c)
      (parseChain more least (around.lower left) (c.inside around))
  unary : ∀ c, c.Proper →
    Carries around c around.lower (parseUnary fuel c) (parseUnary more (c.inside around))
  app : ∀ c, c.Proper →
    Carries around c around.lower (parseApp fuel c) (parseApp more (c.inside around))
  arguments : ∀ function c, c.Proper → c.fresh = false →
    Carries around c around.lower (parseArguments fuel function c)
      (parseArguments more (around.lower function) (c.inside around))
  atom : ∀ c, c.Proper →
    Carries around c around.lower (parseAtom fuel c) (parseAtom more (c.inside around))
  items : ∀ c, c.Proper →
    Carries around c (List.map around.lower) (parseItems fuel c) (parseItems more (c.inside around))
  lambda : ∀ c, c.Proper → c.kind = .mark .backslash →
    Carries around c around.lower (parseLambda fuel c) (parseLambda more (c.inside around))
  cond : ∀ c, c.Proper → c.kind = .keyword .ifWord →
    Carries around c around.lower (parseCond fuel c) (parseCond more (c.inside around))
  block : ∀ c, c.Proper → c.kind = .keyword .doWord →
    Carries around c around.lower (parseBlock fuel c) (parseBlock more (c.inside around))
  statements : ∀ c, c.Proper → ∀ statements after,
    parseStatements fuel c.margin c = .ok (statements, after) →
      (after.tokens = [] → 1 < c.margin) → c.Open ∧
        parseStatements more c.margin (c.inside around) =
          .ok (statements.map (.relocate (.below around.lines)), after.inside around)
  statement : ∀ c, c.Proper → Carries around c (.relocate (.below around.lines))
    (parseStatement fuel c) (parseStatement more (c.inside around))

theorem parse_end {c : Cursor} (none : c.tokens = []) (fuel : Nat) :
    ∃ fault, parse fuel c = .error fault := by
  cases fuel with
  | zero => exact ⟨_, rfl⟩
  | succ fuel =>
    unfold parse
    rw [if_pos (by simp [atBoundary, atEnd, none])]
    exact ⟨_, rfl⟩

section Step

variable {around : Surroundings} (sound : around.Sound) {fuel more : Nat}
  (ih : AllCarry around fuel more) {c : Cursor} (proper : c.Proper)
include sound ih proper

theorem parse_carries :
    Carries around c around.lower (parse (fuel + 1) c) (parse (more + 1) (c.inside around)) := by
  unfold parse
  by_cases goes : c.atBoundary = true
  · rw [if_pos goes]
    exact Carries.error _
  · have some := some_of_going goes
    have same := inside_boundary sound (open_of_some some) (fun none => absurd none some)
    rw [if_neg goes, same, if_neg goes, inside_kind some]
    split
    · rename_i kind
      exact ih.lambda c proper kind
    · rename_i kind
      exact ih.cond c proper kind
    · rename_i kind
      exact ih.block c proper kind
    · exact ih.binary 0 c proper

omit sound in
theorem binary_carries (least : Nat) : Carries around c around.lower
    (parseBinary (fuel + 1) least c) (parseBinary (more + 1) least (c.inside around)) := by
  unfold parseBinary
  apply Carries.bind ((all_lay fuel).unary c proper.ready) (ih.unary c proper)
  intro left after front takes _
  exact ih.chain least left after (takes.proper proper) takes.stale

theorem chain_carries (least : Nat) (left : Expr) (stale : c.fresh = false) :
    Carries around c around.lower (parseChain (fuel + 1) least left c)
      (parseChain (more + 1) least (around.lower left) (c.inside around)) := by
  unfold parseChain
  apply Carries.unless_boundary sound stale
  intro some goes
  rw [inside_operator sound proper.ready]
  split
  · exact Carries.ok left
  · rename_i op known
    split
    · exact Carries.ok left
    · have takes := takes_next proper.ready (by rw [Cursor.kind, operator_mark known]; simp)
      have going := takes.proper proper
      have later : ∀ right after front, c.advance.Takes front after →
          Carries around after around.lower
            (parseChain fuel least (.binary c.peek.place op left right) after)
            (parseChain more least (around.lower (.binary c.peek.place op left right))
              (after.inside around)) :=
        fun right after front further =>
          ih.chain least _ after (further.proper going) further.stale
      apply Carries.after_taking takes
      dsimp only
      rw [inside_advance some, inside_peek some, inside_starts_block sound going.ready]
      split
      · apply Carries.bind ((all_lay fuel).parse _ going.ready) (ih.parse _ going)
        exact fun right after front further _ => later right after front further
      · apply Carries.bind ((all_lay fuel).binary _ _ going.ready) (ih.binary _ _ going)
        exact fun right after front further _ => later right after front further

theorem unary_carries : Carries around c around.lower (parseUnary (fuel + 1) c)
    (parseUnary (more + 1) (c.inside around)) := by
  unfold parseUnary
  by_cases minus : c.kind = .mark .minus
  · have some := some_of_kind proper.ready minus (by simp)
    have takes := takes_next proper.ready (by simp [minus])
    rw [inside_kind some, if_pos minus, if_pos minus, inside_advance some, inside_peek some]
    apply Carries.after_taking takes
    apply Carries.bind ((all_lay fuel).unary _ (takes.ready proper.ready))
      (ih.unary _ (takes.proper proper))
    intro operand after front _ _
    exact Carries.ok (Expr.negate c.peek.place operand)
  · have same : (c.inside around).kind = .mark .minus ↔ c.kind = .mark .minus :=
      inside_kind_iff sound proper.ready (by simp) (by simp)
    rw [if_neg minus, if_neg (mt same.mp minus)]
    exact ih.app c proper

omit sound in
theorem app_carries : Carries around c around.lower (parseApp (fuel + 1) c)
    (parseApp (more + 1) (c.inside around)) := by
  unfold parseApp
  apply Carries.bind ((all_lay fuel).atom c proper.ready) (ih.atom c proper)
  intro function after front takes _
  exact ih.arguments function after (takes.proper proper) takes.stale

theorem arguments_carry (function : Expr) (stale : c.fresh = false) :
    Carries around c around.lower (parseArguments (fuel + 1) function c)
      (parseArguments (more + 1) (around.lower function) (c.inside around)) := by
  have later : ∀ argument after front, c.Takes front after → Carries around after around.lower
      (parseArguments fuel (.app function.place function argument) after)
      (parseArguments more (.app (around.lower function).place (around.lower function)
        (around.lower argument)) (after.inside around)) := by
    intro argument after front takes
    rw [Surroundings.lower, relocate_place]
    exact ih.arguments (.app function.place function argument) after (takes.proper proper)
      takes.stale
  unfold parseArguments
  apply Carries.unless_boundary sound stale
  intro some goes
  rw [inside_starts_atom sound proper.ready, inside_starts_block sound proper.ready]
  split
  · apply Carries.bind ((all_lay fuel).atom c proper.ready) (ih.atom c proper)
    exact fun argument after front takes _ => later argument after front takes
  · split
    · apply Carries.bind ((all_lay fuel).parse c proper.ready) (ih.parse c proper)
      exact fun argument after front takes _ => later argument after front takes
    · exact Carries.ok function

theorem items_carry : Carries around c (List.map around.lower) (parseItems (fuel + 1) c)
    (parseItems (more + 1) (c.inside around)) := by
  unfold parseItems
  apply Carries.bind ((all_lay fuel).parse c proper.ready) (ih.parse c proper)
  intro item after front takes _
  have going := takes.proper proper
  dsimp only
  have comma : (after.inside around).kind = .mark .comma ↔ after.kind = .mark .comma :=
    inside_kind_iff sound going.ready (by simp) (by simp)
  by_cases here : after.kind = .mark .comma
  · have some := some_of_kind going.ready here (by simp)
    have one := takes_next going.ready (by simp [here])
    rw [if_pos here, if_pos (comma.mpr here), inside_advance some]
    apply Carries.after_taking one
    apply Carries.bind ((all_lay fuel).items _ (one.ready going.ready))
      (ih.items _ (one.proper going))
    intro others last back _ _
    exact Carries.ok (item :: others)
  · rw [if_neg here, if_neg (mt comma.mp here)]
    exact Carries.ok [item]

theorem atom_carries : Carries around c around.lower (parseAtom (fuel + 1) c)
    (parseAtom (more + 1) (c.inside around)) := by
  by_cases none : c.tokens = []
  · have last : c.peek.kind = .endOfInput := by simp [peek, none, proper.ready.finish]
    unfold parseAtom
    simp only [last]
    exact Carries.error _
  · have one : ∀ e : Expr, c.kind ≠ .endOfInput →
        Carries around c around.lower (.ok (e, c.advance))
          (.ok (around.lower e, (c.inside around).advance)) := by
      intro e inside
      rw [inside_advance none]
      exact Carries.after_taking (takes_next proper.ready inside) (Carries.ok e)
    have kind : (around.move c.peek).kind = c.peek.kind := rfl
    unfold parseAtom
    dsimp only
    rw [inside_peek none, kind]
    split
    · rename_i kind
      have value : integerValue (around.move c.peek) = integerValue c.peek := rfl
      rw [value]
      cases integerValue c.peek with
      | error fault => exact Carries.error fault
      | ok n => exact one _ (by simp [Cursor.kind, kind])
    · rename_i kind
      exact one _ (by simp [Cursor.kind, kind])
    · rename_i kind
      exact one _ (by simp [Cursor.kind, kind])
    · rename_i kind
      exact one _ (by simp [Cursor.kind, kind])
    · rename_i kind
      exact one _ (by simp [Cursor.kind, kind])
    · rename_i kind
      exact one _ (by simp [Cursor.kind, kind])
    · rename_i kind
      exact one _ (by simp [Cursor.kind, kind])
    · rename_i kind
      have inside : c.kind ≠ .endOfInput := by simp [Cursor.kind, kind]
      have entered := ((takes_next proper.ready inside).proper proper).enter 0
      rw [inside_advance none]
      exact Carries.bracketed id id proper inside (by simp) ((all_lay fuel).parse _ entered.ready)
        (ih.parse _ entered) (fun e => rfl)
    · rename_i kind
      have inside : c.kind ≠ .endOfInput := by simp [Cursor.kind, kind]
      have entered := ((takes_next proper.ready inside).proper proper).enter 0
      have closing : ((c.advance.inside around).enter 0).kind = .mark .rightBracket ↔
          (c.advance.enter 0).kind = .mark .rightBracket :=
        inside_kind_iff sound entered.ready (by simp) (by simp)
      have moves : ∀ items, Expr.array (around.move c.peek).place (items.map around.lower) =
          around.lower (.array c.peek.place items) := by
        intro items
        rw [Surroundings.lower, relocate, relocate_list]
        rfl
      rw [inside_advance none]
      by_cases empty : (c.advance.enter 0).kind = .mark .rightBracket
      · have nothing : Lays (c.advance.enter 0) (fun (_ : List Expr) _ => True)
            (.ok ([], c.advance.enter 0)) := Lays.ok rfl trivial
        rw [if_pos empty, if_pos (closing.mpr empty)]
        exact Carries.bracketed (Expr.array c.peek.place) (Expr.array (around.move c.peek).place)
          proper inside (by simp) nothing (Carries.ok []) moves
      · rw [if_neg empty, if_neg (mt closing.mp empty)]
        exact Carries.bracketed (Expr.array c.peek.place) (Expr.array (around.move c.peek).place)
          proper inside (by simp) ((all_lay fuel).items _ entered.ready) (ih.items _ entered) moves
    · exact Carries.error _

theorem lambda_carries (here : c.kind = .mark .backslash) :
    Carries around c around.lower (parseLambda (fuel + 1) c)
      (parseLambda (more + 1) (c.inside around)) := by
  have some := some_of_kind proper.ready here (by simp)
  have takes := takes_next proper.ready (by simp [here])
  have ready := takes.ready proper.ready
  unfold parseLambda
  rw [inside_advance some, inside_peek some]
  apply Carries.after_taking takes
  apply Carries.bind (Lays.expect ready (by simp)) (Carries.expect ready (by simp))
  intro param mid _ one _
  have proper := one.proper (takes.proper proper)
  obtain ⟨names, _, _, others⟩ := takes_identifiers one.stale
  have ready := others.ready proper.ready
  dsimp only
  rw [inside_identifiers sound]
  apply Carries.after_taking others
  apply Carries.bind (Lays.expect ready (by simp)) (Carries.expect ready (by simp))
  intro arrow last _ link _
  have proper := link.proper (others.proper proper)
  apply Carries.bind ((all_lay fuel).parse last proper.ready) (ih.parse last proper)
  intro body after inner _ _
  exact Carries.ok (Expr.lambda c.peek.place (param.value :: mid.identifiers.1) body)

omit sound in
theorem cond_carries (here : c.kind = .keyword .ifWord) :
    Carries around c around.lower (parseCond (fuel + 1) c)
      (parseCond (more + 1) (c.inside around)) := by
  have some := some_of_kind proper.ready here (by simp)
  have takes := takes_next proper.ready (by simp [here])
  have proper := takes.proper proper
  unfold parseCond
  rw [inside_advance some, inside_peek some]
  apply Carries.after_taking takes
  apply Carries.bind ((all_lay fuel).parse _ proper.ready) (ih.parse _ proper)
  intro condition mid first test _
  have proper := test.proper proper
  apply Carries.bind (Lays.expect proper.ready (by simp)) (Carries.expect proper.ready (by simp))
  intro thenWord mid _ one _
  have proper := one.proper proper
  apply Carries.bind ((all_lay fuel).parse _ proper.ready) (ih.parse _ proper)
  intro yes mid second left _
  have proper := left.proper proper
  apply Carries.bind (Lays.expect proper.ready (by simp)) (Carries.expect proper.ready (by simp))
  intro elseWord mid _ two _
  have proper := two.proper proper
  apply Carries.bind ((all_lay fuel).parse _ proper.ready) (ih.parse _ proper)
  intro no after third _ _
  exact Carries.ok (Expr.cond c.peek.place condition yes no)

theorem block_carries (here : c.kind = .keyword .doWord) :
    Carries around c around.lower (parseBlock (fuel + 1) c)
      (parseBlock (more + 1) (c.inside around)) := by
  have some := some_of_kind proper.ready here (by simp)
  have takes := takes_next proper.ready (by simp [here])
  have proper := takes.proper proper
  unfold parseBlock
  rw [inside_advance some, inside_peek some]
  apply Carries.after_taking takes
  by_cases goes : c.advance.atBoundary = true
  · simp only [goes, if_true]
    exact Carries.error _
  · have going := some_of_going goes
    have same := inside_boundary sound (open_of_some going) fun none => absurd none going
    have column : (c.advance.inside around).peek.column = c.advance.peek.column := by
      rw [inside_peek going]
      rfl
    dsimp only
    rw [same, if_neg goes, if_neg goes, column]
    intro value last result opens
    cases read : parseStatements fuel c.advance.peek.column
        (c.advance.enter c.advance.peek.column) with
    | error fault =>
      simp only [bind, Except.bind, read] at result
      cases result
    | ok pair =>
      obtain ⟨statements, after⟩ := pair
      have entered := proper.enter c.advance.peek.column
      obtain ⟨taken, within, _⟩ := (all_lay fuel).statements _ _ entered.ready rfl rfl _ _ read
      have deeper : 1 ≤ c.advance.margin → 1 < c.advance.peek.column := by
        intro margin
        cases opened : c.advance.peek.opensLine with
        | true =>
          simp only [atBoundary, breaksLayout, takes.stale, opened, Bool.not_false, Bool.true_and,
            Bool.or_eq_true, decide_eq_true_eq, not_or, Nat.not_le] at goes
          exact Nat.lt_of_le_of_lt margin goes.2
        | false =>
          apply proper.placed c.advance.peek _ opened
          obtain ⟨token, rest, tokens⟩ := List.exists_cons_of_ne_nil going
          simp [peek, tokens]
      have right : last.tokens = after.tokens → last.margin = c.advance.margin →
          after.tokens = [] → 1 < c.advance.peek.column := by
        intro tokens margin none
        exact deeper (margin ▸ opens (tokens.trans none))
      simp only [bind, Except.bind, read] at result
      split at result
      · rename_i place action ends
        cases result
        obtain ⟨_, carried⟩ := ih.statements _ entered statements after read
          (right rfl within.leave.margin)
        have carried : parseStatements more c.advance.peek.column
            ((c.advance.inside around).enter c.advance.peek.column) =
              .ok (statements.map (.relocate (.below around.lines)), after.inside around) := carried
        have last : (statements.map (Statement.relocate (.below around.lines))).getLast? =
            .some (.run (place.below around.lines) (action.relocate (.below around.lines))) := by
          rw [List.getLast?_map, ends]
          rfl
        refine ⟨open_of_some going, ?_⟩
        simp only [bind, Except.bind, carried, last]
        rw [Surroundings.lower, relocate, relocate_statements]
        rfl
      · cases result
      · cases result

theorem statements_carry {statements : List Statement} {after : Cursor}
    (read : parseStatements (fuel + 1) c.margin c = .ok (statements, after))
    (right : after.tokens = [] → 1 < c.margin) :
    c.Open ∧ parseStatements (more + 1) c.margin (c.inside around) =
      .ok (statements.map (.relocate (.below around.lines)), after.inside around) := by
  unfold parseStatements at read ⊢
  cases first : parseStatement fuel c with
  | error fault =>
    simp only [bind, Except.bind, first] at read
    cases read
  | ok pair =>
    obtain ⟨s, mid⟩ := pair
    obtain ⟨front, takes, _⟩ := (all_lay fuel).statement c proper.ready s mid first
    have carried := ih.statement c proper s mid first
    have going := takes.proper proper
    simp only [bind, Except.bind, first] at read
    split at read
    · rename_i next
      have some : mid.tokens ≠ [] := by
        intro none
        simp [atEnd, none] at next
      obtain ⟨opens, found⟩ := carried (open_of_some some)
      cases rest : parseStatements fuel c.margin mid with
      | error fault =>
        simp only [rest] at read
        cases read
      | ok pair =>
        obtain ⟨others, last⟩ := pair
        simp only [rest] at read
        cases read
        have further := ih.statements mid going others after
        rw [takes.margin] at further
        simp only [bind, Except.bind, found, if_pos next, (further rest right).2,
          inside_begins sound fun none => absurd none some]
        exact ⟨opens, rfl⟩
    · rename_i ends
      cases read
      obtain ⟨opens, found⟩ := carried fun none => Nat.le_of_lt (takes.margin ▸ right none)
      simp only [bind, Except.bind, found, inside_begins sound right, if_neg ends]
      exact ⟨opens, rfl⟩

theorem fresh_statement_carries (fresh : c.fresh = true) :
    Carries around c (.relocate (.below around.lines)) (parseStatement (fuel + 1) c)
      (parseStatement (more + 1) (c.inside around)) := by
  have same : ({ c with fresh := true } : Cursor) = c := by rw [← fresh]
  have inner : ({ c.inside around with fresh := true } : Cursor) = c.inside around :=
    congrArg (Cursor.inside around) same
  have word : (c.inside around).kind = .keyword .letWord ↔ c.kind = .keyword .letWord :=
    inside_kind_iff sound proper.ready (by simp) (by simp)
  have name : (c.inside around).kind = .identifier ↔ c.kind = .identifier :=
    inside_kind_iff sound proper.ready (by simp) (by simp)
  unfold parseStatement
  dsimp only
  rw [same, inner]
  by_cases here : c.kind = .keyword .letWord
  · have some := some_of_kind proper.ready here (by simp)
    have takes := takes_next proper.ready (by simp [here])
    have ready := takes.ready proper.ready
    rw [if_pos here, if_pos (word.mpr here), inside_advance some, inside_peek some]
    apply Carries.after_taking takes
    apply Carries.bind (Lays.expect ready (by simp)) (Carries.expect ready (by simp))
    intro name mid _ one _
    have proper := one.proper (takes.proper proper)
    obtain ⟨params, _, _, others⟩ := takes_identifiers one.stale
    have ready := others.ready proper.ready
    dsimp only
    rw [inside_identifiers sound]
    apply Carries.after_taking others
    apply Carries.bind (Lays.expect ready (by simp)) (Carries.expect ready (by simp))
    intro assign last _ link _
    have proper := link.proper (others.proper proper)
    apply Carries.bind ((all_lay fuel).parse last proper.ready) (ih.parse last proper)
    intro value after inner _ _
    have moved : (if mid.identifiers.1.isEmpty then around.lower value
        else .lambda (around.move c.peek).place mid.identifiers.1 (around.lower value)) =
          around.lower (if mid.identifiers.1.isEmpty then value
            else .lambda c.peek.place mid.identifiers.1 value) := by
      split <;> rfl
    rw [moved]
    exact Carries.ok (Statement.define c.peek.place name.value _)
  · rw [if_neg here, if_neg (mt word.mp here)]
    by_cases bound : c.kind = .identifier ∧ c.secondKind = .mark .leftArrow
    · have some := some_of_kind proper.ready bound.1 (by simp)
      have takes := takes_next proper.ready (by simp [bound.1])
      have next : c.advance.kind = .mark .leftArrow := bound.2
      have further := some_of_kind (takes.ready proper.ready) next (by simp)
      have both := takes.trans (takes_next (takes.ready proper.ready) (by simp [next]))
      have second : (c.inside around).secondKind = .mark .leftArrow ↔
          c.secondKind = .mark .leftArrow :=
        inside_second_iff sound proper.ready some (by simp) (by simp)
      rw [if_pos bound, if_pos ⟨name.mpr bound.1, second.mpr bound.2⟩, inside_advance some,
        inside_advance further, inside_peek some]
      apply Carries.after_taking both
      have proper := both.proper proper
      apply Carries.bind ((all_lay fuel).parse _ proper.ready) (ih.parse _ proper)
      intro action after inner _ _
      exact Carries.ok (Statement.bind c.peek.place c.peek.value action)
    · have unbound : ¬((c.inside around).kind = .identifier ∧
          (c.inside around).secondKind = .mark .leftArrow) := by
        rintro ⟨named, arrow⟩
        have some := some_of_kind proper.ready (name.mp named) (by simp)
        exact bound ⟨name.mp named,
          (inside_second_iff sound proper.ready some (by simp) (by simp)).mp arrow⟩
      rw [if_neg bound, if_neg unbound]
      by_cases none : c.tokens = []
      · obtain ⟨fault, failed⟩ := parse_end none fuel
        rw [failed]
        exact Carries.error fault
      · rw [inside_peek none]
        apply Carries.bind ((all_lay fuel).parse c proper.ready) (ih.parse c proper)
        intro action after inner _ _
        exact Carries.ok (Statement.run c.peek.place action)

theorem statement_carries : Carries around c (.relocate (.below around.lines))
    (parseStatement (fuel + 1) c) (parseStatement (more + 1) (c.inside around)) := by
  have carried := fresh_statement_carries sound ih proper.renew rfl
  unfold parseStatement at carried ⊢
  exact carried

end Step

theorem all_carry {around : Surroundings} (sound : around.Sound) {fuel more : Nat}
    (le : fuel ≤ more) : AllCarry around fuel more := by
  induction fuel generalizing more with
  | zero =>
    constructor
    case statements =>
      intro c proper statements after read
      cases read
    all_goals
      intros
      exact Carries.error _
  | succ fuel ih =>
    cases more with
    | zero => exact absurd le (Nat.not_succ_le_zero fuel)
    | succ more =>
      have ih := ih (Nat.le_of_succ_le_succ le)
      exact {
        parse := fun _ proper => parse_carries sound ih proper
        binary := fun least _ proper => binary_carries ih proper least
        chain := fun least left _ proper stale => chain_carries sound ih proper least left stale
        unary := fun _ proper => unary_carries sound ih proper
        app := fun _ proper => app_carries ih proper
        arguments := fun function _ proper stale => arguments_carry sound ih proper function stale
        atom := fun _ proper => atom_carries sound ih proper
        items := fun _ proper => items_carry sound ih proper
        lambda := fun _ proper here => lambda_carries sound ih proper here
        cond := fun _ proper here => cond_carries ih proper here
        block := fun _ proper here => block_carries sound ih proper here
        statements := fun _ proper _ _ read right => statements_carry sound ih proper read right
        statement := fun _ proper => statement_carries sound ih proper }

end Expr

end PureJs
