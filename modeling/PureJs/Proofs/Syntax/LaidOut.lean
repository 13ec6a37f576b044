import PureJs.Proofs.Syntax.Taken

/-!
Which tokens an expression is written with. The relations follow the grammar; for a do block they
say that every statement of it keeps to its layout. The parser takes tokens that are related to what
it returns.
-/

namespace PureJs

inductive Expr.Leaf : Expr → Token → Prop
  | integer {token : Token} {n : Int} (kind : token.kind = .integer)
    (value : integerValue token = .ok n) : Leaf (.literal token.place (.integer n)) token
  | number {token : Token} (kind : token.kind = .number) :
    Leaf (.literal token.place (.number token.value)) token
  | string {token : Token} (kind : token.kind = .string) :
    Leaf (.literal token.place (.string token.value)) token
  | yes {token : Token} (kind : token.kind = .keyword .trueWord) :
    Leaf (.literal token.place (.bool true)) token
  | no {token : Token} (kind : token.kind = .keyword .falseWord) :
    Leaf (.literal token.place (.bool false)) token
  | name {token : Token} (kind : token.kind = .identifier) :
    Leaf (.var token.place token.value none none) token
  | qualified {token : Token} (kind : token.kind = .qualified) :
    Leaf (.var token.place (splitQualified token.value).2
      (some (splitQualified token.value).1) none) token

mutual

inductive Expr.LaidOut : Expr → List Token → Prop
  | leaf {e : Expr} {token : Token} (leaf : e.Leaf token) : Expr.LaidOut e [token]
  | paren {e : Expr} {opening closing : Token} {inner : List Token}
    (opens : opening.kind = .mark .leftParen) (closes : closing.kind = .mark .rightParen)
    (laid : Expr.LaidOut e inner) : Expr.LaidOut e (opening :: inner ++ [closing])
  | array {items : List Expr} {opening closing : Token} {inner : List Token}
    (opens : opening.kind = .mark .leftBracket) (closes : closing.kind = .mark .rightBracket)
    (laid : Expr.ItemsLaidOut items inner) :
    Expr.LaidOut (.array opening.place items) (opening :: inner ++ [closing])
  | app {function argument : Expr} {front back : List Token} (first : Expr.LaidOut function front)
    (second : Expr.LaidOut argument back) :
    Expr.LaidOut (.app function.place function argument) (front ++ back)
  | lambda {body : Expr} {mark arrow : Token} {names inner : List Token}
    (opens : mark.kind = .mark .backslash) (some : names ≠ [])
    (params : ∀ name ∈ names, name.kind = .identifier) (points : arrow.kind = .mark .arrow)
    (laid : Expr.LaidOut body inner) :
    Expr.LaidOut (.lambda mark.place (names.map Token.value) body) (mark :: names ++ arrow :: inner)
  | cond {condition yes no : Expr} {ifWord thenWord elseWord : Token}
    {first second third : List Token} (opens : ifWord.kind = .keyword .ifWord)
    (goes : thenWord.kind = .keyword .thenWord) (turns : elseWord.kind = .keyword .elseWord)
    (test : Expr.LaidOut condition first) (left : Expr.LaidOut yes second)
    (right : Expr.LaidOut no third) :
    Expr.LaidOut (.cond ifWord.place condition yes no)
      (ifWord :: first ++ thenWord :: second ++ elseWord :: third)
  | binary {op : Operator} {left right : Expr} {mark : Token} {front back : List Token}
    (sign : mark.kind = .mark op.mark) (first : Expr.LaidOut left front)
    (second : Expr.LaidOut right back) :
    Expr.LaidOut (.binary mark.place op left right) (front ++ mark :: back)
  | negate {operand : Expr} {mark : Token} {inner : List Token} (sign : mark.kind = .mark .minus)
    (laid : Expr.LaidOut operand inner) : Expr.LaidOut (.negate mark.place operand) (mark :: inner)
  | block {statements : List Statement} {word first : Token} {rest : List Token}
    (opens : word.kind = .keyword .doWord)
    (laid : StatementsLaidOut first.column statements (first :: rest)) :
    Expr.LaidOut (.block word.place statements) (word :: first :: rest)

inductive Expr.ItemsLaidOut : List Expr → List Token → Prop
  | nil : Expr.ItemsLaidOut [] []
  | last {e : Expr} {tokens : List Token} (laid : e.LaidOut tokens) : Expr.ItemsLaidOut [e] tokens
  | next {e : Expr} {rest : List Expr} {comma : Token} {tokens others : List Token}
    (laid : e.LaidOut tokens) (separates : comma.kind = .mark .comma)
    (later : Expr.ItemsLaidOut rest others) :
    Expr.ItemsLaidOut (e :: rest) (tokens ++ comma :: others)

inductive Statement.LaidOut : Statement → List Token → Prop
  | bind {action : Expr} {name arrow : Token} {inner : List Token}
    (named : name.kind = .identifier) (from_ : arrow.kind = .mark .leftArrow)
    (laid : action.LaidOut inner) :
    Statement.LaidOut (.bind name.place name.value action) (name :: arrow :: inner)
  | define {value : Expr} {word name assign : Token} {params inner : List Token}
    (opens : word.kind = .keyword .letWord) (named : name.kind = .identifier)
    (each : ∀ param ∈ params, param.kind = .identifier) (is : assign.kind = .mark .assign)
    (laid : value.LaidOut inner) :
    Statement.LaidOut (.define word.place name.value
        (if params = [] then value else .lambda word.place (params.map Token.value) value))
      (word :: name :: params ++ assign :: inner)
  | run {action : Expr} {first : Token} {rest : List Token}
    (laid : action.LaidOut (first :: rest)) :
    Statement.LaidOut (.run first.place action) (first :: rest)

/-- The statements of a do block, each of which begins at the column of the block and keeps to
it. -/
inductive StatementsLaidOut : Nat → List Statement → List Token → Prop
  | last {s : Statement} {first : Token} {rest : List Token} (laid : s.LaidOut (first :: rest))
    (kept : Kept first.column (first :: rest)) :
    StatementsLaidOut first.column [s] (first :: rest)
  | next {s : Statement} {more : List Statement} {first : Token} {rest others : List Token}
    (laid : s.LaidOut (first :: rest)) (kept : Kept first.column (first :: rest))
    (later : StatementsLaidOut first.column more others) :
    StatementsLaidOut first.column (s :: more) (first :: rest ++ others)

end

namespace Expr

open Cursor Token

def Fits (column : Nat) (e : Expr) (tokens : List Token) : Prop :=
  e.LaidOut tokens ∧ Part column tokens

/-- What every part of the expression parser takes at a given bound on the depth. -/
structure AllLay (fuel : Nat) : Prop where
  parse : ∀ c, c.Ready → Lays c
    (fun e taken => Fits c.margin e taken ∧ (c.fresh = false → Starts c.margin taken))
    (parse fuel c)
  binary : ∀ least c, c.Ready → Lays c (Fits c.margin) (parseBinary fuel least c)
  chain : ∀ least left front c, c.Ready → c.fresh = false → Fits c.margin left front →
    Lays c (fun e taken => Fits c.margin e (front ++ taken)) (parseChain fuel least left c)
  unary : ∀ c, c.Ready → Lays c (Fits c.margin) (parseUnary fuel c)
  app : ∀ c, c.Ready → Lays c (Fits c.margin) (parseApp fuel c)
  arguments : ∀ function front c, c.Ready → c.fresh = false → Fits c.margin function front →
    Lays c (fun e taken => Fits c.margin e (front ++ taken)) (parseArguments fuel function c)
  atom : ∀ c, c.Ready → Lays c (Fits c.margin) (parseAtom fuel c)
  items : ∀ c, c.Ready →
    Lays c (fun items taken => ItemsLaidOut items taken ∧ Balanced taken) (parseItems fuel c)
  lambda : ∀ c, c.Ready → c.kind = .mark .backslash → Lays c (Fits c.margin) (parseLambda fuel c)
  cond : ∀ c, c.Ready → c.kind = .keyword .ifWord → Lays c (Fits c.margin) (parseCond fuel c)
  block : ∀ c, c.Ready → c.kind = .keyword .doWord → Lays c (Fits c.margin) (parseBlock fuel c)
  statements : ∀ column c, c.Ready → c.margin = column → c.peek.column = column →
    Lays c (fun statements taken => StatementsLaidOut column statements taken ∧ Balanced taken ∧
      taken ≠ [] ∧ ∀ less, less < column → Kept less taken) (parseStatements fuel column c)
  statement : ∀ c, c.Ready →
    Lays c (fun s taken => s.LaidOut taken ∧ Part c.margin taken) (parseStatement fuel c)

theorem operator_mark {c : Cursor} {op : Operator} (known : c.operator? = some op) :
    c.peek.kind = .mark op.mark := by
  unfold Cursor.operator? at known
  split at known
  · rename_i mark kind
    have same := List.find?_some known
    rw [decide_eq_true_eq] at same
    rw [same]
    exact kind
  · cases known

theorem starts_no_block {c : Cursor} (plain : ¬c.startsBlock = true) :
    c.peek.kind ∉ blockStarts := by
  intro member
  simp only [blockStarts, List.mem_cons, List.not_mem_nil, or_false] at member
  rcases member with other | other | other <;>
    simp [Cursor.startsBlock, Cursor.kind, other] at plain

theorem unary_plain {fuel : Nat} {c : Cursor} {result : Expr × Cursor}
    (read : parseUnary fuel c = .ok result) :
    c.peek.kind ∉ blockStarts := by
  intro member
  have kind : c.kind = c.peek.kind := rfl
  simp only [blockStarts, List.mem_cons, List.not_mem_nil, or_false] at member
  match fuel with
  | 0 | 1 | 2 =>
    rcases member with other | other | other <;>
      simp [parseUnary, parseApp, parseAtom, kind, other, bind, Except.bind] at read
  | fuel + 3 =>
    rcases member with other | other | other <;>
      simp [parseUnary, parseApp, parseAtom, demand, kind, other, bind, Except.bind] at read

theorem identifier_kinds {names : List Token} (each : ∀ name ∈ names, name.kind = .identifier) :
    names.map Token.kind = List.replicate names.length .identifier := by
  rw [List.eq_replicate_iff]
  refine ⟨List.length_map _, ?_⟩
  intro kind member
  obtain ⟨name, inside, same⟩ := List.mem_map.mp member
  exact same ▸ each name inside

section Step

variable {fuel : Nat} (ih : AllLay fuel) {c : Cursor} (ready : c.Ready)
include ih ready

theorem parse_lays : Lays c
    (fun e taken => Fits c.margin e taken ∧ (c.fresh = false → Starts c.margin taken))
    (parse (fuel + 1) c) := by
  unfold parse
  split
  · exact Lays.error _
  · rename_i goes
    have started : ∀ {result}, Lays c (Fits c.margin) result → Lays c
        (fun e taken => Fits c.margin e taken ∧ (c.fresh = false → Starts c.margin taken))
        result := by
      intro result lays value after same
      obtain ⟨taken, takes, fits⟩ := lays value after same
      exact ⟨taken, takes, fits, fun stale => takes.starts stale goes⟩
    apply started
    split
    · rename_i kind
      exact ih.lambda c ready kind
    · rename_i kind
      exact ih.cond c ready kind
    · rename_i kind
      exact ih.block c ready kind
    · exact ih.binary 0 c ready

theorem binary_lays (least : Nat) : Lays c (Fits c.margin) (parseBinary (fuel + 1) least c) := by
  unfold parseBinary
  apply Lays.bind (ih.unary c ready)
  intro left after front takes fits
  rw [← takes.margin] at fits ⊢
  exact ih.chain least left front after (takes.ready ready) takes.stale fits

theorem chain_lays (least : Nat) {left : Expr} {front : List Token} (stale : c.fresh = false)
    (fits : Fits c.margin left front) :
    Lays c (fun e taken => Fits c.margin e (front ++ taken))
      (parseChain (fuel + 1) least left c) := by
  have done : Lays c (fun e taken => Fits c.margin e (front ++ taken)) (.ok (left, c)) :=
    Lays.ok stale (by simpa using fits)
  unfold parseChain
  split
  · exact done
  · rename_i goes
    split
    · exact done
    · rename_i op known
      split
      · exact done
      · have sign := operator_mark known
        have takes := takes_next ready (by rw [Cursor.kind, sign]; simp)
        have going := takes.ready ready
        have starts := takes.starts stale goes
        have more : ∀ right after back, c.advance.Takes back after → right.LaidOut back →
            Part c.margin (c.peek :: back) → Lays after
              (fun e taken => Fits c.margin e (front ++ ([c.peek] ++ (back ++ taken))))
              (parseChain fuel least (.binary c.peek.place op left right) after) := by
          intro right after back further laid part
          have whole : Fits c.margin (.binary c.peek.place op left right)
              (front ++ c.peek :: back) :=
            ⟨.binary sign fits.1 laid, fits.2.append_starts part
              (starts_cons (starts c.peek [] rfl))⟩
          have margin : after.margin = c.margin := further.margin
          rw [← margin] at whole ⊢
          simpa using ih.chain least _ _ after (further.ready going) further.stale whole
        apply Lays.after_taking takes
        dsimp only
        split
        · apply Lays.bind (ih.parse _ going)
          intro right after back further fits
          exact more right after back further fits.1.1
            (Part.signed sign fits.1.2 (.inl (fits.2 rfl)))
        · rename_i plain
          apply Lays.bind (ih.binary _ _ going)
          intro right after back further fits
          refine more right after back further fits.1 (Part.signed sign fits.2 (.inr ?_))
          intro t rest split
          rw [← takes_peek further split]
          exact starts_no_block plain

theorem unary_lays : Lays c (Fits c.margin) (parseUnary (fuel + 1) c) := by
  unfold parseUnary
  split
  · rename_i minus
    have takes := takes_next ready (by simp [minus])
    apply Lays.after_taking takes
    cases read : parseUnary fuel c.advance with
    | error fault => exact Lays.error fault
    | ok pair =>
      obtain ⟨inner, further, fits⟩ := ih.unary _ (takes.ready ready) pair.1 pair.2 read
      intro e last same
      cases same
      refine ⟨inner, further, .negate minus fits.1, ?_⟩
      have sign : c.peek.kind = .mark Operator.sub.mark := minus
      apply Part.signed sign fits.2
      apply Or.inr
      intro t rest split
      rw [← takes_peek further split]
      exact unary_plain read
  · exact ih.app c ready

theorem app_lays : Lays c (Fits c.margin) (parseApp (fuel + 1) c) := by
  unfold parseApp
  apply Lays.bind (ih.atom c ready)
  intro function after front takes fits
  rw [← takes.margin] at fits ⊢
  exact ih.arguments function front after (takes.ready ready) takes.stale fits

theorem arguments_lay {function : Expr} {front : List Token} (stale : c.fresh = false)
    (fits : Fits c.margin function front) :
    Lays c (fun e taken => Fits c.margin e (front ++ taken))
      (parseArguments (fuel + 1) function c) := by
  have done : Lays c (fun e taken => Fits c.margin e (front ++ taken)) (.ok (function, c)) :=
    Lays.ok stale (by simpa using fits)
  unfold parseArguments
  split
  · exact done
  · rename_i goes
    have more : ∀ argument after back, c.Takes back after → Fits c.margin argument back →
        Lays after (fun e taken => Fits c.margin e (front ++ (back ++ taken)))
          (parseArguments fuel (.app function.place function argument) after) := by
      intro argument after back takes fine
      have whole : Fits c.margin (.app function.place function argument) (front ++ back) :=
        ⟨.app fits.1 fine.1, fits.2.append_starts fine.2 (takes.starts stale goes)⟩
      rw [← takes.margin] at whole ⊢
      simpa using ih.arguments _ _ after (takes.ready ready) takes.stale whole
    split
    · exact Lays.bind (ih.atom c ready) more
    · split
      · apply Lays.bind (ih.parse c ready)
        intro argument after back takes fine
        exact more argument after back takes fine.1
      · exact done

theorem items_lay : Lays c (fun items taken => ItemsLaidOut items taken ∧ Balanced taken)
    (parseItems (fuel + 1) c) := by
  unfold parseItems
  apply Lays.bind (ih.parse c ready)
  intro item after front takes fits
  have ready := takes.ready ready
  dsimp only
  split
  · rename_i comma
    have one := takes_next ready (by simp [comma])
    apply Lays.after_taking one
    apply Lays.bind (ih.items _ (one.ready ready))
    intro others last back further laid
    have flat : after.peek.turn = 0 := by
      rw [turn, show after.peek.kind = _ from comma]
      rfl
    refine Lays.ok further.stale ⟨?_, ?_⟩
    · simpa using ItemsLaidOut.next fits.1.1 comma laid.1
    · simpa using fits.1.2.balanced.append (laid.2.cons flat)
  · refine Lays.ok takes.stale ⟨?_, ?_⟩
    · simpa using ItemsLaidOut.last fits.1.1
    · simpa using fits.1.2.balanced

theorem atom_lays : Lays c (Fits c.margin) (parseAtom (fuel + 1) c) := by
  have one : ∀ {e : Expr}, e.Leaf c.peek → c.peek.kind ≠ .endOfInput → c.peek.turn = 0 →
      Lays c (Fits c.margin) (.ok (e, c.advance)) := by
    intro e leaf inside flat other after same
    cases same
    exact ⟨[c.peek], takes_next ready inside, .leaf leaf, .single flat⟩
  unfold parseAtom
  dsimp only
  split
  · rename_i kind
    cases value : integerValue c.peek with
    | error fault => exact Lays.error fault
    | ok n =>
      exact one (.integer kind value) (by simp [kind]) (by simp [turn, kind, TokenKind.turn])
  · rename_i kind
    exact one (.number kind) (by simp [kind]) (by simp [turn, kind, TokenKind.turn])
  · rename_i kind
    exact one (.string kind) (by simp [kind]) (by simp [turn, kind, TokenKind.turn])
  · rename_i kind
    exact one (.yes kind) (by simp [kind]) (by simp [turn, kind, TokenKind.turn])
  · rename_i kind
    exact one (.no kind) (by simp [kind]) (by simp [turn, kind, TokenKind.turn])
  · rename_i kind
    exact one (.name kind) (by simp [kind]) (by simp [turn, kind, TokenKind.turn])
  · rename_i kind
    exact one (.qualified kind) (by simp [kind]) (by simp [turn, kind, TokenKind.turn])
  · rename_i kind
    have inside : c.kind ≠ .endOfInput := by simp [Cursor.kind, kind]
    have opens : c.peek.turn = 1 := by simp [turn, kind, TokenKind.turn]
    have entered := ((takes_next ready inside).ready ready).enter 0
    have whole : ∀ (e : Expr) inner closing, (Fits 0 e inner ∧ (false = false → Starts 0 inner)) →
        closing.kind = .mark .rightParen →
        Fits c.margin e (c.peek :: inner ++ [closing]) := by
      intro e inner closing fits closes
      exact ⟨.paren kind closes fits.1.1,
        .bracketed fits.1.2.balanced opens (by simp [turn, closes, TokenKind.turn])⟩
    exact Lays.bracketed ready inside (by simp) (ih.parse _ entered) whole
  · rename_i kind
    have inside : c.kind ≠ .endOfInput := by simp [Cursor.kind, kind]
    have opens : c.peek.turn = 1 := by simp [turn, kind, TokenKind.turn]
    have entered := ((takes_next ready inside).ready ready).enter 0
    have whole : ∀ items inner closing, ItemsLaidOut items inner ∧ Balanced inner →
        closing.kind = .mark .rightBracket →
        Fits c.margin (.array c.peek.place items) (c.peek :: inner ++ [closing]) := by
      intro items inner closing laid closes
      exact ⟨.array kind closes laid.1,
        .bracketed laid.2 opens (by simp [turn, closes, TokenKind.turn])⟩
    split
    · have empty : ItemsLaidOut [] [] ∧ Balanced [] := ⟨.nil, balanced_flat (by simp)⟩
      exact Lays.bracketed ready inside (by simp) (Lays.ok rfl empty) whole
    · exact Lays.bracketed ready inside (by simp) (ih.items _ entered) whole
  · exact Lays.error _

theorem lambda_lays (here : c.kind = .mark .backslash) :
    Lays c (Fits c.margin) (parseLambda (fuel + 1) c) := by
  have takes := takes_next ready (by simp [here])
  have ready := takes.ready ready
  unfold parseLambda
  apply Lays.after_taking takes
  apply Lays.bind (Lays.expect ready (by simp))
  rintro param mid _ one ⟨rfl, named⟩
  have ready := one.ready ready
  obtain ⟨names, each, values, others⟩ := takes_identifiers one.stale
  have ready := others.ready ready
  apply Lays.after_taking others
  apply Lays.bind (Lays.expect ready (by simp))
  rintro arrow last _ link ⟨rfl, points⟩
  apply Lays.bind (ih.parse last (link.ready ready))
  intro body after inner rest fits
  have margin : last.margin = c.margin := (((takes.trans one).trans others).trans link).margin
  rw [margin] at fits
  refine Lays.ok rest.stale ⟨?_, ?_⟩
  · have params : ∀ name ∈ param :: names, name.kind = .identifier :=
      List.forall_mem_cons.mpr ⟨named, each⟩
    dsimp only [Cursor.identifiers] at values
    rw [values]
    simpa using LaidOut.lambda here (List.cons_ne_nil param names) params points fits.1.1
  · have head : Head ((c.peek :: param :: names ++ [arrow]).map Token.kind) := by
      have kinds := Head.lambda names.length
      simpa [identifier_kinds each, named, points, show c.peek.kind = _ from here,
        List.replicate_succ] using kinds
    simpa using Part.headed head fits.1.2 (fits.2 link.stale)

theorem cond_lays (here : c.kind = .keyword .ifWord) :
    Lays c (Fits c.margin) (parseCond (fuel + 1) c) := by
  have takes := takes_next ready (by simp [here])
  have ready := takes.ready ready
  unfold parseCond
  apply Lays.after_taking takes
  apply Lays.bind (ih.parse _ ready)
  intro condition mid first test fits
  have ready := test.ready ready
  apply Lays.bind (Lays.expect ready (by simp))
  rintro thenWord mid _ one ⟨rfl, goes⟩
  have ready := one.ready ready
  apply Lays.bind (ih.parse _ ready)
  intro yes mid second left fine
  have ready := left.ready ready
  apply Lays.bind (Lays.expect ready (by simp))
  rintro elseWord mid _ two ⟨rfl, turns⟩
  apply Lays.bind (ih.parse _ (two.ready ready))
  intro no after third right good
  have to_then := ((takes.trans test).trans one).margin
  have to_else := ((((takes.trans test).trans one).trans left).trans two).margin
  rw [takes.margin] at fits
  rw [to_then] at fine
  rw [to_else] at good
  refine Lays.ok right.stale ⟨?_, ?_⟩
  · simpa using LaidOut.cond here goes turns fits.1.1 fine.1.1 good.1.1
  · have flat : ∀ {word : Token} {keyword : Keyword}, word.kind = .keyword keyword →
        Part c.margin [word] := by
      intro word keyword kind
      exact Part.single (by rw [turn, kind]; rfl)
    have words : ∀ {front rest : List Token} {word : Token},
        word.kind = .keyword .thenWord ∨ word.kind = .keyword .elseWord →
        ∀ t others, [word] ++ rest = t :: others → t.opensLine = true → t.column ≤ c.margin →
          Unchecked front t others := by
      intro front rest word kind t others same _ _
      cases same
      exact .branch kind
    have last := (flat turns).append_starts good.1.2 (good.2 two.stale)
    have middle := ((flat goes).append_starts fine.1.2 (fine.2 one.stale)).append last
      (words (.inr turns))
    have test := (flat here).append_starts fits.1.2 (fits.2 rfl)
    have whole := test.append (by simpa using middle) (words (.inl goes))
    simpa using whole

theorem block_lays (here : c.kind = .keyword .doWord) :
    Lays c (Fits c.margin) (parseBlock (fuel + 1) c) := by
  have takes := takes_next ready (by simp [here])
  unfold parseBlock
  dsimp only
  split
  · exact Lays.error _
  · rename_i goes
    intro e last same
    cases read : parseStatements fuel c.advance.peek.column
        (c.advance.enter c.advance.peek.column) with
    | error fault =>
      simp only [bind, Except.bind, read] at same
      cases same
    | ok pair =>
      obtain ⟨statements, after⟩ := pair
      obtain ⟨taken, within, laid, balanced, some, kept⟩ := ih.statements _ _
        ((takes.ready ready).enter _) rfl rfl statements after read
      have starts := within.leave.starts takes.stale goes
      obtain ⟨first, rest, rfl⟩ := List.exists_cons_of_ne_nil some
      have begins : c.advance.peek = first := takes_peek within.leave rfl
      rw [begins] at laid kept
      simp only [bind, Except.bind, read] at same
      split at same
      · cases same
        exact ⟨_, takes.trans within.leave, .block here laid,
          .block here starts balanced kept⟩
      · cases same
      · cases same

theorem statements_lay {column : Nat} (margin : c.margin = column)
    (begins : c.peek.column = column) :
    Lays c (fun statements taken => StatementsLaidOut column statements taken ∧ Balanced taken ∧
      taken ≠ [] ∧ ∀ less, less < column → Kept less taken)
      (parseStatements (fuel + 1) column c) := by
  unfold parseStatements
  apply Lays.bind (ih.statement c ready)
  intro s after front takes fits
  obtain ⟨laid, part⟩ := fits
  obtain ⟨first, rest, rfl⟩ := List.exists_cons_of_ne_nil part.some
  have here : first.column = column := by
    rw [← takes_peek takes rfl]
    exact begins
  subst here
  rw [margin] at part
  dsimp only
  split
  · rename_i next
    simp only [Bool.and_eq_true, decide_eq_true_eq] at next
    apply Lays.bind (ih.statements _ after (takes.ready ready) (takes.margin.trans margin) next.2)
    rintro others last back further ⟨laidOthers, balanced, some, kept⟩
    refine Lays.ok further.stale ?_
    rw [List.append_nil]
    refine ⟨.next laid part.kept laidOthers, part.balanced.append balanced,
      List.append_ne_nil_of_left_ne_nil part.some back, ?_⟩
    intro less below
    apply Kept.append_starts part.balanced (part.kept.mono (Nat.le_of_lt below)) (kept less below)
    intro t more split _
    rw [← takes_peek further split, next.2]
    exact below
  · refine Lays.ok takes.stale ?_
    rw [List.append_nil]
    exact ⟨.last laid part.kept, part.balanced, part.some,
      fun less below => part.kept.mono (Nat.le_of_lt below)⟩

theorem statement_lays :
    Lays c (fun s taken => s.LaidOut taken ∧ Part c.margin taken)
      (parseStatement (fuel + 1) c) := by
  have fresh : ({ c with fresh := true } : Cursor).Ready := ⟨ready.named, ready.finish⟩
  unfold parseStatement
  dsimp only
  apply Lays.renew
  split
  · rename_i here
    have opens : c.peek.kind = .keyword .letWord := here
    have takes := takes_next fresh (by simp [here])
    have ready := takes.ready fresh
    apply Lays.after_taking takes
    apply Lays.bind (Lays.expect ready (by simp))
    rintro name mid _ one ⟨rfl, named⟩
    have ready := one.ready ready
    obtain ⟨params, each, values, others⟩ := takes_identifiers one.stale
    have ready := others.ready ready
    apply Lays.after_taking others
    apply Lays.bind (Lays.expect ready (by simp))
    rintro assign last _ link ⟨rfl, is⟩
    apply Lays.bind (ih.parse last (link.ready ready))
    intro value after inner rest fits
    have margin : last.margin = c.margin := (((takes.trans one).trans others).trans link).margin
    rw [margin] at fits
    refine Lays.ok rest.stale ⟨?_, ?_⟩
    · show Statement.LaidOut (.define c.peek.place name.value
        (if mid.identifiers.1.isEmpty then value else .lambda c.peek.place mid.identifiers.1 value))
        (c.peek :: name :: (params ++ (assign :: (inner ++ []))))
      rw [values]
      simpa using Statement.LaidOut.define opens named each is fits.1.1
    · have head : Head ((c.peek :: name :: params ++ [assign]).map Token.kind) := by
        have kinds := Head.define params.length
        simpa [identifier_kinds each, named, is, opens, List.replicate_succ] using kinds
      show Part c.margin (c.peek :: name :: (params ++ (assign :: (inner ++ []))))
      simpa using Part.headed head fits.1.2 (fits.2 link.stale)
  · split
    · rename_i here
      have takes := takes_next fresh (by simp [here.1])
      have next : c.advance.kind = .mark .leftArrow := here.2
      have link := takes_next (takes.ready fresh) (by
        show c.advance.kind ≠ _
        simp [next])
      have both := takes.trans link
      apply Lays.after_taking both
      apply Lays.bind (ih.parse _ (both.ready fresh))
      intro action after inner rest fits
      rw [both.margin] at fits
      refine Lays.ok rest.stale ⟨?_, ?_⟩
      · rw [List.append_nil]
        exact Statement.LaidOut.bind here.1 next fits.1.1
      · have head : Head ([c.peek, c.advance.peek].map Token.kind) := by
          simpa [show c.peek.kind = _ from here.1, show c.advance.peek.kind = _ from next]
            using Head.bind
        rw [List.append_nil]
        exact Part.headed head fits.1.2 (fits.2 link.stale)
    · apply Lays.bind (ih.parse _ fresh)
      intro action after taken takes fits
      obtain ⟨first, rest, rfl⟩ := List.exists_cons_of_ne_nil fits.1.2.some
      refine Lays.ok takes.stale ?_
      rw [List.append_nil]
      have begins : c.peek = first := takes_peek takes rfl
      rw [begins]
      exact ⟨.run fits.1.1, fits.1.2⟩

end Step

theorem all_lay (fuel : Nat) : AllLay fuel := by
  induction fuel with
  | zero => constructor <;> intros <;> exact Lays.error _
  | succ fuel ih =>
    exact {
      parse := fun _ ready => parse_lays ih ready
      binary := fun least _ ready => binary_lays ih ready least
      chain := fun least _ _ _ ready stale fits => chain_lays ih ready least stale fits
      unary := fun _ ready => unary_lays ih ready
      app := fun _ ready => app_lays ih ready
      arguments := fun _ _ _ ready stale fits => arguments_lay ih ready stale fits
      atom := fun _ ready => atom_lays ih ready
      items := fun _ ready => items_lay ih ready
      lambda := fun _ ready here => lambda_lays ih ready here
      cond := fun _ ready here => cond_lays ih ready here
      block := fun _ ready here => block_lays ih ready here
      statements := fun _ _ ready margin begins => statements_lay ih ready margin begins
      statement := fun _ ready => statement_lays ih ready }

end Expr

end PureJs
