import Mathlib.Data.List.Forall2
import PureJs.Proofs.Syntax.LaidOut

/-!
The nodes of an expression in the order of the source, and the tokens that stand for nodes. Those of
the other tokens that are identifiers name what a lambda or a statement binds. An expression has one
node for each such token it is written with.
-/

namespace PureJs

def Expr.madeAt (place : Position) : Expr → Bool
  | lambda made _ _ => made = place
  | _ => false

namespace Expr

mutual

/-- The literals, names, operators, lambdas, conditionals and do blocks of an expression. An
operator stands between the nodes of its operands, and nothing is listed for a lambda that is not
written as one. -/
def nodes : Expr → List Expr
  | literal place value => [literal place value]
  | array _ items => listNodes items
  | var place name qualifier resolved => [var place name qualifier resolved]
  | app _ function argument => nodes function ++ nodes argument
  | lambda place params body => lambda place params body :: nodes body
  | cond place condition yes no =>
    cond place condition yes no :: nodes condition ++ nodes yes ++ nodes no
  | binary place op left right => nodes left ++ binary place op left right :: nodes right
  | negate place operand => negate place operand :: nodes operand
  | block place statements => block place statements :: statementNodes statements

def listNodes : List Expr → List Expr
  | [] => []
  | e :: rest => nodes e ++ listNodes rest

def statementNodes : List Statement → List Expr
  | [] => []
  | .bind _ _ e :: rest | .run _ e :: rest => nodes e ++ statementNodes rest
  | .define place _ e :: rest =>
    (if e.madeAt place then (nodes e).tail else nodes e) ++ statementNodes rest

end

/-- The token stands for the node: it is found at the place of the node, and is the word or mark
for it or has the value of it. -/
inductive Shown : Expr → Token → Prop
  | integer {t : Token} {n : Nat} (kind : t.kind = .integer)
    (value : Text.readNumeral t.value = .ok n) : Shown (.literal t.place (.integer n)) t
  | number {t : Token} (kind : t.kind = .number) : Shown (.literal t.place (.number t.value)) t
  | string {t : Token} (kind : t.kind = .string) : Shown (.literal t.place (.string t.value)) t
  | yes {t : Token} (kind : t.kind = .keyword .trueWord) : Shown (.literal t.place (.bool true)) t
  | no {t : Token} (kind : t.kind = .keyword .falseWord) : Shown (.literal t.place (.bool false)) t
  | name {t : Token} (kind : t.kind = .identifier) : Shown (.var t.place t.value none none) t
  | qualified {t : Token} {owner name : String} (kind : t.kind = .qualified)
    (value : t.value = owner ++ "." ++ name) (last : '.' ∉ name.toList) :
    Shown (.var t.place name (some owner) none) t
  | operator {t : Token} {op : Operator} {left right : Expr} (kind : t.kind = .mark op.mark) :
    Shown (.binary t.place op left right) t
  | minus {t : Token} {operand : Expr} (kind : t.kind = .mark .minus) :
    Shown (.negate t.place operand) t
  | lambda {t : Token} {params : List String} {body : Expr} (kind : t.kind = .mark .backslash) :
    Shown (.lambda t.place params body) t
  | cond {t : Token} {condition yes no : Expr} (kind : t.kind = .keyword .ifWord) :
    Shown (.cond t.place condition yes no) t
  | block {t : Token} {statements : List Statement} (kind : t.kind = .keyword .doWord) :
    Shown (.block t.place statements) t

end Expr

def TokenKind.isNode : TokenKind → Bool
  | .integer | .number | .string | .qualified => true
  | .keyword word => word ∈ [.trueWord, .falseWord, .ifWord, .doWord]
  | .mark sign => sign = .backslash || (Operator.ofMark? sign).isSome
  | _ => false

/-- Whether the identifiers behind a token of the kind are bound there, if those in front of it are
or are not. -/
def TokenKind.bindsNext (bound : Bool) : TokenKind → Bool
  | .mark .backslash | .keyword .letWord => true
  | .mark .arrow | .mark .assign => false
  | _ => bound

namespace Token

/-- The tokens do not go on with the arrow that makes the identifier in front of it a binder. -/
def NoArrow (tokens : List Token) : Prop := ∀ t ∈ tokens.head?, t.kind ≠ .mark .leftArrow

/-- The tokens that stand for nodes. An identifier does not where it is bound: between a backslash
and its arrow, between `let` and its sign, and in front of the arrow of a statement. -/
def telling (bound : Bool) : List Token → List Token
  | [] => []
  | t :: rest =>
    let others := telling (t.kind.bindsNext bound) rest
    if t.kind.isNode ||
        (t.kind = .identifier && !bound && !rest.head?.any (·.kind = .mark .leftArrow)) then
      t :: others
    else others

theorem telling_sublist (bound : Bool) (tokens : List Token) :
    (telling bound tokens).Sublist tokens := by
  induction tokens generalizing bound with
  | nil => exact .slnil
  | cons t rest ih =>
    unfold telling
    dsimp only
    split
    · exact (ih _).cons_cons t
    · exact (ih _).cons t

theorem telling_silent {t : Token} (silent : t.kind.isNode = false) (other : t.kind ≠ .identifier)
    (bound : Bool) (rest : List Token) :
    telling bound (t :: rest) = telling (t.kind.bindsNext bound) rest := by
  simp [telling, silent, other]

theorem telling_node {t : Token} (node : t.kind.isNode = true) (bound : Bool)
    (rest : List Token) :
    telling bound (t :: rest) = t :: telling (t.kind.bindsNext bound) rest := by
  simp [telling, node]

theorem telling_name {t : Token} (name : t.kind = .identifier) {rest : List Token}
    (plain : NoArrow rest) : telling false (t :: rest) = t :: telling false rest := by
  have none : rest.head?.any (·.kind = .mark .leftArrow) = false := by
    cases rest with
    | nil => rfl
    | cons next others => exact decide_eq_false (plain next rfl)
  simp [telling, name, none, TokenKind.bindsNext]

theorem telling_binder {t arrow : Token} (name : t.kind = .identifier)
    (binds : arrow.kind = .mark .leftArrow) (rest : List Token) :
    telling false (t :: arrow :: rest) = telling false rest := by
  have quiet : Operator.ofMark? .leftArrow = none := rfl
  simp [telling, name, binds, quiet, TokenKind.isNode, TokenKind.bindsNext]

theorem telling_names {names : List Token} (each : ∀ name ∈ names, name.kind = .identifier)
    (rest : List Token) : telling true (names ++ rest) = telling true rest := by
  induction names with
  | nil => rfl
  | cons name others ih =>
    rw [List.forall_mem_cons] at each
    rw [List.cons_append]
    simp [telling, each.1, TokenKind.isNode, TokenKind.bindsNext, ih each.2]

end Token

open Token

structure Tells (nodes : List Expr) (tokens : List Token) : Prop where
  starts : ∀ rest, NoArrow rest → NoArrow (tokens ++ rest)
  shown : ∀ rest, NoArrow rest → ∃ front,
    telling false (tokens ++ rest) = front ++ telling false rest ∧
      List.Forall₂ Expr.Shown nodes front

namespace Tells

variable {front back : List Expr} {tokens others : List Token}

theorem nil : Tells [] [] := ⟨fun _ none => none, fun _ _ => ⟨[], rfl, .nil⟩⟩

theorem append (first : Tells front tokens) (second : Tells back others) :
    Tells (front ++ back) (tokens ++ others) := by
  constructor
  · intro rest none
    rw [List.append_assoc]
    exact first.starts _ (second.starts rest none)
  · intro rest none
    obtain ⟨early, split, here⟩ := first.shown _ (second.starts rest none)
    obtain ⟨late, same, there⟩ := second.shown rest none
    exact ⟨early ++ late, by rw [List.append_assoc, split, same, List.append_assoc],
      List.rel_append here there⟩

theorem node {e : Expr} {t : Token} (shown : e.Shown t) (node : t.kind.isNode = true)
    (free : t.kind.bindsNext false = false) : Tells [e] [t] := by
  constructor
  · rintro rest _ first ⟨⟩ arrow
    rw [arrow] at node
    cases node
  · intro rest _
    refine ⟨[t], ?_, .cons shown .nil⟩
    rw [List.singleton_append, telling_node node, free]
    rfl

theorem silent {t : Token} (quiet : t.kind.isNode = false) (other : t.kind ≠ .identifier)
    (plain : t.kind ≠ .mark .leftArrow) (free : t.kind.bindsNext false = false) :
    Tells [] [t] := by
  constructor
  · rintro rest _ first ⟨⟩
    exact plain
  · intro rest _
    refine ⟨[], ?_, .nil⟩
    rw [List.singleton_append, telling_silent quiet other, free]
    rfl

theorem complete (tells : Tells front tokens) :
    List.Forall₂ Expr.Shown front (telling false tokens) := by
  obtain ⟨shown, split, all⟩ := tells.shown [] nofun
  rw [List.append_nil] at split
  rw [split]
  simpa [telling] using all

end Tells

structure Apart (tokens : List Token) : Prop where
  places : (tokens.map Token.place).Nodup
  pointed : ∀ t ∈ tokens, t.Pointed

theorem Apart.sublist {tokens part : List Token} (apart : Apart tokens)
    (inside : part.Sublist tokens) : Apart part :=
  ⟨apart.places.sublist (inside.map _), fun t member => apart.pointed t (inside.subset member)⟩

theorem Apart.append {front back : List Token} (apart : Apart (front ++ back)) :
    Apart front ∧ Apart back :=
  ⟨apart.sublist (List.sublist_append_left _ _), apart.sublist (List.sublist_append_right _ _)⟩

theorem Apart.behind {t : Token} {rest : List Token} (apart : Apart (t :: rest)) : Apart rest :=
  apart.sublist (List.sublist_cons_self t rest)

theorem Apart.first {t : Token} {rest : List Token} (apart : Apart (t :: rest)) :
    ∀ other ∈ rest, other.place ≠ t.place := by
  intro other member same
  have none := (List.nodup_cons.mp apart.places).1
  exact none (same ▸ List.mem_map_of_mem member)

theorem leaf_tells {e : Expr} {t : Token} (leaf : e.Leaf t) (pointed : t.Pointed) :
    Tells e.nodes [t] := by
  cases leaf with
  | @integer t n kind value =>
    have read : ∃ m : Nat, n = m ∧ Text.readNumeral t.value = .ok m := by
      unfold Expr.integerValue at value
      split at value
      · rename_i m read
        cases value
        exact ⟨m, rfl, read⟩
      · cases value
    obtain ⟨m, rfl, read⟩ := read
    exact .node (.integer kind read) (by rw [kind]; rfl) (by rw [kind]; rfl)
  | number kind => exact .node (.number kind) (by rw [kind]; rfl) (by rw [kind]; rfl)
  | string kind => exact .node (.string kind) (by rw [kind]; rfl) (by rw [kind]; rfl)
  | yes kind => exact .node (.yes kind) (by rw [kind]; rfl) (by rw [kind]; rfl)
  | no kind => exact .node (.no kind) (by rw [kind]; rfl) (by rw [kind]; rfl)
  | name kind =>
    constructor
    · rintro rest _ first ⟨⟩ arrow
      rw [kind] at arrow
      cases arrow
    · exact fun rest none => ⟨[t], telling_name kind none, .cons (.name kind) .nil⟩
  | qualified kind =>
    obtain ⟨owner, name, value, last⟩ := pointed kind
    rw [value, split_at_last_point last]
    refine .node (.qualified kind ?_ ?_) (by rw [kind]; rfl) (by rw [kind]; rfl)
    · rw [value]
      apply String.toList_injective
      simp
    · simpa using last

theorem written_elsewhere {place : Position} {e : Expr} {tokens : List Token}
    (tells : Tells e.nodes tokens) (apart : ∀ t ∈ tokens, t.place ≠ place) :
    e.madeAt place = false := by
  cases e with
  | lambda made params body =>
    obtain ⟨t, front, shown, _, split⟩ := List.forall₂_cons_left_iff.mp tells.complete
    have inside : t ∈ telling false tokens := by
      rw [split]
      exact List.mem_cons_self
    cases shown with
    | lambda kind => exact decide_eq_false (apart t ((telling_sublist false tokens).subset inside))
  | _ => rfl

theorem sign_tells {t : Token}
    (kind : t.kind ∈ [.mark .leftParen, .mark .rightParen, .mark .leftBracket, .mark .rightBracket,
      .mark .comma, .keyword .thenWord, .keyword .elseWord]) : Tells [] [t] := by
  simp only [List.mem_cons, List.not_mem_nil, or_false] at kind
  rcases kind with kind | kind | kind | kind | kind | kind | kind <;>
    exact .silent (by rw [kind]; rfl) (by rw [kind]; nofun) (by rw [kind]; nofun)
      (by rw [kind]; rfl)

theorem Tells.bound {nodes : List Expr} {names inner : List Token} {sign : Token}
    (each : ∀ name ∈ names, name.kind = .identifier)
    (last : sign.kind = .mark .arrow ∨ sign.kind = .mark .assign) (tells : Tells nodes inner)
    (rest : List Token) (none : NoArrow rest) :
    ∃ front, telling true (names ++ sign :: inner ++ rest) = front ++ telling false rest ∧
      List.Forall₂ Expr.Shown nodes front := by
  obtain ⟨front, split, shown⟩ := tells.shown rest none
  refine ⟨front, ?_, shown⟩
  rw [List.append_assoc, telling_names each, List.cons_append]
  rcases last with kind | kind <;>
    rw [telling_silent (by rw [kind]; rfl) (by rw [kind]; nofun), kind] <;> exact split

theorem statement_nodes_cons (s : Statement) (rest : List Statement) :
    Expr.statementNodes (s :: rest) = Expr.statementNodes [s] ++ Expr.statementNodes rest := by
  cases s <;> simp [Expr.statementNodes]

open PureJs.Expr

theorem lambda_tells {body : Expr} {mark arrow : Token} {params inner : List Token}
    (opens : mark.kind = .mark .backslash) (each : ∀ param ∈ params, param.kind = .identifier)
    (points : arrow.kind = .mark .arrow) (inside : Tells body.nodes inner) :
    Tells (Expr.lambda mark.place (params.map Token.value) body).nodes
      (mark :: params ++ arrow :: inner) := by
  constructor
  · rintro rest _ first ⟨⟩ other
    rw [opens] at other
    cases other
  · intro rest none
    obtain ⟨front, split, shown⟩ := inside.bound each (.inl points) rest none
    refine ⟨mark :: front, ?_, .cons (.lambda opens) shown⟩
    rw [List.cons_append, List.cons_append, telling_node (by rw [opens]; rfl), opens]
    exact congrArg (List.cons mark) split

theorem bind_tells {action : Expr} {name arrow : Token} {inner : List Token}
    (named : name.kind = .identifier) (binds : arrow.kind = .mark .leftArrow)
    (inside : Tells action.nodes inner) :
    Tells (statementNodes [.bind name.place name.value action]) (name :: arrow :: inner) := by
  constructor
  · rintro rest _ first ⟨⟩ other
    rw [named] at other
    cases other
  · intro rest none
    obtain ⟨front, split, shown⟩ := inside.shown rest none
    refine ⟨front, ?_, by simpa [statementNodes] using shown⟩
    rw [List.cons_append, List.cons_append, telling_binder named binds, split]

theorem define_tells {value : Expr} {word name assign : Token} {params inner : List Token}
    (opens : word.kind = .keyword .letWord) (named : name.kind = .identifier)
    (each : ∀ param ∈ params, param.kind = .identifier) (is : assign.kind = .mark .assign)
    (apart : ∀ t ∈ inner, t.place ≠ word.place) (inside : Tells value.nodes inner) :
    Tells (statementNodes [.define word.place name.value
        (if params = [] then value else .lambda word.place (params.map Token.value) value)])
      (word :: name :: params ++ assign :: inner) := by
  have same : statementNodes [.define word.place name.value
      (if params = [] then value else .lambda word.place (params.map Token.value) value)] =
      value.nodes := by
    have written : value.madeAt word.place = false := written_elsewhere inside apart
    split
    · simp [statementNodes, written]
    · simp [statementNodes, nodes, madeAt]
  rw [same]
  constructor
  · rintro rest _ first ⟨⟩ other
    rw [opens] at other
    cases other
  · intro rest none
    have names : ∀ t ∈ name :: params, t.kind = .identifier :=
      List.forall_mem_cons.mpr ⟨named, each⟩
    obtain ⟨front, split, shown⟩ := inside.bound names (.inr is) rest none
    refine ⟨front, ?_, shown⟩
    rw [List.cons_append, List.cons_append, telling_silent (by rw [opens]; rfl)
      (by rw [opens]; nofun), opens]
    exact split

theorem laid_tells {e : Expr} {tokens : List Token} (laid : e.LaidOut tokens) :
    Apart tokens → Tells e.nodes tokens := by
  refine @Expr.LaidOut.rec (fun e tokens _ => Apart tokens → Tells e.nodes tokens)
    (fun items tokens _ => Apart tokens → Tells (listNodes items) tokens)
    (fun s tokens _ => Apart tokens → Tells (statementNodes [s]) tokens)
    (fun _ statements tokens _ => Apart tokens → Tells (statementNodes statements) tokens)
    ?leaf ?paren ?array ?app ?lambda ?cond ?binary ?negate ?block ?nil ?last ?next ?bind ?define
    ?run ?final ?further e tokens laid
  case leaf =>
    intro e t leaf apart
    exact leaf_tells leaf (apart.pointed t (List.mem_singleton_self t))
  case paren =>
    intro e opening closing inner opens closes _ ih apart
    have front : Tells [] [opening] := sign_tells (by simp [opens])
    have back : Tells [] [closing] := sign_tells (by simp [closes])
    simpa using (front.append (ih apart.append.1.behind)).append back
  case array =>
    intro items opening closing inner opens closes _ ih apart
    have front : Tells [] [opening] := sign_tells (by simp [opens])
    have back : Tells [] [closing] := sign_tells (by simp [closes])
    simpa [nodes] using (front.append (ih apart.append.1.behind)).append back
  case app =>
    intro function argument front back _ _ first second apart
    exact (first apart.append.1).append (second apart.append.2)
  case lambda =>
    intro body mark arrow names inner opens _ params points _ ih apart
    exact lambda_tells opens params points (ih apart.append.2.behind)
  case cond =>
    intro condition yes no ifWord thenWord elseWord first second third opens goes turns _ _ _ test
      left right apart
    have front : Tells [.cond ifWord.place condition yes no] [ifWord] :=
      .node (.cond opens) (by rw [opens]; rfl) (by rw [opens]; rfl)
    have one : Tells [] [thenWord] := sign_tells (by simp [goes])
    have two : Tells [] [elseWord] := sign_tells (by simp [turns])
    have whole := ((front.append (test apart.append.1.append.1.behind)).append
      (one.append (left apart.append.1.append.2.behind))).append
      (two.append (right apart.append.2.behind))
    simpa [nodes] using whole
  case binary =>
    intro op left right mark front back sign _ _ first second apart
    have middle : Tells [.binary mark.place op left right] [mark] :=
      .node (.operator sign) (by rw [sign]; cases op <;> rfl) (by rw [sign]; cases op <;> rfl)
    have whole := (first apart.append.1).append (middle.append (second apart.append.2.behind))
    simpa [nodes] using whole
  case negate =>
    intro operand mark inner sign _ ih apart
    have front : Tells [.negate mark.place operand] [mark] :=
      .node (.minus sign) (by rw [sign]; rfl) (by rw [sign]; rfl)
    exact front.append (ih apart.behind)
  case block =>
    intro statements word first rest opens _ ih apart
    have front : Tells [.block word.place statements] [word] :=
      .node (.block opens) (by rw [opens]; rfl) (by rw [opens]; rfl)
    exact front.append (ih apart.behind)
  case nil => exact fun _ => .nil
  case last =>
    intro e tokens _ ih apart
    simpa [listNodes] using ih apart
  case next =>
    intro e rest comma tokens others _ separates _ first later apart
    have middle : Tells [] [comma] := sign_tells (by simp [separates])
    have whole := (first apart.append.1).append (middle.append (later apart.append.2.behind))
    simpa [listNodes] using whole
  case bind =>
    intro action name arrow inner named from_ _ ih apart
    exact bind_tells named from_ (ih apart.behind.behind)
  case define =>
    intro value word name assign params inner opens named each is _ ih apart
    have elsewhere : ∀ t ∈ inner, t.place ≠ word.place :=
      fun t member => apart.first t (by simp [member])
    exact define_tells opens named each is elsewhere (ih apart.append.2.behind)
  case run =>
    intro action first rest _ ih apart
    simpa [statementNodes] using ih apart
  case final => exact fun _ _ ih => ih
  case further =>
    intro s more first rest others _ _ _ here later apart
    rw [statement_nodes_cons]
    exact (here apart.append.1).append (later apart.append.2)

end PureJs
