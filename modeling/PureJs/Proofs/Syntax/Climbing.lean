import PureJs.Proofs.Syntax.Grouping
import PureJs.Proofs.Syntax.LaidOut

/-!
Reading a chain of operators. Whatever tree groups the operands and operators that are written on a
line by precedence, the parser returns it: a tree is read as the left part of a longer chain, and
the chain goes on behind it with an operator that does not reach into it.
-/

namespace PureJs

namespace Cursor

def behind (c : Cursor) (rest : List Token) : Cursor := { c with tokens := rest, fresh := false }

/-- What comes next is a boundary or the operator. -/
inductive Before (c : Cursor) : Option Operator → Prop
  | boundary (here : c.atBoundary = true) : Before c none
  | operator {op : Operator} (inside : c.atBoundary = false) (known : c.operator? = some op) :
    Before c (some op)

variable {c : Cursor} {t : Token} {front rest : List Token}

theorem peek_of (tokens : c.tokens = t :: rest) : c.peek = t := by simp [peek, tokens]

theorem advance_of (tokens : c.tokens = t :: rest) : c.advance = c.behind rest := by
  simp [advance, behind, tokens]

theorem length_behind (tokens : c.tokens = t :: rest) :
    c.tokens.length = (c.behind rest).tokens.length + 1 := by
  rw [tokens]
  rfl

theorem inside_of (tokens : c.tokens = t :: rest) (inline : t.opensLine = false) :
    c.atBoundary = false := by
  simp [atBoundary, atEnd, breaksLayout, peek, tokens, inline]

theorem behind_self (stale : c.fresh = false) : c.behind c.tokens = c := by
  cases c
  cases stale
  rfl

theorem Before.startsNothing {next : Option Operator} (before : c.Before next) :
    c.atBoundary = true ∨ c.startsAtom = false ∧ c.startsBlock = false := by
  cases before with
  | boundary here => exact .inl here
  | @operator op inside known =>
    have kind : c.kind = .mark op.mark := Expr.operator_mark known
    refine .inr ?_
    unfold startsAtom startsBlock
    rw [kind]
    cases op <;> exact ⟨rfl, rfl⟩

end Cursor

namespace Expr

open Cursor

inductive Arguments : Expr → List Token → Expr → Prop
  | none {function : Expr} : Arguments function [] function
  | some {function argument e : Expr} {token : Token} {tokens : List Token}
    (leaf : argument.Leaf token)
    (later : Arguments (.app function.place function argument) tokens e) :
    Arguments function (token :: tokens) e

inductive Signed : List Token → Expr → Prop
  | plain {function e : Expr} {token : Token} {tokens : List Token} (leaf : function.Leaf token)
    (given : Arguments function tokens e) : Signed (token :: tokens) e
  | minus {e : Expr} {token : Token} {tokens : List Token} (sign : token.kind = .mark .minus)
    (later : Signed tokens e) : Signed (token :: tokens) (.negate token.place e)

inductive Linked : List Token → List Link → Prop
  | nil : Linked [] []
  | cons {op : Operator} {operand : Expr} {token : Token} {tokens more : List Token}
    {links : List Link} (sign : token.kind = .mark op.mark) (signed : Signed tokens operand)
    (later : Linked more links) :
    Linked (token :: tokens ++ more) (⟨token.place, op, operand⟩ :: links)

def Spelled (tokens : List Token) (reading : Expr × List Link) : Prop :=
  ∃ front back, tokens = front ++ back ∧ Signed front reading.1 ∧ Linked back reading.2

theorem Linked.split {tokens : List Token} {front back : List Link}
    (linked : Linked tokens (front ++ back)) :
    ∃ before behind, tokens = before ++ behind ∧ Linked before front ∧ Linked behind back := by
  induction front generalizing tokens with
  | nil => exact ⟨[], tokens, rfl, .nil, linked⟩
  | cons link front ih =>
    cases linked with
    | cons sign signed later =>
      obtain ⟨before, behind, rfl, first, second⟩ := ih later
      exact ⟨_, behind, (List.append_assoc ..).symm, .cons sign signed first, second⟩

theorem spelled_binary {tokens : List Token} {place : Position} {op : Operator}
    {left right : Expr} (spelled : Spelled tokens (binary place op left right).inOrder) :
    ∃ front sign back, tokens = front ++ sign :: back ∧ sign.kind = .mark op.mark ∧
      sign.place = place ∧ Spelled front left.inOrder ∧ Spelled back right.inOrder := by
  obtain ⟨first, rest, rfl, signed, linked⟩ := spelled
  obtain ⟨before, behind, rfl, earlier, later⟩ := linked.split
  cases later with
  | @cons _ _ sign tokens more _ kind operand others =>
    exact ⟨first ++ before, sign, tokens ++ more, by simp, kind, rfl,
      ⟨first, before, rfl, signed, earlier⟩, ⟨tokens, more, rfl, operand, others⟩⟩

theorem Signed.root {tokens : List Token} {e : Expr} (signed : Signed tokens e) :
    e.root? = none := by
  have applied : ∀ {function : Expr} {tokens e}, Arguments function tokens e →
      function.root? = none → e.root? = none := by
    intro function tokens e given
    induction given with
    | none => exact id
    | some leaf later ih => exact fun _ => ih rfl
  cases signed with
  | plain leaf given =>
    apply applied given
    cases leaf <;> rfl
  | minus => rfl

theorem Signed.starts {tokens : List Token} {e : Expr} (signed : Signed tokens e) :
    ∃ t rest, tokens = t :: rest ∧
      ∀ c : Cursor, c.peek = t → c.startsBlock = false ∧ c.kind ≠ .mark .backslash ∧
        c.kind ≠ .keyword .ifWord ∧ c.kind ≠ .keyword .doWord := by
  cases signed with
  | @plain function _ t rest leaf given =>
    refine ⟨t, rest, rfl, ?_⟩
    rintro c rfl
    unfold startsBlock Cursor.kind
    cases leaf with
    | integer kind | number kind | string kind | yes kind | no kind | name kind
    | qualified kind => simp [kind]
  | @minus _ t rest sign later =>
    refine ⟨t, rest, rfl, ?_⟩
    rintro c rfl
    unfold startsBlock Cursor.kind
    simp [sign]

section Operands

variable {c : Cursor} {t : Token} {tokens rest : List Token} {e function : Expr}

theorem atom_read (leaf : e.Leaf t) (here : c.tokens = t :: rest) (fuel : Nat) :
    parseAtom (fuel + 1) c = .ok (e, c.behind rest) := by
  have peek := peek_of here
  have next := advance_of here
  subst peek
  unfold parseAtom
  cases leaf with
  | integer kind value => simp [kind, value, next, bind, Except.bind, pure, Except.pure]
  | number kind | string kind | yes kind | no kind | name kind | qualified kind =>
    simp [kind, next]

theorem leaf_starts (leaf : e.Leaf t) (here : c.tokens = t :: rest) : c.startsAtom = true := by
  have peek := peek_of here
  subst peek
  unfold startsAtom Cursor.kind
  cases leaf with
  | integer kind | number kind | string kind | yes kind | no kind | name kind
  | qualified kind => simp [kind]

theorem arguments_read {next : Option Operator} (given : Arguments function tokens e)
    (here : c.tokens = tokens ++ rest) (inline : ∀ t ∈ tokens, t.opensLine = false)
    (stale : c.fresh = false) (before : (c.behind rest).Before next) {fuel : Nat}
    (enough : 8 * c.tokens.length + 6 ≤ fuel) :
    parseArguments fuel function c = .ok (e, c.behind rest) := by
  induction given generalizing c fuel with
  | none =>
    rw [List.nil_append] at here
    subst here
    obtain ⟨fuel, rfl⟩ := Nat.exists_eq_add_of_lt (Nat.lt_of_lt_of_le (Nat.succ_pos _) enough)
    rw [behind_self stale] at before ⊢
    rw [Nat.zero_add, parseArguments]
    rcases before.startsNothing with last | ⟨atom, block⟩
    · rw [if_pos last]
    · simp [atom, block]
  | @some function argument e t tokens leaf later ih =>
    rw [List.forall_mem_cons] at inline
    obtain ⟨fuel, rfl⟩ : ∃ less, fuel = less + 2 := ⟨fuel - 2, by omega⟩
    rw [List.cons_append] at here
    have shorter := length_behind here
    have less : 8 * (c.behind (tokens ++ rest)).tokens.length + 6 ≤ fuel + 1 := by omega
    rw [parseArguments, if_neg (by simp [inside_of here inline.1]),
      if_pos (leaf_starts leaf here), atom_read leaf here]
    exact @ih (c.behind (tokens ++ rest)) rfl inline.2 rfl before _ less

theorem unary_read {next : Option Operator} (signed : Signed tokens e)
    (here : c.tokens = tokens ++ rest) (inline : ∀ t ∈ tokens, t.opensLine = false)
    (before : (c.behind rest).Before next) {fuel : Nat}
    (enough : 8 * c.tokens.length + 3 ≤ fuel) :
    parseUnary fuel c = .ok (e, c.behind rest) := by
  induction signed generalizing c fuel with
  | @plain function e t tokens leaf given =>
    rw [List.forall_mem_cons] at inline
    obtain ⟨fuel, rfl⟩ : ∃ less, fuel = less + 3 := ⟨fuel - 3, by omega⟩
    have other : c.kind ≠ .mark .minus := by
      rw [Cursor.kind, peek_of here]
      cases leaf with
      | integer kind | number kind | string kind | yes kind | no kind | name kind
      | qualified kind => simp [kind]
    rw [List.cons_append] at here
    have shorter := length_behind here
    have less : 8 * (c.behind (tokens ++ rest)).tokens.length + 6 ≤ fuel + 1 := by omega
    rw [parseUnary, if_neg other, parseApp, atom_read leaf here]
    exact arguments_read (c := c.behind (tokens ++ rest)) given rfl inline.2 rfl before less
  | @minus e t tokens sign later ih =>
    rw [List.forall_mem_cons] at inline
    obtain ⟨fuel, rfl⟩ : ∃ less, fuel = less + 1 := ⟨fuel - 1, by omega⟩
    have same : c.kind = .mark .minus := by rw [Cursor.kind, peek_of here, sign]
    rw [List.cons_append] at here
    have shorter := length_behind here
    have less : 8 * (c.behind (tokens ++ rest)).tokens.length + 3 ≤ fuel := by omega
    have further := @ih (c.behind (tokens ++ rest)) rfl inline.2 before _ less
    rw [parseUnary, if_pos same, advance_of here, further, peek_of here]
    rfl

end Operands

def Complete (next : Option Operator) : Expr → Prop
  | binary _ op _ right =>
    (∀ other ∈ next, other.precedence < op.rightPrecedence) ∧ right.Complete next
  | _ => True

theorem complete_plain {e : Expr} (plain : e.root? = none) (next : Option Operator) :
    e.Complete next := by
  cases e with
  | binary => cases plain
  | _ => trivial

theorem complete_end {e : Expr} (grouped : e.Grouped) : e.Complete none := by
  induction grouped with
  | operand plain => exact complete_plain plain none
  | binary _ _ _ _ _ ih => exact ⟨nofun, ih⟩

theorem complete_left {e : Expr} (grouped : e.Grouped) {op : Operator} (fits : e.FitsLeft op) :
    e.Complete (some op) := by
  induction grouped with
  | operand plain => exact complete_plain plain _
  | @binary place inner left right before behind first second _ ih =>
    have here := fits inner rfl
    refine ⟨?_, ih ?_⟩
    · rintro other ⟨⟩
      exact Operator.below_right.mpr here
    · intro last root
      rcases behind last root with above | ⟨same, side⟩
      · omega
      · -- an operator that binds as tightly would group from the other side
        rcases here with above | ⟨level, other⟩
        · omega
        · rw [Operator.same_side level] at side
          rw [side] at other
          cases other

section Chains

variable {c : Cursor} {tokens rest : List Token} {e : Expr} {next : Option Operator}

theorem chain_stops (before : c.Before next) {least : Nat}
    (below : ∀ op ∈ next, op.precedence < least) (e : Expr) (fuel : Nat) :
    parseChain (fuel + 1) least e c = .ok (e, c) := by
  rw [parseChain]
  cases before with
  | boundary here => rw [if_pos here]
  | @operator op inside known => simp [inside, known, below op rfl]

theorem chain_goes {op : Operator} (inside : c.atBoundary = false)
    (known : c.operator? = some op) {least fuel : Nat} (above : least ≤ op.precedence)
    (noBlock : c.advance.startsBlock = false) {left right : Expr} {after : Cursor}
    (reads : parseBinary fuel op.rightPrecedence c.advance = .ok (right, after)) :
    parseChain (fuel + 1) least left c =
      parseChain fuel least (.binary c.peek.place op left right) after := by
  rw [parseChain]
  simp [inside, known, Nat.not_lt.mpr above, noBlock, reads, bind, Except.bind]

theorem binary_read (grouped : e.Grouped) (spelled : Spelled tokens e.inOrder)
    (here : c.tokens = tokens ++ rest) (inline : ∀ t ∈ tokens, t.opensLine = false)
    (before : (c.behind rest).Before next) (complete : e.Complete next) {least fuel : Nat}
    (above : ∀ op ∈ e.root?, least ≤ op.precedence) (enough : 8 * c.tokens.length + 4 ≤ fuel) :
    ∃ less, 8 * rest.length + 1 ≤ less ∧
      parseBinary fuel least c = parseChain less least e (c.behind rest) := by
  induction grouped generalizing c tokens rest next least fuel with
  | @operand e plain =>
    rw [inOrder_plain plain] at spelled
    obtain ⟨front, _, rfl, signed, ⟨⟩⟩ := spelled
    rw [List.append_nil] at here inline
    obtain ⟨fuel, rfl⟩ : ∃ less, fuel = less + 1 := ⟨fuel - 1, by omega⟩
    obtain ⟨t, others, rfl, _⟩ := signed.starts
    refine ⟨fuel, ?_, ?_⟩
    · rw [here] at enough
      simp only [List.cons_append, List.length_cons, List.length_append] at enough
      omega
    · rw [parseBinary, unary_read signed here inline before (by omega)]
      rfl
  | @binary place op left right fits behind first second ihl ihr =>
    obtain ⟨front, sign, back, rfl, kind, rfl, spelledLeft, spelledRight⟩ := spelled_binary spelled
    rw [List.forall_mem_append, List.forall_mem_cons] at inline
    obtain ⟨inlineLeft, plain, inlineRight⟩ := inline
    rw [List.append_assoc, List.cons_append] at here
    let mid := c.behind (sign :: (back ++ rest))
    have known : mid.operator? = some op := by
      unfold operator? Cursor.kind
      rw [peek_of rfl, kind]
      cases op <;> rfl
    have inside : mid.atBoundary = false := inside_of rfl plain
    have lower := above op rfl
    have stands : mid.Before (some op) := .operator inside known
    have rootLeft : ∀ inner ∈ left.root?, least ≤ inner.precedence := by
      intro inner root
      rcases fits inner root with higher | ⟨same, _⟩ <;> omega
    obtain ⟨more, enoughMore, goes⟩ := ihl spelledLeft here inlineLeft stands
      (complete_left first fits) rootLeft enough
    obtain ⟨more, rfl⟩ : ∃ less, more = less + 1 := ⟨more - 1, by omega⟩
    have rootRight : ∀ inner ∈ right.root?, op.rightPrecedence ≤ inner.precedence := by
      intro inner root
      unfold Operator.rightPrecedence
      rcases behind inner root with higher | ⟨same, side⟩
      · split <;> omega
      · rw [if_pos side]
        omega
    have enoughRight : 8 * (c.behind (back ++ rest)).tokens.length + 4 ≤ more := by
      simp only [Cursor.behind, List.length_cons] at enoughMore ⊢
      omega
    obtain ⟨last, enoughLast, reads⟩ := @ihr (c.behind (back ++ rest)) _ _ _ spelledRight rfl
      inlineRight before complete.2 op.rightPrecedence more rootRight enoughRight
    obtain ⟨last, rfl⟩ : ∃ less, last = less + 1 := ⟨last - 1, by omega⟩
    have noBlock : (c.behind (back ++ rest)).startsBlock = false := by
      obtain ⟨front, _, rfl, signed, _⟩ := spelledRight
      obtain ⟨t, others, rfl, starts⟩ := signed.starts
      exact (starts _ rfl).1
    refine ⟨more, ?_, ?_⟩
    · simp only [List.length_cons, List.length_append] at enoughMore
      omega
    · rw [goes, chain_goes inside known lower noBlock
        (reads.trans (chain_stops before complete.1 right last)), peek_of rfl]

theorem parse_read (grouped : e.Grouped) (spelled : Spelled tokens e.inOrder)
    (here : c.tokens = tokens ++ rest) (inline : ∀ t ∈ tokens, t.opensLine = false)
    (ends : (c.behind rest).atBoundary = true) {fuel : Nat}
    (enough : 8 * c.tokens.length + 5 ≤ fuel) : parse fuel c = .ok (e, c.behind rest) := by
  obtain ⟨front, back, rfl, signed, linked⟩ := id spelled
  obtain ⟨t, others, split, starts⟩ := signed.starts
  obtain ⟨fuel, rfl⟩ : ∃ less, fuel = less + 1 := ⟨fuel - 1, by omega⟩
  subst split
  have first : c.tokens = t :: (others ++ back ++ rest) := by simpa using here
  have going : ¬c.atBoundary = true := by simp [inside_of first (inline t (by simp))]
  have plain := starts c (peek_of first)
  have enough : 8 * c.tokens.length + 4 ≤ fuel := Nat.le_of_succ_le_succ enough
  obtain ⟨last, enoughLast, reads⟩ := binary_read grouped spelled here inline (.boundary ends)
    (complete_end grouped) (fun _ _ => Nat.zero_le _) enough
  obtain ⟨last, rfl⟩ : ∃ less, last = less + 1 := ⟨last - 1, by omega⟩
  rw [parse, if_neg going]
  split
  · rename_i kind
    exact absurd kind plain.2.1
  · rename_i kind
    exact absurd kind plain.2.2.1
  · rename_i kind
    exact absurd kind plain.2.2.2
  · rw [reads]
    exact chain_stops (.boundary ends) (by simp) e last

theorem Linked.plain {links : List Link} (linked : Linked tokens links) :
    ∀ link ∈ links, link.operand.root? = none := by
  induction linked with
  | nil => nofun
  | cons sign signed later ih => exact List.forall_mem_cons.mpr ⟨signed.root, ih⟩

theorem chain_read {reading : Expr × List Link} (spelled : Spelled tokens reading)
    (here : c.tokens = tokens ++ rest) (inline : ∀ t ∈ tokens, t.opensLine = false)
    (ends : (c.behind rest).atBoundary = true) :
    ∃ e : Expr, parse (readingDepth c) c = .ok (e, c.behind rest) ∧ e.Grouped ∧
      e.inOrder = reading ∧
        ∀ other : Expr, other.Grouped → other.inOrder = reading → other = e := by
  obtain ⟨e, grouped, same⟩ : ∃ e : Expr, e.Grouped ∧ e.inOrder = reading := by
    obtain ⟨front, back, _, signed, linked⟩ := spelled
    exact exists_grouped signed.root linked.plain
  have reads : ∀ tree : Expr, tree.Grouped → tree.inOrder = reading →
      parse (readingDepth c) c = .ok (tree, c.behind rest) := by
    intro tree fits reading
    apply parse_read fits (reading ▸ spelled) here inline ends
    unfold readingDepth
    omega
  refine ⟨e, reads e grouped same, grouped, same, fun other fits reading => ?_⟩
  have both := (reads other fits reading).symm.trans (reads e grouped same)
  cases both
  rfl

end Chains

end Expr

end PureJs
