import Mathlib.Algebra.Ring.Int.Defs
import PureJs.Proofs.Syntax.Cursor
import PureJs.Syntax.ExprParser

/-!
Where a token can stand that opens its line to the left of what it belongs to. The layout is looked
at before expressions, arguments and operators; it is not before `then` and `else`, in the heads
that name parameters, and between an operator and its operand.
-/

namespace PureJs

def TokenKind.turn : TokenKind → Int
  | .mark .leftParen | .mark .leftBracket => 1
  | .mark .rightParen | .mark .rightBracket => -1
  | _ => 0

namespace Token

def turn (token : Token) : Int := token.kind.turn

def depth (tokens : List Token) : Int := (tokens.map turn).sum

@[simp] theorem depth_nil : depth [] = 0 := rfl

@[simp] theorem depth_cons (token : Token) (rest : List Token) :
    depth (token :: rest) = token.turn + depth rest := by
  simp [depth]

@[simp] theorem depth_append (front back : List Token) :
    depth (front ++ back) = depth front + depth back := by
  simp [depth]

structure Balanced (tokens : List Token) : Prop where
  total : depth tokens = 0
  open_first : ∀ before after, tokens = before ++ after → 0 ≤ depth before

theorem balanced_flat {tokens : List Token} (flat : ∀ token ∈ tokens, token.turn = 0) :
    Balanced tokens := by
  induction tokens with
  | nil =>
    constructor
    · rfl
    · intro before after split
      rw [(List.append_eq_nil_iff.mp split.symm).1]
      exact Int.le_refl 0
  | cons token rest ih =>
    rw [List.forall_mem_cons] at flat
    have tail := ih flat.2
    constructor
    · rw [depth_cons, flat.1, tail.total]
      rfl
    · intro before after split
      cases before with
      | nil => exact Int.le_refl 0
      | cons first more =>
        rw [List.cons_append, List.cons.injEq] at split
        have below := tail.open_first more after split.2
        rw [depth_cons, ← split.1, flat.1]
        omega

theorem Balanced.append {front back : List Token} (first : Balanced front)
    (second : Balanced back) : Balanced (front ++ back) := by
  constructor
  · rw [depth_append, first.total, second.total]
    rfl
  · intro before after split
    rcases List.append_eq_append_iff.mp split with ⟨more, rfl, rest⟩ | ⟨more, inside, _⟩
    · have above := second.open_first more after rest
      have total := first.total
      rw [depth_append]
      omega
    · exact first.open_first before more inside

theorem Balanced.cons {token : Token} {tokens : List Token} (flat : token.turn = 0)
    (balanced : Balanced tokens) : Balanced (token :: tokens) := by
  have alone : Balanced [token] := balanced_flat (by simpa using flat)
  exact alone.append balanced

theorem Balanced.inside {opening closing : Token} {tokens before after : List Token} {t : Token}
    (balanced : Balanced tokens) (opens : opening.turn = 1)
    (split : opening :: tokens ++ [closing] = before ++ t :: after) (some : before ≠ []) :
    0 < depth before := by
  cases before with
  | nil => exact absurd rfl some
  | cons first more =>
    rw [List.cons_append, List.cons_append, List.cons.injEq] at split
    obtain ⟨rfl, split⟩ := split
    have above : 0 ≤ depth more := by
      rcases List.append_eq_append_iff.mp split with ⟨others, rfl, last⟩ | ⟨others, here, _⟩
      · cases others with
        | nil => simp [balanced.total]
        | cons _ _ => simp at last
      · exact balanced.open_first more others here
    rw [depth_cons, opens]
    omega

theorem Balanced.bracketed {opening closing : Token} {tokens : List Token}
    (balanced : Balanced tokens) (opens : opening.turn = 1) (closes : closing.turn = -1) :
    Balanced (opening :: tokens ++ [closing]) := by
  constructor
  · simp [balanced.total, opens, closes]
  · intro before after split
    cases after with
    | nil =>
      rw [List.append_nil] at split
      simp [← split, balanced.total, opens, closes]
    | cons t after =>
      cases before with
      | nil => exact Int.le_refl 0
      | cons first more =>
        exact Int.le_of_lt (balanced.inside opens split (List.cons_ne_nil first more))

end Token

open Token

/-- The kinds of the tokens that name what an expression goes on to use: the parameters of a lambda,
a name of a `let` with its parameters, and the name of a bind. -/
inductive Head : List TokenKind → Prop
  | lambda (params : Nat) :
    Head (.mark .backslash :: List.replicate (params + 1) .identifier ++ [.mark .arrow])
  | define (params : Nat) :
    Head (.keyword .letWord :: List.replicate (params + 1) .identifier ++ [.mark .assign])
  | bind : Head [.identifier, .mark .leftArrow]

theorem Head.flat {kinds : List TokenKind} (head : Head kinds) : ∀ kind ∈ kinds, kind.turn = 0 := by
  intro kind member
  cases head with
  | lambda params | define params =>
    simp only [List.cons_append, List.mem_cons, List.mem_append, List.mem_replicate,
      List.not_mem_nil, or_false] at member
    rcases member with rfl | ⟨_, rfl⟩ | rfl <;> rfl
  | bind =>
    simp only [List.mem_cons, List.not_mem_nil, or_false] at member
    rcases member with rfl | rfl <;> rfl

def blockStarts : List TokenKind := [.mark .backslash, .keyword .ifWord, .keyword .doWord]

inductive Unchecked (before : List Token) (t : Token) (after : List Token) : Prop
  | branch (word : t.kind = .keyword .thenWord ∨ t.kind = .keyword .elseWord)
  /-- it stands in a head, after the first token of it -/
  | head {front middle back rest : List Token} {first : Token}
    (left : before = front ++ first :: middle) (right : after = back ++ rest)
    (head : Head ((first :: middle ++ t :: back).map Token.kind))
  /-- it comes after an operator or a minus sign, and begins no lambda, conditional or do block -/
  | operand {front : List Token} {mark : Token} {op : Operator} (left : before = front ++ [mark])
    (sign : mark.kind = .mark op.mark)
    (plain : t.kind ∉ blockStarts)

/-- The token can stand in an inner do block, the first statement of which begins inside a line and
not to the right of the token. -/
inductive InnerBlock (before : List Token) (t : Token) : Prop
  | intro {front middle : List Token} {word first : Token}
    (left : before = front ++ word :: first :: middle) (word : word.kind = .keyword .doWord)
    (level : depth front = 0) (inside : first.opensLine = false) (reached : first.column ≤ t.column)

/-- Behind the first of the tokens, one that opens its line at the column or to the left of it, and
stands outside parentheses and brackets, is taken without regard to the layout or stands where an
inner do block has begun inside a line and no further right. -/
def Kept (column : Nat) (tokens : List Token) : Prop :=
  ∀ before t after, tokens = before ++ t :: after → before ≠ [] → depth before = 0 →
    t.opensLine = true → t.column ≤ column → Unchecked before t after ∨ InnerBlock before t

def Starts (column : Nat) (tokens : List Token) : Prop :=
  ∀ t rest, tokens = t :: rest → t.opensLine = true → column < t.column

theorem starts_cons {column : Nat} {token : Token} {rest : List Token}
    (further : token.opensLine = true → column < token.column) : Starts column (token :: rest) := by
  intro t others same
  cases same
  exact further

theorem Unchecked.behind {before after : List Token} {t : Token} (front : List Token)
    (unchecked : Unchecked before t after) : Unchecked (front ++ before) t after := by
  cases unchecked with
  | branch word => exact .branch word
  | head left right head =>
    subst left
    exact .head (List.append_assoc ..).symm right head
  | operand left sign plain =>
    subst left
    exact .operand (List.append_assoc ..).symm sign plain

theorem Unchecked.followed {before after : List Token} {t : Token} (back : List Token)
    (unchecked : Unchecked before t after) : Unchecked before t (after ++ back) := by
  cases unchecked with
  | branch word => exact .branch word
  | head left right head =>
    subst right
    exact .head left (List.append_assoc ..) head
  | operand left sign plain => exact .operand left sign plain

theorem InnerBlock.behind {front before : List Token} {t : Token} (level : depth front = 0)
    (inner : InnerBlock before t) : InnerBlock (front ++ before) t := by
  cases inner with
  | intro left word here inside reached =>
    subst left
    refine .intro (List.append_assoc ..).symm word ?_ inside reached
    rw [depth_append, level, here]
    rfl

namespace Kept

variable {column : Nat} {front back : List Token}

theorem mono {less : Nat} {tokens : List Token} (kept : Kept column tokens) (le : less ≤ column) :
    Kept less tokens :=
  fun before t after split some level opens here =>
    kept before t after split some level opens (Nat.le_trans here le)

theorem single (token : Token) : Kept column [token] := by
  intro before t after split some
  cases before with
  | nil => exact absurd rfl some
  | cons first rest => simp at split

/-- Of two parts, the first token of the second is the only one that has to be looked at. -/
theorem append (balanced : Balanced front) (first : Kept column front) (second : Kept column back)
    (joins : ∀ t rest, back = t :: rest → t.opensLine = true → t.column ≤ column →
      Unchecked front t rest) : Kept column (front ++ back) := by
  intro before t after split some level opens here
  rcases List.append_eq_append_iff.mp split with ⟨more, rfl, inside⟩ | ⟨more, inside, rest⟩
  · cases more with
    | nil =>
      rw [List.append_nil]
      exact .inl (joins t after inside opens here)
    | cons token others =>
      rw [depth_append, balanced.total, Int.zero_add] at level
      rcases second _ t after inside (List.cons_ne_nil token others) level opens here with
        unchecked | inner
      · exact .inl (unchecked.behind front)
      · exact .inr (inner.behind balanced.total)
  · cases more with
    | nil =>
      rw [List.append_nil] at inside
      rw [← inside]
      exact .inl (joins t after (by simpa using rest.symm) opens here)
    | cons token others =>
      rw [List.cons_append, List.cons.injEq] at rest
      obtain ⟨rfl, rfl⟩ := rest
      rcases first before t others inside some level opens here with unchecked | inner
      · exact .inl (unchecked.followed back)
      · exact .inr inner

theorem append_starts (balanced : Balanced front) (first : Kept column front)
    (second : Kept column back) (starts : Starts column back) : Kept column (front ++ back) := by
  apply append balanced first second
  intro t rest split opens here
  have further := starts t rest split opens
  omega

theorem bracketed {opening closing : Token} {tokens : List Token} (balanced : Balanced tokens)
    (opens : opening.turn = 1) : Kept column (opening :: tokens ++ [closing]) := by
  intro before t after split some level
  have above := balanced.inside opens split some
  omega

theorem of_head {tokens : List Token} (head : Head (tokens.map Token.kind)) :
    Kept column tokens := by
  intro before t after split some _ _ _
  cases before with
  | nil => exact absurd rfl some
  | cons first middle =>
    subst split
    have left : first :: middle = [] ++ first :: middle := rfl
    exact .inl (.head left (List.append_nil after).symm head)

/-- The statements of a block keep to its column; what opens a line left of that is kept by the
statements, and what opens a line right of it stands in the block. -/
theorem block {word first : Token} {rest : List Token} (isDo : word.kind = .keyword .doWord)
    (starts : Starts column (first :: rest))
    (kept : ∀ less, less < first.column → Kept less (first :: rest)) :
    Kept column (word :: first :: rest) := by
  have flat : word.turn = 0 := by simp [turn, isDo, TokenKind.turn]
  intro before t after split some level opens here
  cases before with
  | nil => exact absurd rfl some
  | cons w more =>
    rw [List.cons_append, List.cons.injEq] at split
    obtain ⟨rfl, split⟩ := split
    cases more with
    | nil =>
      have further := starts t after split opens
      omega
    | cons s middle =>
      -- left of the column of the block, its statements keep the token out; right of it, the token
      -- is one of the block, and a block that begins so far left begins inside a line
      by_cases left : t.column < first.column
      · rw [depth_cons, flat, Int.zero_add] at level
        rcases kept t.column left _ t after split (List.cons_ne_nil s middle) level opens
          (Nat.le_refl _) with unchecked | inner
        · exact .inl (unchecked.behind [word])
        · have level : depth [word] = 0 := by simp [flat]
          exact .inr (inner.behind level)
      · rw [List.cons_append, List.cons.injEq] at split
        obtain ⟨rfl, split⟩ := split
        have inside : first.opensLine = false := by
          by_contra opened
          have further := starts first rest rfl (by simpa using opened)
          omega
        have start : word :: first :: middle = [] ++ word :: first :: middle := rfl
        exact .inr (.intro start isDo rfl inside (Nat.le_of_not_lt left))

end Kept

structure Part (column : Nat) (tokens : List Token) : Prop where
  some : tokens ≠ []
  balanced : Balanced tokens
  kept : Kept column tokens

namespace Part

variable {column : Nat} {front back : List Token}

theorem single {token : Token} (flat : token.turn = 0) : Part column [token] where
  some := List.cons_ne_nil token []
  balanced := balanced_flat (by simpa using flat)
  kept := Kept.single token

theorem append (first : Part column front) (second : Part column back)
    (joins : ∀ t rest, back = t :: rest → t.opensLine = true → t.column ≤ column →
      Unchecked front t rest) : Part column (front ++ back) where
  some := List.append_ne_nil_of_left_ne_nil first.some back
  balanced := first.balanced.append second.balanced
  kept := Kept.append first.balanced first.kept second.kept joins

theorem append_starts (first : Part column front) (second : Part column back)
    (starts : Starts column back) : Part column (front ++ back) where
  some := List.append_ne_nil_of_left_ne_nil first.some back
  balanced := first.balanced.append second.balanced
  kept := Kept.append_starts first.balanced first.kept second.kept starts

theorem bracketed {opening closing : Token} {tokens : List Token} (balanced : Balanced tokens)
    (opens : opening.turn = 1) (closes : closing.turn = -1) :
    Part column (opening :: tokens ++ [closing]) where
  some := List.cons_ne_nil opening _
  balanced := balanced.bracketed opens closes
  kept := Kept.bracketed balanced opens

theorem headed (head : Head (front.map Token.kind)) (body : Part column back)
    (starts : Starts column back) : Part column (front ++ back) := by
  have balanced : Balanced front := by
    apply balanced_flat
    intro token member
    exact head.flat token.kind (List.mem_map_of_mem member)
  constructor
  · exact List.append_ne_nil_of_right_ne_nil front body.some
  · exact balanced.append body.balanced
  · exact Kept.append_starts balanced (Kept.of_head head) body.kept starts

theorem signed {mark : Token} {op : Operator} (sign : mark.kind = .mark op.mark)
    (operand : Part column back)
    (joins : Starts column back ∨
      ∀ t rest, back = t :: rest → t.kind ∉ blockStarts) :
    Part column (mark :: back) := by
  have flat : mark.turn = 0 := by
    rw [turn, sign]
    cases op <;> rfl
  have alone : Part column [mark] := single flat
  rcases joins with starts | plain
  · exact alone.append_starts operand starts
  · apply alone.append operand
    intro t rest same _ _
    exact .operand (show [mark] = [] ++ [mark] from rfl) sign (plain t rest same)

theorem block {word first : Token} {rest : List Token} (isDo : word.kind = .keyword .doWord)
    (starts : Starts column (first :: rest)) (balanced : Balanced (first :: rest))
    (kept : ∀ less, less < first.column → Kept less (first :: rest)) :
    Part column (word :: first :: rest) where
  some := List.cons_ne_nil word _
  balanced := balanced.cons (by simp [turn, isDo, TokenKind.turn])
  kept := Kept.block isDo starts kept

end Part

end PureJs
