import PureJs.Syntax.Expr

/-!
Operands with operators between them, and the trees that group them by precedence. There is such a
tree for all operands and operators: each operator in turn is attached on the right of the tree
before it, below the operators that bind less tightly.
-/

namespace PureJs

theorem Operator.same_side {op other : Operator} (same : op.precedence = other.precedence) :
    op.groupsRight = other.groupsRight := by
  cases op <;> cases other <;> first | rfl | cases same

theorem Operator.below_right {op other : Operator} :
    op.precedence < other.rightPrecedence ↔ op.precedence < other.precedence ∨
      other.precedence = op.precedence ∧ op.groupsRight = false := by
  unfold rightPrecedence
  constructor
  · intro below
    split at below
    · exact .inl below
    · rename_i left
      by_cases same : other.precedence = op.precedence
      · exact .inr ⟨same, by simpa [← same_side same] using left⟩
      · omega
  · rintro (below | ⟨same, left⟩)
    · split <;> omega
    · rw [if_neg (by simp [same_side same, left])]
      omega

namespace Expr

def root? : Expr → Option Operator
  | binary _ op _ _ => some op
  | _ => none

def FitsLeft (op : Operator) (e : Expr) : Prop :=
  ∀ inner ∈ e.root?, op.precedence < inner.precedence ∨
    inner.precedence = op.precedence ∧ op.groupsRight = false

def FitsRight (op : Operator) (e : Expr) : Prop :=
  ∀ inner ∈ e.root?, op.precedence < inner.precedence ∨
    inner.precedence = op.precedence ∧ op.groupsRight = true

/-- Every operator of the tree binds less tightly than those at the roots of its operands, or as
tightly as the one on the side that it groups from. -/
inductive Grouped : Expr → Prop
  | operand {e : Expr} (plain : e.root? = none) : Grouped e
  | binary {place : Position} {op : Operator} {left right : Expr} (before : left.FitsLeft op)
    (behind : right.FitsRight op) (first : left.Grouped) (second : right.Grouped) :
    Grouped (.binary place op left right)

structure Link where
  place : Position
  op : Operator
  operand : Expr

/-- The operands of a tree of operators from left to right, with the operators between them. -/
def inOrder : Expr → Expr × List Link
  | binary place op left right =>
    (left.inOrder.1, left.inOrder.2 ++ ⟨place, op, right.inOrder.1⟩ :: right.inOrder.2)
  | e => (e, [])

theorem inOrder_plain {e : Expr} (plain : e.root? = none) : e.inOrder = (e, []) := by
  cases e <;> first | rfl | cases plain

def attach (link : Link) : Expr → Expr
  | binary place op left right =>
    if link.op.precedence < op.rightPrecedence then
      binary link.place link.op (binary place op left right) link.operand
    else binary place op left (right.attach link)
  | e => binary link.place link.op e link.operand

theorem attach_plain {e : Expr} (plain : e.root? = none) (link : Link) :
    e.attach link = binary link.place link.op e link.operand := by
  cases e <;> first | rfl | cases plain

theorem inOrder_attach {link : Link} (plain : link.operand.root? = none) {e : Expr}
    (grouped : e.Grouped) :
    (e.attach link).inOrder = (e.inOrder.1, e.inOrder.2 ++ [link]) := by
  have alone : ∀ e, (binary link.place link.op e link.operand).inOrder =
      (e.inOrder.1, e.inOrder.2 ++ [link]) := by
    intro e
    rw [inOrder, inOrder_plain plain]
  induction grouped with
  | operand here => rw [attach_plain here, alone]
  | @binary place op left right before behind first second _ ih =>
    rw [attach]
    split
    · exact alone _
    · simp [inOrder, ih]

theorem root_attach (link : Link) (e : Expr) :
    (e.attach link).root? = some link.op ∨ (e.attach link).root? = e.root? := by
  cases plain : e.root? with
  | none => exact .inl (by rw [attach_plain plain]; rfl)
  | some op =>
    cases e with
    | binary place op left right =>
      rw [attach]
      split
      · exact .inl rfl
      · exact .inr plain
    | _ => cases plain

theorem grouped_attach {link : Link} (plain : link.operand.root? = none) {e : Expr}
    (grouped : e.Grouped) : (e.attach link).Grouped := by
  have last : link.operand.FitsRight link.op := by simp [FitsRight, plain]
  induction grouped with
  | operand here =>
    rw [attach_plain here]
    exact .binary (by simp [FitsLeft, here]) last (.operand here) (.operand plain)
  | @binary place op left right before behind first second _ ih =>
    rw [attach]
    split
    · rename_i below
      refine .binary ?_ last (.binary before behind first second) (.operand plain)
      rintro inner ⟨⟩
      exact Operator.below_right.mp below
    · rename_i inside
      refine .binary before ?_ first ih
      rcases root_attach link right with root | root
      · rw [FitsRight, root]
        rintro inner ⟨⟩
        by_cases same : link.op.precedence = op.precedence
        · refine .inr ⟨same, ?_⟩
          cases side : op.groupsRight with
          | true => rfl
          | false =>
            rw [← Operator.same_side same] at side
            exact absurd (Operator.below_right.mpr (.inr ⟨same.symm, side⟩)) inside
        · have above : ¬link.op.precedence < op.precedence :=
            fun lower => inside (Operator.below_right.mpr (.inl lower))
          omega
      · rw [FitsRight, root]
        exact behind

theorem exists_grouped {first : Expr} {links : List Link} (plain : first.root? = none)
    (each : ∀ link ∈ links, link.operand.root? = none) :
    ∃ e : Expr, e.Grouped ∧ e.inOrder = (first, links) := by
  suffices ∀ e : Expr, e.Grouped → ∃ all : Expr, all.Grouped ∧
      all.inOrder = (e.inOrder.1, e.inOrder.2 ++ links) by
    simpa [inOrder_plain plain] using this first (.operand plain)
  induction links with
  | nil => exact fun e grouped => ⟨e, grouped, by simp⟩
  | cons link links ih =>
    rw [List.forall_mem_cons] at each
    intro e grouped
    obtain ⟨all, fits, reading⟩ := ih each.2 (e.attach link) (grouped_attach each.1 grouped)
    exact ⟨all, fits, by simp [reading, inOrder_attach each.1 grouped]⟩

end Expr

end PureJs
