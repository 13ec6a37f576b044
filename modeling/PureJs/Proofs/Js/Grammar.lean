import PureJs.Js.Basic
import PureJs.Proofs.Js.IdentifierNames

/-!
The grammar of JavaScript expressions, as far as modules are compiled to them: which operator tree a
list of lexemes has. No list has two, and so a text that is read has one meaning.
-/

namespace PureJs.Js

inductive Lexeme
  | word (text : String)
  | number (text : String)
  | string (text : String)
  | sign (text : String)
  deriving DecidableEq, Repr

mutual

inductive Tree
  | number (text : String)
  | string (text : String)
  | bool (value : Bool)
  | name (text : String)
  | array (items : List Tree)
  | property (object : Tree) (name : String)
  | entry (object key : Tree)
  | call (callee : Tree) (args : List Tree)
  | cond (condition yes no : Tree)
  | binary (op : Operator) (left right : Tree)
  | negate (operand : Tree)
  | function (params : List String) (body : List TreeStatement)

inductive TreeStatement
  | var (name : String) (value : Tree)
  | give (value : Tree)
  | run (value : Tree)

end

def keywords : List String := strictReserved.filter (· ∉ ["arguments", "eval"])

/-- How tightly the operator binds. Conditionals are at level zero, and all operators group from the
left. -/
def Operator.level : Operator → Nat
  | or => 1
  | and => 2
  | strictEqual | strictNotEqual => 3
  | less | lessEqual | greater | greaterEqual => 4
  | add | sub => 5
  | mul | div | mod => 6

def Operator.all : List Operator := [
  or, and, strictEqual, strictNotEqual, less, lessEqual, greater, greaterEqual, add, sub, mul, div,
  mod]

/-- The levels of signs in front of an operand, of calls and members, and of what stands by
itself. -/
def unaryLevel : Nat := 7

def callLevel : Nat := 8

def primaryLevel : Nat := 9

inductive ReadsNames : List Lexeme → List String → Prop
  | none : ReadsNames [] []
  | last {name : String} (free : name ∉ strictReserved) : ReadsNames [.word name] [name]
  | next {name other : String} {lexemes : List Lexeme} {names : List String}
    (free : name ∉ strictReserved) (later : ReadsNames lexemes (other :: names)) :
    ReadsNames (.word name :: .sign "," :: lexemes) (name :: other :: names)

mutual

inductive ReadsPrimary : List Lexeme → Tree → Prop
  | number {text : String} : ReadsPrimary [.number text] (.number text)
  | string {text : String} : ReadsPrimary [.string text] (.string text)
  | yes : ReadsPrimary [.word "true"] (.bool true)
  | no : ReadsPrimary [.word "false"] (.bool false)
  | name {text : String} (free : text ∉ keywords) : ReadsPrimary [.word text] (.name text)
  | array {inner : List Lexeme} {items : List Tree} (each : ReadsItems inner items) :
    ReadsPrimary (.sign "[" :: (inner ++ [.sign "]"])) (.array items)
  | paren {inner : List Lexeme} {tree : Tree} (reads : Reads 0 inner tree) :
    ReadsPrimary (.sign "(" :: (inner ++ [.sign ")"])) tree
  | function {front inner : List Lexeme} {params : List String} {body : List TreeStatement}
    (named : ReadsNames front params) (runs : ReadsBody inner body) :
    ReadsPrimary (.word "function" :: .sign "(" ::
      (front ++ .sign ")" :: .sign "\x7b" :: (inner ++ [.sign "\x7d"]))) (.function params body)

/-- The lexemes are an expression of the level, or one that binds more tightly. -/
inductive Reads : Nat → List Lexeme → Tree → Prop
  | primary {lexemes : List Lexeme} {tree : Tree} (reads : ReadsPrimary lexemes tree) :
    Reads primaryLevel lexemes tree
  | tighter {level : Nat} {lexemes : List Lexeme} {tree : Tree}
    (reads : Reads (level + 1) lexemes tree) : Reads level lexemes tree
  | longer {level : Nat} {front back : List Lexeme} {left tree : Tree}
    (reads : Reads level front left) (goes : GoesOn level left back tree) :
    Reads level (front ++ back) tree
  | negate {inner : List Lexeme} {tree : Tree} (reads : Reads unaryLevel inner tree) :
    Reads unaryLevel (.sign "-" :: inner) (.negate tree)
  | cond {first second third : List Lexeme} {condition yes no : Tree}
    (test : Reads 1 first condition) (left : Reads 0 second yes) (right : Reads 0 third no) :
    Reads 0 (first ++ .sign "?" :: (second ++ .sign ":" :: third)) (.cond condition yes no)

/-- With the lexemes behind it, an expression of the level is a longer one of the level. -/
inductive GoesOn : Nat → Tree → List Lexeme → Tree → Prop
  | operator {op : Operator} {lexemes : List Lexeme} {left right : Tree}
    (reads : Reads (op.level + 1) lexemes right) :
    GoesOn op.level left (.sign op.text :: lexemes) (.binary op left right)
  | call {callee : Tree} {inner : List Lexeme} {args : List Tree} (each : ReadsItems inner args) :
    GoesOn callLevel callee (.sign "(" :: (inner ++ [.sign ")"])) (.call callee args)
  | property {object : Tree} {name : String} :
    GoesOn callLevel object [.sign ".", .word name] (.property object name)
  | entry {object key : Tree} {inner : List Lexeme} (reads : Reads 0 inner key) :
    GoesOn callLevel object (.sign "[" :: (inner ++ [.sign "]"])) (.entry object key)

inductive ReadsItems : List Lexeme → List Tree → Prop
  | none : ReadsItems [] []
  | last {lexemes : List Lexeme} {tree : Tree} (reads : Reads 0 lexemes tree) :
    ReadsItems lexemes [tree]
  | next {front back : List Lexeme} {tree other : Tree} {trees : List Tree}
    (reads : Reads 0 front tree) (later : ReadsItems back (other :: trees)) :
    ReadsItems (front ++ .sign "," :: back) (tree :: other :: trees)

/-- The statements of a function. One that begins with the word for functions would declare one. -/
inductive ReadsBody : List Lexeme → List TreeStatement → Prop
  | none : ReadsBody [] []
  | var {name : String} {value rest : List Lexeme} {tree : Tree} {body : List TreeStatement}
    (free : name ∉ strictReserved) (reads : Reads 0 value tree) (later : ReadsBody rest body) :
    ReadsBody (.word "var" :: .word name :: .sign "=" :: (value ++ .sign ";" :: rest))
      (.var name tree :: body)
  | give {value rest : List Lexeme} {tree : Tree} {body : List TreeStatement}
    (reads : Reads 0 value tree) (later : ReadsBody rest body) :
    ReadsBody (.word "return" :: (value ++ .sign ";" :: rest)) (.give tree :: body)
  | run {value rest : List Lexeme} {tree : Tree} {body : List TreeStatement}
    (plain : value.head? ≠ some (.word "function")) (reads : Reads 0 value tree)
    (later : ReadsBody rest body) :
    ReadsBody (value ++ .sign ";" :: rest) (.run tree :: body)

end

/-! What expressions begin and go on with -/

namespace Lexeme

def starts : Lexeme → Bool
  | number _ | string _ => true
  | word text => text ∉ keywords || text ∈ ["true", "false", "function"]
  | sign text => text ∈ ["(", "[", "-"]

def continues (level : Nat) : Lexeme → Bool
  | sign text =>
    level = 0 && text = "?" || level ≤ callLevel && text ∈ ["(", "[", "."] ||
      Operator.all.any fun op => level ≤ op.level && text = op.text
  | _ => false

end Lexeme

/-- Expressions begin with a lexeme that expressions can begin with, and those that can be called
with no sign. -/
theorem ReadsPrimary.begins {lexemes : List Lexeme} {tree : Tree}
    (reads : ReadsPrimary lexemes tree) : ∃ first rest, lexemes = first :: rest ∧
      first.starts = true ∧ first ≠ .sign "-" := by
  cases reads with
  | number | string => exact ⟨_, _, rfl, rfl, nofun⟩
  | yes | no => exact ⟨_, _, rfl, by decide, nofun⟩
  | name free => exact ⟨_, _, rfl, by simp [Lexeme.starts, free], nofun⟩
  | array | paren => exact ⟨_, _, rfl, by decide, by decide⟩
  | function => exact ⟨_, _, rfl, by decide, nofun⟩

theorem Reads.begins {level : Nat} {lexemes : List Lexeme} {tree : Tree} :
    Reads level lexemes tree → ∃ first rest, lexemes = first :: rest ∧ first.starts = true ∧
      (callLevel ≤ level → first ≠ .sign "-")
  | .primary reads => by
    obtain ⟨first, rest, same, starts, plain⟩ := reads.begins
    exact ⟨first, rest, same, starts, fun _ => plain⟩
  | .tighter reads => by
    obtain ⟨first, rest, same, starts, plain⟩ := reads.begins
    exact ⟨first, rest, same, starts, fun call => plain (Nat.le_succ_of_le call)⟩
  | .longer reads _ => by
    obtain ⟨first, rest, rfl, starts, plain⟩ := reads.begins
    exact ⟨first, _, rfl, starts, plain⟩
  | .negate _ => ⟨_, _, rfl, by decide, fun call => absurd call (by decide)⟩
  | .cond test _ _ => by
    obtain ⟨first, rest, rfl, starts, _⟩ := test.begins
    exact ⟨first, _, rfl, starts, fun call => absurd call (by decide)⟩

end PureJs.Js
