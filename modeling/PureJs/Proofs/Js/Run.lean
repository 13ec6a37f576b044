import PureJs.Js.Basic

/-!
How JavaScript code runs, as far as modules are compiled to it. Variables are cells that functions
capture, so that a function sees what its variables hold when it is called. The variables of a
function exist from its start and are set by that function only. What the code works on beyond
functions, arrays and objects is left to an engine, and so is the world outside.

Runs are bounded by a level: each call and each further round of a loop is one level down. Code that
has no result at a level runs on, or fails.
-/

namespace PureJs.Js

abbrev Env := String → Option Nat

def Env.empty : Env := fun _ => none

def Env.within (own outer : Env) : Env := fun x => (own x).or (outer x)

def Env.frame (names : List String) (start : Nat) : Env := fun x =>
  if x ∈ names then some (start + names.idxOf x) else none

/-- What code works on: `P` is the data of the engine, `N` are its functions. -/
inductive Value (P N : Type)
  | undefined
  | prim (data : P)
  | native (function : N)
  | array (items : List (Value P N))
  | object (fields : List (String × Value P N))
  | closure (params : List String) (body : List Statement) (env : Env)

structure State (P N W : Type) where
  cells : List (Value P N)
  world : W

structure Engine (P N W : Type) where
  integer : Int → P
  number : String → P
  string : String → P
  bool : Bool → P
  truthy : P → Bool
  negate : P → Option P
  binary : Operator → P → P → Option P
  native : N → List P → W → Option (P × W)

inductive Outcome (P N : Type)
  | passed
  | given (value : Value P N)
  | again (label : String)

variable {P N W : Type}

abbrev Run (P N W α : Type) := Option (α × State P N W)

namespace Run

variable {α β : Type}

def andThen (run : Run P N W α) (next : α → State P N W → Run P N W β) : Run P N W β :=
  match run with
  | none => none
  | some (value, s) => next value s

theorem andThen_assoc {γ : Type} (run : Run P N W α) (next : α → State P N W → Run P N W β)
    (last : β → State P N W → Run P N W γ) :
    (run.andThen next).andThen last = run.andThen fun value s => (next value s).andThen last := by
  cases run <;> rfl

theorem andThen_pure (run : Run P N W α) : (run.andThen fun value s => some (value, s)) = run := by
  cases run <;> rfl

theorem andThen_none (run : Run P N W α) : (run.andThen fun _ _ => none : Run P N W β) = none := by
  cases run <;> rfl

end Run

namespace Value

def prim? : Value P N → Option P
  | prim data => some data
  | _ => none

def truthy (engine : Engine P N W) : Value P N → Bool
  | undefined => false
  | prim data => engine.truthy data
  | _ => true

def field? (name : String) : Value P N → Option (Value P N)
  | object fields => some ((fields.lookup name).getD undefined)
  | _ => none

def fill (count : Nat) (values : List (Value P N)) : List (Value P N) :=
  values.take count ++ List.replicate (count - values.length) undefined

end Value

def Operator.stopsAt : Operator → Option Bool
  | or => some true
  | and => some false
  | _ => none

/-- What the code of a module stands in: the engine, and the values that are bound around it. -/
structure Context (P N W : Type) where
  engine : Engine P N W
  globals : String → Option (Value P N)

structure Level (P N W : Type) where
  call : Value P N → List (Value P N) → State P N W → Run P N W (Value P N)
  loop : Env → Env → String → List Statement → State P N W → Run P N W (Outcome P N)

namespace State

def read (c : Context P N W) (env : Env) (name : String) (s : State P N W) : Option (Value P N) :=
  match env name with
  | some cell => s.cells[cell]?
  | none => c.globals name

def set (own : Env) (name : String) (value : Value P N) (s : State P N W) :
    Run P N W (Outcome P N) :=
  (own name).map fun cell => (.passed, { s with cells := s.cells.set cell value })

end State

section Eval

variable (c : Context P N W) (l : Level P N W)

mutual

def Expr.eval (env : Env) : Expr → State P N W → Run P N W (Value P N)
  | .integer value, s => some (.prim (c.engine.integer value), s)
  | .number text, s => some (.prim (c.engine.number text), s)
  | .string value, s => some (.prim (c.engine.string value), s)
  | .bool value, s => some (.prim (c.engine.bool value), s)
  | .array items, s => (listEval env items s).andThen fun values s => some (.array values, s)
  | .name text, s => (s.read c env text).map (·, s)
  | .property object name, s | .entry object name, s =>
    (object.eval env s).andThen fun value s => (value.field? name).map (·, s)
  | .call callee args, s =>
    (callee.eval env s).andThen fun function s =>
      (listEval env args s).andThen fun values s => l.call function values s
  | .paren inner, s => inner.eval env s
  | .cond condition yes no, s =>
    (condition.eval env s).andThen fun value s =>
      if value.truthy c.engine then yes.eval env s else no.eval env s
  | .binary op left right, s =>
    (left.eval env s).andThen fun first s =>
      if op.stopsAt = some (first.truthy c.engine) then some (first, s)
      else (right.eval env s).andThen fun second s =>
        if op.stopsAt.isSome then some (second, s)
        else first.prim?.bind fun a => second.prim?.bind fun b =>
          (c.engine.binary op a b).map fun data => (.prim data, s)
  | .negate operand, s =>
    (operand.eval env s).andThen fun value s =>
      value.prim?.bind fun data => (c.engine.negate data).map fun data => (.prim data, s)
  | .function params body, s => some (.closure params body env, s)
  | .object properties, s =>
    (propertiesEval env properties s).andThen fun fields s => some (.object fields, s)
  | .hole, _ => none

def listEval (env : Env) : List Expr → State P N W → Run P N W (List (Value P N))
  | [], s => some ([], s)
  | e :: rest, s =>
    (e.eval env s).andThen fun value s =>
      (listEval env rest s).andThen fun values s => some (value :: values, s)

def propertiesEval (env : Env) :
    List (String × Expr) → State P N W → Run P N W (List (String × Value P N))
  | [], s => some ([], s)
  | (key, e) :: rest, s =>
    (e.eval env s).andThen fun value s =>
      (propertiesEval env rest s).andThen fun fields s => some ((key, value) :: fields, s)

end

def loopRound (own outer : Env) (label : String) (body : List Statement) (outcome : Outcome P N)
    (s : State P N W) : Run P N W (Outcome P N) :=
  match outcome with
  | .given value => some (.given value, s)
  | .passed => l.loop own outer label body s
  | .again other =>
    if other = label then l.loop own outer label body s else some (.again other, s)

mutual

def Statement.exec (own outer : Env) : Statement → State P N W → Run P N W (Outcome P N)
  | .var name value, s | .assign (.name name) value, s =>
    (value.eval c l (own.within outer) s).andThen fun value s => s.set own name value
  | .assign _ _, _ | .verbatim _, _ => none
  | .give value, s =>
    (value.eval c l (own.within outer) s).andThen fun value s => some (.given value, s)
  | .run value, s => (value.eval c l (own.within outer) s).andThen fun _ s => some (.passed, s)
  | .branch condition yes no, s =>
    (condition.eval c l (own.within outer) s).andThen fun value s =>
      if value.truthy c.engine then bodyExec own outer yes s else bodyExec own outer no s
  | .loop label body, s =>
    (bodyExec own outer body s).andThen fun outcome s =>
      loopRound l own outer label body outcome s
  | .again label, s => some (.again label, s)

def bodyExec (own outer : Env) : List Statement → State P N W → Run P N W (Outcome P N)
  | [], s => some (.passed, s)
  | statement :: rest, s =>
    (statement.exec own outer s).andThen fun outcome s =>
      match outcome with
      | .passed => bodyExec own outer rest s
      | other => some (other, s)

end

theorem body_exec_single (own outer : Env) (statement : Statement) (s : State P N W) :
    bodyExec c l own outer [statement] s = statement.exec c l own outer s := by
  rw [bodyExec]
  cases statement.exec c l own outer s with
  | none => rfl
  | some result =>
    obtain ⟨outcome, _⟩ := result
    cases outcome <;> rfl

end Eval

mutual

def Statement.variables : Statement → List String
  | .var name _ => [name]
  | .branch _ yes no => bodyVariables yes ++ bodyVariables no
  | .loop _ body => bodyVariables body
  | .assign _ _ | .give _ | .run _ | .again _ | .verbatim _ => []

def bodyVariables : List Statement → List String
  | [] => []
  | s :: rest => s.variables ++ bodyVariables rest

end

def State.enter (params : List String) (body : List Statement) (args : List (Value P N))
    (s : State P N W) : State P N W :=
  { s with cells := s.cells ++ (Value.fill params.length args ++
      List.replicate (bodyVariables body).length .undefined) }

def ownVariables (params : List String) (body : List Statement) (start : Nat) : Env :=
  Env.frame (params ++ bodyVariables body) start

def callResult (outcome : Outcome P N) (s : State P N W) : Run P N W (Value P N) :=
  match outcome with
  | .given value => some (value, s)
  | .passed => some (.undefined, s)
  | .again _ => none

def functionValue : Expr → Option (Value P N)
  | .function params body => some (.closure params body Env.empty)
  | _ => none

def Context.declare (c : Context P N W) : Statement → Context P N W
  | .var name code =>
    { c with globals := fun x => if x = name then functionValue code else c.globals x }
  | _ => c

def Level.next (c : Context P N W) (l : Level P N W) : Level P N W where
  call function args s :=
    match function with
    | .closure params body env =>
      (bodyExec c l (ownVariables params body s.cells.length) env body
        (s.enter params body args)).andThen callResult
    | .native function =>
      (args.mapM Value.prim?).bind fun data =>
        (c.engine.native function data s.world).map fun (result, world) =>
          (.prim result, { s with world := world })
    | _ => none
  loop own outer label body s := (Statement.loop label body).exec c l own outer s

/-- The level at which calls and rounds can be nested `depth` times. -/
def level (c : Context P N W) : Nat → Level P N W
  | 0 => ⟨fun _ _ _ => none, fun _ _ _ _ _ => none⟩
  | depth + 1 => (level c depth).next c

mutual

inductive Shape (P N : Type)
  | undefined
  | prim (data : P)
  | native (function : N)
  | array (items : List (Shape P N))
  | object (fields : List (String × Shape P N))
  | function

end

mutual

def Value.shape : Value P N → Shape P N
  | .undefined => .undefined
  | .prim data => .prim data
  | .native function => .native function
  | .array items => .array (listShapes items)
  | .object fields => .object (fieldShapes fields)
  | .closure .. => .function

def listShapes : List (Value P N) → List (Shape P N)
  | [] => []
  | value :: rest => value.shape :: listShapes rest

def fieldShapes : List (String × Value P N) → List (String × Shape P N)
  | [] => []
  | (key, value) :: rest => (key, value.shape) :: fieldShapes rest

end

def observed (run : Run P N W (Value P N)) : Option (Shape P N × W) :=
  run.map fun (value, s) => (value.shape, s.world)

end PureJs.Js
