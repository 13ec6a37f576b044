import PureJs.Proofs.Js.Outer

/-!
When values of two runs are alike. Cells of the two states that code can set are paired one to one;
cells that nothing sets any more can be paired in any number. Functions are alike if they have the
same code and take paired cells from outside, or if they are one of the given pairs of functions.
-/

namespace PureJs.Js

variable {P N W : Type}

structure Link where
  shared : Nat → Nat → Prop
  frozen : Nat → Nat → Prop

namespace Link

structure Below (k k' : Link) : Prop where
  shared : ∀ a b, k.shared a b → k'.shared a b
  frozen : ∀ a b, k.frozen a b → k'.frozen a b

theorem Below.refl (k : Link) : k.Below k := ⟨fun _ _ pair => pair, fun _ _ pair => pair⟩

theorem Below.trans {k k' k'' : Link} (one : k.Below k') (two : k'.Below k'') : k.Below k'' :=
  ⟨fun a b pair => two.shared a b (one.shared a b pair),
    fun a b pair => two.frozen a b (one.frozen a b pair)⟩

def FreeLeft (k : Link) (a : Nat) : Prop := ∀ b, ¬k.shared a b

def FreeRight (k : Link) (b : Nat) : Prop := ∀ a, ¬k.shared a b

def Loose (k : Link) (b : Nat) : Prop := ∀ a, ¬k.frozen a b

end Link

def Reaches (k : Link) (env env' : Env) (x : String) : Prop :=
  (env x = none ∧ env' x = none) ∨
    ∃ a b, env x = some a ∧ env' x = some b ∧ (k.shared a b ∨ k.frozen a b)

theorem Reaches.mono {k k' : Link} (below : k.Below k') {env env' : Env} {x : String}
    (reaches : Reaches k env env' x) : Reaches k' env env' x := by
  rcases reaches with none | ⟨a, b, first, second, pair⟩
  · exact Or.inl none
  · exact Or.inr ⟨a, b, first, second, pair.imp (below.shared a b) (below.frozen a b)⟩

/-- What two runs start from: the cells that are paired at first, and pairs of functions that count
as alike although their code differs. -/
structure Likeness (P N : Type) where
  ground : Link
  pairs : Link → Value P N → Value P N → Prop
  functions : ∀ {k v w}, pairs k v w →
    (∃ params body env, v = .closure params body env) ∧
      ∃ params body env, w = .closure params body env
  mono : ∀ {k k' v w}, k.Below k' → pairs k v w → pairs k' v w

section Same

variable (r : Likeness P N)

mutual

inductive Same (k : Link) : Value P N → Value P N → Prop
  | undefined : Same k .undefined .undefined
  | prim (data : P) : Same k (.prim data) (.prim data)
  | native (function : N) : Same k (.native function) (.native function)
  | array {items items' : List (Value P N)} (same : SameAll k items items') :
      Same k (.array items) (.array items')
  | object {fields fields' : List (String × Value P N)} (same : SameFields k fields fields') :
      Same k (.object fields) (.object fields')
  | closure {params : List String} {body : List Statement} {env env' : Env}
      (reaches : ∀ x ∈ functionOuter params body, Reaches k env env' x.text) :
      Same k (.closure params body env) (.closure params body env')
  | special {v w : Value P N} (pair : r.pairs k v w) : Same k v w

inductive SameAll (k : Link) : List (Value P N) → List (Value P N) → Prop
  | nil : SameAll k [] []
  | cons {v w : Value P N} {vs ws : List (Value P N)} (first : Same k v w)
      (rest : SameAll k vs ws) : SameAll k (v :: vs) (w :: ws)

inductive SameFields (k : Link) :
    List (String × Value P N) → List (String × Value P N) → Prop
  | nil : SameFields k [] []
  | cons (key : String) {v w : Value P N} {vs ws : List (String × Value P N)}
      (first : Same k v w) (rest : SameFields k vs ws) :
      SameFields k ((key, v) :: vs) ((key, w) :: ws)

end

end Same

section Values

variable {r : Likeness P N} {k k' : Link}

mutual

theorem Same.mono (below : k.Below k') {v w : Value P N} : Same r k v w → Same r k' v w
  | .undefined => .undefined
  | .prim data => .prim data
  | .native function => .native function
  | .array same => .array (same.mono below)
  | .object same => .object (same.mono below)
  | .closure reaches => .closure fun x member => (reaches x member).mono below
  | .special pair => .special (r.mono below pair)

theorem SameAll.mono (below : k.Below k') {vs ws : List (Value P N)} :
    SameAll r k vs ws → SameAll r k' vs ws
  | .nil => .nil
  | .cons first rest => .cons (first.mono below) (rest.mono below)

theorem SameFields.mono (below : k.Below k') {vs ws : List (String × Value P N)} :
    SameFields r k vs ws → SameFields r k' vs ws
  | .nil => .nil
  | .cons key first rest => .cons key (first.mono below) (rest.mono below)

end

mutual

theorem Same.shape {v w : Value P N} : Same r k v w → v.shape = w.shape
  | .undefined | .prim _ | .native _ | .closure _ => rfl
  | .array same => congrArg Shape.array same.shapes
  | .object same => congrArg Shape.object same.shapes
  | .special pair => by
    obtain ⟨⟨_, _, _, rfl⟩, _, _, _, rfl⟩ := r.functions pair
    rfl

theorem SameAll.shapes {vs ws : List (Value P N)} :
    SameAll r k vs ws → listShapes vs = listShapes ws
  | .nil => rfl
  | .cons first rest => congrArg₂ List.cons first.shape rest.shapes

theorem SameFields.shapes {vs ws : List (String × Value P N)} :
    SameFields r k vs ws → fieldShapes vs = fieldShapes ws
  | .nil => rfl
  | .cons key first rest =>
    congrArg₂ (fun shape shapes => (key, shape) :: shapes) first.shape rest.shapes

end

theorem Same.truthy {v w : Value P N} (same : Same r k v w) (engine : Engine P N W) :
    v.truthy engine = w.truthy engine := by
  cases same with
  | special pair =>
    obtain ⟨⟨_, _, _, rfl⟩, _, _, _, rfl⟩ := r.functions pair
    rfl
  | _ => rfl

theorem Same.prim_eq {v w : Value P N} (same : Same r k v w) : v.prim? = w.prim? := by
  cases same with
  | special pair =>
    obtain ⟨⟨_, _, _, rfl⟩, _, _, _, rfl⟩ := r.functions pair
    rfl
  | _ => rfl

theorem SameAll.prims_eq {vs ws : List (Value P N)} (same : SameAll r k vs ws) :
    vs.mapM Value.prim? = ws.mapM Value.prim? := by
  induction vs generalizing ws with
  | nil =>
    cases same
    rfl
  | cons v vs ih =>
    cases same with
    | cons first rest => rw [List.mapM_cons, List.mapM_cons, first.prim_eq, ih rest]

theorem SameFields.lookup {vs ws : List (String × Value P N)} (same : SameFields r k vs ws)
    (name : String) :
    Same r k ((vs.lookup name).getD .undefined) ((ws.lookup name).getD .undefined) := by
  induction vs generalizing ws with
  | nil =>
    cases same
    exact .undefined
  | cons v vs ih =>
    cases same with
    | cons key first rest =>
      by_cases here : name = key
      · simpa [List.lookup_cons, here] using first
      · have other : (name == key) = false := by simpa using here
        simpa [List.lookup_cons, other] using ih rest

theorem SameAll.length_eq {vs ws : List (Value P N)} (same : SameAll r k vs ws) :
    vs.length = ws.length := by
  induction vs generalizing ws with
  | nil =>
    cases same
    rfl
  | cons v vs ih =>
    cases same with
    | cons first rest => exact congrArg (· + 1) (ih rest)

theorem SameAll.get {vs ws : List (Value P N)} (same : SameAll r k vs ws) {i : Nat}
    {v : Value P N} (here : vs[i]? = some v) : ∃ w, ws[i]? = some w ∧ Same r k v w := by
  induction vs generalizing ws i with
  | nil => simp at here
  | cons first others ih =>
    cases same with
    | cons pair rest =>
      cases i with
      | zero =>
        simp only [List.getElem?_cons_zero, Option.some.injEq] at here
        exact ⟨_, rfl, here ▸ pair⟩
      | succ i => exact ih rest here

theorem SameAll.undefined (count : Nat) :
    SameAll r k (List.replicate count .undefined) (List.replicate count .undefined) := by
  induction count with
  | zero => exact .nil
  | succ count ih => exact .cons .undefined ih

theorem SameAll.append {vs ws vs' ws' : List (Value P N)} (left : SameAll r k vs ws)
    (right : SameAll r k vs' ws') : SameAll r k (vs ++ vs') (ws ++ ws') := by
  induction vs generalizing ws with
  | nil =>
    cases left
    exact right
  | cons v vs ih =>
    cases left with
    | cons first rest => exact .cons first (ih rest)

theorem SameAll.take {vs ws : List (Value P N)} (same : SameAll r k vs ws) (count : Nat) :
    SameAll r k (vs.take count) (ws.take count) := by
  induction vs generalizing ws count with
  | nil =>
    cases same
    simpa using SameAll.nil
  | cons v vs ih =>
    cases same with
    | cons first rest =>
      cases count with
      | zero => exact .nil
      | succ count => exact .cons first (ih rest count)

theorem SameAll.fill {vs ws : List (Value P N)} (same : SameAll r k vs ws) (count : Nat) :
    SameAll r k (Value.fill count vs) (Value.fill count ws) := by
  unfold Value.fill
  rw [same.length_eq]
  exact (same.take count).append (SameAll.undefined _)

end Values

end PureJs.Js
