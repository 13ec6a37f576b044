import PureJs.Proofs.Js.Simulation

/-!
Calls of functions that are alike go alike, and with them whole levels. New variables are paired in
order; a state is like itself when no function in it takes cells that are not there.
-/

namespace PureJs.Js

variable {P N W : Type} {r : Likeness P N}

def State.extend (s : State P N W) (values : List (Value P N)) : State P N W :=
  { s with cells := s.cells ++ values }

theorem State.extend_old {s : State P N W} {values : List (Value P N)} {a : Nat}
    (old : a < s.cells.length) : (s.extend values).cells[a]? = s.cells[a]? :=
  List.getElem?_append_left old

theorem State.extend_nil (s : State P N W) : s.extend [] = s := by rw [extend, List.append_nil]

theorem State.extend_new {s : State P N W} {values : List (Value P N)} (i : Nat) :
    (s.extend values).cells[s.cells.length + i]? = values[i]? := by
  rw [State.extend, List.getElem?_append_right (Nat.le_add_right _ _), Nat.add_sub_cancel_left]

theorem Good.shared_old {k : Link} {s t : State P N W} (good : Good r k s t) {a b : Nat}
    (pair : k.shared a b) : a < s.cells.length ∧ b < t.cells.length := by
  obtain ⟨v, w, here, there, _⟩ := good.shared pair
  exact ⟨cell_inside here, cell_inside there⟩

theorem Good.frozen_old {k : Link} {s t : State P N W} (good : Good r k s t) {a b : Nat}
    (pair : k.frozen a b) : a < s.cells.length ∧ b < t.cells.length := by
  obtain ⟨v, w, here, there, _⟩ := good.frozen pair
  exact ⟨cell_inside here, cell_inside there⟩

theorem Good.extend {k : Link} {s t : State P N W} (good : Good r k s t)
    (vs ws : List (Value P N)) : Good r k (s.extend vs) (t.extend ws) where
  world := good.world
  ground := good.ground
  shared pair := by
    rw [State.extend_old (good.shared_old pair).1, State.extend_old (good.shared_old pair).2]
    exact good.shared pair
  frozen pair := by
    rw [State.extend_old (good.frozen_old pair).1, State.extend_old (good.frozen_old pair).2]
    exact good.frozen pair
  left := good.left
  right := good.right
  apartLeft := good.apartLeft
  apartRight := good.apartRight

theorem Moves.extend (mine : Nat → Prop) (k : Link) (s t : State P N W) (vs ws : List (Value P N)) :
    Moves mine k s t k (s.extend vs) (t.extend ws) where
  below := Link.Below.refl k
  leftSize := by simp [State.extend]
  rightSize := by simp [State.extend]
  leftFree _ _ free := free
  rightFree _ _ free := free
  leftKept _ old _ := State.extend_old old
  rightKept _ old _ _ := State.extend_old old
  loose _ _ _ loose := loose

def Link.share (k : Link) (start start' count : Nat) : Link where
  shared a b := k.shared a b ∨ ∃ i < count, a = start + i ∧ b = start' + i
  frozen := k.frozen

theorem Link.below_share (k : Link) (start start' count : Nat) :
    k.Below (k.share start start' count) :=
  ⟨fun _ _ => Or.inl, fun _ _ pair => pair⟩

theorem Good.share {k : Link} {s t : State P N W} (good : Good r k s t) {vs ws : List (Value P N)}
    (same : SameAll r k vs ws) :
    Good r (k.share s.cells.length t.cells.length vs.length) (s.extend vs) (t.extend ws) where
  world := good.world
  ground := good.ground.trans (k.below_share _ _ _)
  shared pair := by
    rcases pair with old | ⟨i, inside, rfl, rfl⟩
    · obtain ⟨v, w, here, there, alike⟩ := (good.extend vs ws).shared old
      exact ⟨v, w, here, there, alike.mono (k.below_share _ _ _)⟩
    · rw [State.extend_new, State.extend_new]
      obtain ⟨w, there, alike⟩ := same.get (List.getElem?_eq_getElem inside)
      exact ⟨_, w, List.getElem?_eq_getElem inside, there, alike.mono (k.below_share _ _ _)⟩
  frozen pair := by
    obtain ⟨v, w, here, there, alike⟩ := (good.extend vs ws).frozen pair
    exact ⟨v, w, here, there, alike.mono (k.below_share _ _ _)⟩
  left first second := by
    rcases first with old | ⟨i, _, rfl, rfl⟩ <;> rcases second with old' | ⟨j, _, equal, rfl⟩
    · exact good.left old old'
    · have := (good.shared_old old).1
      omega
    · have := (good.shared_old old').1
      omega
    · omega
  right first second := by
    rcases first with old | ⟨i, _, rfl, rfl⟩ <;> rcases second with old' | ⟨j, _, rfl, equal⟩
    · exact good.right old old'
    · have := (good.shared_old old).2
      omega
    · have := (good.shared_old old').2
      omega
    · omega
  apartLeft pair frozen := by
    rcases pair with old | ⟨i, _, rfl, rfl⟩
    · exact good.apartLeft old frozen
    · have := (good.frozen_old frozen).1
      omega
  apartRight pair frozen := by
    rcases pair with old | ⟨i, _, rfl, rfl⟩
    · exact good.apartRight old frozen
    · have := (good.frozen_old frozen).2
      omega

theorem Moves.share (mine : Nat → Prop) (k : Link) (s t : State P N W) (vs ws : List (Value P N))
    (count : Nat) :
    Moves mine k s t (k.share s.cells.length t.cells.length count) (s.extend vs) (t.extend ws) :=
  { Moves.extend mine k s t vs ws with
    below := k.below_share _ _ _
    leftFree := by
      intro a old free b pair
      rcases pair with shared | ⟨i, _, rfl, _⟩
      · exact free b shared
      · omega
    rightFree := by
      intro b old free a pair
      rcases pair with shared | ⟨i, _, _, rfl⟩
      · exact free a shared
      · omega }

theorem enter_eq_extend (params : List String) (body : List Statement) (args : List (Value P N))
    (s : State P N W) :
    s.enter params body args = s.extend (Value.fill params.length args ++
      List.replicate (bodyVariables body).length .undefined) := rfl

theorem fill_length (count : Nat) (values : List (Value P N)) :
    (Value.fill count values).length = count := by
  simp only [Value.fill, List.length_append, List.length_take, List.length_replicate]
  omega

theorem own_variables_shared (k : Link) (params : List String) (body : List Statement)
    (start start' : Nat) :
    Owns (k.share start start' (params ++ bodyVariables body).length)
      (ownVariables params body start) (ownVariables params body start') := by
  intro x
  unfold ownVariables Env.frame
  by_cases own : x ∈ params ++ bodyVariables body
  · rw [if_pos own, if_pos own]
    exact Or.inr ⟨_, _, rfl, rfl, Or.inr ⟨_, List.idxOf_lt_length_iff.mpr own, rfl, rfl⟩⟩
  · rw [if_neg own, if_neg own]
    exact Or.inl ⟨rfl, rfl⟩

theorem within_reaches {k : Link} {own own' outer outer' : Env} (owns : Owns k own own')
    {x : String} (reaches : own x = none → Reaches k outer outer' x) :
    Reaches k (own.within outer) (own'.within outer') x := by
  unfold Reaches Env.within
  rcases owns x with ⟨first, second⟩ | ⟨a, b, first, second, pair⟩
  · rw [first, second]
    exact reaches first
  · rw [first, second]
    exact Or.inr ⟨a, b, rfl, rfl, Or.inl pair⟩

theorem call_result_related {k : Link} {s t : State P N W} (good : Good r k s t)
    {o o' : Outcome P N} (same : SameOutcome r k o o') :
    Related r nobody k s t (Same r) (callResult o s) (callResult o' t) := by
  cases same with
  | passed => exact Related.pure good .undefined
  | given same => exact Related.pure good same
  | again label => trivial

section Levels

variable {c c' : Context P N W} (around : SameContext r c c') {l l' : Level P N W}
include around

theorem native_call_related {k : Link} {s t : State P N W} (good : Good r k s t) (function : N)
    {args args' : List (Value P N)} (same : SameAll r k args args') :
    Related r nobody k s t (Same r) ((l.next c).call (.native function) args s)
      ((l'.next c').call (.native function) args' t) := by
  simp only [Level.next, around.engine, same.prims_eq, good.world]
  cases args'.mapM Value.prim? with
  | none => trivial
  | some data =>
    cases result : c'.engine.native function data t.world with
    | none => simp [result, Related]
    | some pair =>
      have good' : Good r k ⟨s.cells, pair.2⟩ ⟨t.cells, pair.2⟩ :=
        ⟨rfl, good.ground, good.shared, good.frozen, good.left, good.right, good.apartLeft,
          good.apartRight⟩
      have moves : Moves nobody k s t k ⟨s.cells, pair.2⟩ ⟨t.cells, pair.2⟩ :=
        ⟨Link.Below.refl k, Nat.le_refl _, Nat.le_refl _, fun _ _ free => free,
          fun _ _ free => free, fun _ _ _ => rfl, fun _ _ _ _ => rfl, fun _ _ _ loose => loose⟩
      simpa [result] using Related.from_later moves (Related.pure good' (.prim pair.1))

variable (agree : SameLevel r l l')
include agree

theorem closure_call_related {k : Link} {s t : State P N W} (good : Good r k s t)
    {params : List String} {body : List Statement} {env env' : Env}
    (reaches : ∀ x ∈ functionOuter params body, Reaches k env env' x.text)
    {args args' : List (Value P N)} (same : SameAll r k args args') :
    Related r nobody k s t (Same r) ((l.next c).call (.closure params body env) args s)
      ((l'.next c').call (.closure params body env') args' t) := by
  have cells := (same.fill params.length).append
    (SameAll.undefined (r := r) (k := k) (bodyVariables body).length)
  have good' := good.share cells
  rw [List.length_append, fill_length, List.length_replicate, ← List.length_append] at good'
  have owns := own_variables_shared k params body s.cells.length t.cells.length
  have moves : Moves nobody k s t
      (k.share s.cells.length t.cells.length (params ++ bodyVariables body).length)
      (s.enter params body args) (t.enter params body args') := Moves.share nobody k s t _ _ _
  refine Related.from_later moves ((body_related around agree good' owns body ?_).andThen ?_)
  · intro x member
    apply within_reaches owns
    intro none
    have outside : x.text ∉ params ++ bodyVariables body := by
      intro own
      rw [ownVariables, Env.frame, if_pos own] at none
      cases none
    have taken : x ∈ functionOuter params body :=
      List.mem_filter.mpr ⟨member, decide_eq_true outside⟩
    exact (reaches x taken).mono (k.below_share _ _ _)
  · intro k' s' t' o o' _ good same
    exact call_result_related good same

theorem next_level (pairs : ∀ {k s t v w args args'}, Good r k s t → r.pairs k v w →
      SameAll r k args args' →
      Related r nobody k s t (Same r) ((l.next c).call v args s) ((l'.next c').call w args' t)) :
    SameLevel r (l.next c) (l'.next c') where
  call good same args := by
    cases same with
    | undefined => trivial
    | prim data => trivial
    | native function => exact native_call_related around good function args
    | array items => trivial
    | object fields => trivial
    | closure reaches => exact closure_call_related around agree good reaches args
    | special pair => exact pairs good pair args
  loop good owns reaches := exec_related around agree good owns (.loop _ _) reaches

end Levels

mutual

/-- All cells that the functions in the value take from outside are among the first `size` ones. -/
def Value.Within (size : Nat) : Value P N → Prop
  | .undefined | .prim _ | .native _ => True
  | .array items => listWithin size items
  | .object fields => fieldsWithin size fields
  | .closure _ _ env => ∀ x a, env x = some a → a < size

def listWithin (size : Nat) : List (Value P N) → Prop
  | [] => True
  | value :: rest => value.Within size ∧ listWithin size rest

def fieldsWithin (size : Nat) : List (String × Value P N) → Prop
  | [] => True
  | (_, value) :: rest => value.Within size ∧ fieldsWithin size rest

end

structure Closed (c : Context P N W) (env : Env) (s : State P N W) : Prop where
  cells : ∀ v ∈ s.cells, v.Within s.cells.length
  globals : ∀ x v, c.globals x = some v → v.Within s.cells.length
  env : ∀ x a, env x = some a → a < s.cells.length

/-- Every one of the first `size` cells is paired with itself. -/
def Link.whole (size : Nat) : Link where
  shared a b := a = b ∧ a < size
  frozen _ _ := False

mutual

theorem Same.refl {k : Link} {size : Nat} (whole : (Link.whole size).Below k) {v : Value P N}
    (inside : v.Within size) : Same r k v v := by
  match v with
  | .undefined => exact .undefined
  | .prim data => exact .prim data
  | .native function => exact .native function
  | .array items => exact .array (SameAll.refl whole inside)
  | .object fields => exact .object (SameFields.refl whole inside)
  | .closure params body env =>
    refine .closure fun x _ => ?_
    cases taken : env x.text with
    | none => exact Or.inl ⟨taken, taken⟩
    | some a =>
      exact Or.inr ⟨a, a, taken, taken, Or.inl (whole.shared a a ⟨rfl, inside x.text a taken⟩)⟩

theorem SameAll.refl {k : Link} {size : Nat} (whole : (Link.whole size).Below k)
    {vs : List (Value P N)} (inside : listWithin size vs) : SameAll r k vs vs := by
  match vs with
  | [] => exact .nil
  | v :: rest => exact .cons (Same.refl whole inside.1) (SameAll.refl whole inside.2)

theorem SameFields.refl {k : Link} {size : Nat} (whole : (Link.whole size).Below k)
    {vs : List (String × Value P N)} (inside : fieldsWithin size vs) : SameFields r k vs vs := by
  match vs with
  | [] => exact .nil
  | (key, v) :: rest =>
    exact .cons key (Same.refl whole inside.1) (SameFields.refl whole inside.2)

end

theorem Good.refl {s : State P N W} (ground : r.ground = Link.whole s.cells.length)
    (inside : ∀ v ∈ s.cells, v.Within s.cells.length) : Good r r.ground s s where
  world := rfl
  ground := Link.Below.refl _
  shared pair := by
    rw [ground] at pair
    obtain ⟨rfl, old⟩ := pair
    refine ⟨_, _, List.getElem?_eq_getElem old, List.getElem?_eq_getElem old, ?_⟩
    exact Same.refl (ground ▸ Link.Below.refl _) (inside _ (List.getElem_mem old))
  frozen pair := by
    rw [ground] at pair
    exact pair.elim
  left first second := by
    rw [ground] at first second
    exact first.1.symm.trans second.1
  right first second := by
    rw [ground] at first second
    exact first.1.trans second.1.symm
  apartLeft _ frozen := by
    rw [ground] at frozen
    exact frozen
  apartRight _ frozen := by
    rw [ground] at frozen
    exact frozen

theorem Related.observed_eq {k : Link} {mine : Nat → Prop} {s t : State P N W}
    {run run' : Run P N W (Value P N)} (related : Related r mine k s t (Same r) run run') :
    observed run = observed run' := by
  match run, run', related with
  | none, none, _ => rfl
  | some (v, s'), some (w, t'), ⟨k', _, good, same⟩ =>
    simp only [observed, Option.map_some, same.shape, good.world]

end PureJs.Js
