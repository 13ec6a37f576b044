import PureJs.Proofs.Js.Likeness

/-!
The same code runs alike in states that are alike: at every level both runs have a result or none
has, the results are alike, and so are the states after them. Cells that are not shared keep what
they hold, but for those of one function that may be at work around the code.
-/

namespace PureJs.Js

variable {P N W : Type} {r : Likeness P N}

structure Good (r : Likeness P N) (k : Link) (s t : State P N W) : Prop where
  world : s.world = t.world
  ground : r.ground.Below k
  shared : ∀ {a b}, k.shared a b →
    ∃ v w, s.cells[a]? = some v ∧ t.cells[b]? = some w ∧ Same r k v w
  frozen : ∀ {a b}, k.frozen a b →
    ∃ v w, s.cells[a]? = some v ∧ t.cells[b]? = some w ∧ Same r k v w
  left : ∀ {a b b'}, k.shared a b → k.shared a b' → b = b'
  right : ∀ {a a' b}, k.shared a b → k.shared a' b → a = a'
  apartLeft : ∀ {a b b'}, k.shared a b → ¬k.frozen a b'
  apartRight : ∀ {a a' b}, k.shared a b → ¬k.frozen a' b

/-- What happens while two runs go on. The cells in `mine` belong to a function at work in the
second run, which can set them and can leave them frozen behind. -/
structure Moves (mine : Nat → Prop) (k : Link) (s t : State P N W) (k' : Link)
    (s' t' : State P N W) : Prop where
  below : k.Below k'
  leftSize : s.cells.length ≤ s'.cells.length
  rightSize : t.cells.length ≤ t'.cells.length
  leftFree : ∀ a < s.cells.length, k.FreeLeft a → k'.FreeLeft a
  rightFree : ∀ b < t.cells.length, k.FreeRight b → k'.FreeRight b
  leftKept : ∀ a < s.cells.length, k.FreeLeft a → s'.cells[a]? = s.cells[a]?
  rightKept : ∀ b < t.cells.length, ¬mine b → k.FreeRight b → t'.cells[b]? = t.cells[b]?
  loose : ∀ b < t.cells.length, ¬mine b → k.Loose b → k'.Loose b

def nobody : Nat → Prop := fun _ => False

theorem Moves.refl (mine : Nat → Prop) (k : Link) (s t : State P N W) : Moves mine k s t k s t :=
  ⟨Link.Below.refl k, Nat.le_refl _, Nat.le_refl _, fun _ _ free => free, fun _ _ free => free,
    fun _ _ _ => rfl, fun _ _ _ _ => rfl, fun _ _ _ loose => loose⟩

theorem Moves.trans {mine : Nat → Prop} {k k' k'' : Link} {s t s' t' s'' t'' : State P N W}
    (one : Moves mine k s t k' s' t') (two : Moves mine k' s' t' k'' s'' t'') :
    Moves mine k s t k'' s'' t'' where
  below := one.below.trans two.below
  leftSize := Nat.le_trans one.leftSize two.leftSize
  rightSize := Nat.le_trans one.rightSize two.rightSize
  leftFree a old free :=
    two.leftFree a (Nat.lt_of_lt_of_le old one.leftSize) (one.leftFree a old free)
  rightFree b old free :=
    two.rightFree b (Nat.lt_of_lt_of_le old one.rightSize) (one.rightFree b old free)
  leftKept a old free :=
    (two.leftKept a (Nat.lt_of_lt_of_le old one.leftSize) (one.leftFree a old free)).trans
      (one.leftKept a old free)
  rightKept b old other free :=
    (two.rightKept b (Nat.lt_of_lt_of_le old one.rightSize) other
      (one.rightFree b old free)).trans (one.rightKept b old other free)
  loose b old other loose :=
    two.loose b (Nat.lt_of_lt_of_le old one.rightSize) other (one.loose b old other loose)

theorem Moves.weaken {mine more : Nat → Prop} (wider : ∀ b, mine b → more b) {k k' : Link}
    {s t s' t' : State P N W} (moves : Moves mine k s t k' s' t') : Moves more k s t k' s' t' :=
  { moves with
    rightKept := fun b old other => moves.rightKept b old fun inside => other (wider b inside)
    loose := fun b old other => moves.loose b old fun inside => other (wider b inside) }

def Related {α β : Type} (r : Likeness P N) (mine : Nat → Prop) (k : Link) (s t : State P N W)
    (alike : Link → α → β → Prop) : Run P N W α → Run P N W β → Prop
  | none, none => True
  | some (v, s'), some (w, t') => ∃ k', Moves mine k s t k' s' t' ∧ Good r k' s' t' ∧ alike k' v w
  | _, _ => False

namespace Related

variable {α β γ δ : Type} {mine : Nat → Prop} {k : Link} {s t : State P N W}
  {alike : Link → α → β → Prop} {after : Link → γ → δ → Prop}

theorem no_result : Related r mine k s t alike (none : Run P N W α) (none : Run P N W β) :=
  True.intro

theorem pure (good : Good r k s t) {v : α} {w : β} (same : alike k v w) :
    Related r mine k s t alike (some (v, s)) (some (w, t)) :=
  ⟨k, Moves.refl mine k s t, good, same⟩

theorem from_later {k' : Link} {s' t' : State P N W} {run : Run P N W α} {run' : Run P N W β}
    (moves : Moves mine k s t k' s' t') (related : Related r mine k' s' t' alike run run') :
    Related r mine k s t alike run run' := by
  match run, run', related with
  | none, none, _ => trivial
  | some (v, s'), some (w, t'), ⟨k'', further, good, same⟩ =>
    exact ⟨k'', moves.trans further, good, same⟩

theorem weaken {more : Nat → Prop} (wider : ∀ b, mine b → more b) {run : Run P N W α}
    {run' : Run P N W β} (related : Related r mine k s t alike run run') :
    Related r more k s t alike run run' := by
  match run, run', related with
  | none, none, _ => trivial
  | some (v, s'), some (w, t'), ⟨k', moves, good, same⟩ =>
    exact ⟨k', moves.weaken wider, good, same⟩

theorem andThen_wider {few : Nat → Prop} {run : Run P N W α} {run' : Run P N W β}
    (related : Related r few k s t alike run run') (wider : ∀ b, few b → mine b)
    {next : α → State P N W → Run P N W γ} {next' : β → State P N W → Run P N W δ}
    (more : ∀ k' s' t' v w, run = some (v, s') → run' = some (w, t') →
      Moves few k s t k' s' t' → Good r k' s' t' → alike k' v w →
      Related r mine k' s' t' after (next v s') (next' w t')) :
    Related r mine k s t after (run.andThen next) (run'.andThen next') := by
  match run, run', related with
  | none, none, _ => trivial
  | some (v, s'), some (w, t'), ⟨k', moves, good, same⟩ =>
    exact from_later (moves.weaken wider) (more k' s' t' v w rfl rfl moves good same)

theorem andThen {run : Run P N W α} {run' : Run P N W β}
    (related : Related r mine k s t alike run run') {next : α → State P N W → Run P N W γ}
    {next' : β → State P N W → Run P N W δ}
    (more : ∀ k' s' t' v w, Moves mine k s t k' s' t' → Good r k' s' t' → alike k' v w →
      Related r mine k' s' t' after (next v s') (next' w t')) :
    Related r mine k s t after (run.andThen next) (run'.andThen next') :=
  related.andThen_wider (fun _ own => own) fun k' s' t' v w _ _ => more k' s' t' v w

theorem same_option (good : Good r k s t) {v : Option α} {w : Option β}
    (both : (v = none ∧ w = none) ∨ ∃ x y, v = some x ∧ w = some y ∧ alike k x y) :
    Related r mine k s t alike (v.map (·, s)) (w.map (·, t)) := by
  rcases both with ⟨rfl, rfl⟩ | ⟨x, y, rfl, rfl, same⟩
  · trivial
  · exact pure good same

end Related

structure Matched (r : Likeness P N) (k : Link) (s t : State P N W) (a b : Nat) : Prop where
  left : k.FreeLeft a
  right : k.FreeRight b
  alike : ∃ v w, s.cells[a]? = some v ∧ t.cells[b]? = some w ∧ Same r k v w

def Sees (r : Likeness P N) (k : Link) (s t : State P N W) (env env' : Env) (x : String) : Prop :=
  (env x = none ∧ env' x = none) ∨
    ∃ a b, env x = some a ∧ env' x = some b ∧ (k.shared a b ∨ Matched r k s t a b)

theorem Good.matched {k : Link} {s t : State P N W} (good : Good r k s t) {a b : Nat}
    (frozen : k.frozen a b) : Matched r k s t a b :=
  ⟨fun _ pair => good.apartLeft pair frozen, fun _ pair => good.apartRight pair frozen,
    good.frozen frozen⟩

theorem Reaches.sees {k : Link} {s t : State P N W} (good : Good r k s t) {env env' : Env}
    {x : String} (reaches : Reaches k env env' x) : Sees r k s t env env' x := by
  rcases reaches with none | ⟨a, b, first, second, shared | frozen⟩
  · exact Or.inl none
  · exact Or.inr ⟨a, b, first, second, Or.inl shared⟩
  · exact Or.inr ⟨a, b, first, second, Or.inr (good.matched frozen)⟩

theorem cell_inside {cells : List (Value P N)} {a : Nat} {v : Value P N}
    (here : cells[a]? = some v) : a < cells.length :=
  (List.getElem?_eq_some_iff.mp here).1

theorem Matched.left_inside {k : Link} {s t : State P N W} {a b : Nat}
    (matched : Matched r k s t a b) : a < s.cells.length := by
  obtain ⟨v, w, here, _, _⟩ := matched.alike
  exact cell_inside here

theorem Matched.right_inside {k : Link} {s t : State P N W} {a b : Nat}
    (matched : Matched r k s t a b) : b < t.cells.length := by
  obtain ⟨v, w, _, there, _⟩ := matched.alike
  exact cell_inside there

theorem Matched.moves {mine : Nat → Prop} {k k' : Link} {s t s' t' : State P N W} {a b : Nat}
    (matched : Matched r k s t a b) (moves : Moves mine k s t k' s' t')
    (kept : t'.cells[b]? = t.cells[b]?) : Matched r k' s' t' a b := by
  obtain ⟨v, w, here, there, same⟩ := matched.alike
  refine ⟨moves.leftFree a matched.left_inside matched.left,
    moves.rightFree b matched.right_inside matched.right, v, w, ?_, ?_, same.mono moves.below⟩
  · rw [moves.leftKept a matched.left_inside matched.left, here]
  · rw [kept, there]

theorem Sees.moves {k k' : Link} {s t s' t' : State P N W} {env env' : Env} {x : String}
    (sees : Sees r k s t env env' x) (moves : Moves nobody k s t k' s' t') :
    Sees r k' s' t' env env' x := by
  rcases sees with none | ⟨a, b, first, second, shared | matched⟩
  · exact Or.inl none
  · exact Or.inr ⟨a, b, first, second, Or.inl (moves.below.shared a b shared)⟩
  · have kept := moves.rightKept b matched.right_inside not_false matched.right
    exact Or.inr ⟨a, b, first, second, Or.inr (matched.moves moves kept)⟩

def Window (r : Likeness P N) (k : Link) (s t : State P N W) (env env' : Env)
    (names : List OuterName) : Prop :=
  ∀ x ∈ names, Sees r k s t env env' x.text ∧ (x.delayed = true → Reaches k env env' x.text)

theorem Window.moves {k k' : Link} {s t s' t' : State P N W} {env env' : Env}
    {names : List OuterName} (window : Window r k s t env env' names)
    (moves : Moves nobody k s t k' s' t') : Window r k' s' t' env env' names :=
  fun x member => ⟨(window x member).1.moves moves,
    fun delayed => ((window x member).2 delayed).mono moves.below⟩

theorem Window.append {k : Link} {s t : State P N W} {env env' : Env} {xs ys : List OuterName} :
    Window r k s t env env' (xs ++ ys) ↔
      Window r k s t env env' xs ∧ Window r k s t env env' ys :=
  List.forall_mem_append

inductive SameOutcome (r : Likeness P N) (k : Link) : Outcome P N → Outcome P N → Prop
  | passed : SameOutcome r k .passed .passed
  | given {v w : Value P N} (same : Same r k v w) : SameOutcome r k (.given v) (.given w)
  | again (label : String) : SameOutcome r k (.again label) (.again label)

def Owns (k : Link) (own own' : Env) : Prop :=
  ∀ x, (own x = none ∧ own' x = none) ∨ ∃ a b, own x = some a ∧ own' x = some b ∧ k.shared a b

theorem Owns.mono {k k' : Link} (below : k.Below k') {own own' : Env} (owns : Owns k own own') :
    Owns k' own own' := by
  intro x
  rcases owns x with none | ⟨a, b, first, second, shared⟩
  · exact Or.inl none
  · exact Or.inr ⟨a, b, first, second, below.shared a b shared⟩

structure SameContext (r : Likeness P N) (c c' : Context P N W) : Prop where
  engine : c.engine = c'.engine
  globals : ∀ k, r.ground.Below k → ∀ x, (c.globals x = none ∧ c'.globals x = none) ∨
    ∃ v w, c.globals x = some v ∧ c'.globals x = some w ∧ Same r k v w

structure SameLevel (r : Likeness P N) (l l' : Level P N W) : Prop where
  call : ∀ {k s t f g args args'}, Good r k s t → Same r k f g → SameAll r k args args' →
    Related r nobody k s t (Same r) (l.call f args s) (l'.call g args' t)
  loop : ∀ {k s t own own' outer outer' label body}, Good r k s t → Owns k own own' →
    (∀ x ∈ bodyOuter body, Reaches k (own.within outer) (own'.within outer') x.text) →
    Related r nobody k s t (SameOutcome r) (l.loop own outer label body s)
      (l'.loop own' outer' label body t)

theorem field_related {k : Link} {s t : State P N W} {run run' : Run P N W (Value P N)}
    (related : Related r nobody k s t (Same r) run run') (name : String) :
    Related r nobody k s t (Same r)
      (run.andThen fun value s => (value.field? name).map (·, s))
      (run'.andThen fun value t => (value.field? name).map (·, t)) := by
  refine related.andThen ?_
  intro k' s' t' v w _ good same
  cases same with
  | object fields => exact Related.pure good (fields.lookup name)
  | special pair =>
    obtain ⟨⟨_, _, _, rfl⟩, _, _, _, rfl⟩ := r.functions pair
    exact Related.no_result
  | _ => exact Related.no_result

theorem data_related {k : Link} {s t : State P N W} (good : Good r k s t) (data : Option P) :
    Related r nobody k s t (Same r) (data.map fun data => (.prim data, s))
      (data.map fun data => (.prim data, t)) := by
  cases data with
  | none => exact Related.no_result
  | some data => exact Related.pure good (.prim data)

theorem of_prim_related {k k' : Link} {s t : State P N W} {v w : Value P N} (same : Same r k' v w)
    {run run' : P → Run P N W (Value P N)}
    (each : ∀ a, Related r nobody k s t (Same r) (run a) (run' a)) :
    Related r nobody k s t (Same r) (v.prim?.bind run) (w.prim?.bind run') := by
  rw [same.prim_eq]
  cases w.prim? with
  | none => exact Related.no_result
  | some a => exact each a

section Eval

variable {c c' : Context P N W} {l l' : Level P N W}

theorem read_alike (around : SameContext r c c') {k : Link} {s t : State P N W}
    (good : Good r k s t) {env env' : Env} {x : String} (sees : Sees r k s t env env' x) :
    (s.read c env x = none ∧ t.read c' env' x = none) ∨
      ∃ v w, s.read c env x = some v ∧ t.read c' env' x = some w ∧ Same r k v w := by
  unfold State.read
  rcases sees with ⟨first, second⟩ | ⟨a, b, first, second, shared | matched⟩
  · rw [first, second]
    exact around.globals k good.ground x
  · rw [first, second]
    exact Or.inr (good.shared shared)
  · rw [first, second]
    exact Or.inr matched.alike

mutual

theorem eval_related (around : SameContext r c c') (agree : SameLevel r l l')
    {k : Link} {s t : State P N W} (good : Good r k s t) {env env' : Env}
    (e : Expr) (window : Window r k s t env env' e.outer) :
    Related r nobody k s t (Same r) (e.eval c l env s) (e.eval c' l' env' t) := by
  cases e with
  | integer value =>
    rw [Expr.eval, Expr.eval, around.engine]
    exact Related.pure good (.prim _)
  | number text =>
    rw [Expr.eval, Expr.eval, around.engine]
    exact Related.pure good (.prim _)
  | string value =>
    rw [Expr.eval, Expr.eval, around.engine]
    exact Related.pure good (.prim _)
  | bool value =>
    rw [Expr.eval, Expr.eval, around.engine]
    exact Related.pure good (.prim _)
  | array items =>
    rw [Expr.eval, Expr.eval]
    refine (list_eval_related around agree good items window).andThen ?_
    intro k' s' t' vs ws _ good same
    exact Related.pure good (.array same)
  | name text =>
    rw [Expr.eval, Expr.eval]
    exact Related.same_option good (read_alike around good (window _ (List.mem_singleton_self _)).1)
  | property object name =>
    rw [Expr.eval, Expr.eval]
    exact field_related (eval_related around agree good object window) name
  | entry object key =>
    rw [Expr.eval, Expr.eval]
    exact field_related (eval_related around agree good object window) key
  | call callee args =>
    have windows := Window.append.mp window
    rw [Expr.eval, Expr.eval]
    refine (eval_related around agree good callee windows.1).andThen ?_
    intro k' s' t' f g moves good same
    refine (list_eval_related around agree good args (windows.2.moves moves)).andThen ?_
    intro k'' s'' t'' vs ws further good' others
    exact agree.call good' (same.mono further.below) others
  | paren inner =>
    rw [Expr.eval, Expr.eval]
    exact eval_related around agree good inner window
  | cond condition yes no =>
    have windows := Window.append.mp window
    have front := Window.append.mp windows.1
    rw [Expr.eval, Expr.eval]
    refine (eval_related around agree good condition front.1).andThen ?_
    intro k' s' t' v w moves good same
    rw [around.engine, same.truthy]
    split
    · exact eval_related around agree good yes (front.2.moves moves)
    · exact eval_related around agree good no (windows.2.moves moves)
  | binary op left right =>
    have windows := Window.append.mp window
    rw [Expr.eval, Expr.eval]
    refine (eval_related around agree good left windows.1).andThen ?_
    intro k' s' t' v w moves good same
    rw [around.engine, same.truthy]
    split
    · exact Related.pure good same
    · refine (eval_related around agree good right (windows.2.moves moves)).andThen ?_
      intro k'' s'' t'' v' w' _ good' same'
      split
      · exact Related.pure good' same'
      · exact of_prim_related same fun a => of_prim_related same' fun b => data_related good' _
  | negate operand =>
    rw [Expr.eval, Expr.eval]
    refine (eval_related around agree good operand window).andThen ?_
    intro k' s' t' v w _ good same
    rw [around.engine]
    exact of_prim_related same fun a => data_related good _
  | function params body =>
    rw [Expr.eval, Expr.eval]
    refine Related.pure good (.closure ?_)
    intro x member
    exact (window x.inside (List.mem_map_of_mem member)).2 rfl
  | object properties =>
    rw [Expr.eval, Expr.eval]
    refine (properties_eval_related around agree good properties window).andThen ?_
    intro k' s' t' vs ws _ good same
    exact Related.pure good (.object same)
  | hole =>
    rw [Expr.eval, Expr.eval]
    exact Related.no_result

theorem list_eval_related (around : SameContext r c c') (agree : SameLevel r l l')
    {k : Link} {s t : State P N W} (good : Good r k s t) {env env' : Env}
    (items : List Expr) (window : Window r k s t env env' (listOuter items)) :
    Related r nobody k s t (SameAll r) (listEval c l env items s)
      (listEval c' l' env' items t) := by
  match items with
  | [] =>
    rw [listEval, listEval]
    exact Related.pure good .nil
  | e :: rest =>
    have windows := Window.append.mp window
    rw [listEval, listEval]
    refine (eval_related around agree good e windows.1).andThen ?_
    intro k' s' t' v w moves good same
    refine (list_eval_related around agree good rest (windows.2.moves moves)).andThen ?_
    intro k'' s'' t'' vs ws further good' others
    exact Related.pure good' (.cons (same.mono further.below) others)

theorem properties_eval_related (around : SameContext r c c') (agree : SameLevel r l l')
    {k : Link} {s t : State P N W} (good : Good r k s t)
    {env env' : Env} (properties : List (String × Expr))
    (window : Window r k s t env env' (propertiesOuter properties)) :
    Related r nobody k s t (SameFields r) (propertiesEval c l env properties s)
      (propertiesEval c' l' env' properties t) := by
  match properties with
  | [] =>
    rw [propertiesEval, propertiesEval]
    exact Related.pure good .nil
  | (key, e) :: rest =>
    have windows := Window.append.mp window
    rw [propertiesEval, propertiesEval]
    refine (eval_related around agree good e windows.1).andThen ?_
    intro k' s' t' v w moves good same
    refine (properties_eval_related around agree good rest (windows.2.moves moves)).andThen ?_
    intro k'' s'' t'' vs ws further good' others
    exact Related.pure good' (.cons key (same.mono further.below) others)

end

theorem set_related {k : Link} {s t : State P N W} (good : Good r k s t) {own own' : Env}
    (owns : Owns k own own') (x : String) {v w : Value P N} (same : Same r k v w) :
    Related r nobody k s t (SameOutcome r) (s.set own x v) (t.set own' x w) := by
  unfold State.set
  rcases owns x with ⟨first, second⟩ | ⟨a, b, first, second, pair⟩
  · rw [first, second]
    exact Related.no_result
  · rw [first, second]
    obtain ⟨v', w', here, there, _⟩ := good.shared pair
    have inside := cell_inside here
    have inside' := cell_inside there
    have others : ∀ {a' b'}, a ≠ a' → b ≠ b' →
        (∃ v w, s.cells[a']? = some v ∧ t.cells[b']? = some w ∧ Same r k v w) →
        ∃ v₁ w₁, (s.cells.set a v)[a']? = some v₁ ∧ (t.cells.set b w)[b']? = some w₁ ∧
          Same r k v₁ w₁ := by
      intro a' b' left right old
      rwa [List.getElem?_set_ne left, List.getElem?_set_ne right]
    refine ⟨k, ⟨Link.Below.refl k, by simp, by simp, fun _ _ free => free, fun _ _ free => free,
      ?_, ?_, fun _ _ _ loose => loose⟩, ⟨good.world, good.ground, ?_, ?_, good.left, good.right,
      good.apartLeft, good.apartRight⟩, .passed⟩
    · intro a' _ free
      have other : a ≠ a' := fun same => free b (same ▸ pair)
      exact List.getElem?_set_ne other
    · intro b' _ _ free
      have other : b ≠ b' := fun same => free a (same ▸ pair)
      exact List.getElem?_set_ne other
    · intro a' b' other
      by_cases here : a = a'
      · subst here
        have equal := good.left pair other
        subst equal
        exact ⟨v, w, List.getElem?_set_self inside, List.getElem?_set_self inside', same⟩
      · exact others here (fun there => here (good.right pair (there ▸ other))) (good.shared other)
    · intro a' b' other
      exact others (fun here => good.apartLeft pair (here ▸ other))
        (fun there => good.apartRight pair (there ▸ other)) (good.frozen other)

theorem value_related (around : SameContext r c c') (agree : SameLevel r l l')
    {k : Link} {s t : State P N W} (good : Good r k s t) {env env' : Env}
    (e : Expr) (reaches : ∀ x ∈ e.outer, Reaches k env env' x.text) :
    Related r nobody k s t (Same r) (e.eval c l env s) (e.eval c' l' env' t) :=
  eval_related around agree good e fun x member =>
    ⟨(reaches x member).sees good, fun _ => reaches x member⟩

theorem round_related (agree : SameLevel r l l') {k : Link} {s t : State P N W}
    (good : Good r k s t)
    {own own' outer outer' : Env} (owns : Owns k own own') (label : String)
    (body : List Statement)
    (reaches : ∀ x ∈ bodyOuter body, Reaches k (own.within outer) (own'.within outer') x.text)
    {o o' : Outcome P N} (same : SameOutcome r k o o') :
    Related r nobody k s t (SameOutcome r) (loopRound l own outer label body o s)
      (loopRound l' own' outer' label body o' t) := by
  cases same with
  | passed => exact agree.loop good owns reaches
  | given same => exact Related.pure good (.given same)
  | again other =>
    simp only [loopRound]
    split
    · exact agree.loop good owns reaches
    · exact Related.pure good (.again other)

mutual

theorem exec_related (around : SameContext r c c') (agree : SameLevel r l l')
    {k : Link} {s t : State P N W} (good : Good r k s t)
    {own own' outer outer' : Env} (owns : Owns k own own') (statement : Statement)
    (reaches : ∀ x ∈ statement.outer, Reaches k (own.within outer) (own'.within outer') x.text) :
    Related r nobody k s t (SameOutcome r) (statement.exec c l own outer s)
      (statement.exec c' l' own' outer' t) := by
  match statement with
  | .var name value | .assign (.name name) value =>
    simp only [Statement.exec]
    refine (value_related around agree good value reaches).andThen ?_
    intro k' s' t' v w moves good same
    exact set_related good (owns.mono moves.below) name same
  | .assign (.integer _) _ | .assign (.number _) _ | .assign (.string _) _ | .assign (.bool _) _
  | .assign (.array _) _ | .assign (.property ..) _ | .assign (.entry ..) _ | .assign (.call ..) _
  | .assign (.paren _) _ | .assign (.cond ..) _ | .assign (.binary ..) _ | .assign (.negate _) _
  | .assign (.function ..) _ | .assign (.object _) _ | .assign .hole _ | .verbatim _ =>
    exact Related.no_result
  | .give value =>
    simp only [Statement.exec]
    refine (value_related around agree good value reaches).andThen ?_
    intro k' s' t' v w _ good same
    exact Related.pure good (.given same)
  | .run value =>
    simp only [Statement.exec]
    refine (value_related around agree good value reaches).andThen ?_
    intro k' s' t' v w _ good _
    exact Related.pure good .passed
  | .branch condition yes no =>
    have whole := List.forall_mem_append.mp reaches
    have front := List.forall_mem_append.mp whole.1
    simp only [Statement.exec]
    refine (value_related around agree good condition front.1).andThen ?_
    intro k' s' t' v w moves good same
    rw [around.engine, same.truthy]
    split
    · exact body_related around agree good (owns.mono moves.below) yes fun x member =>
        (front.2 x member).mono moves.below
    · exact body_related around agree good (owns.mono moves.below) no fun x member =>
        (whole.2 x member).mono moves.below
  | .loop label body =>
    simp only [Statement.exec]
    refine (body_related around agree good owns body reaches).andThen ?_
    intro k' s' t' o o' moves good same
    exact round_related agree good (owns.mono moves.below) label body
      (fun x member => (reaches x member).mono moves.below) same
  | .again label =>
    simp only [Statement.exec]
    exact Related.pure good (.again label)

theorem body_related (around : SameContext r c c') (agree : SameLevel r l l')
    {k : Link} {s t : State P N W} (good : Good r k s t)
    {own own' outer outer' : Env} (owns : Owns k own own') (body : List Statement)
    (reaches : ∀ x ∈ bodyOuter body, Reaches k (own.within outer) (own'.within outer') x.text) :
    Related r nobody k s t (SameOutcome r) (bodyExec c l own outer body s)
      (bodyExec c' l' own' outer' body t) := by
  match body with
  | [] =>
    simp only [bodyExec]
    exact Related.pure good .passed
  | statement :: rest =>
    have whole := List.forall_mem_append.mp reaches
    simp only [bodyExec]
    refine (exec_related around agree good owns statement whole.1).andThen ?_
    intro k' s' t' o o' moves good same
    cases same with
    | passed =>
      exact body_related around agree good (owns.mono moves.below) rest fun x member =>
        (whole.2 x member).mono moves.below
    | given same => exact Related.pure good (.given same)
    | again label => exact Related.pure good (.again label)

end

end Eval

end PureJs.Js
