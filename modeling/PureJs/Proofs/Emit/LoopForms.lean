import PureJs.Proofs.Emit.LoopRounds

/-!
The two forms of a declaration that calls itself. The loop gives what the plain function gives,
whatever is done with them, unless a function in an argument of a self call keeps a parameter that
such a call changes: that function sees the parameter of a later call.
-/

namespace PureJs.Emit

open Js (Env Same SameAll Matched Good Moves Related SameContext SameLevel Run nobody)

variable {P N W : Type}

section Calls

variable {setting : Setting} {d : ValueDeclaration} {size : Nat} {k : Js.Link}
  {s t : Js.State P N W} {c c' : Js.Context P N W} {lo lo' : Js.Level P N W}

def newest (s t : Js.State P N W) : Nat → Nat → Prop := fun a b =>
  a = s.cells.length ∧ b = t.cells.length

theorem newest_matched {r : Js.Likeness P N} (good : Good r k s t) {v w : Js.Value P N}
    (same : Same r k v w) (more : List (Js.Value P N)) :
    Matched r k (s.extend [v]) (t.extend (w :: more)) s.cells.length t.cells.length where
  left _ pair := Nat.lt_irrefl _ (good.shared_old pair).1
  right _ pair := Nat.lt_irrefl _ (good.shared_old pair).2
  alike := ⟨v, w, Js.State.extend_new 0, Js.State.extend_new 0, same⟩

theorem Started.step {done : List String} {param : String} {env env' : Env}
    (lexical : ∀ p ∈ done ++ [param], Lexical p) (fresh : param ∉ done)
    (started : Started k done env env') (a b : Nat) :
    Started (k.freeze fun a' b' => a' = a ∧ b' = b) (done ++ [param])
      ((Env.frame [Js.identifier param] a).within env)
      ((Env.frame [copyName param] b).within env') where
  given q member := by
    rcases List.mem_append.mp member with old | new
    · obtain ⟨e, e', first, second, frozen⟩ := started.given q old
      have differs : q ≠ param := fun equal => fresh (equal ▸ old)
      have own := lexical param (by simp)
      have other : Js.identifier q ∉ [Js.identifier param] := fun equal =>
        differs (Js.identifier_injective (lexical q member) own (List.mem_singleton.mp equal))
      have copied : copyName q ∉ [copyName param] := fun equal =>
        differs (copy_injective (lexical q member) own (List.mem_singleton.mp equal))
      refine ⟨e, e', ?_, ?_, Or.inl frozen⟩
      · rw [Js.within_outer (Js.frame_none other), first]
      · rw [Js.within_outer (Js.frame_none copied), second]
    · obtain rfl := List.mem_singleton.mp new
      exact ⟨a, b, Js.within_own (by simp [Env.frame]), Js.within_own (by simp [Env.frame]),
        Or.inr ⟨rfl, rfl⟩⟩
  scope x outside := by
    rw [List.map_append, List.map_singleton, List.mem_append, not_or] at outside
    rw [Js.within_outer (Js.frame_none outside.2)]
    exact started.scope x outside.1
  copyScope x outside := by
    rw [List.map_append, List.map_singleton, List.mem_append, not_or] at outside
    rw [Js.within_outer (Js.frame_none outside.2)]
    exact started.copyScope x outside.1

theorem Started.copy_old {r : Js.Likeness P N} (good : Good r k s t) {done : List String}
    {env env' : Env} (started : Started k done env env') {x : String} {b : Nat}
    (here : env' x = some b) : b < t.cells.length := by
  by_cases copied : x ∈ done.map copyName
  · obtain ⟨param, member, rfl⟩ := List.mem_map.mp copied
    obtain ⟨a, b', _, second, frozen⟩ := started.given param member
    cases here.symm.trans second
    exact (good.frozen_old frozen).2
  · rw [started.copyScope x copied] at here
    cases here

theorem partial_call_related (formed : d.Formed) (distinct : d.params.Nodup)
    (good : Good (formsLikeness setting d size) k s t) {done rest : List String}
    {param next : String} {env env' : Env} (whole : d.params = done ++ param :: next :: rest)
    (started : Started k done env env') {args args' : List (Js.Value P N)}
    (same : SameAll (formsLikeness setting d size) k args args') :
    Related (formsLikeness setting d size) nobody k s t (Same (formsLikeness setting d size))
      ((lo.next c).call (.closure [Js.identifier param]
        [.give (curried (next :: rest) (expr setting d.body))] env) args s)
      ((lo'.next c').call (.closure [copyName param] (loopGiven setting d (next :: rest)) env')
        args' t) := by
  obtain ⟨v, w, first, second, alike⟩ := same.fill_one
  rw [Js.giving_call, loopGiven, Js.giving_call, loop_function_cons, first, second, Js.Expr.eval]
  obtain ⟨member, fresh, before⟩ := next_param distinct whole
  have lexical : ∀ p ∈ done ++ [param], Lexical p :=
    List.forall_mem_append.mpr ⟨fun p old => formed.params p (before p old),
      List.forall_mem_singleton.mpr (formed.params param member)⟩
  have moves : Moves (fun b => t.cells.length ≤ b) k s t (k.freeze (newest s t)) (s.extend [v])
      (t.extend [w]) :=
    (Moves.extend _ k s t [v] [w]).trans
      (Moves.freeze k _ _ fun a b pair => Nat.le_of_eq pair.2.symm)
  have good' : Good (formsLikeness setting d size) (k.freeze (newest s t)) (s.extend [v])
      (t.extend [w]) := by
    refine (good.extend [v] [w]).freeze ?_
    rintro a b ⟨rfl, rfl⟩
    exact newest_matched good alike []
  refine Related.from_later (moves.outside fun _ inside => inside) (Related.pure good' ?_)
  have parts : d.params = (done ++ [param]) ++ next :: rest := by simp [whole]
  exact .special (.given parts (started.step lexical fresh s.cells.length t.cells.length))

def loopVariables (setting : Setting) (d : ValueDeclaration) (param : String) (start : Nat) : Env :=
  Js.ownVariables [copyName param] (loopBody setting d) start

theorem loop_frame {done : List String} (param : String) {env env' : Env}
    (recursive : d.hasTailCall setting.module d.body = true)
    (started : Started k done env env') (start : Nat) :
    LoopFrame d (loopVariables setting d param start) env' where
  param q member := by
    apply Js.frame_some
    rw [loop_body_variables]
    simp [List.mem_map_of_mem (f := Js.identifier) member]
  next q member := by
    apply Js.frame_some
    rw [loop_body_variables]
    have set := (tail_variables setting d d.body (nextName q)).mpr ⟨recursive, q, member, rfl⟩
    simp [set]
  injective first second := Js.frame_injective first second
  foreign x outside plain := by
    have none : x ∉ [copyName param] ++ Js.bodyVariables (loopBody setting d) := by
      rw [loop_body_variables]
      simp only [List.mem_append, List.mem_singleton, tail_variables, not_or, not_and, not_exists]
      exact ⟨(plain param).1, outside, fun _ q _ => (plain q).2⟩
    rw [loopVariables, Js.ownVariables, Js.within_outer (Js.frame_none none)]
    apply started.copyScope
    intro member
    obtain ⟨q, _, rfl⟩ := List.mem_map.mp member
    exact (plain q).1 rfl

theorem loop_variables_copy (formed : d.Formed) {param q : String} (member : param ∈ d.params)
    (also : q ∈ d.params) (differs : q ≠ param) (start : Nat) :
    loopVariables setting d param start (copyName q) = none := by
  apply Js.frame_none
  rw [loop_body_variables]
  simp only [List.mem_append, List.mem_singleton, List.mem_map, tail_variables, not_or, not_and,
    not_exists]
  refine ⟨fun same =>
      differs (copy_injective (formed.params q also) (formed.params param member) same),
    fun p inside same => identifier_ne_copy (formed.params p inside) q same,
    fun _ p _ => copy_ne_next q p⟩

def loopStart (setting : Setting) (d : ValueDeclaration) (w : Js.Value P N) (t : Js.State P N W) :
    Js.State P N W :=
  t.extend (w :: List.replicate (Js.bodyVariables (loopBody setting d)).length .undefined)

theorem loop_variable_new {r : Js.Likeness P N} (good : Good r k s t) {param x : String} {b : Nat}
    (here : loopVariables setting d param t.cells.length x = some b) (w : Js.Value P N) :
    t.cells.length ≤ b ∧ k.FreeRight b ∧ k.Loose b ∧
      b < (loopStart setting d w t).cells.length := by
  obtain ⟨_, low, high⟩ := Js.frame_inside here
  refine ⟨low, fun a pair => ?_, fun a pair => ?_, ?_⟩
  · exact Nat.not_lt_of_le low (good.shared_old pair).2
  · exact Nat.not_lt_of_le low (good.frozen_old pair).2
  · simp only [loopStart, Js.State.extend, List.length_append, List.length_cons,
      List.length_replicate, List.length_nil] at high ⊢
    omega

theorem copy_matched {r : Js.Likeness P N} (formed : d.Formed)
    (good : Good r k s t) {done : List String} {param : String} {env env' : Env}
    (whole : d.params = done ++ [param]) (started : Started k done env env') {v w : Js.Value P N}
    (same : Same r k v w) {p : String} (member : p ∈ d.params) :
    ∃ a b,
      ((Env.frame [Js.identifier param] s.cells.length).within env) (Js.identifier p) = some a ∧
      (loopVariables setting d param t.cells.length).within env' (copyName p) = some b ∧
      Matched r k (s.extend [v]) (loopStart setting d w t) a b := by
  have last : param ∈ d.params := by simp [whole]
  by_cases new : p = param
  · subst new
    exact ⟨s.cells.length, t.cells.length, Js.within_own (by simp [Env.frame]),
      Js.within_own (by simp [loopVariables, Js.ownVariables, Env.frame]),
      newest_matched good same _⟩
  · have old : p ∈ done := by
      rw [whole] at member
      exact (List.mem_append.mp member).resolve_right fun also => new (List.mem_singleton.mp also)
    obtain ⟨a, b, first, second, frozen⟩ := started.given p old
    have other : Js.identifier p ∉ [Js.identifier param] := fun equal =>
      new (Js.identifier_injective (formed.params p member) (formed.params param last)
        (List.mem_singleton.mp equal))
    refine ⟨a, b, ?_, ?_, (good.extend [v] _).matched frozen⟩
    · rw [Js.within_outer (Js.frame_none other), first]
    · rw [Js.within_outer (loop_variables_copy formed last member new _), second]

theorem first_turn {r : Js.Likeness P N} (formed : d.Formed) (distinct : d.params.Nodup)
    (recursive : d.hasTailCall setting.module d.body = true) (good : Good r k s t)
    {done : List String} {param : String} {env env' : Env} (whole : d.params = done ++ [param])
    (started : Started k done env env') {v w : Js.Value P N} (same : Same r k v w)
    (c' : Js.Context P N W) (lo' : Js.Level P N W) (rest : List Js.Statement) :
    ∃ k' t', Js.bodyExec c' lo' (loopVariables setting d param t.cells.length) env'
          (d.params.map (fun p => .var (Js.identifier p) (.name (copyName p))) ++ rest)
          (loopStart setting d w t) =
        Js.bodyExec c' lo' (loopVariables setting d param t.cells.length) env' rest t' ∧
      Moves (Held (loopVariables setting d param t.cells.length)) k (s.extend [v])
        (loopStart setting d w t) k' (s.extend [v]) t' ∧
      Good r k' (s.extend [v]) t' ∧
      Turn setting d r k' (s.extend [v]) t'
        ((Env.frame [Js.identifier param] s.cells.length).within env)
        (loopVariables setting d param t.cells.length) := by
  have frame := loop_frame param recursive started t.cells.length
  obtain ⟨_, fresh, _⟩ := next_param distinct whole
  have stepped := started.step (whole ▸ formed.params) fresh s.cells.length t.cells.length
  have supply : Supply setting d r k (s.extend [v]) (loopStart setting d w t)
      ((Env.frame [Js.identifier param] s.cells.length).within env)
      (loopVariables setting d param t.cells.length) env' copyName := by
    refine ⟨whole ▸ stepped.scope, ?_, ?_, fun p _ b here => (loop_variable_new good here w).2⟩
    · intro p member
      obtain ⟨a, b', first, third, matched⟩ := copy_matched formed good whole started same member
      obtain ⟨b, second⟩ := frame.param p member
      obtain ⟨_, free, loose, inside⟩ := loop_variable_new good second w
      exact ⟨a, b, b', first, second, third, matched, free, inside, Or.inl loose⟩
    · intro p member q also equal
      obtain ⟨b, here⟩ := frame.param p member
      rw [here] at equal
      cases own : loopVariables setting d param t.cells.length (copyName q) with
      | some b' =>
        rw [Js.within_own own] at equal
        cases equal
        exact identifier_ne_copy (formed.params p member) q (frame.injective here own)
      | none =>
        rw [Js.within_outer own] at equal
        exact Nat.not_lt_of_le (loop_variable_new good here w).1 (started.copy_old good equal.symm)
  exact supply.start formed (good.extend [v] _) frame (fun _ _ => Or.inl rfl) rest

theorem last_call_related (formed : d.Formed) (distinct : d.params.Nodup)
    (recursive : d.hasTailCall setting.module d.body = true)
    (rounds : RoundsAlike setting d (formsLikeness setting d size) c c' lo lo')
    (good : Good (formsLikeness setting d size) k s t) {done : List String} {param : String}
    {env env' : Env} (whole : d.params = done ++ [param])
    (started : Started k done env env') {args args' : List (Js.Value P N)}
    (same : SameAll (formsLikeness setting d size) k args args') :
    Related (formsLikeness setting d size) nobody k s t (Same (formsLikeness setting d size))
      ((lo.next c).call (.closure [Js.identifier param]
        [.give (curried [] (expr setting d.body))] env) args s)
      ((lo'.next c').call (.closure [copyName param] (loopGiven setting d []) env') args' t) := by
  obtain ⟨v, w, first, second, alike⟩ := same.fill_one
  obtain ⟨k', t', run, moves, good', turn⟩ := first_turn formed distinct recursive good whole
    started alike c' lo' [.loop loopLabel (tail setting d d.body)]
  have entered : t.enter [copyName param] (loopBody setting d) args' = loopStart setting d w t := by
    rw [Js.enter_eq_extend, List.length_singleton, second]
    rfl
  have looped :
      (lo'.next c').call (.closure [copyName param] (loopGiven setting d []) env') args' t =
      ((Js.Statement.loop loopLabel (tail setting d d.body)).exec c' lo'
        (loopVariables setting d param t.cells.length) env' t').andThen Js.callResult := by
    rw [← Js.body_exec_single, ← run, ← entered]
    rfl
  rw [Js.giving_call, first, looped, ← Run.andThen_pure (Js.Expr.eval _ _ _ _ _)]
  have begun := (Moves.extend _ k s t [v] _).trans moves
  have fresh : ∀ b, Held (loopVariables setting d param t.cells.length) b → t.cells.length ≤ b := by
    rintro b ⟨x, here⟩
    exact (loop_variable_new good here w).1
  refine (Related.from_later begun ?_).outside fresh
  refine (rounds good' (loop_frame param recursive started _) turn).andThen ?_
  intro k'' s'' t'' v' o _ good'' gives
  cases gives with
  | given same => exact Related.pure good'' same

theorem waiting_call_related (formed : d.Formed) (distinct : d.params.Nodup)
    (recursive : d.hasTailCall setting.module d.body = true)
    (rounds : RoundsAlike setting d (formsLikeness setting d size) c c' lo lo')
    (good : Good (formsLikeness setting d size) k s t) {f g : Js.Value P N}
    (pair : Waiting setting d k f g) {args args' : List (Js.Value P N)}
    (same : SameAll (formsLikeness setting d size) k args args') :
    Related (formsLikeness setting d size) nobody k s t (Same (formsLikeness setting d size))
      ((lo.next c).call f args s) ((lo'.next c').call g args' t) := by
  cases pair with
  | given whole started =>
    rename_i done rest param env env'
    cases rest with
    | nil => exact last_call_related formed distinct recursive rounds good whole started same
    | cons next rest => exact partial_call_related formed distinct good whole started same

theorem levels_related (around : SameContext (formsLikeness setting d size) c c')
    (safe : LoopSafe setting d) (formed : d.Formed) (distinct : d.params.Nodup)
    (filled : d.params ≠ []) (recursive : d.hasTailCall setting.module d.body = true)
    (known : c.globals (Js.identifier d.name) = Js.functionValue (plainFunction setting d))
    (depth : Nat) :
    SameLevel (formsLikeness setting d size) (Js.level c depth) (Js.level c' depth) ∧
      RoundsAlike setting d (formsLikeness setting d size) c c' (Js.level c depth)
        (Js.level c' depth) := by
  induction depth with
  | zero =>
    have silent : SameLevel (formsLikeness setting d size) (Js.level c 0) (Js.level c' 0) :=
      ⟨fun _ _ _ => trivial, fun _ _ _ => trivial⟩
    refine ⟨silent, rounds_related around silent (Js.level_keeps c 0) (Js.level_keeps c' 0)
      formed.body ?_⟩
    exact silent_self_calls filled _ c c' (fun _ _ _ => rfl) fun _ _ _ _ _ => rfl
  | succ depth ih =>
    have agree : SameLevel (formsLikeness setting d size) (Js.level c (depth + 1))
        (Js.level c' (depth + 1)) :=
      Js.next_level around ih.1 fun good pair same =>
        waiting_call_related formed distinct recursive ih.2 good pair same
    refine ⟨agree, rounds_related around agree (Js.level_keeps c _) (Js.level_keeps c' _)
      formed.body ?_⟩
    exact next_self_calls around agree safe formed distinct filled known ih.2

end Calls

section Forms

variable {setting : Setting} {d : ValueDeclaration}

theorem contexts_related {c : Js.Context P N W} {size : Nat} (filled : d.params ≠ [])
    (inside : ∀ x v, c.globals x = some v → v.Within size) :
    SameContext (formsLikeness setting d size)
      (c.declare (.var (Js.identifier d.name) (plainFunction setting d)))
      (c.declare (.var (Js.identifier d.name) (loopFunction setting d d.params))) where
  engine := rfl
  globals k ground x := by
    dsimp only [Js.Context.declare]
    by_cases declared : x = Js.identifier d.name
    · obtain ⟨param, rest, whole⟩ := List.exists_cons_of_ne_nil filled
      have started : Started k [] Env.empty Env.empty :=
        ⟨fun _ none => absurd none List.not_mem_nil, fun _ _ => rfl, fun _ _ => rfl⟩
      rw [if_pos declared, if_pos declared, plainFunction, whole, loop_function_cons]
      exact Or.inr ⟨_, _, rfl, rfl, .special (.given whole started)⟩
    · rw [if_neg declared, if_neg declared]
      cases known : c.globals x with
      | none => exact Or.inl ⟨rfl, rfl⟩
      | some v => exact Or.inr ⟨v, v, rfl, rfl, Same.refl ground (inside x v known)⟩

theorem forms_observed_alike (safe : LoopSafe setting d) (formed : d.Formed)
    (distinct : d.params.Nodup) (recursive : d.isTailRecursive setting.module = true)
    {c : Js.Context P N W} {env : Env} {s : Js.State P N W} (closed : Js.Closed c env s)
    (client : Js.Expr) (depth : Nat) :
    let plain := c.declare (.var (Js.identifier d.name) (plainFunction setting d))
    let loop := c.declare (.var (Js.identifier d.name) (loopFunction setting d d.params))
    Js.observed (client.eval plain (Js.level plain depth) env s) =
      Js.observed (client.eval loop (Js.level loop depth) env s) := by
  intro plain loop
  rw [ValueDeclaration.isTailRecursive, Bool.and_eq_true, Bool.and_eq_true] at recursive
  have filled : d.params ≠ [] := by simpa using recursive.1.1
  have around : SameContext (formsLikeness setting d s.cells.length) plain loop :=
    contexts_related filled closed.globals
  have known : plain.globals (Js.identifier d.name) =
      Js.functionValue (plainFunction setting d) := if_pos rfl
  have agree := (levels_related around safe formed distinct filled recursive.2 known depth).1
  have good : Good (formsLikeness setting d s.cells.length)
      (formsLikeness (P := P) (N := N) setting d s.cells.length).ground s s :=
    Good.refl rfl closed.cells
  refine (Js.value_related around agree good client fun x _ => ?_).observed_eq
  cases bound : env x.text with
  | none => exact Or.inl ⟨bound, bound⟩
  | some a => exact Or.inr ⟨a, a, bound, bound, Or.inl ⟨rfl, closed.env x.text a bound⟩⟩

/-- In an accepted program a declaration has the same meaning with loops and without, if no function
in an argument of a self call keeps a parameter that such a call changes. -/
theorem loops_observed_alike [Simplifier] {options : Options} {units : List SourceUnit}
    {modules ordered : List Module} (read : parseUnits units = .ok modules)
    (checked : Module.check options modules = .ok ordered) {m : Module}
    (member : m ∈ optimized options ordered) {d : ValueDeclaration}
    (value : Declaration.value d ∈ m.declarations)
    (safe : d.isTailRecursive m.name = true → LoopSafe ⟨m.name, options.directBlocks⟩ d)
    {c : Js.Context P N W} {env : Env} {s : Js.State P N W} (closed : Js.Closed c env s)
    (client : Js.Expr) (depth : Nat) :
    let setting : Setting := ⟨m.name, options.directBlocks⟩
    let plain := c.declare (declaration { options with noLoops := true } setting (.value d))
    let loop := c.declare (declaration options setting (.value d))
    Js.observed (client.eval plain (Js.level plain depth) env s) =
      Js.observed (client.eval loop (Js.level loop depth) env s) := by
  intro setting plain loop
  have formed : d.Formed := optimized_formed read checked m member _ value
  have distinct := optimized_params_distinct checked member value
  have unlooped : Options.loops { options with noLoops := true } = false := by
    simp [Options.loops]
  have first : plain = c.declare (.var (Js.identifier d.name) (plainFunction setting d)) := by
    simp only [plain, declaration, unlooped, Bool.false_and]
    rfl
  by_cases looped : (options.loops && d.isTailRecursive m.name) = true
  · have second : loop =
        c.declare (.var (Js.identifier d.name) (loopFunction setting d d.params)) := by
      simp only [loop, declaration]
      rw [if_pos looped]
    have recursive := (Bool.and_eq_true_iff.mp looped).2
    rw [first, second]
    exact forms_observed_alike (safe recursive) formed distinct recursive closed client depth
  · have second : loop = c.declare (.var (Js.identifier d.name) (plainFunction setting d)) := by
      simp only [loop, declaration]
      rw [if_neg looped]
      rfl
    rw [first, second]

end Forms

def countingEngine : Js.Engine Int Empty Unit where
  integer value := value
  number _ := 0
  string _ := 0
  bool value := if value then 1 else 0
  truthy value := value ≠ 0
  negate value := some (-value)
  binary op left right :=
    match op with
    | .sub => some (left - right)
    | .strictEqual => some (if left = right then 1 else 0)
    | _ => none
  native function := nomatch function

def bareContext : Js.Context Int Empty Unit := ⟨countingEngine, fun _ => none⟩

theorem bare_closed : Js.Closed bareContext Env.empty ⟨[], ()⟩ where
  cells _ none := absurd none List.not_mem_nil
  globals _ _ none := nomatch none
  env _ _ none := nomatch none

def formRun (options : Options) (m : Module) (d : ValueDeclaration) (client : Js.Expr) :
    Option (Js.Shape Int Empty × Unit) :=
  let c := bareContext.declare (declaration options ⟨m.name, options.directBlocks⟩ (.value d))
  Js.observed (client.eval c (Js.level c 10) Env.empty ⟨[], ()⟩)

def isNumber (value : Int) : Option (Js.Shape Int Empty × Unit) → Bool
  | some (.prim data, _) => data = value
  | _ => false

theorem is_number {value : Int} {run : Option (Js.Shape Int Empty × Unit)}
    (test : isNumber value run = true) : run = some (.prim value, ()) := by
  unfold isNumber at test
  split at test
  · rw [of_decide_eq_true test]
  · cases test

def steadyUnits : List SourceUnit :=
  [⟨none, "module A where\nf n k g = if n == 0 then g 0 else f (n - 1) k (\\u -> k)\n"⟩]

def steadyClient : Js.Expr :=
  .call (.call (.call (.name "f") [.integer 2]) [.integer 5]) [.function ["v"] [.give (.name "v")]]

theorem steady_loop_observed_alike :
    ∃ modules ordered, parseUnits steadyUnits = .ok modules ∧
      Module.check plainOptions modules = .ok ordered ∧
      ∃ m ∈ optimized plainOptions ordered, ∃ d, Declaration.value d ∈ m.declarations ∧
        d.isTailRecursive m.name = true ∧ LoopSafe ⟨m.name, plainOptions.directBlocks⟩ d ∧
        formRun plainOptions m d steadyClient = some (.prim 5, ()) ∧
        formRun { plainOptions with noLoops := true } m d steadyClient =
          formRun plainOptions m d steadyClient := by
  obtain ⟨modules, ordered, read, checked, m, member, d, value, test⟩ :=
    has_value (show hasValue plainOptions steadyUnits (fun m d => d.isTailRecursive m.name &&
      decide (LoopSafe ⟨m.name, plainOptions.directBlocks⟩ d) &&
        isNumber 5 (formRun plainOptions m d steadyClient)) = true by decide +kernel)
  rw [Bool.and_eq_true, Bool.and_eq_true, decide_eq_true_eq] at test
  obtain ⟨⟨recursive, safe⟩, five⟩ := test
  exact ⟨modules, ordered, read, checked, m, member, d, value, recursive, safe, is_number five,
    loops_observed_alike read checked member value (fun _ => safe) bare_closed steadyClient 10⟩

def countedUnits : List SourceUnit :=
  [⟨none, "module A where\nf n g = if n == 0 then g else f (n - 1) (\\u -> n)\n"⟩]

def countedClient : Js.Expr :=
  .call (.call (.call (.name "f") [.integer 1]) [.function ["v"] [.give (.integer 5)]]) [.integer 7]

theorem counted_loop_differs :
    ∃ modules ordered, parseUnits countedUnits = .ok modules ∧
      Module.check plainOptions modules = .ok ordered ∧
      ∃ m ∈ optimized plainOptions ordered, ∃ d, Declaration.value d ∈ m.declarations ∧
        d.isTailRecursive m.name = true ∧
        formRun { plainOptions with noLoops := true } m d countedClient = some (.prim 1, ()) ∧
        formRun plainOptions m d countedClient = some (.prim 0, ()) := by
  obtain ⟨modules, ordered, read, checked, m, member, d, value, test⟩ :=
    has_value (show hasValue plainOptions countedUnits (fun m d => d.isTailRecursive m.name &&
      isNumber 1 (formRun { plainOptions with noLoops := true } m d countedClient) &&
        isNumber 0 (formRun plainOptions m d countedClient)) = true by decide +kernel)
  rw [Bool.and_eq_true, Bool.and_eq_true] at test
  obtain ⟨⟨recursive, one⟩, zero⟩ := test
  exact ⟨modules, ordered, read, checked, m, member, d, value, recursive, is_number one,
    is_number zero⟩

end PureJs.Emit
