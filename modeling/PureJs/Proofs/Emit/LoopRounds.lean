import PureJs.Proofs.Emit.LoopTurns

/-!
The rounds of a loop run as the calls of the plain function do. Where the body ends, both give what
is alike; where it calls itself, the arguments have like values, and the next round starts in the
turn that belongs to the call.
-/

namespace PureJs.Emit

open Js (Env Same Good Moves Related Reaches SameContext SameLevel SameOutcome Run nobody)

variable {P N W : Type}

inductive Gives (r : Js.Likeness P N) (k : Js.Link) : Js.Value P N → Js.Outcome P N → Prop
  | given {v w : Js.Value P N} (same : Same r k v w) : Gives r k v (.given w)

section Code

variable (c : Js.Context P N W) (l : Js.Level P N W) (env own outer : Env)

theorem operand_eval (e : Expr) (code : Js.Expr) (s : Js.State P N W) :
    (asOperand e code).eval c l env s = code.eval c l env s := by
  unfold asOperand
  split
  · rfl
  · rw [Js.Expr.eval]

theorem callee_eval (e : Expr) (code : Js.Expr) (s : Js.State P N W) :
    (asCallee e code).eval c l env s = code.eval c l env s := by
  unfold asCallee
  split
  · rfl
  · rw [Js.Expr.eval]

theorem app_eval (setting : Setting) (place : Position) (function argument : Expr)
    (s : Js.State P N W) :
    (expr setting (.app place function argument)).eval c l env s =
      ((expr setting function).eval c l env s).andThen fun f s =>
        ((expr setting argument).eval c l env s).andThen fun v s => l.call f [v] s := by
  simp only [expr, Js.Expr.eval, Js.listEval, callee_eval, Run.andThen_assoc]
  rfl

end Code

section Rounds

variable (setting : Setting) (d : ValueDeclaration) (r : Js.Likeness P N)
  (c c' : Js.Context P N W) (l l' : Js.Level P N W)

def RoundsAlike : Prop :=
  ∀ {k s t env own outer}, Good r k s t → LoopFrame d own outer → Turn setting d r k s t env own →
    Related r (Held own) k s t (Gives r) ((expr setting d.body).eval c l env s)
      ((Js.Statement.loop loopLabel (tail setting d d.body)).exec c' l' own outer t)

def SelfCallsAlike : Prop :=
  ∀ {k s t env own outer e args}, Good r k s t → LoopFrame d own outer →
    Turn setting d r k s t env own → d.selfCall? setting.module e = some args →
    (∀ arg ∈ args, arg.Formed) → args ∈ d.selfCalls setting.module d.body →
    Related r (Held own) k s t (Gives r) ((expr setting e).eval c l env s)
      ((Js.bodyExec c' l' own outer (tail setting d e) t).andThen
        (Js.loopRound l' own outer loopLabel (tail setting d d.body)))

variable {setting d r c c' l l'}

theorem condition_related (around : SameContext r c c') (agree : SameLevel r l l')
    (tame : Js.KeepsLevel l) (tame' : Js.KeepsLevel l') {own outer env : Env}
    (frame : LoopFrame d own outer) {e : Expr} (formed : e.Formed) {k : Js.Link}
    {s t : Js.State P N W} (good : Good r k s t) (turn : Turn setting d r k s t env own) :
    Related r nobody k s t (fun _ v w => v.truthy c.engine = w.truthy c'.engine)
      ((expr setting e).eval c l env s)
      ((expr setting e).eval c' l' (own.within outer) t) := by
  obtain ⟨k', _, good', reaches⟩ := turn.finish good frame
  have whole := Js.value_related around agree good' (expr setting e) fun x member =>
    reaches x.text (outer_plain formed x member)
  have left := Js.eval_keeps c tame env (expr setting e) s
  have right := Js.eval_keeps c' tame' (own.within outer) (expr setting e) t
  match (expr setting e).eval c l env s, (expr setting e).eval c' l' (own.within outer) t,
    whole, left, right with
  | none, none, _, _, _ => trivial
  | some (v, s'), some (w, t'), ⟨_, _, after, same⟩, left, right =>
    obtain ⟨moves, good⟩ := good.kept (left v s' rfl) (right w t' rfl) after.world
    exact ⟨k, moves, good, around.engine ▸ same.truthy c.engine⟩

theorem last_related (around : SameContext r c c') (agree : SameLevel r l l')
    {own outer env : Env} (frame : LoopFrame d own outer) {e : Expr} (formed : e.Formed)
    {k : Js.Link} {s t : Js.State P N W}
    (good : Good r k s t) (turn : Turn setting d r k s t env own) :
    Related r (Held own) k s t (Gives r) ((expr setting e).eval c l env s)
      ((Js.bodyExec c' l' own outer [.give (expr setting e)] t).andThen
        (Js.loopRound l' own outer loopLabel (tail setting d d.body))) := by
  obtain ⟨k', moves, good', reaches⟩ := turn.finish good frame
  refine Related.from_later moves ?_
  rw [Js.body_exec_single, Js.Statement.exec, Run.andThen_assoc,
    ← Run.andThen_pure ((expr setting e).eval c l env s)]
  have whole := Js.value_related around agree good' (expr setting e) fun x member =>
    reaches x.text (outer_plain formed x member)
  refine (whole.weaken fun _ none => none.elim).andThen ?_
  intro k'' s'' t'' v w _ good'' same
  exact Related.pure good'' (.given same)

theorem tail_related (around : SameContext r c c') (agree : SameLevel r l l')
    (tame : Js.KeepsLevel l) (tame' : Js.KeepsLevel l')
    (calls : SelfCallsAlike setting d r c c' l l') {own outer env : Env}
    (frame : LoopFrame d own outer) {e : Expr} (formed : e.Formed)
    (inside : ∀ args ∈ d.selfCalls setting.module e, args ∈ d.selfCalls setting.module d.body)
    {k : Js.Link} {s t : Js.State P N W} (good : Good r k s t)
    (turn : Turn setting d r k s t env own) :
    Related r (Held own) k s t (Gives r) ((expr setting e).eval c l env s)
      ((Js.bodyExec c' l' own outer (tail setting d e) t).andThen
        (Js.loopRound l' own outer loopLabel (tail setting d d.body))) := by
  induction e using ValueDeclaration.hasTailCall.induct generalizing k s t with
  | case1 place condition yes no ihYes ihNo =>
    have calls := List.forall_mem_append.mp inside
    rw [expr, tail, Js.body_exec_single, Js.Expr.eval, Js.Statement.exec, operand_eval,
      Run.andThen_assoc]
    have first := condition_related around agree tame tame' frame formed.1 good turn
    refine first.andThen_wider (fun _ none => none.elim) ?_
    intro k' s' t' v w _ _ moves good same
    have turn' := turn.evaluated moves
    rw [same, operand_eval, operand_eval]
    split
    · exact ihYes formed.2.1 calls.1 good turn'
    · exact ihNo formed.2.2 calls.2 good turn'
  | case2 e other =>
    cases call : d.selfCall? setting.module e with
    | none =>
      rw [tail_other setting d other, call]
      exact last_related around agree frame formed good turn
    | some args =>
      rw [ValueDeclaration.selfCalls.eq_2 _ _ _ other, call] at inside
      refine calls good frame turn call ?_ (inside args (List.mem_singleton_self args))
      obtain ⟨_, rfl, _⟩ := ValueDeclaration.self_call_eq call
      exact Expr.unapply_formed formed

theorem rounds_related (around : SameContext r c c') (agree : SameLevel r l l')
    (tame : Js.KeepsLevel l) (tame' : Js.KeepsLevel l') (formed : d.body.Formed)
    (calls : SelfCallsAlike setting d r c c' l l') : RoundsAlike setting d r c c' l l' := by
  intro k s t env own outer good frame turn
  rw [Js.Statement.exec]
  exact tail_related around agree tame tame' calls frame formed (fun _ member => member) good turn

end Rounds

section Silent

theorem self_call_app {setting : Setting} {d : ValueDeclaration} (filled : d.params ≠ []) {e : Expr}
    {args : List Expr} (call : d.selfCall? setting.module e = some args) :
    ∃ place function argument, e = .app place function argument := by
  obtain ⟨_, same, full⟩ := ValueDeclaration.self_call_eq call
  match e with
  | .app place function argument => exact ⟨place, function, argument, rfl⟩
  | .literal .. | .array .. | .var .. | .lambda .. | .cond .. | .binary .. | .negate ..
  | .block .. =>
    subst same
    exact absurd (List.eq_nil_of_length_eq_zero full.symm) filled

theorem self_call_tail {setting : Setting} {d : ValueDeclaration} {place : Position}
    {function argument : Expr} {args : List Expr}
    (call : d.selfCall? setting.module (.app place function argument) = some args) :
    tail setting d (.app place function argument) =
      (d.params.zip args).map (fun arg => .var (nextName arg.1) (expr setting arg.2)) ++
        d.params.map (fun param =>
          .assign (.name (Js.identifier param)) (.name (nextName param))) ++
        [.again loopLabel] := by
  rw [tail_other setting d (fun _ _ _ _ same => by cases same), call]

variable {c : Js.Context P N W} {l : Js.Level P N W} {own outer : Env}

theorem round_silent (loop : ∀ own outer label body t, l.loop own outer label body t = none)
    {front body : List Js.Statement} {label : String}
    (sets : ∀ statement ∈ front, ∃ x value,
      statement = .var x value ∨ statement = .assign (.name x) value) (t : Js.State P N W) :
    (Js.bodyExec c l own outer (front ++ [.again label]) t).andThen
      (Js.loopRound l own outer label body) = none := by
  induction front generalizing t with
  | nil =>
    rw [List.nil_append, Js.body_exec_single, Js.Statement.exec]
    exact (if_pos rfl).trans (loop own outer label body t)
  | cons statement rest ih =>
    have others := ih fun other member => sets other (List.mem_cons_of_mem _ member)
    obtain ⟨x, value, set⟩ := sets statement List.mem_cons_self
    cases target : own x with
    | some b =>
      rw [List.cons_append, Js.set_run set _ t target, Run.andThen_assoc]
      simp only [others, Run.andThen_none]
    | none =>
      rcases set with rfl | rfl <;>
        simp only [List.cons_append, Js.bodyExec, Js.Statement.exec, Js.State.set, target,
          Option.map_none, Run.andThen_none] <;> rfl

theorem silent_self_calls {setting : Setting} {d : ValueDeclaration} (filled : d.params ≠ [])
    (r : Js.Likeness P N) (c c' : Js.Context P N W) {l l' : Js.Level P N W}
    (call : ∀ f args s, l.call f args s = none)
    (loop : ∀ own outer label body t, l'.loop own outer label body t = none) :
    SelfCallsAlike setting d r c c' l l' := by
  intro k s t env own outer e args _ _ _ full _ _
  obtain ⟨place, function, argument, rfl⟩ := self_call_app filled full
  rw [app_eval, self_call_tail full, round_silent loop ?_ t]
  · simp only [call, Run.andThen_none]
    trivial
  · intro statement member
    rcases List.mem_append.mp member with var | assign
    · obtain ⟨arg, _, rfl⟩ := List.mem_map.mp var
      exact ⟨_, _, Or.inl rfl⟩
    · obtain ⟨param, _, rfl⟩ := List.mem_map.mp assign
      exact ⟨_, _, Or.inr rfl⟩

end Silent

section Calls

variable {setting : Setting} {d : ValueDeclaration} {r : Js.Likeness P N}
  {c c' : Js.Context P N W} {l l' : Js.Level P N W} {own outer env given : Env}

theorem value_code {e : Expr} {name : String} (value : e.isValue setting.module name = true) :
    expr setting e = .name (Js.identifier name) := by
  cases e with
  | var place written qualifier resolved =>
    rw [Expr.isValue, Bool.and_eq_true, decide_eq_true_eq, decide_eq_true_eq] at value
    obtain ⟨rfl, rfl⟩ := value
    exact if_pos rfl
  | _ => cases value

theorem local_eval {arg : Expr} {param : String} (same : arg.isLocal param = true) {b : Nat}
    (here : own (Js.identifier param) = some b) {t t' : Js.State P N W} {w : Js.Value P N}
    (run : (expr setting arg).eval c l (own.within outer) t = some (w, t')) :
    t' = t ∧ t.cells[b]? = some w := by
  unfold Expr.isLocal at same
  split at same
  · obtain rfl := of_decide_eq_true same
    rw [expr, var, Js.Expr.eval, Js.State.read, Js.within_own here] at run
    obtain ⟨value, found, equal⟩ := Option.map_eq_some_iff.mp run
    cases equal
    exact ⟨rfl, found⟩
  · cases same

theorem argument_related (around : SameContext r c c') (agree : SameLevel r l l')
    (safe : LoopSafe setting d) (formed : d.Formed) (frame : LoopFrame d own outer) {k : Js.Link}
    {s t : Js.State P N W} (good : Good r k s t) (turn : Turn setting d r k s t env own)
    {done : List String} (ready : Ready setting d r k s t own done given)
    (inside : ∀ param ∈ done, param ∈ d.params) {param : String} (member : param ∈ d.params)
    (fresh : param ∉ done) {arg : Expr} (shape : arg.Formed)
    (argument : arg ∈ d.selfArguments setting.module)
    (passed : d.Keeps setting.module param → arg.isLocal param = true) {α β : Type}
    {after : Js.Link → α → β → Prop} {next : Js.Value P N → Js.State P N W → Run P N W α}
    {more : List Js.Statement} {last : Js.Outcome P N → Js.State P N W → Run P N W β}
    (further : ∀ k' s' t' v, Good r k' (s'.extend [v]) t' →
      Turn setting d r k' (s'.extend [v]) t' env own →
      Ready setting d r k' (s'.extend [v]) t' own (done ++ [param])
        ((Env.frame [Js.identifier param] s'.cells.length).within given) →
      Related r (Held own) k' (s'.extend [v]) t' after (next v s')
        ((Js.bodyExec c' l' own outer more t').andThen last)) :
    Related r (Held own) k s t after (((expr setting arg).eval c l env s).andThen next)
      ((Js.bodyExec c' l' own outer
        (.var (nextName param) (expr setting arg) :: more) t).andThen last) := by
  obtain ⟨b, here⟩ := frame.next param member
  rw [Js.set_run (Or.inl rfl) more t here, Run.andThen_assoc]
  have window := turn.window safe frame shape argument
  have value := Js.eval_related around agree good (expr setting arg) window
  refine value.andThen_wider (fun _ none => none.elim) ?_
  intro k' s' t' v w _ run moves good' same
  have turn' := turn.evaluated moves
  have ready' := ready.evaluated turn inside moves
  have content : d.Keeps setting.module param → ∀ b', own (Js.identifier param) = some b' →
      t'.cells[b']? = some w := by
    intro keeps b' there
    obtain ⟨rfl, found⟩ := local_eval (passed keeps) there run
    exact found
  obtain ⟨put, good'', turn'', ready''⟩ :=
    ready'.step formed good' frame turn' inside member fresh here same content
  exact Related.from_later put (further k' s' _ v good'' turn'' ready'')

/-- The first arguments of a call of the declaration by itself: the plain function waits for the
next parameter, and the variables for the next turn are set. -/
theorem arguments_related {lo : Js.Level P N W} (around : SameContext r c c')
    (agree : SameLevel r (lo.next c) l') (safe : LoopSafe setting d) (formed : d.Formed)
    (distinct : d.params.Nodup)
    (known : c.globals (Js.identifier d.name) = Js.functionValue (plainFunction setting d))
    (frame : LoopFrame d own outer) {e : Expr}
    (head : e.unapply.1.isValue setting.module d.name = true)
    (shape : ∀ arg ∈ e.unapply.2, arg.Formed ∧ arg ∈ d.selfArguments setting.module)
    {done rest : List String} {param : String} (whole : d.params = done ++ param :: rest)
    (count : e.unapply.2.length = done.length)
    (passed : ∀ arg ∈ done.zip e.unapply.2, d.Keeps setting.module arg.1 →
      arg.2.isLocal arg.1 = true)
    {k : Js.Link} {s t : Js.State P N W} (good : Good r k s t)
    (turn : Turn setting d r k s t env own) {α β : Type}
    {after : Js.Link → α → β → Prop} {next : Js.Value P N → Js.State P N W → Run P N W α}
    {more : List Js.Statement} {last : Js.Outcome P N → Js.State P N W → Run P N W β}
    (further : ∀ k' s' t' given, Good r k' s' t' → Turn setting d r k' s' t' env own →
      Ready setting d r k' s' t' own done given →
      Related r (Held own) k' s' t' after
        (next (.closure [Js.identifier param]
          [.give (curried rest (expr setting d.body))] given) s')
        ((Js.bodyExec c' l' own outer more t').andThen last)) :
    Related r (Held own) k s t after (((expr setting e).eval c (lo.next c) env s).andThen next)
      ((Js.bodyExec c' l' own outer
        ((done.zip e.unapply.2).map (fun arg => .var (nextName arg.1) (expr setting arg.2)) ++
          more) t).andThen last) := by
  match e with
  | .app place function argument =>
    rw [Expr.unapply_app] at head shape count passed ⊢
    dsimp only at head shape count passed ⊢
    rcases List.eq_nil_or_concat' done with rfl | ⟨front, q, rfl⟩
    · simp at count
    · have fewer : function.unapply.2.length = front.length := by simpa using count
      have parts : d.params = front ++ q :: (param :: rest) := by simpa using whole
      have shapes := List.forall_mem_append.mp shape
      have here := List.forall_mem_singleton.mp shapes.2
      rw [List.zip_append fewer.symm] at passed ⊢
      have passes := List.forall_mem_append.mp passed
      obtain ⟨member, fresh, inside⟩ := next_param distinct parts
      rw [List.map_append, List.append_assoc, app_eval, Run.andThen_assoc]
      refine arguments_related around agree safe formed distinct known frame head shapes.1 parts
        fewer passes.1 good turn ?_
      intro k' s' t' given good turn ready
      rw [Run.andThen_assoc]
      refine argument_related around agree safe formed frame good turn ready inside member fresh
        here.1 here.2 (passes.2 (q, argument) (List.mem_singleton_self _)) ?_
      intro k'' s'' t'' v good turn ready
      rw [Js.giving_call]
      exact further k'' _ t'' _ good turn ready
  | .var place name qualifier resolved =>
    have code : expr setting (.var place name qualifier resolved) =
        .name (Js.identifier d.name) := value_code head
    obtain rfl : done = [] := List.eq_nil_of_length_eq_zero count.symm
    have outside : Js.identifier d.name ∉ d.params.map Js.identifier := by
      rw [Js.identifier_mem_map formed.name formed.params]
      exact safe.name
    have none : env (Js.identifier d.name) = none := turn.scope _ outside
    have ready : Ready setting d r k s t own [] Env.empty :=
      ⟨fun _ _ => rfl, fun _ none => absurd none List.not_mem_nil⟩
    have first : d.params = param :: rest := whole
    rw [plainFunction, first] at known
    have value : ((expr setting (.var place name qualifier resolved)).eval c (lo.next c) env s) =
        some (.closure [Js.identifier param] [.give (curried rest (expr setting d.body))]
          Env.empty, s) := by
      rw [code, Js.Expr.eval, Js.State.read, none]
      dsimp only
      rw [known]
      rfl
    rw [value]
    exact further k s t Env.empty good turn ready
  | .literal .. | .array .. | .lambda .. | .cond .. | .binary .. | .negate .. | .block .. =>
    cases head

theorem Ready.start (formed : d.Formed) (frame : LoopFrame d own outer) {k : Js.Link}
    {s t : Js.State P N W} (good : Good r k s t) (turn : Turn setting d r k s t env own)
    (ready : Ready setting d r k s t own d.params given) (rest : List Js.Statement) :
    ∃ k' t', Js.bodyExec c l own outer (d.params.map (fun param =>
          .assign (.name (Js.identifier param)) (.name (nextName param))) ++ rest) t =
        Js.bodyExec c l own outer rest t' ∧
      Moves (Held own) k s t k' s t' ∧ Good r k' s t' ∧ Turn setting d r k' s t' given own := by
  have supply : Supply setting d r k s t given own outer nextName := by
    refine ⟨ready.scope, ?_, ?_, turn.next⟩
    · intro p member
      obtain ⟨a, b', first, third, matched, content⟩ := ready.given p member
      obtain ⟨_, b, _, second, old, _, loose⟩ := turn.param p member
      refine ⟨a, b, b', first, second, Js.within_own third, matched, old.right,
        old.right_inside, ?_⟩
      by_cases keeps : d.Keeps setting.module p
      · exact Or.inr ⟨keeps, (content keeps b second).symm⟩
      · exact Or.inl (loose keeps)
    · intro p member q also same
      obtain ⟨b, here⟩ := frame.param p member
      obtain ⟨b', there⟩ := frame.next q also
      rw [here, Js.within_own there] at same
      cases same
      exact identifier_ne_next (formed.params p member) q (frame.injective here there)
  exact supply.start formed good frame (fun _ _ => Or.inr rfl) rest

/-- One level up, a call of the declaration by itself goes as a round that is known to be alike. -/
theorem next_self_calls {lo lo' : Js.Level P N W} (around : SameContext r c c')
    (agree : SameLevel r (lo.next c) (lo'.next c')) (safe : LoopSafe setting d)
    (formed : d.Formed) (distinct : d.params.Nodup) (filled : d.params ≠ [])
    (known : c.globals (Js.identifier d.name) = Js.functionValue (plainFunction setting d))
    (rounds : RoundsAlike setting d r c c' lo lo') :
    SelfCallsAlike setting d r c c' (lo.next c) (lo'.next c') := by
  intro k s t env own outer e args good frame turn call shape inside
  obtain ⟨place, function, argument, rfl⟩ := self_call_app filled call
  rw [app_eval, self_call_tail call]
  obtain ⟨head, same, full⟩ := ValueDeclaration.self_call_eq call
  rw [Expr.unapply_app] at head same
  obtain ⟨front, q, parts⟩ := (List.eq_nil_or_concat' d.params).resolve_left filled
  subst same
  dsimp only at head full shape inside
  have fewer : function.unapply.2.length = front.length := by simpa [parts] using full
  have pairs : d.params.zip (function.unapply.2 ++ [argument]) =
      front.zip function.unapply.2 ++ [(q, argument)] := by
    rw [parts, List.zip_append fewer.symm]
    rfl
  have passed : ∀ arg ∈ front.zip function.unapply.2 ++ [(q, argument)],
      d.Keeps setting.module arg.1 → arg.2.isLocal arg.1 = true := fun arg member keeps =>
    keeps _ inside arg (pairs ▸ member) rfl
  have passes := List.forall_mem_append.mp passed
  have arguments : ∀ arg ∈ function.unapply.2 ++ [argument],
      arg.Formed ∧ arg ∈ d.selfArguments setting.module := fun arg member =>
    ⟨shape arg member, List.mem_flatten_of_mem inside member⟩
  have shapes := List.forall_mem_append.mp arguments
  have last := List.forall_mem_singleton.mp shapes.2
  obtain ⟨member, fresh, before⟩ := next_param distinct parts
  rw [pairs, List.map_append, List.append_assoc, List.append_assoc, List.map_singleton,
    List.singleton_append]
  refine arguments_related around agree safe formed distinct known frame head shapes.1 parts
    fewer passes.1 good turn ?_
  intro k' s' t' given good turn ready
  refine argument_related around agree safe formed frame good turn ready before member fresh
    last.1 last.2 (passes.2 (q, argument) (List.mem_singleton_self _)) ?_
  intro k'' s'' t'' v good turn ready
  rw [← parts] at ready
  obtain ⟨k₁, t₁, run, moves, good, turn⟩ := ready.start formed frame good turn
    (c := c') (l := lo'.next c') [.again loopLabel]
  have round : Js.loopRound (lo'.next c') own outer loopLabel (tail setting d d.body)
      (.again loopLabel) t₁ =
        (Js.Statement.loop loopLabel (tail setting d d.body)).exec c' lo' own outer t₁ := by
    rw [Js.loopRound, if_pos rfl]
    rfl
  rw [Js.giving_call, run, Js.body_exec_single, Js.Statement.exec, Run.andThen, round]
  exact Related.from_later moves (rounds good frame turn)

end Calls

end PureJs.Emit
