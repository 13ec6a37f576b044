import PureJs.Proofs.Js.Levels
import Mathlib.Data.List.Basic

/-!
The cells of one function. A function at work in the second run alone can set its variables while
the states stay alike, as long as no pair shows the change; variables that it does not set any more
can be frozen, and when the function is done nothing is left of it but that.
-/

namespace PureJs.Js

variable {P N W : Type} {r : Likeness P N} {k k' : Link} {s t s' t' : State P N W}
  {mine : Nat → Prop}

def Link.freeze (k : Link) (more : Nat → Nat → Prop) : Link where
  shared := k.shared
  frozen a b := k.frozen a b ∨ more a b

theorem Link.below_freeze (k : Link) (more : Nat → Nat → Prop) : k.Below (k.freeze more) :=
  ⟨fun _ _ pair => pair, fun _ _ => Or.inl⟩

theorem Good.freeze (good : Good r k s t) {more : Nat → Nat → Prop}
    (matched : ∀ {a b}, more a b → Matched r k s t a b) : Good r (k.freeze more) s t where
  world := good.world
  ground := good.ground.trans (k.below_freeze more)
  shared pair := by
    obtain ⟨v, w, here, there, same⟩ := good.shared pair
    exact ⟨v, w, here, there, same.mono (k.below_freeze more)⟩
  frozen pair := by
    obtain ⟨v, w, here, there, same⟩ := pair.elim good.frozen fun fresh => (matched fresh).alike
    exact ⟨v, w, here, there, same.mono (k.below_freeze more)⟩
  left := good.left
  right := good.right
  apartLeft pair frozen :=
    frozen.elim (good.apartLeft pair) fun fresh => (matched fresh).left _ pair
  apartRight pair frozen :=
    frozen.elim (good.apartRight pair) fun fresh => (matched fresh).right _ pair

theorem Moves.freeze (k : Link) (s t : State P N W) {more : Nat → Nat → Prop}
    (own : ∀ a b, more a b → mine b) : Moves mine k s t (k.freeze more) s t :=
  { Moves.refl mine k s t with
    below := k.below_freeze more
    loose := fun b _ other loose a pair => pair.elim (loose a) fun fresh => other (own a b fresh) }

theorem Good.right_changed (good : Good r k s t) (world : t'.world = t.world)
    (kept : ∀ a b, k.shared a b ∨ k.frozen a b → t'.cells[b]? = t.cells[b]?) : Good r k s t' :=
  { good with
    world := good.world.trans world.symm
    shared := by
      intro a b pair
      rw [kept a b (Or.inl pair)]
      exact good.shared pair
    frozen := by
      intro a b pair
      rw [kept a b (Or.inr pair)]
      exact good.frozen pair }

theorem Moves.right_changed (mine : Nat → Prop) (k : Link) (s : State P N W)
    (size : t'.cells.length = t.cells.length)
    (kept : ∀ b, ¬mine b → t'.cells[b]? = t.cells[b]?) : Moves mine k s t k s t' :=
  { Moves.refl mine k s t with
    rightSize := Nat.le_of_eq size.symm
    rightKept := fun b _ other _ => kept b other }

theorem Moves.outside (moves : Moves mine k s t k' s' t')
    (fresh : ∀ b, mine b → t.cells.length ≤ b) : Moves nobody k s t k' s' t' :=
  { moves with
    rightKept := fun b old _ =>
      moves.rightKept b old fun own => Nat.not_lt_of_le (fresh b own) old
    loose := fun b old _ => moves.loose b old fun own => Nat.not_lt_of_le (fresh b own) old }

theorem Related.outside {α β : Type} {alike : Link → α → β → Prop} {run : Run P N W α}
    {run' : Run P N W β} (related : Related r mine k s t alike run run')
    (fresh : ∀ b, mine b → t.cells.length ≤ b) : Related r nobody k s t alike run run' := by
  match run, run', related with
  | none, none, _ => trivial
  | some (v, s'), some (w, t'), ⟨k', moves, good, same⟩ =>
    exact ⟨k', moves.outside fresh, good, same⟩

section Frames

variable {names : List String} {start : Nat} {x y : String} {b : Nat}

theorem frame_inside (here : Env.frame names start x = some b) :
    x ∈ names ∧ start ≤ b ∧ b < start + names.length := by
  unfold Env.frame at here
  split at here
  · rename_i member
    have := List.idxOf_lt_length_iff.mpr member
    cases here
    exact ⟨member, by omega, by omega⟩
  · cases here

theorem frame_some (member : x ∈ names) : ∃ b, Env.frame names start x = some b :=
  ⟨_, if_pos member⟩

theorem frame_none (other : x ∉ names) : Env.frame names start x = none := if_neg other

theorem frame_injective (first : Env.frame names start x = some b)
    (second : Env.frame names start y = some b) : x = y := by
  have member := (frame_inside first).1
  have others := (frame_inside second).1
  rw [Env.frame, if_pos member] at first
  rw [Env.frame, if_pos others, ← first, Option.some.injEq] at second
  exact ((List.idxOf_inj others).mp (Nat.add_left_cancel second)).symm

theorem within_own {own outer : Env} (here : own x = some b) : own.within outer x = some b := by
  rw [Env.within, here, Option.some_or]

theorem within_outer {own outer : Env} (none : own x = none) : own.within outer x = outer x := by
  rw [Env.within, none, Option.none_or]

end Frames

theorem giving_call (c : Context P N W) (l : Level P N W) (param : String) (code : Expr) (env : Env)
    (args : List (Value P N)) (s : State P N W) :
    (l.next c).call (.closure [param] [.give code] env) args s =
      code.eval c l ((Env.frame [param] s.cells.length).within env)
        (s.extend (Value.fill 1 args)) := by
  have enter : s.enter [param] [.give code] args = s.extend (Value.fill 1 args) := by
    simp [State.enter, State.extend, bodyVariables, Statement.variables]
  simp only [Level.next, bodyExec, Statement.exec, enter]
  unfold ownVariables
  simp only [bodyVariables, Statement.variables, List.append_nil]
  cases code.eval c l ((Env.frame [param] s.cells.length).within env)
    (s.extend (Value.fill 1 args)) <;> rfl

theorem SameAll.fill_one {args args' : List (Value P N)} (same : SameAll r k args args') :
    ∃ v w, Value.fill 1 args = [v] ∧ Value.fill 1 args' = [w] ∧ Same r k v w := by
  cases args with
  | nil =>
    cases same
    exact ⟨.undefined, .undefined, rfl, rfl, .undefined⟩
  | cons v rest =>
    cases same with
    | cons first others => exact ⟨v, _, by simp [Value.fill], by simp [Value.fill], first⟩

section Copies

variable {c : Context P N W} {l : Level P N W} {own outer : Env} {target source : String → String}
  {set : String → Statement} {names : List String}

/-- The state after the values of some variables of a function are put into others. -/
structure Copied (own outer : Env) (target source : String → String) (names : List String)
    (t t' : State P N W) : Prop where
  world : t'.world = t.world
  size : t'.cells.length = t.cells.length
  set : ∀ x ∈ names, ∀ b b', own (target x) = some b → own.within outer (source x) = some b' →
    t'.cells[b]? = t.cells[b']?
  kept : ∀ b, (∀ x ∈ names, own (target x) ≠ some b) → t'.cells[b]? = t.cells[b]?

theorem set_run {c : Context P N W} {l : Level P N W} {own outer : Env} {x : String} {value : Expr}
    {statement : Statement}
    (sets : statement = .var x value ∨ statement = .assign (.name x) value) (rest : List Statement)
    (t : State P N W) {b : Nat} (here : own x = some b) :
    bodyExec c l own outer (statement :: rest) t =
      (value.eval c l (own.within outer) t).andThen fun w t =>
        bodyExec c l own outer rest { t with cells := t.cells.set b w } := by
  rcases sets with rfl | rfl <;> simp only [bodyExec, Statement.exec] <;>
    cases value.eval c l (own.within outer) t <;>
    simp [Run.andThen, State.set, here]

theorem copies_run
    (sets : ∀ x ∈ names, set x = .var (target x) (.name (source x)) ∨
      set x = .assign (.name (target x)) (.name (source x)))
    (targets : ∀ x ∈ names, ∃ b, own (target x) = some b ∧ b < t.cells.length)
    (sources : ∀ x ∈ names, ∃ b, own.within outer (source x) = some b ∧ b < t.cells.length)
    (injective : ∀ x ∈ names, ∀ y ∈ names, own (target x) = own (target y) → x = y)
    (apart : ∀ x ∈ names, ∀ y ∈ names, own (target x) ≠ own.within outer (source y))
    (rest : List Statement) :
    ∃ t', bodyExec c l own outer (names.map set ++ rest) t = bodyExec c l own outer rest t' ∧
      Copied own outer target source names t t' := by
  induction names generalizing t with
  | nil =>
    exact ⟨t, rfl, rfl, rfl, fun x none => absurd none List.not_mem_nil, fun _ _ => rfl⟩
  | cons x others ih =>
    obtain ⟨b, written, inside⟩ := targets x List.mem_cons_self
    obtain ⟨b', taken, inside'⟩ := sources x List.mem_cons_self
    have value := List.getElem?_eq_getElem inside'
    have step : bodyExec c l own outer ((x :: others).map set ++ rest) t =
        bodyExec c l own outer (others.map set ++ rest)
          { t with cells := t.cells.set b t.cells[b'] } := by
      rw [List.map_cons, List.cons_append, set_run (sets x List.mem_cons_self) _ t written]
      simp [Expr.eval, State.read, taken, value, Run.andThen]
    have unread : ∀ y ∈ x :: others, ∀ e, own.within outer (source y) = some e → b ≠ e := by
      rintro y member e reads rfl
      exact apart x List.mem_cons_self y member (written.trans reads.symm)
    obtain ⟨t', run, copied⟩ := ih (t := { t with cells := t.cells.set b t.cells[b'] })
      (fun y member => sets y (List.mem_cons_of_mem _ member))
      (fun y member => by simpa using targets y (List.mem_cons_of_mem _ member))
      (fun y member => by simpa using sources y (List.mem_cons_of_mem _ member))
      (fun y member z also => injective y (List.mem_cons_of_mem _ member) z
        (List.mem_cons_of_mem _ also))
      (fun y member z also => apart y (List.mem_cons_of_mem _ member) z
        (List.mem_cons_of_mem _ also))
    refine ⟨t', step.trans run, copied.world, by simpa using copied.size, ?_, ?_⟩
    · intro y member e e' writes reads
      by_cases later : y ∈ others
      · rw [copied.set y later e e' writes reads]
        exact List.getElem?_set_ne (unread y member e' reads)
      · obtain rfl : y = x := (List.mem_cons.mp member).resolve_right later
        have unset : ∀ z ∈ others, own (target z) ≠ some e := by
          intro z also same
          have equal := injective y List.mem_cons_self z (List.mem_cons_of_mem _ also)
            (writes.trans same.symm)
          exact later (equal ▸ also)
        rw [copied.kept e unset]
        cases writes.symm.trans written
        cases reads.symm.trans taken
        rw [List.getElem?_set_self inside, value]
    · intro e unset
      rw [copied.kept e fun z also => unset z (List.mem_cons_of_mem _ also)]
      apply List.getElem?_set_ne
      rintro rfl
      exact unset x List.mem_cons_self written

end Copies

end PureJs.Js
