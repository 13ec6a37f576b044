import PureJs.Proofs.Emit.SelfCalls
import PureJs.Proofs.Js.OldCells

/-!
Turns of a loop beside calls of the plain function. Every call has cells of its own for the
parameters, the loop sets the same ones again. Between two turns each parameter of the latest call
holds what the loop variable holds, and a loop variable that is paired with a parameter for good is
never given another value.
-/

namespace PureJs.Emit

open Js (Env Link Likeness Same SameAll Matched Good Moves Related Reaches Sees Window Run nobody)

variable {P N W : Type}

theorem next_param {params done rest : List String} {param : String} (distinct : params.Nodup)
    (whole : params = done ++ param :: rest) :
    param ∈ params ∧ param ∉ done ∧ ∀ p ∈ done, p ∈ params := by
  subst whole
  have apart := (List.nodup_append.mp distinct).2.2
  refine ⟨by simp, fun again => ?_, fun p member => List.mem_append_left _ member⟩
  exact apart param again param List.mem_cons_self rfl

section Waiting

variable (setting : Setting) (d : ValueDeclaration)

def loopGiven : List String → List Js.Statement
  | [] => loopBody setting d
  | param :: rest => [.give (loopFunction setting d (param :: rest))]

theorem loop_function_cons (param : String) (rest : List String) :
    loopFunction setting d (param :: rest) =
      .function [copyName param] (loopGiven setting d rest) := by
  cases rest <;> rfl

structure Started (k : Link) (done : List String) (env env' : Env) : Prop where
  given : ∀ param ∈ done, ∃ a b, env (Js.identifier param) = some a ∧
    env' (copyName param) = some b ∧ k.frozen a b
  scope : ∀ x, x ∉ done.map Js.identifier → env x = none
  copyScope : ∀ x, x ∉ done.map copyName → env' x = none

theorem Started.mono {k k' : Link} (below : k.Below k') {done : List String} {env env' : Env}
    (started : Started k done env env') : Started k' done env env' :=
  { started with
    given := by
      intro param member
      obtain ⟨a, b, first, second, frozen⟩ := started.given param member
      exact ⟨a, b, first, second, below.frozen a b frozen⟩ }

/-- The plain function and the one with the loop, when both are given the same parameters. -/
inductive Waiting (k : Link) : Js.Value P N → Js.Value P N → Prop
  | given {done rest : List String} {param : String} {env env' : Env}
      (whole : d.params = done ++ param :: rest) (started : Started k done env env') :
      Waiting k
        (.closure [Js.identifier param] [.give (curried rest (expr setting d.body))] env)
        (.closure [copyName param] (loopGiven setting d rest) env')

def formsLikeness (size : Nat) : Likeness P N where
  ground := Link.whole size
  pairs := Waiting setting d
  functions pair := by
    cases pair
    exact ⟨⟨_, _, _, rfl⟩, _, _, _, rfl⟩
  mono below pair := by
    cases pair with
    | given whole started => exact .given whole (started.mono below)

end Waiting

def Held (own : Env) : Nat → Prop := fun b => ∃ x, own x = some b

section Turns

variable (setting : Setting) (d : ValueDeclaration)

structure LoopFrame (own outer : Env) : Prop where
  param : ∀ param ∈ d.params, ∃ b, own (Js.identifier param) = some b
  next : ∀ param ∈ d.params, ∃ b, own (nextName param) = some b
  injective : ∀ {x y b}, own x = some b → own y = some b → x = y
  foreign : ∀ x, x ∉ d.params.map Js.identifier →
    (∀ param, x ≠ copyName param ∧ x ≠ nextName param) → own.within outer x = none

/-- A turn of the loop, and the call of the plain function with the parameters in `env`. -/
structure Turn (r : Likeness P N) (k : Link) (s t : Js.State P N W) (env own : Env) : Prop where
  scope : ∀ x, x ∉ d.params.map Js.identifier → env x = none
  param : ∀ param ∈ d.params, ∃ a b, env (Js.identifier param) = some a ∧
    own (Js.identifier param) = some b ∧ Matched r k s t a b ∧
    (d.Keeps setting.module param → k.frozen a b) ∧
    (¬d.Keeps setting.module param → k.Loose b)
  next : ∀ param ∈ d.params, ∀ b, own (nextName param) = some b →
    k.FreeRight b ∧ k.Loose b ∧ b < t.cells.length

/-- The variables for the next turn hold the arguments of a call so far, which has its parameters
in `env`. -/
structure Ready (r : Likeness P N) (k : Link) (s t : Js.State P N W) (own : Env)
    (done : List String) (env : Env) : Prop where
  scope : ∀ x, x ∉ done.map Js.identifier → env x = none
  given : ∀ param ∈ done, ∃ a b, env (Js.identifier param) = some a ∧
    own (nextName param) = some b ∧ Matched r k s t a b ∧
    (d.Keeps setting.module param → ∀ b', own (Js.identifier param) = some b' →
      t.cells[b]? = t.cells[b']?)

variable {setting d} {r : Likeness P N} {k k' : Link} {s t s' t' : Js.State P N W}
  {env own outer : Env}

theorem Turn.moves {mine : Nat → Prop} (turn : Turn setting d r k s t env own)
    (moves : Moves mine k s t k' s' t')
    (kept : ∀ param ∈ d.params, ∀ b, own (Js.identifier param) = some b →
      t'.cells[b]? = t.cells[b]?)
    (loose : ∀ b < t.cells.length, k.Loose b → k'.Loose b) :
    Turn setting d r k' s' t' env own where
  scope := turn.scope
  param param member := by
    obtain ⟨a, b, first, second, matched, frozen, free⟩ := turn.param param member
    exact ⟨a, b, first, second, matched.moves moves (kept param member b second),
      fun keeps => moves.below.frozen a b (frozen keeps),
      fun changes => loose b matched.right_inside (free changes)⟩
  next param member b here := by
    obtain ⟨free, apart, inside⟩ := turn.next param member b here
    exact ⟨moves.rightFree b inside free, loose b inside apart,
      Nat.lt_of_lt_of_le inside moves.rightSize⟩

theorem Turn.evaluated (turn : Turn setting d r k s t env own)
    (moves : Moves nobody k s t k' s' t') : Turn setting d r k' s' t' env own := by
  refine turn.moves moves ?_ fun b inside => moves.loose b inside not_false
  intro param member b here
  obtain ⟨a, b', _, second, matched, _⟩ := turn.param param member
  cases here.symm.trans second
  exact moves.rightKept b matched.right_inside not_false matched.right

theorem Ready.evaluated {done : List String} {given : Env}
    (ready : Ready setting d r k s t own done given) (turn : Turn setting d r k s t env own)
    (inside : ∀ param ∈ done, param ∈ d.params) (moves : Moves nobody k s t k' s' t') :
    Ready setting d r k' s' t' own done given where
  scope := ready.scope
  given param member := by
    obtain ⟨a, b, first, second, matched, passed⟩ := ready.given param member
    have kept := moves.rightKept b matched.right_inside not_false matched.right
    refine ⟨a, b, first, second, matched.moves moves kept, ?_⟩
    intro keeps b' here
    obtain ⟨_, _, _, there, alike, _⟩ := turn.param param (inside param member)
    cases here.symm.trans there
    rw [kept, moves.rightKept b' alike.right_inside not_false alike.right]
    exact passed keeps b' here

theorem Turn.window (safe : LoopSafe setting d) (turn : Turn setting d r k s t env own)
    (frame : LoopFrame d own outer) {e : Expr} (formed : e.Formed)
    (argument : e ∈ d.selfArguments setting.module) :
    Window r k s t env (own.within outer) (expr setting e).outer := by
  intro x member
  by_cases parameter : x.text ∈ d.params.map Js.identifier
  · obtain ⟨param, given, same⟩ := List.mem_map.mp parameter
    obtain ⟨a, b, first, second, matched, frozen, _⟩ := turn.param param given
    rw [same] at first second
    refine ⟨Or.inr ⟨a, b, first, Js.within_own second, Or.inr matched⟩, fun delayed => ?_⟩
    have keeps := safe.keeps e argument x member delayed param given same.symm
    exact Or.inr ⟨a, b, first, Js.within_own second, Or.inr (frozen keeps)⟩
  · have none := And.intro (turn.scope x.text parameter)
      (frame.foreign x.text parameter (outer_plain formed x member))
    exact ⟨Or.inl none, fun _ => Or.inl none⟩

def parameterCells (d : ValueDeclaration) (chosen : String → Prop) (env own : Env) :
    Nat → Nat → Prop := fun a b =>
  ∃ param ∈ d.params, chosen param ∧ env (Js.identifier param) = some a ∧
    own (Js.identifier param) = some b

theorem freeze_parameters (good : Good r k s t)
    (matched : ∀ param ∈ d.params, ∃ a b, env (Js.identifier param) = some a ∧
      own (Js.identifier param) = some b ∧ Matched r k s t a b)
    (chosen : String → Prop) :
    Moves (Held own) k s t (k.freeze (parameterCells d chosen env own)) s t ∧
      Good r (k.freeze (parameterCells d chosen env own)) s t := by
  constructor
  · apply Moves.freeze k s t
    rintro a b ⟨param, _, _, _, there⟩
    exact ⟨_, there⟩
  · apply good.freeze
    rintro a b ⟨param, member, _, here, there⟩
    obtain ⟨a', b', first, second, pair⟩ := matched param member
    cases here.symm.trans first
    cases there.symm.trans second
    exact pair

theorem Turn.matched (turn : Turn setting d r k s t env own) :
    ∀ param ∈ d.params, ∃ a b, env (Js.identifier param) = some a ∧
      own (Js.identifier param) = some b ∧ Matched r k s t a b := by
  intro param member
  obtain ⟨a, b, first, second, matched, _⟩ := turn.param param member
  exact ⟨a, b, first, second, matched⟩

theorem Turn.finish (good : Good r k s t) (turn : Turn setting d r k s t env own)
    (frame : LoopFrame d own outer) :
    ∃ k', Moves (Held own) k s t k' s t ∧ Good r k' s t ∧
      ∀ x, (∀ param, x ≠ copyName param ∧ x ≠ nextName param) →
        Reaches k' env (own.within outer) x := by
  obtain ⟨moves, good'⟩ := freeze_parameters good turn.matched fun _ => True
  refine ⟨_, moves, good', fun x plain => ?_⟩
  by_cases parameter : x ∈ d.params.map Js.identifier
  · obtain ⟨param, member, rfl⟩ := List.mem_map.mp parameter
    obtain ⟨a, b, first, second, _⟩ := turn.matched param member
    exact Or.inr ⟨a, b, first, Js.within_own second,
      Or.inr (Or.inr ⟨param, member, trivial, first, second⟩)⟩
  · exact Or.inl ⟨turn.scope x parameter, frame.foreign x parameter plain⟩

theorem another_cell (good : Good r k s t) (v : Js.Value P N) :
    Moves nobody k s t k (s.extend [v]) t ∧ Good r k (s.extend [v]) t := by
  have moves := Moves.extend nobody k s t [v] []
  have extended := good.extend [v] []
  rw [Js.State.extend_nil] at moves extended
  exact ⟨moves, extended⟩

theorem Turn.put (formed : d.Formed) (good : Good r k s t) (frame : LoopFrame d own outer)
    (turn : Turn setting d r k s t env own) {param : String} (member : param ∈ d.params) {b : Nat}
    (here : own (nextName param) = some b) (w : Js.Value P N) :
    Moves (Held own) k s t k s { t with cells := t.cells.set b w } ∧
      Good r k s { t with cells := t.cells.set b w } ∧
      Turn setting d r k s { t with cells := t.cells.set b w } env own ∧
      ∀ {x b'}, own x = some b' → x ≠ nextName param → (t.cells.set b w)[b']? = t.cells[b']? := by
  obtain ⟨free, loose, _⟩ := turn.next param member b here
  have others : ∀ {x b'}, own x = some b' → x ≠ nextName param →
      (t.cells.set b w)[b']? = t.cells[b']? := by
    intro x b' there other
    apply List.getElem?_set_ne
    rintro rfl
    exact other (frame.injective there here)
  have moves : Moves (Held own) k s t k s { t with cells := t.cells.set b w } := by
    refine Moves.right_changed (Held own) k s (by simp) fun b' other => List.getElem?_set_ne ?_
    rintro rfl
    exact other ⟨_, here⟩
  refine ⟨moves, good.right_changed rfl ?_, turn.moves moves ?_ fun b' _ free => free, others⟩
  · intro a b' pair
    apply List.getElem?_set_ne
    rintro rfl
    exact pair.elim (free a) (loose a)
  · intro q known b' there
    exact others there (identifier_ne_next (formed.params q known) param)

theorem Ready.step (formed : d.Formed) (good : Good r k s t) (frame : LoopFrame d own outer)
    (turn : Turn setting d r k s t env own) {done : List String} {given : Env}
    (ready : Ready setting d r k s t own done given) (inside : ∀ param ∈ done, param ∈ d.params)
    {param : String} (member : param ∈ d.params) (fresh : param ∉ done) {b : Nat}
    (here : own (nextName param) = some b) {v w : Js.Value P N} (same : Same r k v w)
    (passed : d.Keeps setting.module param → ∀ b', own (Js.identifier param) = some b' →
      t.cells[b']? = some w) :
    Moves (Held own) k s t k (s.extend [v]) { t with cells := t.cells.set b w } ∧
      Good r k (s.extend [v]) { t with cells := t.cells.set b w } ∧
      Turn setting d r k (s.extend [v]) { t with cells := t.cells.set b w } env own ∧
      Ready setting d r k (s.extend [v]) { t with cells := t.cells.set b w } own (done ++ [param])
        ((Env.frame [Js.identifier param] s.cells.length).within given) := by
  obtain ⟨longer, good'⟩ := another_cell good v
  have turn' := turn.evaluated longer
  have ready' := ready.evaluated turn inside longer
  obtain ⟨put, good'', turn'', others⟩ := Turn.put formed good' frame turn' member here w
  obtain ⟨free, _, room⟩ := turn.next param member b here
  have added : (t.cells.set b w)[b]? = some w := List.getElem?_set_self room
  have loopVariable : ∀ q ∈ d.params, ∀ b', own (Js.identifier q) = some b' →
      (t.cells.set b w)[b']? = t.cells[b']? := fun q known b' there =>
    others there (identifier_ne_next (formed.params q known) param)
  refine ⟨(longer.weaken fun _ none => none.elim).trans put, good'', turn'', ?_, ?_⟩
  · intro x outside
    rw [List.map_append, List.map_singleton, List.mem_append, not_or] at outside
    rw [Js.within_outer (Js.frame_none outside.2)]
    exact ready.scope x outside.1
  · intro q known
    rcases List.mem_append.mp known with old | new
    · obtain ⟨a, b', first, second, matched, kept⟩ := ready'.given q old
      have lexical := formed.params q (inside q old)
      have differs : q ≠ param := fun equal => fresh (equal ▸ old)
      have unset := others second fun equal =>
        differs (next_injective lexical (formed.params param member) equal)
      have outer : Js.identifier q ∉ [Js.identifier param] := fun equal =>
        differs (Js.identifier_injective lexical (formed.params param member)
          (List.mem_singleton.mp equal))
      refine ⟨a, b', ?_, second, matched.moves put unset, ?_⟩
      · rw [Js.within_outer (Js.frame_none outer), first]
      · intro keeps e there
        rw [unset, loopVariable q (inside q old) e there]
        exact kept keeps e there
    · obtain rfl := List.mem_singleton.mp new
      refine ⟨s.cells.length, b, ?_, here, ⟨?_, free, v, w, Js.State.extend_new 0, added, same⟩, ?_⟩
      · exact Js.within_own (by simp [Env.frame])
      · intro b' pair
        exact Nat.lt_irrefl _ (good.shared_old pair).1
      · intro keeps b' there
        rw [added, loopVariable q member b' there, passed keeps b' there]

/-- Other variables hold what the loop variables are to hold in a turn. A loop variable that is
paired for good holds it already. -/
structure Supply (setting : Setting) (d : ValueDeclaration) (r : Likeness P N) (k : Link)
    (s t : Js.State P N W) (env own outer : Env) (source : String → String) : Prop where
  scope : ∀ x, x ∉ d.params.map Js.identifier → env x = none
  filled : ∀ p ∈ d.params, ∃ a b b', env (Js.identifier p) = some a ∧
    own (Js.identifier p) = some b ∧ own.within outer (source p) = some b' ∧
    Matched r k s t a b' ∧ k.FreeRight b ∧ b < t.cells.length ∧
    (k.Loose b ∨ d.Keeps setting.module p ∧ t.cells[b]? = t.cells[b']?)
  apart : ∀ p ∈ d.params, ∀ q ∈ d.params,
    own (Js.identifier p) ≠ own.within outer (source q)
  next : ∀ p ∈ d.params, ∀ b, own (nextName p) = some b →
    k.FreeRight b ∧ k.Loose b ∧ b < t.cells.length

section Supply

variable {source : String → String} (supply : Supply setting d r k s t env own outer source)
include supply

theorem Supply.run (formed : d.Formed) {c : Js.Context P N W} {l : Js.Level P N W}
    (frame : LoopFrame d own outer) {set : String → Js.Statement}
    (sets : ∀ p ∈ d.params, set p = .var (Js.identifier p) (.name (source p)) ∨
      set p = .assign (.name (Js.identifier p)) (.name (source p)))
    (rest : List Js.Statement) :
    ∃ t', Js.bodyExec c l own outer (d.params.map set ++ rest) t =
        Js.bodyExec c l own outer rest t' ∧
      Js.Copied own outer Js.identifier source d.params t t' := by
  apply Js.copies_run sets
  · intro p member
    obtain ⟨a, b, b', _, second, _, _, _, inside, _⟩ := supply.filled p member
    exact ⟨b, second, inside⟩
  · intro p member
    obtain ⟨a, b, b', _, _, third, matched, _⟩ := supply.filled p member
    exact ⟨b', third, matched.right_inside⟩
  · intro p member q also same
    obtain ⟨b, there⟩ := frame.param p member
    have equal := frame.injective there (same.symm.trans there)
    exact Js.identifier_injective (formed.params p member) (formed.params q also) equal
  · exact supply.apart

variable (copied : Js.Copied own outer Js.identifier source d.params t t')
include copied

theorem Supply.good (good : Good r k s t) : Moves (Held own) k s t k s t' ∧ Good r k s t' := by
  constructor
  · refine Moves.right_changed (Held own) k s copied.size fun b other => copied.kept b ?_
    exact fun p _ there => other ⟨_, there⟩
  · refine good.right_changed copied.world fun a b pair => ?_
    by_cases target : ∃ p ∈ d.params, own (Js.identifier p) = some b
    · obtain ⟨p, member, there⟩ := target
      obtain ⟨_, b₁, b', _, second, third, _, free, _, loose⟩ := supply.filled p member
      cases there.symm.trans second
      rcases loose with loose | ⟨_, content⟩
      · exact pair.elim (absurd · (free a)) (absurd · (loose a))
      · rw [copied.set p member b b' there third, content]
    · exact copied.kept b fun p member there => target ⟨p, member, there⟩

theorem Supply.matched :
    ∀ p ∈ d.params, ∃ a b, env (Js.identifier p) = some a ∧
      own (Js.identifier p) = some b ∧ Matched r k s t' a b := by
  intro p member
  obtain ⟨a, b, b', first, second, third, matched, free, _⟩ := supply.filled p member
  obtain ⟨v, w, here, there, same⟩ := matched.alike
  have content := (copied.set p member b b' second third).trans there
  exact ⟨a, b, first, second, matched.left, free, v, w, here, content, same⟩

end Supply

theorem Supply.start {source : String → String}
    (supply : Supply setting d r k s t env own outer source) (formed : d.Formed)
    {c : Js.Context P N W} {l : Js.Level P N W} (good : Good r k s t)
    (frame : LoopFrame d own outer) {set : String → Js.Statement}
    (sets : ∀ p ∈ d.params, set p = .var (Js.identifier p) (.name (source p)) ∨
      set p = .assign (.name (Js.identifier p)) (.name (source p)))
    (rest : List Js.Statement) :
    ∃ k' t', Js.bodyExec c l own outer (d.params.map set ++ rest) t =
        Js.bodyExec c l own outer rest t' ∧
      Moves (Held own) k s t k' s t' ∧ Good r k' s t' ∧ Turn setting d r k' s t' env own := by
  obtain ⟨t', run, copied⟩ := supply.run formed (c := c) (l := l) frame sets rest
  obtain ⟨moves, good'⟩ := supply.good copied good
  have matched := supply.matched copied
  obtain ⟨frozen, good''⟩ := freeze_parameters good' matched (d.Keeps setting.module)
  refine ⟨_, t', run, moves.trans frozen, good'', supply.scope, ?_, ?_⟩
  · intro p member
    obtain ⟨a, b, first, second, pair⟩ := matched p member
    obtain ⟨_, b₁, _, _, here, _, _, _, _, loose⟩ := supply.filled p member
    cases second.symm.trans here
    refine ⟨a, b, first, second, pair.moves frozen rfl,
      fun keeps => Or.inr ⟨p, member, keeps, first, second⟩, ?_⟩
    rintro changes a' (old | ⟨q, also, keeps, _, there⟩)
    · exact loose.resolve_right (fun held => changes held.1) a' old
    · have same := Js.identifier_injective (formed.params q also) (formed.params p member)
        (frame.injective there second)
      exact changes (same ▸ keeps)
  · intro p member b here
    obtain ⟨free, loose, room⟩ := supply.next p member b here
    refine ⟨free, ?_, copied.size ▸ room⟩
    rintro a (old | ⟨q, also, _, _, there⟩)
    · exact loose a old
    · exact identifier_ne_next (formed.params q also) p (frame.injective there here)

end Turns

end PureJs.Emit
