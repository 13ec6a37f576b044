import PureJs.Proofs.Emit.BlockForms

/-!
Names of values of the module itself. They are bare names in the code, so that they stand for the
variables of the module only where no local name is in the way. A name without a module is never
resolved to the module under such a local name, but one that is written with its own module is.
-/

namespace PureJs

/-- The use is written with its own module although a local name of that spelling is in scope. -/
def Occurrence.Captured (module : String) (use : Occurrence) : Prop :=
  use.qualifier = some module ∧ use.name ∈ use.locals

theorem Occurrence.captured_iff [Simplifier] {options : Options} {modules ordered : List Module}
    (checked : Module.check options modules = .ok ordered) {m : Module}
    (member : m ∈ optimized options ordered) {d : ValueDeclaration}
    (value : Declaration.value d ∈ m.declarations) {use : Occurrence}
    (inside : use ∈ d.body.occurrences d.params) (own : use.resolved = some m.name) :
    use.Captured m.name ↔ use.name ∈ use.locals := by
  refine ⟨And.right, fun here => ⟨?_, here⟩⟩
  obtain ⟨source, _, found⟩ := optimized_found checked member value inside
  rw [own] at found
  rcases Module.lookup_value found with ⟨qualified, _⟩ | ⟨_, free, _⟩
  · exact qualified
  · exact absurd here free

namespace Emit

open Js (BareName)

theorem own_bare_name {module : String} {use : Occurrence} (own : use.resolved = some module) :
    use.bareName module = Js.identifier use.name := by
  simp [Occurrence.bareName, bareName, own]

/-- A settled name of the module itself is bound outside of the code exactly if no local name has
its spelling. -/
theorem own_outside_iff {blocks : Bool} {module : String} {u : BareName} {use : Occurrence}
    (aligned : Aligned blocks module u use) (settled : u.Settled)
    (own : use.resolved = some module) (lexical : Lexical use.name)
    (others : ∀ x ∈ use.locals, Lexical x) :
    u.bindings = [.outside] ↔ use.name ∉ use.locals := by
  have meaning := (meaning_aligned_iff aligned).mpr settled
  have bindings : u.bindings = _ := (Prod.mk.inj meaning).2
  rw [bindings, own_bare_name own, Js.innermost]
  simp only [Js.identifier_mem_map lexical others]
  split
  · rename_i here
    simp [here]
  · rename_i free
    simp [free]

/-- A bare name stands for a use; if the use is one of the module itself, then the name is that of
the module's variable, and it is bound outside of the code unless the use is captured. -/
structure OwnName (module : String) (u : BareName) (use : Occurrence) : Prop where
  text : u.text = use.bareName module
  outside : use.resolved = some module →
    u.text = Js.identifier use.name ∧ (u.bindings = [.outside] ↔ ¬use.Captured module)

theorem own_names {blocks : Bool} {module : String} {us : List BareName} {uses : List Occurrence}
    (aligned : List.Forall₂ (Aligned blocks module) us uses) (settled : ∀ u ∈ us, u.Settled)
    (lexical : ∀ use ∈ uses, Lexical use.name ∧ ∀ x ∈ use.locals, Lexical x)
    (captured : ∀ use ∈ uses, use.resolved = some module →
      (use.Captured module ↔ use.name ∈ use.locals)) :
    List.Forall₂ (OwnName module) us uses := by
  induction aligned with
  | nil => exact .nil
  | cons first others ih =>
    rw [List.forall_mem_cons] at settled lexical captured
    refine .cons ⟨first.text, ?_⟩ (ih settled.2 lexical.2 captured.2)
    intro own
    rw [captured.1 own]
    exact ⟨first.text.trans (own_bare_name own),
      own_outside_iff first settled.1 own lexical.1.1 lexical.1.2⟩

/-- In an accepted program, a use of a value of the module itself meets no local name of the same
JavaScript spelling, and its bare name denotes the variable of the module, exactly if it is not
written with the module's name under a local name of its own spelling. -/
theorem own_names_free_iff [Simplifier] {options : Options} {units : List SourceUnit}
    {modules ordered : List Module} (read : parseUnits units = .ok modules)
    (checked : Module.check options modules = .ok ordered) {m : Module}
    (member : m ∈ optimized options ordered) {d : ValueDeclaration}
    (value : Declaration.value d ∈ m.declarations) :
    (∀ use ∈ d.body.occurrences d.params, use.resolved = some m.name →
      ((∀ x ∈ use.locals, Js.identifier x ≠ Js.identifier use.name) ↔ ¬use.Captured m.name)) ∧
    (∃ us, (((plainFunction ⟨m.name, false⟩ d).names []).filter (·.text ≠ bindName)).Perm us ∧
      List.Forall₂ (OwnName m.name) us (d.body.occurrences d.params)) ∧
    (d.body.Steady m.name → List.Forall₂ (OwnName m.name)
      ((plainFunction ⟨m.name, true⟩ d).names []) (d.body.occurrences d.params)) := by
  have formed : d.Formed := optimized_formed read checked m member _ value
  have lexical := Expr.occurrences_lexical formed.body formed.params
  have captured : ∀ use ∈ d.body.occurrences d.params, use.resolved = some m.name →
      (use.Captured m.name ↔ use.name ∈ use.locals) :=
    fun use inside own => Occurrence.captured_iff checked member value inside own
  refine ⟨?_, ?_, ?_⟩
  · intro use inside own
    rw [captured use inside own,
      ← Js.identifier_mem_map (lexical use inside).1 (lexical use inside).2]
    simp
  · obtain ⟨us, perm, aligned, _⟩ := plain_function_matches false m.name formed
    exact ⟨us, perm, own_names aligned (chained_settled aligned) lexical captured⟩
  · intro steady
    obtain ⟨us, _, aligned, same⟩ := plain_function_matches true m.name formed
    rw [← same rfl] at aligned
    exact own_names aligned ((plain_function_settled_iff m.name formed).mpr steady) lexical captured

def freeUnits : List SourceUnit := [⟨none, "module A where\nx = 1\nf y = A.x + x + y\n"⟩]

def capturedUnits : List SourceUnit := [⟨none, "module A where\nx = 1\nf x = A.x\n"⟩]

theorem free_units_own_names :
    ∃ modules ordered, parseUnits freeUnits = .ok modules ∧
      Module.check plainOptions modules = .ok ordered ∧
      ∃ m ∈ optimized plainOptions ordered, ∃ d, Declaration.value d ∈ m.declarations ∧
        d.name = "f" ∧ ∀ use ∈ d.body.occurrences d.params, use.resolved = some m.name →
          ((∀ x ∈ use.locals, Js.identifier x ≠ Js.identifier use.name) ↔
            ¬use.Captured m.name) := by
  obtain ⟨modules, ordered, read, checked, m, member, d, value, named⟩ :=
    has_value (show hasValue plainOptions freeUnits (fun _ d => d.name = "f") = true by
      decide +kernel)
  exact ⟨modules, ordered, read, checked, m, member, d, value, of_decide_eq_true named,
    (own_names_free_iff read checked member value).1⟩

theorem captured_units_own_name :
    ∃ modules ordered, parseUnits capturedUnits = .ok modules ∧
      Module.check plainOptions modules = .ok ordered ∧
      ∃ m ∈ optimized plainOptions ordered, ∃ d, Declaration.value d ∈ m.declarations ∧
        (∃ use ∈ d.body.occurrences d.params, use.resolved = some m.name ∧
          ∃ x ∈ use.locals, Js.identifier x = Js.identifier use.name) ∧
        ((plainFunction ⟨m.name, true⟩ d).names []).map BareName.meaning =
          [("x", [.binder 1])] := by
  obtain ⟨modules, ordered, read, checked, m, member, d, value, captured⟩ :=
    has_value (show hasValue plainOptions capturedUnits (fun m d =>
      (∃ use ∈ d.body.occurrences d.params, use.resolved = some m.name ∧
          ∃ x ∈ use.locals, Js.identifier x = Js.identifier use.name) ∧
        ((plainFunction ⟨m.name, true⟩ d).names []).map BareName.meaning =
          [("x", [.binder 1])]) = true by decide +kernel)
  exact ⟨modules, ordered, read, checked, m, member, d, value, of_decide_eq_true captured⟩

end Emit

end PureJs
