import PureJs.Proofs.Emit.Whole
import PureJs.Proofs.Syntax.SettledModules
import PureJs.Proofs.Token.Places

/-!
What becomes of source texts: code for all that they say, or a rejection that tells what is wrong.
Only an integer literal that has no value brings the compilation to another end.
-/

namespace PureJs

/-- Nothing but decimal digits makes up an integer literal, and no more of them than are
converted. -/
def Token.Legible (token : Token) : Prop :=
  token.kind = .integer → token.value.toList.all (fun c => (Text.decimalValue? c).isSome) = true ∧
    token.value.toList.length ≤ Text.digitLimit

instance (token : Token) : Decidable token.Legible := inferInstanceAs (Decidable (_ → _))

/-- The tokens of the text, if it can be cut into tokens. -/
def SourceUnit.tokens (unit : SourceUnit) : List Token :=
  match Token.scan unit.text.toList with
  | .ok tokens => tokens
  | .error _ => []

def SourceUnit.Legible (unit : SourceUnit) : Prop := ∀ token ∈ unit.tokens, token.Legible

instance (unit : SourceUnit) : Decidable unit.Legible := List.decidableBAll _ _

def SourceFault.Told (units : List SourceUnit) : SourceFault → Prop
  | .rejected rejection => rejection.findings ≠ []
  | .numeral _ => ∃ unit ∈ units, ¬unit.Legible
  | .exhausted => False

theorem SourceFault.Told.mono {few units : List SourceUnit} {fault : SourceFault}
    (told : fault.Told few) (subset : few ⊆ units) : fault.Told units := by
  cases fault with
  | rejected rejection => exact told
  | numeral fault =>
    obtain ⟨unit, inside, illegible⟩ := told
    exact ⟨unit, subset inside, illegible⟩
  | exhausted => exact told

theorem unreadable_illegible {unit : SourceUnit} {tokens : List Token} {token : Token}
    {fault : Text.NumeralFault} (scanned : Token.scan unit.text.toList = .ok tokens)
    (member : token ∈ tokens) (kind : token.kind = .integer)
    (unreadable : Text.readNumeral token.value = .error fault) : ¬unit.Legible := by
  intro legible
  have listed : token ∈ unit.tokens := by
    unfold SourceUnit.tokens
    rwa [scanned]
  obtain ⟨decimal, short⟩ := legible token listed kind
  have some := Token.scan_integers scanned token member kind
  rw [Text.read_numeral_of_decimals some (List.all_eq_true.mp decimal) short] at unreadable
  cases unreadable

theorem unit_fault_told {unit : SourceUnit} {fault : ParseFault}
    (failed : Module.ofText unit.file unit.text.toList = .error fault) :
    (fault.inFile unit.file).Told [unit] := by
  rcases Module.ofText_fault failed with ⟨problem, place, rfl⟩ | ⟨tokens, scanned, arises⟩
  · exact List.cons_ne_nil _ _
  · cases arises with
    | malformed problem place => exact List.cons_ne_nil _ _
    | numeral member kind unreadable =>
      exact ⟨unit, by simp, unreadable_illegible scanned member kind unreadable⟩

theorem units_fault_told {units : List SourceUnit} {fault : SourceFault}
    (failed : parseUnits units = .error fault) : fault.Told units := by
  induction units with
  | nil => cases failed
  | cons unit rest ih =>
    unfold parseUnits at failed
    cases here : Module.ofText unit.file unit.text.toList with
    | error other =>
      simp only [here] at failed
      cases failed
      exact (unit_fault_told here).mono (by simp)
    | ok modules =>
      cases later : parseUnits rest with
      | error other =>
        simp only [here, later, bind, Except.bind, pure, Except.pure] at failed
        cases failed
        exact (ih later).mono (by simp)
      | ok others =>
        simp only [here, later, bind, Except.bind, pure, Except.pure] at failed
        cases failed

theorem refusal_told {options : Options} {modules : List Module} {refusal : Module.Refusal}
    (refused : Module.check options modules = .error refusal) :
    refusal.rejection.findings ≠ [] := by
  have report := Module.check_refused refused
  generalize refusal.rejection.findings = findings at report
  cases report with
  | repeated again => exact mt Module.repeated_modules_nil_iff.mp again
  | unknown _ wrong => exact wrong
  | circle => exact List.cons_ne_nil _ _
  | inside _ _ _ wrong => exact wrong

theorem modules_rejection_told [Simplifier] {options : Options} {header : List String}
    {modules : List Module}
    {rejection : Rejection} (rejected : compileModules options header modules = .error rejection) :
    rejection.findings ≠ [] := by
  unfold compileModules at rejected
  split at rejected
  · rename_i refusal refused
    cases rejected
    exact refusal_told refused
  · split at rejected
    · rename_i wrong
      cases rejected
      exact wrong
    · cases rejected

/-- Code in which nothing is missing and every whole number can be written out, or a rejection by
the parser or the compiler with what it found. -/
def Answered : Except CompileFault Compiled → Prop
  | .ok compiled => ∃ program, compiled.javascript = Js.Program.text program ∧
      Js.BodyWhole program.body
  | .error (.rejected stage rejection) =>
    (stage = .parse ∨ stage = .compile) ∧ rejection.findings ≠ []
  | .error (.numeral _) | .error .exhausted => False

/-- Legible texts have an outcome, whatever they say. -/
theorem legible_sources_answered [Simplifier] (options : Options) (header : List String)
    (units : List SourceUnit) (legible : ∀ unit ∈ units, unit.Legible) :
    Answered (compileSources options header units).2 := by
  unfold compileSources
  cases read : parseUnits units with
  | error fault =>
    have told := units_fault_told read
    cases fault with
    | rejected rejection => exact ⟨.inl rfl, told⟩
    | numeral fault =>
      obtain ⟨unit, inside, illegible⟩ := told
      exact absurd (legible unit inside) illegible
    | exhausted => exact told
  | ok modules =>
    dsimp only
    cases done : compileModules options header modules with
    | error rejection => exact ⟨.inr rfl, modules_rejection_told done⟩
    | ok compiled =>
      obtain ⟨ordered, checked, _, written⟩ := compile_modules_ok done
      exact ⟨_, written, Emit.program_whole read checked⟩

def legibleUnits : List SourceUnit :=
  [⟨none, "module A where\nx = ٣ + 4\n"⟩, ⟨none, "module B where\ny = A.x\n"⟩]

theorem legible_units_answered :
    (∀ unit ∈ legibleUnits, unit.Legible) ∧
      Answered (compileSources Emit.plainOptions [] legibleUnits).2 := by
  have legible : ∀ unit ∈ legibleUnits, unit.Legible := by decide +kernel
  exact ⟨legible, legible_sources_answered Emit.plainOptions [] legibleUnits legible⟩

def superscriptUnits : List SourceUnit := [⟨none, "module A where\nx = ²\n"⟩]

theorem superscript_not_answered :
    (compileSources Emit.plainOptions [] superscriptUnits).2 = .error (.numeral (.notDecimal "²")) ∧
      ¬Answered (compileSources Emit.plainOptions [] superscriptUnits).2 := by
  have ends : (match (compileSources Emit.plainOptions [] superscriptUnits).2 with
      | .error (.numeral fault) => decide (fault = .notDecimal "²")
      | _ => false) = true := by decide +kernel
  split at ends
  · rename_i fault result
    rw [result, of_decide_eq_true ends]
    exact ⟨rfl, id⟩
  · cases ends

end PureJs
