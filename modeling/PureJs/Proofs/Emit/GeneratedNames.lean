import PureJs.Proofs.Emit.SelfCalls

/-!
The names of a source and those that the code adds. No name of a source becomes a name of the other
kind, and the variables of loops are as different as the parameters that they stand for.
-/

namespace PureJs

/-- A source has the name as an identifier, or at the end of a qualified name. -/
def Token.Scanned (name : String) : Prop :=
  ∃ text tokens, scan text = .ok tokens ∧ ∃ t ∈ tokens,
    t.kind = .identifier ∧ t.value = name ∨
      t.kind = .qualified ∧ (Expr.splitQualified t.value).2 = name

theorem Token.Scanned.lexical {name : String} (scanned : Scanned name) : Lexical name := by
  obtain ⟨text, tokens, cut, t, member, ⟨kind, rfl⟩ | ⟨kind, rfl⟩⟩ := scanned
  · exact (scan_well_named cut t member).1 kind
  · exact (scan_well_named cut t member).2 kind

namespace Emit

theorem loop_names_apart {left right : String} (first : Lexical left) (second : Lexical right)
    (different : left ≠ right) :
    ∀ f ∈ [copyName, nextName], ∀ g ∈ [copyName, nextName], f left ≠ g right := by
  simp only [List.forall_mem_cons, List.not_mem_nil, false_implies, implies_true, and_true]
  exact ⟨⟨fun same => different (copy_injective first second same), copy_ne_next left right⟩,
    (copy_ne_next right left).symm, fun same => different (next_injective first second same)⟩

/-- Different names of sources become different identifiers, and the variables that loops have for
them, of either kind, are different as well. No identifier is a reserved word or a name that the
code adds, and none begins like the variables of loops. -/
theorem identifiers_kept_apart {left right : String} (first : Token.Scanned left)
    (second : Token.Scanned right) :
    (left ≠ right → Js.identifier left ≠ Js.identifier right ∧
        ∀ f ∈ [copyName, nextName], ∀ g ∈ [copyName, nextName], f left ≠ g right) ∧
      Js.identifier left ∉ Js.reserved ∧
      Js.identifier left ≠ bindName ∧ Js.identifier left ≠ unusedName ∧
      ¬"$copy_".toList <+: (Js.identifier left).toList ∧
      ¬"$tco_".toList <+: (Js.identifier left).toList := by
  have plain := first.lexical
  have other := second.lexical
  have apart : left ≠ right → Js.identifier left ≠ Js.identifier right :=
    fun different same => different (Js.identifier_injective plain other same)
  have single : ∀ c rest, c ≠ '$' → ¬ '$' :: c :: rest <+: (Js.identifier left).toList :=
    fun _ _ => Js.identifier_no_generated_start plain
  obtain ⟨bind, unused⟩ := identifier_plain plain
  exact ⟨fun different => ⟨apart different, loop_names_apart plain other different⟩,
    Js.identifier_not_reserved left, bind, unused, single 'c' _ (by decide),
    single 't' _ (by decide)⟩

def markedText : List Char := "class A.class'".toList

def markedName : Token := ⟨.identifier, "class", ⟨1, 1⟩, 0, 5, true⟩

def primedName : Token := ⟨.qualified, "A.class'", ⟨1, 7⟩, 6, 14, false⟩

theorem marked_names_apart :
    Token.Scanned "class" ∧ Token.Scanned "class'" ∧
      Js.identifier "class" = "$$class" ∧ Js.identifier "class'" = "class$prime" ∧
        copyName "class" ≠ copyName "class'" ∧ copyName "class" ≠ nextName "class'" ∧
          "$$class" ∉ Js.reserved ∧ "$$class" ≠ bindName := by
  have scanned : Token.scan markedText =
      .ok [markedName, primedName, Token.endOfInput ⟨1, 15⟩ 14] := by decide +kernel
  have first : Token.Scanned "class" :=
    ⟨_, _, scanned, markedName, by simp, .inl ⟨rfl, rfl⟩⟩
  have second : Token.Scanned "class'" :=
    ⟨_, _, scanned, primedName, by simp, .inr ⟨rfl, by decide⟩⟩
  have marked : Js.identifier "class" = "$$class" := by decide +kernel
  have primed : Js.identifier "class'" = "class$prime" := by decide +kernel
  obtain ⟨apart, free, bind, -⟩ := identifiers_kept_apart first second
  have loops := (apart (by decide)).2
  exact ⟨first, second, marked, primed, loops _ (by simp) _ (by simp),
    loops _ (by simp) _ (by simp), marked ▸ free, marked ▸ bind⟩

end Emit

end PureJs
