import PureJs.Proofs.Syntax.LaidOutModules
import PureJs.Proofs.Syntax.Nodes

/-!
The parser loses and doubles nothing: the nodes of a body, one after the other, are what the tokens
behind the sign of its declaration stand for.
-/

namespace PureJs

theorem Expr.Shown.place_eq {e : Expr} {t : Token} (shown : e.Shown t) : e.place = t.place := by
  cases shown <;> rfl

theorem flatten_begins {parts : List (List Token)} (begins : ∀ part ∈ parts, Begins part) :
    ∀ t ∈ parts.flatten.head?, t.opensLine = true ∧ t.column = 1 := by
  cases parts with
  | nil => nofun
  | cons part rest =>
    obtain ⟨token, others, rfl, opens, begin⟩ := (begins part List.mem_cons_self).first
    rintro t ⟨⟩
    exact ⟨opens, begin⟩

theorem related_member {α β : Type} {r : α → β → Prop} {left : List α} {right : List β}
    (all : List.Forall₂ r left right) {a : α} (member : a ∈ left) : ∃ b ∈ right, r a b := by
  induction all with
  | nil => exact absurd member List.not_mem_nil
  | @cons first second rest others here later ih =>
    rcases List.mem_cons.mp member with rfl | inside
    · exact ⟨second, List.mem_cons_self, here⟩
    · obtain ⟨b, there, related⟩ := ih inside
      exact ⟨b, List.mem_cons_of_mem _ there, related⟩

namespace Module

open Token

theorem declaration_laid_out {file : String} {text : List Char} {modules : List Module}
    (parsed : ofText file text = .ok modules) {m : Module} (member : m ∈ modules)
    {d : ValueDeclaration} (value : Declaration.value d ∈ m.declarations) :
    ∃ before name params assign inner after finish,
      Token.scan text = .ok (before ++ (name :: params ++ assign :: inner) ++ after ++ [finish]) ∧
        finish.kind = .endOfInput ∧ name.place = d.place ∧ name.value = d.name ∧
        params.map Token.value = d.params ∧ assign.kind = .mark .assign ∧ d.body.LaidOut inner ∧
        ∀ t ∈ after.head?, t.opensLine = true ∧ t.column = 1 := by
  obtain ⟨place, stop, groups, scanned, laid, begins⟩ := ofText_laid_out parsed
  rw [← List.flatten_flatten] at scanned
  have begins : ∀ part ∈ groups.flatten, Begins part := by
    intro part listed
    obtain ⟨parts, group, inside⟩ := List.mem_flatten.mp listed
    exact begins parts group part inside
  obtain ⟨parts, group, here⟩ := related_member laid member
  cases here with
  | @intro word moduleName last items parts opens named ends each =>
    obtain ⟨item, written, same⟩ := List.mem_filterMap.mp value
    obtain ⟨part, inside, stands⟩ := related_member each written
    have listed : part ∈ groups.flatten :=
      List.mem_flatten.mpr ⟨_, group, List.mem_cons_of_mem _ inside⟩
    obtain ⟨front, back, split⟩ := List.append_of_mem listed
    rw [split, List.forall_mem_append, List.forall_mem_cons] at begins
    cases stands with
    | @value name assign params inner body named each is laid =>
      cases same
      refine ⟨front.flatten, name, params, assign, inner, back.flatten, endOfInput place stop, ?_,
        rfl, rfl, rfl, rfl, is, laid, flatten_begins begins.2.2⟩
      rw [scanned, split]
      simp
    | _ => cases same

/-- The nodes of a body are what the tokens behind the sign of its declaration stand for, each once
and in the order of the source. -/
theorem nodes_shown_in_order {file : String} {text : List Char} {modules : List Module}
    (parsed : ofText file text = .ok modules) {m : Module} (member : m ∈ modules)
    {d : ValueDeclaration} (value : Declaration.value d ∈ m.declarations) :
    ∃ before name params assign inner after finish,
      Token.scan text = .ok (before ++ (name :: params ++ assign :: inner) ++ after ++ [finish]) ∧
        finish.kind = .endOfInput ∧ name.place = d.place ∧ name.value = d.name ∧
        params.map Token.value = d.params ∧ assign.kind = .mark .assign ∧
        (∀ t ∈ after.head?, t.opensLine = true ∧ t.column = 1) ∧
        List.Forall₂ Expr.Shown d.body.nodes (Token.telling false inner) ∧
        (d.body.nodes.map Expr.place).Pairwise Position.Before := by
  obtain ⟨before, name, params, assign, inner, after, finish, scanned, last, place, named, listed,
    is, laid, ends⟩ := declaration_laid_out parsed member value
  refine ⟨before, name, params, assign, inner, after, finish, scanned, last, place, named,
    listed, is, ends, ?_⟩
  have inside : inner.Sublist
      (before ++ (name :: params ++ assign :: inner) ++ after ++ [finish]) := by
    simp only [List.append_assoc, List.cons_append]
    exact (((List.sublist_append_left _ _).cons _).trans
      (List.sublist_append_right params _)).cons _ |>.trans (List.sublist_append_right before _)
  have ordered := (Token.scan_in_order scanned).sublist inside
  have apart : Apart inner :=
    ⟨List.pairwise_map.mpr (ordered.imp Position.Before.ne),
      fun t here => Token.scan_pointed scanned t (inside.subset here)⟩
  have shown := (laid_tells laid apart).complete
  have places : d.body.nodes.map Expr.place = (Token.telling false inner).map Token.place := by
    rw [← List.forall₂_eq_eq_eq, List.forall₂_map_left_iff, List.forall₂_map_right_iff]
    exact shown.imp fun _ _ node => node.place_eq
  refine ⟨shown, ?_⟩
  rw [places, List.pairwise_map]
  exact ordered.sublist (Token.telling_sublist false inner)

def actionsText : List Char :=
  ("module A where\nf x = if x == -1 then [B.g (x + 2), \\y -> y] else h do\n" ++
    "  let twice a = do\n    b <- a\n    pure (b * 2)\n  let k = \\z -> \"z\"\n  twice x\n").toList

theorem actions_shown_in_order :
    ∃ modules, ofText unnamedFile actionsText = .ok modules ∧ ∃ m ∈ modules,
      ∃ d, Declaration.value d ∈ m.declarations ∧
        ∃ before name params assign inner after finish,
          Token.scan actionsText =
              .ok (before ++ (name :: params ++ assign :: inner) ++ after ++ [finish]) ∧
            finish.kind = .endOfInput ∧ name.place = d.place ∧ name.value = d.name ∧
            params.map Token.value = d.params ∧ assign.kind = .mark .assign ∧
            (∀ t ∈ after.head?, t.opensLine = true ∧ t.column = 1) ∧
            List.Forall₂ Expr.Shown d.body.nodes (Token.telling false inner) ∧
            (d.body.nodes.map Expr.place).Pairwise Position.Before := by
  have reads : ((ofText unnamedFile actionsText).toOption.any fun modules =>
      modules.any fun m => m.declarations.any (·.value?.isSome)) = true := by decide +kernel
  cases parsed : ofText unnamedFile actionsText with
  | error fault =>
    rw [parsed] at reads
    cases reads
  | ok modules =>
    rw [parsed] at reads
    obtain ⟨m, member, some⟩ := List.any_eq_true.mp reads
    obtain ⟨declaration, inside, value⟩ := List.any_eq_true.mp some
    cases declaration with
    | value d => exact ⟨modules, rfl, m, member, d, inside,
        nodes_shown_in_order parsed member inside⟩
    | foreign f => cases value

end Module

end PureJs
