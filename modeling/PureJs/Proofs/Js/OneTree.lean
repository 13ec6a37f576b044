import PureJs.Proofs.Js.Grammar

/-!
Lexemes have one operator tree at most. Where an expression ends is seen from the lexeme behind it,
and what it is made of from its lexemes, one after the other.
-/

namespace PureJs.Js

/-- An expression of the level does not go on with the lexemes. -/
def Ends (level : Nat) (rest : List Lexeme) : Prop :=
  ∀ lexeme more, rest = lexeme :: more → lexeme.continues level = false

def Closes (rest : List Lexeme) : Prop :=
  ∃ lexeme more, rest = lexeme :: more ∧ lexeme ∈ [.sign ")", .sign "]", .sign "\x7d"]

namespace Lexeme

theorem continues_looser {level : Nat} {lexeme : Lexeme}
    (ends : lexeme.continues level = false) : lexeme.continues (level + 1) = false := by
  rw [Bool.eq_false_iff] at ends ⊢
  intro goes
  apply ends
  cases lexeme with
  | sign text =>
    simp only [continues, Nat.succ_ne_zero, decide_false, Bool.false_and, Bool.false_or,
      Bool.or_eq_true, Bool.and_eq_true, decide_eq_true_eq, List.any_eq_true] at goes ⊢
    rcases goes with ⟨small, member⟩ | ⟨op, member, small, same⟩
    · exact Or.inl (Or.inr ⟨Nat.le_of_succ_le small, member⟩)
    · exact Or.inr ⟨op, member, Nat.le_of_succ_le small, same⟩
  | word | number | string => cases goes

theorem closing_ends {lexeme : Lexeme} (closes : lexeme ∈ [.sign ")", .sign "]", .sign "\x7d"]) :
    lexeme.continues 0 = false ∧ lexeme.starts = false ∧ lexeme ≠ .sign "," := by
  revert lexeme
  decide

end Lexeme

theorem Ends.tighter {level : Nat} {rest : List Lexeme} (ends : Ends level rest) :
    Ends (level + 1) rest :=
  fun lexeme more same => Lexeme.continues_looser (ends lexeme more same)

theorem ends_sign {level : Nat} {text : String} {more : List Lexeme}
    (ends : (Lexeme.sign text).continues level = false) : Ends level (.sign text :: more) := by
  rintro lexeme others ⟨⟩
  exact ends

theorem Closes.ends {rest : List Lexeme} (closed : Closes rest) : Ends 0 rest := by
  obtain ⟨lexeme, more, rfl, closes⟩ := closed
  rintro other others ⟨⟩
  exact (Lexeme.closing_ends closes).1

theorem closed_sign {text : String} {more : List Lexeme}
    (closes : Lexeme.sign text ∈ [.sign ")", .sign "]", .sign "\x7d"]) :
    Closes (.sign text :: more) :=
  ⟨_, more, rfl, closes⟩

theorem operator_text_injective {op other : Operator} (same : op.text = other.text) :
    op = other := by
  cases op <;> cases other <;> first | rfl | exact absurd same (by decide)

theorem operator_continues (op : Operator) :
    (Lexeme.sign op.text).continues op.level = true ∧
      (Lexeme.sign op.text).continues (op.level + 1) = false := by
  cases op <;> decide

theorem operator_text (op : Operator) : op.text ∉ ["(", "[", "."] := by
  cases op <;> decide

theorem GoesOn.begins {level : Nat} {left tree : Tree} {lexemes : List Lexeme}
    (goes : GoesOn level left lexemes tree) : ∃ text rest, lexemes = .sign text :: rest ∧
      (Lexeme.sign text).continues level = true ∧
      (Lexeme.sign text).continues (level + 1) = false := by
  cases goes with
  | @operator op => exact ⟨_, _, rfl, operator_continues op⟩
  | call | property | entry => exact ⟨_, _, rfl, by decide, by decide⟩

inductive Chain (level : Nat) : Tree → List Lexeme → Tree → Prop
  | stop {tree : Tree} : Chain level tree [] tree
  | step {front back : List Lexeme} {left next tree : Tree} (goes : GoesOn level left front next)
    (later : Chain level next back tree) : Chain level left (front ++ back) tree

theorem Chain.then {level : Nat} {left next tree : Tree} {front back : List Lexeme}
    (chain : Chain level left front next) (goes : GoesOn level next back tree) :
    Chain level left (front ++ back) tree := by
  induction chain with
  | stop => simpa using Chain.step goes .stop
  | step first _ ih =>
    rw [List.append_assoc]
    exact .step first (ih goes)

inductive Form (level : Nat) (lexemes : List Lexeme) (tree : Tree) : Prop
  | primary (highest : level = primaryLevel) (reads : ReadsPrimary lexemes tree)
  | chain {front back : List Lexeme} {left : Tree} (whole : lexemes = front ++ back)
    (reads : Reads (level + 1) front left) (goes : Chain level left back tree)
  | negate {inner : List Lexeme} {operand : Tree} (here : level = unaryLevel)
    (whole : lexemes = .sign "-" :: inner) (same : tree = .negate operand)
    (reads : Reads unaryLevel inner operand)
  | cond {first second third : List Lexeme} {condition yes no : Tree} (here : level = 0)
    (whole : lexemes = first ++ .sign "?" :: (second ++ .sign ":" :: third))
    (same : tree = .cond condition yes no) (test : Reads 1 first condition)
    (left : Reads 0 second yes) (right : Reads 0 third no)

theorem GoesOn.level_ne {level : Nat} {left tree : Tree} {lexemes : List Lexeme}
    (goes : GoesOn level left lexemes tree) :
    level ≠ 0 ∧ level ≠ unaryLevel ∧ level ≠ primaryLevel := by
  cases goes with
  | @operator op => cases op <;> decide
  | call | property | entry => decide

theorem Reads.form {level : Nat} {lexemes : List Lexeme} {tree : Tree} :
    Reads level lexemes tree → Form level lexemes tree
  | .primary reads => .primary rfl reads
  | .tighter reads => .chain (List.append_nil _).symm reads .stop
  | .longer reads goes => by
    have other := goes.level_ne
    cases reads.form with
    | primary highest => exact absurd highest other.2.2
    | chain whole front chain =>
      rw [whole, List.append_assoc]
      exact .chain rfl front (chain.then goes)
    | negate here => exact absurd here other.2.1
    | cond here => exact absurd here other.1
  | .negate reads => .negate rfl rfl rfl reads
  | .cond test left right => .cond rfl rfl rfl test left right

/-! Expressions whose parts have one tree -/

def OneAt (level n : Nat) : Prop :=
  ∀ {lexemes others rest more : List Lexeme} {tree other : Tree},
    lexemes.length < n → Reads level lexemes tree → Reads level others other →
      lexemes ++ rest = others ++ more → Ends level rest → Ends level more →
        lexemes = others ∧ tree = other

def OneBelow (n : Nat) : Prop := ∀ {level : Nat}, OneAt level n

theorem Closes.not_begun {level : Nat} {rest lexemes more : List Lexeme} {tree : Tree}
    (closed : Closes rest) (reads : Reads level lexemes tree) : rest ≠ lexemes ++ more := by
  obtain ⟨lexeme, others, rfl, closes⟩ := closed
  obtain ⟨first, tail, rfl, starts, -⟩ := reads.begins
  rintro ⟨⟩
  rw [(Lexeme.closing_ends closes).2.1] at starts
  cases starts

theorem Closes.no_comma {rest more : List Lexeme} (closed : Closes rest) :
    rest ≠ .sign "," :: more := by
  obtain ⟨lexeme, others, rfl, closes⟩ := closed
  rintro ⟨⟩
  exact (Lexeme.closing_ends closes).2.2 rfl

theorem Closes.no_word {rest more : List Lexeme} {text : String} (closed : Closes rest) :
    rest ≠ .word text :: more := by
  obtain ⟨lexeme, others, rfl, closes⟩ := closed
  rintro ⟨⟩
  simp at closes

theorem Reads.no_statement {level : Nat} {lexemes others more : List Lexeme} {tree : Tree}
    {text : String} (reads : Reads level lexemes tree) (word : text ∈ ["var", "return"]) :
    lexemes ++ more ≠ .word text :: others := by
  obtain ⟨first, tail, rfl, starts, -⟩ := reads.begins
  rintro ⟨⟩
  have none : ∀ text ∈ ["var", "return"], (Lexeme.word text).starts = false := by decide
  rw [none text word] at starts
  cases starts

theorem ReadsNames.one {front others rest more : List Lexeme} {names params : List String}
    (left : ReadsNames front names) (right : ReadsNames others params)
    (same : front ++ .sign ")" :: rest = others ++ .sign ")" :: more) :
    front = others ∧ names = params := by
  induction left generalizing others params with
  | none =>
    cases right with
    | none => exact ⟨rfl, rfl⟩
    | last | next => cases (List.cons.inj same).1
  | last =>
    cases right with
    | none => cases (List.cons.inj same).1
    | last =>
      cases (List.cons.inj same).1
      exact ⟨rfl, rfl⟩
    | next => exact absurd (List.cons.inj (List.cons.inj same).2).1 (by decide)
  | next _ _ ih =>
    cases right with
    | none => cases (List.cons.inj same).1
    | last => exact absurd (List.cons.inj (List.cons.inj same).2).1 (by decide)
    | next _ later =>
      cases (List.cons.inj same).1
      obtain ⟨rfl, names⟩ := ih later (List.cons.inj (List.cons.inj same).2).2
      rw [names]
      exact ⟨rfl, rfl⟩

section Parts

variable {n : Nat}

theorem ReadsItems.one (below : OneBelow n) {inner others rest more : List Lexeme}
    {trees items : List Tree} (short : inner.length < n) (left : ReadsItems inner trees)
    (right : ReadsItems others items) (same : inner ++ rest = others ++ more)
    (closed : Closes rest) (ended : Closes more) : inner = others ∧ trees = items := by
  cases left with
  | none =>
    cases right with
    | none => exact ⟨rfl, rfl⟩
    | last reads => exact absurd same (closed.not_begun reads)
    | next reads =>
      rw [List.append_assoc] at same
      exact absurd same (closed.not_begun reads)
  | last reads =>
    cases right with
    | none => exact absurd same.symm (ended.not_begun reads)
    | last other =>
      obtain ⟨rfl, rfl⟩ := below short reads other same closed.ends ended.ends
      exact ⟨rfl, rfl⟩
    | next other =>
      rw [List.append_assoc] at same
      obtain ⟨rfl, -⟩ := below short reads other same closed.ends (ends_sign (by decide))
      exact absurd (List.append_cancel_left same) closed.no_comma
  | @next front back tree second later reads following =>
    rw [List.length_append, List.length_cons] at short
    rw [List.append_assoc] at same
    cases right with
    | none => exact absurd same.symm (ended.not_begun reads)
    | last other =>
      obtain ⟨rfl, -⟩ := below (by omega) reads other same (ends_sign (by decide)) ended.ends
      exact absurd (List.append_cancel_left same).symm ended.no_comma
    | next other others =>
      rw [List.append_assoc] at same
      obtain ⟨rfl, rfl⟩ := below (by omega) reads other same (ends_sign (by decide))
        (ends_sign (by decide))
      have behind := (List.cons.inj (List.append_cancel_left same)).2
      obtain ⟨rfl, trees⟩ := following.one below (by omega) others behind closed ended
      rw [trees]
      exact ⟨rfl, rfl⟩

theorem ReadsBody.one (below : OneBelow n) {inner others rest more : List Lexeme}
    {body statements : List TreeStatement} (short : inner.length < n) (left : ReadsBody inner body)
    (right : ReadsBody others statements) (same : inner ++ rest = others ++ more)
    (closed : Closes rest) (ended : Closes more) : inner = others ∧ body = statements := by
  cases left with
  | none =>
    cases right with
    | none => exact ⟨rfl, rfl⟩
    | var | give => exact absurd same closed.no_word
    | run _ reads =>
      rw [List.append_assoc] at same
      exact absurd same (closed.not_begun reads)
  | @var name value back tree later _ reads following =>
    simp only [List.length_cons, List.length_append] at short
    cases right with
    | none => exact absurd same.symm ended.no_word
    | var _ other others =>
      simp only [List.cons_append, List.cons.injEq, List.append_assoc, Lexeme.word.injEq,
        true_and] at same
      obtain ⟨rfl, same⟩ := same
      obtain ⟨rfl, rfl⟩ := below (by omega) reads other same (ends_sign (by decide))
        (ends_sign (by decide))
      obtain ⟨rfl, rfl⟩ := following.one below (by omega) others
        (List.cons.inj (List.append_cancel_left same)).2 closed ended
      exact ⟨rfl, rfl⟩
    | give => exact absurd (List.cons.inj same).1 (by decide)
    | run _ other =>
      rw [List.append_assoc] at same
      exact absurd same.symm (other.no_statement (by decide))
  | @give value back tree later reads following =>
    simp only [List.length_cons, List.length_append] at short
    cases right with
    | none => exact absurd same.symm ended.no_word
    | var => exact absurd (List.cons.inj same).1 (by decide)
    | give other others =>
      simp only [List.cons_append, List.cons.injEq, List.append_assoc, true_and] at same
      obtain ⟨rfl, rfl⟩ := below (by omega) reads other same (ends_sign (by decide))
        (ends_sign (by decide))
      obtain ⟨rfl, rfl⟩ := following.one below (by omega) others
        (List.cons.inj (List.append_cancel_left same)).2 closed ended
      exact ⟨rfl, rfl⟩
    | run _ other =>
      rw [List.append_assoc] at same
      exact absurd same.symm (other.no_statement (by decide))
  | @run value back tree later _ reads following =>
    simp only [List.length_cons, List.length_append] at short
    rw [List.append_assoc] at same
    cases right with
    | none => exact absurd same.symm (ended.not_begun reads)
    | var | give => exact absurd same (reads.no_statement (by decide))
    | run _ other others =>
      rw [List.append_assoc] at same
      obtain ⟨rfl, rfl⟩ := below (by omega) reads other same (ends_sign (by decide))
        (ends_sign (by decide))
      obtain ⟨rfl, rfl⟩ := following.one below (by omega) others
        (List.cons.inj (List.append_cancel_left same)).2 closed ended
      exact ⟨rfl, rfl⟩

theorem GoesOn.one (below : OneBelow n) {level other : Nat} (agree : level = other)
    {left next tree : Tree} {front back rest more : List Lexeme} (short : front.length ≤ n)
    (goes : GoesOn level left front next) (turns : GoesOn other left back tree)
    (same : front ++ rest = back ++ more) (ends : Ends (level + 1) rest)
    (stops : Ends (level + 1) more) : front = back ∧ next = tree := by
  have apart : ∀ {op : Operator} {text : String}, text ∈ ["(", "[", "."] → op.text ≠ text := by
    rintro op text member rfl
    exact operator_text op member
  cases goes with
  | operator reads =>
    simp only [List.length_cons] at short
    cases turns with
    | operator others =>
      simp only [List.cons_append, List.cons.injEq, Lexeme.sign.injEq] at same
      obtain rfl := operator_text_injective same.1
      obtain ⟨rfl, rfl⟩ := below short reads others same.2 ends stops
      exact ⟨rfl, rfl⟩
    | call | property | entry =>
      exact absurd (Lexeme.sign.inj (List.cons.inj same).1) (apart (by decide))
  | call each =>
    simp only [List.length_cons, List.length_append] at short
    cases turns with
    | operator =>
      exact absurd (Lexeme.sign.inj (List.cons.inj same).1).symm (apart (by decide))
    | call others =>
      simp only [List.cons_append, List.cons.injEq, List.append_assoc, true_and] at same
      obtain ⟨rfl, rfl⟩ := each.one below (by omega) others same (closed_sign (by decide))
        (closed_sign (by decide))
      exact ⟨rfl, rfl⟩
    | property | entry => exact absurd (List.cons.inj same).1 (by decide)
  | property =>
    cases turns with
    | operator =>
      exact absurd (Lexeme.sign.inj (List.cons.inj same).1).symm (apart (by decide))
    | property =>
      cases (List.cons.inj (List.cons.inj same).2).1
      exact ⟨rfl, rfl⟩
    | call | entry => exact absurd (List.cons.inj same).1 (by decide)
  | entry reads =>
    simp only [List.length_cons, List.length_append] at short
    cases turns with
    | operator =>
      exact absurd (Lexeme.sign.inj (List.cons.inj same).1).symm (apart (by decide))
    | entry others =>
      simp only [List.cons_append, List.cons.injEq, List.append_assoc, true_and] at same
      obtain ⟨rfl, rfl⟩ := below (by omega) reads others same
        (closed_sign (by decide)).ends (closed_sign (by decide)).ends
      exact ⟨rfl, rfl⟩
    | call | property => exact absurd (List.cons.inj same).1 (by decide)

theorem Chain.ends {level : Nat} {left tree : Tree} {back rest : List Lexeme}
    (chain : Chain level left back tree) (ends : Ends level rest) :
    Ends (level + 1) (back ++ rest) := by
  cases chain with
  | stop => exact ends.tighter
  | step goes =>
    obtain ⟨text, tail, rfl, -, tight⟩ := goes.begins
    exact ends_sign tight

theorem Chain.one (below : OneBelow n) {level : Nat} {left tree other : Tree}
    {front back rest more : List Lexeme} (short : front.length ≤ n)
    (chain : Chain level left front tree) (links : Chain level left back other)
    (same : front ++ rest = back ++ more) (ends : Ends level rest) (stops : Ends level more) :
    front = back ∧ tree = other := by
  have stays : ∀ {left next : Tree} {begun others rest : List Lexeme}, Ends level rest →
      GoesOn level left begun next → rest ≠ begun ++ others := by
    rintro left next begun others rest ends goes rfl
    obtain ⟨text, tail, rfl, on, -⟩ := goes.begins
    rw [ends _ _ rfl] at on
    cases on
  induction chain generalizing back other with
  | stop =>
    cases links with
    | stop => exact ⟨rfl, rfl⟩
    | step goes =>
      rw [List.append_assoc] at same
      exact absurd same (stays ends goes)
  | step goes later ih =>
    simp only [List.length_append] at short
    rw [List.append_assoc] at same
    cases links with
    | stop => exact absurd same.symm (stays stops goes)
    | step turns others =>
      rw [List.append_assoc] at same
      obtain ⟨rfl, rfl⟩ := goes.one below rfl (by omega) turns same (later.ends ends)
        (others.ends stops)
      obtain ⟨rfl, rfl⟩ := ih (by omega) others (List.append_cancel_left same)
      exact ⟨rfl, rfl⟩

theorem ReadsPrimary.one (below : OneBelow n) {lexemes others rest more : List Lexeme}
    {tree other : Tree} (short : lexemes.length ≤ n) (left : ReadsPrimary lexemes tree)
    (right : ReadsPrimary others other) (same : lexemes ++ rest = others ++ more) :
    lexemes = others ∧ tree = other := by
  have taken : ∀ word ∈ ["true", "false", "function"], word ∈ keywords := by decide
  cases left with
  | number =>
    cases right <;> cases (List.cons.inj same).1
    exact ⟨rfl, rfl⟩
  | string =>
    cases right <;> cases (List.cons.inj same).1
    exact ⟨rfl, rfl⟩
  | yes =>
    cases right with
    | yes => exact ⟨rfl, rfl⟩
    | name free =>
      cases (List.cons.inj same).1
      exact absurd (taken _ (by decide)) free
    | no | function => exact absurd (List.cons.inj same).1 (by decide)
    | number | string | array | paren => cases (List.cons.inj same).1
  | no =>
    cases right with
    | no => exact ⟨rfl, rfl⟩
    | name free =>
      cases (List.cons.inj same).1
      exact absurd (taken _ (by decide)) free
    | yes | function => exact absurd (List.cons.inj same).1 (by decide)
    | number | string | array | paren => cases (List.cons.inj same).1
  | name free =>
    cases right with
    | name =>
      cases (List.cons.inj same).1
      exact ⟨rfl, rfl⟩
    | yes | no | function =>
      cases (List.cons.inj same).1
      exact absurd (taken _ (by decide)) free
    | number | string | array | paren => cases (List.cons.inj same).1
  | array each =>
    simp only [List.length_cons, List.length_append] at short
    cases right with
    | array items =>
      simp only [List.cons_append, List.cons.injEq, List.append_assoc, true_and] at same
      obtain ⟨rfl, rfl⟩ := each.one below (by omega) items same (closed_sign (by decide))
        (closed_sign (by decide))
      exact ⟨rfl, rfl⟩
    | paren => exact absurd (List.cons.inj same).1 (by decide)
    | number | string | yes | no | name | function => cases (List.cons.inj same).1
  | paren reads =>
    simp only [List.length_cons, List.length_append] at short
    cases right with
    | paren inner =>
      simp only [List.cons_append, List.cons.injEq, List.append_assoc, true_and] at same
      obtain ⟨rfl, rfl⟩ := below (by omega) reads inner same (closed_sign (by decide)).ends
        (closed_sign (by decide)).ends
      exact ⟨rfl, rfl⟩
    | array => exact absurd (List.cons.inj same).1 (by decide)
    | number | string | yes | no | name | function => cases (List.cons.inj same).1
  | function named runs =>
    simp only [List.length_cons, List.length_append] at short
    cases right with
    | function params statements =>
      simp only [List.cons_append, List.cons.injEq, List.append_assoc, true_and] at same
      obtain ⟨rfl, rfl⟩ := named.one params same
      have inside := (List.cons.inj (List.cons.inj (List.append_cancel_left same)).2).2
      obtain ⟨rfl, rfl⟩ := runs.one below (by omega) statements inside
        (closed_sign (by decide)) (closed_sign (by decide))
      exact ⟨rfl, rfl⟩
    | name free =>
      cases (List.cons.inj same).1
      exact absurd (taken _ (by decide)) free
    | yes | no => exact absurd (List.cons.inj same).1 (by decide)
    | number | string | array | paren => cases (List.cons.inj same).1

theorem Chain.no_question {left tree : Tree} {back rest more : List Lexeme}
    (chain : Chain 0 left back tree) (ends : Ends 0 rest) : back ++ rest ≠ .sign "?" :: more := by
  cases chain with
  | stop =>
    rintro rfl
    exact absurd (ends _ _ rfl) (by decide)
  | step goes => exact absurd rfl goes.level_ne.1

theorem Reads.no_sign {lexemes others more : List Lexeme} {tree : Tree}
    (reads : Reads callLevel lexemes tree) : lexemes ++ more ≠ .sign "-" :: others := by
  obtain ⟨first, tail, rfl, -, plain⟩ := reads.begins
  rintro ⟨⟩
  exact plain (Nat.le_refl _) rfl

theorem Reads.level_le {level : Nat} {lexemes : List Lexeme} {tree : Tree} :
    Reads level lexemes tree → level ≤ primaryLevel
  | .primary _ => Nat.le_refl _
  | .tighter reads => Nat.le_of_succ_le reads.level_le
  | .longer reads _ => reads.level_le
  | .negate _ | .cond _ _ _ => by decide

theorem level_one (below : OneBelow n) {level : Nat} (above : OneAt (level + 1) (n + 1)) :
    OneAt level (n + 1) := by
  intro lexemes others rest more tree other short left right same ends stops
  have highest : ∀ {lexemes : List Lexeme} {tree : Tree}, ¬Reads (primaryLevel + 1) lexemes tree :=
    fun reads => absurd reads.level_le (by decide)
  cases left.form with
  | primary here reads =>
    subst here
    cases right.form with
    | primary _ primary => exact reads.one below (Nat.le_of_lt_succ short) primary same
    | chain _ front => exact absurd front highest
    | negate here | cond here => exact absurd here (by decide)
  | chain whole reads goes =>
    subst whole
    simp only [List.length_append] at short
    rw [List.append_assoc] at same
    cases right.form with
    | primary here =>
      subst here
      exact absurd reads highest
    | chain whole front turns =>
      subst whole
      rw [List.append_assoc] at same
      obtain ⟨rfl, rfl⟩ := above (by omega) reads front same (goes.ends ends) (turns.ends stops)
      obtain ⟨rfl, rfl⟩ := goes.one below (by omega) turns (List.append_cancel_left same) ends stops
      exact ⟨rfl, rfl⟩
    | negate here whole =>
      subst here whole
      exact absurd same reads.no_sign
    | cond here whole _ test =>
      subst here whole
      rw [List.append_assoc] at same
      obtain ⟨rfl, -⟩ := above (by omega) reads test same (goes.ends ends) (ends_sign (by decide))
      exact absurd (List.append_cancel_left same) (goes.no_question ends)
  | negate here whole tree reads =>
    subst here whole tree
    simp only [List.length_cons] at short
    cases right.form with
    | chain whole front =>
      subst whole
      rw [List.append_assoc] at same
      exact absurd same.symm front.no_sign
    | negate _ whole tree inner =>
      subst whole tree
      obtain ⟨rfl, rfl⟩ := below (by omega) reads inner (List.cons.inj same).2 ends stops
      exact ⟨rfl, rfl⟩
    | primary here | cond here => exact absurd here (by decide)
  | cond here whole tree test yes no =>
    subst here whole tree
    simp only [List.length_append, List.length_cons] at short
    rw [List.append_assoc] at same
    cases right.form with
    | primary here | negate here => exact absurd here (by decide)
    | chain whole front turns =>
      subst whole
      rw [List.append_assoc] at same
      obtain ⟨rfl, -⟩ := below (by omega) test front same (ends_sign (by decide))
        (turns.ends stops)
      exact absurd (List.append_cancel_left same).symm (turns.no_question stops)
    | cond _ whole tree condition first second =>
      subst whole tree
      rw [List.append_assoc] at same
      obtain ⟨rfl, rfl⟩ := below (by omega) test condition same (ends_sign (by decide))
        (ends_sign (by decide))
      simp only [List.cons_append, List.append_cancel_left_eq, List.cons.injEq, List.append_assoc,
        true_and] at same
      obtain ⟨rfl, rfl⟩ := below (by omega) yes first same (ends_sign (by decide))
        (ends_sign (by decide))
      obtain ⟨rfl, rfl⟩ := below (by omega) no second
        (List.cons.inj (List.append_cancel_left same)).2 ends stops
      exact ⟨rfl, rfl⟩

end Parts

theorem one_below (n : Nat) : OneBelow n := by
  induction n with
  | zero =>
    intro level lexemes others rest more tree other short
    exact absurd short (Nat.not_lt_zero _)
  | succ n below =>
    have levels : ∀ height level, level + height = primaryLevel + 1 → OneAt level (n + 1) := by
      intro height
      induction height with
      | zero =>
        intro level top lexemes others rest more tree other short left
        exact absurd left.level_le (by omega)
      | succ height ih =>
        intro level within
        exact level_one below (ih (level + 1) (by omega))
    intro level lexemes others rest more tree other short left
    have within := left.level_le
    exact levels (primaryLevel + 1 - level) level (by omega) short left

theorem Reads.unique {level : Nat} {lexemes : List Lexeme} {tree other : Tree}
    (reads : Reads level lexemes tree) (again : Reads level lexemes other) : tree = other := by
  have same : lexemes ++ [] = lexemes ++ [] := rfl
  exact (one_below _ (Nat.lt_succ_self _) reads again same nofun nofun).2

end PureJs.Js
