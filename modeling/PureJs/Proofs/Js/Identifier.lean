import PureJs.Js.Identifier
import PureJs.Proofs.Token.Names

/-!
JavaScript names of lexical names. Different names stay different, and none of them begins with a
single dollar sign, which leaves those names to the code around.
-/

namespace PureJs.Js

def spellChar (c : Char) : List Char := if c = '\'' then "$prime".toList else [c]

theorem spelled_chars (name : String) :
    (spellPrimes name).toList = name.toList.flatMap spellChar := by
  simp only [spellPrimes, String.toList_ofList]
  rfl

theorem dollar_continues_no_name : Piece.continuesName '$' = false := by decide

theorem prime_starts_no_name : Piece.startsName '\'' = false := by decide

theorem lexical_has_no_dollar {text : List Char} (lexical : LexicalChars text) : '$' ∉ text := by
  intro member
  have continues := lexical.2 '$' member
  rw [dollar_continues_no_name] at continues
  exact Bool.false_ne_true continues

theorem spell_char_eq {c d : Char} {rest more : List Char} (plain : c ≠ '$') (other : d ≠ '$')
    (same : spellChar c ++ rest = spellChar d ++ more) : c = d ∧ rest = more := by
  have prime : "$prime".toList = ['$', 'p', 'r', 'i', 'm', 'e'] := by decide
  by_cases left : c = '\'' <;> by_cases right : d = '\''
  · subst c d
    exact ⟨rfl, List.append_cancel_left same⟩
  · simp only [spellChar, left, right, ↓reduceIte, prime, List.cons_append, List.nil_append,
      List.cons.injEq] at same
    exact (other same.1.symm).elim
  · simp only [spellChar, left, right, ↓reduceIte, prime, List.cons_append, List.nil_append,
      List.cons.injEq] at same
    exact (plain same.1).elim
  · simpa [spellChar, left, right] using same

theorem spell_char_cons_ne_nil (c : Char) (rest : List Char) : spellChar c ++ rest ≠ [] := by
  by_cases prime : c = '\'' <;> simp [spellChar, prime]

theorem spelled_chars_injective {left right : List Char} (plain : '$' ∉ left)
    (other : '$' ∉ right) (same : left.flatMap spellChar = right.flatMap spellChar) :
    left = right := by
  induction left generalizing right with
  | nil =>
    cases right with
    | nil => rfl
    | cons d more => exact (spell_char_cons_ne_nil d _ same.symm).elim
  | cons c rest ih =>
    cases right with
    | nil => exact (spell_char_cons_ne_nil c _ same).elim
    | cons d more =>
      simp only [List.mem_cons, not_or] at plain other
      obtain ⟨first, tail⟩ := spell_char_eq (Ne.symm plain.1) (Ne.symm other.1) same
      rw [first, ih plain.2 other.2 tail]

theorem spell_primes_injective {left right : String} (plain : Lexical left)
    (other : Lexical right) (same : spellPrimes left = spellPrimes right) : left = right := by
  apply String.toList_injective
  apply spelled_chars_injective (lexical_has_no_dollar plain) (lexical_has_no_dollar other)
  rw [← spelled_chars, ← spelled_chars, same]

theorem spelled_begins {name : String} (lexical : Lexical name) :
    ∃ c rest, (spellPrimes name).toList = c :: rest ∧ c ≠ '$' := by
  rw [spelled_chars]
  have plain := lexical_has_no_dollar lexical
  cases chars : name.toList with
  | nil =>
    have first := lexical.1
    simp [chars] at first
  | cons c rest =>
    have first : Piece.startsName c = true := by simpa [chars] using lexical.1
    have prime : c ≠ '\'' := by
      intro same
      rw [same, prime_starts_no_name] at first
      exact Bool.false_ne_true first
    rw [chars] at plain
    refine ⟨c, rest.flatMap spellChar, by simp [spellChar, prime], ?_⟩
    intro same
    exact plain (by simp [same])

theorem identifier_begins {name : String} (lexical : Lexical name) :
    (∃ rest, (identifier name).toList = '$' :: '$' :: rest) ∨
      ∃ c rest, (identifier name).toList = c :: rest ∧ c ≠ '$' := by
  unfold identifier
  dsimp only
  split
  · refine Or.inl ⟨(spellPrimes name).toList, ?_⟩
    rw [String.toList_append]
    rfl
  · exact Or.inr (spelled_begins lexical)

theorem identifier_injective {left right : String} (plain : Lexical left) (other : Lexical right)
    (same : identifier left = identifier right) : left = right := by
  have dollars : "$$".toList = ['$', '$'] := by decide
  obtain ⟨c, rest, begins, noDollar⟩ := spelled_begins plain
  obtain ⟨d, more, starts, none⟩ := spelled_begins other
  have chars := congrArg String.toList same
  apply spell_primes_injective plain other
  apply String.toList_injective
  unfold identifier at chars
  dsimp only at chars
  split at chars <;> split at chars
  · simpa [String.toList_append] using chars
  · simp only [String.toList_append, dollars, starts, List.cons_append, List.cons.injEq] at chars
    exact (none chars.1.symm).elim
  · simp only [String.toList_append, dollars, begins, List.cons_append, List.cons.injEq] at chars
    exact (noDollar chars.1).elim
  · exact chars

theorem identifier_no_generated_start {name : String} {c : Char} {rest : List Char}
    (lexical : Lexical name) (single : c ≠ '$') :
    ¬ '$' :: c :: rest <+: (identifier name).toList := by
  rintro ⟨behind, chars⟩
  rcases identifier_begins lexical with ⟨more, marked⟩ | ⟨d, more, begins, noDollar⟩
  · rw [marked] at chars
    simp only [List.cons_append, List.cons.injEq, true_and] at chars
    exact single chars.1
  · rw [begins] at chars
    simp only [List.cons_append, List.cons.injEq] at chars
    exact noDollar chars.1.symm

theorem identifier_ne_generated {name text : String} {c : Char} {rest : List Char}
    (lexical : Lexical name) (chars : text.toList = '$' :: c :: rest) (single : c ≠ '$') :
    identifier name ≠ text := by
  rintro rfl
  have starts : '$' :: c :: rest <+: (identifier name).toList := chars ▸ List.prefix_rfl
  exact identifier_no_generated_start lexical single starts

theorem identifier_not_reserved (name : String) : identifier name ∉ reserved := by
  unfold identifier
  dsimp only
  split
  · have plain : reserved.all (·.toList.head? ≠ some '$') = true := by decide +kernel
    intro member
    have begins := List.all_eq_true.mp plain _ member
    rw [String.toList_append] at begins
    cases begins
  · assumption

theorem identifier_mem_map {name : String} {names : List String} (lexical : Lexical name)
    (others : ∀ x ∈ names, Lexical x) : identifier name ∈ names.map identifier ↔ name ∈ names := by
  constructor
  · intro member
    obtain ⟨x, inside, same⟩ := List.mem_map.mp member
    exact identifier_injective (others x inside) lexical same ▸ inside
  · exact List.mem_map_of_mem

end PureJs.Js
