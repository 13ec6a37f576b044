import Mathlib.Data.List.Basic

/-!
Computations of steps that may fail: what a step behind another one starts from, and what a fold of
steps gives if every single step is known.
-/

namespace PureJs

theorem bind_gives {ε α β : Type} {first : Except ε α} {next : α → Except ε β} {result : β}
    (same : (first >>= next) = .ok result) :
    ∃ value, first = .ok value ∧ next value = .ok result := by
  cases first with
  | error problem => cases same
  | ok value => exact ⟨value, rfl, same⟩

theorem bind_fails {ε α β : Type} {first : Except ε α} {next : α → Except ε β} {problem : ε}
    (same : (first >>= next) = .error problem) :
    first = .error problem ∨ ∃ value, first = .ok value ∧ next value = .error problem := by
  cases first with
  | error other =>
    cases same
    exact Or.inl rfl
  | ok value => exact Or.inr ⟨value, rfl, same⟩

theorem any_gives {ε α : Type} {result : Except ε α} {test : α → Bool}
    (passes : result.toOption.any test = true) :
    ∃ value, result = .ok value ∧ test value = true := by
  cases result with
  | error problem => cases passes
  | ok value => exact ⟨value, rfl, passes⟩

theorem bind_mapped {ε ε' β β' γ γ' : Type} {state : β → β'} {last : γ → γ'} {fault : ε → ε'}
    (result : Except ε β) {next : β → Except ε γ} {next' : β' → Except ε' γ'}
    (goes : ∀ value, next' (state value) = ((next value).map last).mapError fault) :
    (result.map state).mapError fault >>= next' = ((result >>= next).map last).mapError fault := by
  cases result with
  | error reason => rfl
  | ok value => exact goes value

theorem fold_mapped {ε ε' α α' β β' : Type} (step : β → α → Except ε β)
    (step' : β' → α' → Except ε' β') (state : β → β') (entry : α → α') (fault : ε → ε')
    (entries : List α)
    (each : ∀ start, ∀ e ∈ entries,
      step' (state start) (entry e) = ((step start e).map state).mapError fault)
    (start : β) :
    (entries.map entry).foldlM step' (state start) =
      ((entries.foldlM step start).map state).mapError fault := by
  induction entries generalizing start with
  | nil => rfl
  | cons e rest ih =>
    rw [List.map_cons, List.foldlM_cons, List.foldlM_cons, each start e List.mem_cons_self]
    exact bind_mapped _ (ih fun start e member => each start e (List.mem_cons_of_mem _ member))

theorem fold_goes {ε ε' α β β' : Type} {step : β → α → Except ε β}
    {other : β' → α → Except ε' β'} (state : β → β') (inv : β → Prop) {entries : List α}
    (stays : ∀ entry ∈ entries, ∀ before after, inv before → step before entry = .ok after →
      inv after ∧ other (state before) entry = .ok (state after))
    {before after : β} (start : inv before)
    (folded : entries.foldlM step before = .ok after) :
    entries.foldlM other (state before) = .ok (state after) := by
  induction entries generalizing before with
  | nil =>
    cases folded
    rfl
  | cons entry rest ih =>
    rw [List.foldlM_cons] at folded
    obtain ⟨middle, first, others⟩ := bind_gives folded
    obtain ⟨still, same⟩ := stays entry List.mem_cons_self before middle start first
    rw [List.foldlM_cons, same]
    exact ih (fun other member => stays other (List.mem_cons_of_mem _ member)) still others

theorem fold_keeps {ε α β : Type} {step : β → α → Except ε β} {entries : List α} (inv : β → Prop)
    (each : ∀ entry ∈ entries, ∀ before after, inv before → step before entry = .ok after →
      inv after)
    {before after : β} (start : inv before) (folded : entries.foldlM step before = .ok after) :
    inv after := by
  induction entries generalizing before with
  | nil =>
    cases folded
    exact start
  | cons entry rest ih =>
    rw [List.foldlM_cons] at folded
    obtain ⟨middle, first, others⟩ := bind_gives folded
    exact ih (fun other member => each other (List.mem_cons_of_mem _ member))
      (each entry List.mem_cons_self before middle start first) others

theorem fold_suffix {ε α β : Type} {step : List β → α → Except ε (List β)} {entries : List α}
    (each : ∀ entry ∈ entries, ∀ before after, step before entry = .ok after → before <:+ after)
    {before after : List β} (folded : entries.foldlM step before = .ok after) :
    before <:+ after := by
  induction entries generalizing before with
  | nil =>
    cases folded
    exact List.suffix_rfl
  | cons entry rest ih =>
    rw [List.foldlM_cons] at folded
    obtain ⟨middle, first, others⟩ := bind_gives folded
    exact (each entry List.mem_cons_self before middle first).trans
      (ih (fun other member => each other (List.mem_cons_of_mem _ member)) others)

theorem fold_fails {ε α β : Type} {step : β → α → Except ε β} {entries : List α} {before : β}
    {problem : ε} (failed : entries.foldlM step before = .error problem) :
    ∃ entry ∈ entries, ∃ middle, step middle entry = .error problem := by
  induction entries generalizing before with
  | nil => cases failed
  | cons entry rest ih =>
    rw [List.foldlM_cons] at failed
    rcases bind_fails failed with first | ⟨middle, _, others⟩
    · exact ⟨entry, List.mem_cons_self, before, first⟩
    · obtain ⟨later, member, result⟩ := ih others
      exact ⟨later, List.mem_cons_of_mem _ member, result⟩

theorem fold_stays {ε α β : Type} {step : β → α → Except ε β} {entries : List α} {start : β}
    (each : ∀ entry ∈ entries, step start entry = .ok start) :
    entries.foldlM step start = .ok start := by
  induction entries with
  | nil => rfl
  | cons entry rest ih =>
    rw [List.foldlM_cons, each entry List.mem_cons_self]
    exact ih fun other member => each other (List.mem_cons_of_mem _ member)

theorem fold_follows {ε ε' α β : Type} {step : β → α → Except ε β} {other : β → α → Except ε' β}
    {entries : List α}
    (each : ∀ entry ∈ entries, ∀ before after, step before entry = .ok after →
      other before entry = .ok after) {before after : β}
    (folded : entries.foldlM step before = .ok after) :
    entries.foldlM other before = .ok after :=
  fold_goes id (fun _ => True)
    (fun entry member before after _ same => ⟨trivial, each entry member before after same⟩)
    trivial folded

theorem fold_stops {ε α β : Type} {step : β → α → Except ε β} {entries : List α} {start : β}
    {problem : ε}
    (each : ∀ entry ∈ entries, step start entry = .ok start ∨ step start entry = .error problem)
    {entry : α} (inside : entry ∈ entries) (fails : step start entry = .error problem) :
    entries.foldlM step start = .error problem := by
  induction entries with
  | nil => exact absurd inside List.not_mem_nil
  | cons first rest ih =>
    rw [List.foldlM_cons]
    rcases each first List.mem_cons_self with stays | stops
    · have later : entry ∈ rest := by
        rcases List.mem_cons.mp inside with here | later
        · rw [here, stays] at fails
          cases fails
        · exact later
      rw [stays]
      exact ih (fun other member => each other (List.mem_cons_of_mem _ member)) later
    · rw [stops]
      rfl

theorem map_ok {ε α β : Type} {f : α → Except ε β} {g : α → β} {entries : List α}
    (each : ∀ entry ∈ entries, f entry = .ok (g entry)) :
    entries.mapM f = .ok (entries.map g) := by
  induction entries with
  | nil => rfl
  | cons entry rest ih =>
    rw [List.mapM_cons, each entry List.mem_cons_self,
      ih fun other member => each other (List.mem_cons_of_mem _ member)]
    rfl

end PureJs
