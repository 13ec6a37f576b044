import PureJs.Proofs.Program.Sorting

/-!
Which of two modules comes first when neither one needs the other. An ordering goes through all that
a module leads to before it turns to the next one, so that it is decided where the ways to the two
part: the one whose way is taken first comes first. Two modules keep the order in which they are
given unless something in front of them leads to the later one.
-/

namespace PureJs.Module

variable {modules : List Module}

/-- The module of the first name is that of the second one, or needs it. -/
def Leads (modules : List Module) : String → String → Prop :=
  Relation.ReflTransGen (ImportsWithin modules)

/-- Neither of the modules imports the other one, directly or through others. -/
structure Independent (modules : List Module) (a b : String) : Prop where
  apart : a ≠ b
  forth : ¬Relation.TransGen (ImportsWithin modules) a b
  back : ¬Relation.TransGen (ImportsWithin modules) b a

theorem Independent.not_leads {a b : String} (free : Independent modules a b) :
    ¬Leads modules a b := by
  intro leads
  rcases Relation.reflTransGen_iff_eq_or_transGen.mp leads with same | needs
  · exact free.apart same.symm
  · exact free.forth needs

theorem leads_known {a b : String} (known : b ∈ modules.map Module.name)
    (leads : Leads modules a b) : a ∈ modules.map Module.name := by
  rcases leads.cases_head with rfl | ⟨c, ⟨m, inside, same, _⟩, _⟩
  · exact known
  · exact same ▸ List.mem_map_of_mem inside

theorem leads_import {a : String} {m : Module} (distinct : (modules.map Module.name).Nodup)
    (inside : m ∈ modules) (other : m.name ≠ a) (leads : Leads modules m.name a) :
    ∃ b ∈ m.importedModules, Leads modules b a := by
  rcases leads.cases_head with same | ⟨b, ⟨source, there, same, imports, _⟩, further⟩
  · exact absurd same other
  · rw [List.inj_on_of_nodup_map distinct there inside same] at imports
    exact ⟨b, imports, further⟩

/-- The way to `a` is taken before the way to `b` by one who follows the names in turn: of those
that lead to either, the first one leads to `a` only, or it is the name of a module that leads to
both, and the imports of that module decide. -/
inductive ReachedFirst (modules : List Module) (a b : String) : List String → Prop
  | later {name : String} {rest : List String} (first : ¬Leads modules name a)
      (second : ¬Leads modules name b) (others : ReachedFirst modules a b rest) :
      ReachedFirst modules a b (name :: rest)
  | here {name : String} {rest : List String} (first : Leads modules name a)
      (second : ¬Leads modules name b) : ReachedFirst modules a b (name :: rest)
  | within {m : Module} {rest : List String} (inside : m ∈ modules)
      (first : Leads modules m.name a) (second : Leads modules m.name b)
      (imports : ReachedFirst modules a b m.importedModules) :
      ReachedFirst modules a b (m.name :: rest)

theorem reached_first_or {sorted : List Module} (order : Sorted modules sorted)
    (distinct : (modules.map Module.name).Nodup) {a b : String}
    (known : a ∈ modules.map Module.name)
    (free : Independent modules a b) (bound : Nat) {names : List String}
    (below : ∀ name ∈ names, name ∈ modules.map Module.name →
      (sorted.map Module.name).idxOf name < bound)
    (leads : ∃ name ∈ names, Leads modules name a) :
    ReachedFirst modules a b names ∨ ReachedFirst modules b a names := by
  -- on the place up to which a module with all that it needs stands in the order
  induction bound using Nat.strong_induction_on generalizing names with
  | _ bound inner =>
    induction names with
    | nil => exact absurd leads (by simp)
    | cons name rest ih =>
      by_cases first : Leads modules name a
      · by_cases second : Leads modules name b
        · obtain ⟨m, inside, rfl⟩ := List.mem_map.mp (leads_known known first)
          have other : m.name ≠ a := by
            rintro rfl
            exact free.not_leads second
          have listed := List.mem_map_of_mem (f := Module.name) inside
          have closer : ∀ name ∈ m.importedModules, name ∈ modules.map Module.name →
              (sorted.map Module.name).idxOf name < (sorted.map Module.name).idxOf m.name :=
            fun name imports known =>
              order.imports_before distinct ⟨m, inside, rfl, imports, known⟩
          exact (inner _ (below m.name List.mem_cons_self listed) closer
            (leads_import distinct inside other first)).imp
            (.within inside first second) (.within inside second first)
        · exact .inl (.here first second)
      · obtain ⟨start, member, further⟩ := leads
        rcases List.mem_cons.mp member with rfl | behind
        · exact absurd further first
        by_cases second : Leads modules name b
        · exact .inr (.here second first)
        · exact (ih (fun name member => below name (List.mem_cons_of_mem _ member))
            ⟨start, behind, further⟩).imp (.later first second) (.later second first)

/-! What has been arranged behind a name -/

def arrangeNamed (modules : List Module) (fuel : Nat) (path : List String) (ordered : List Module)
    (name : String) : Except ImportCycle (List Module) :=
  match lookup? modules name with
  | none => .ok ordered
  | some m => arrange modules fuel path ordered m

section Arranging

variable {fuel : Nat} {path : List String} {before after : List Module}

theorem imports_named (m : Module) :
    m.imports.foldlM (follow modules fuel path) before =
      m.importedModules.foldlM (arrangeNamed modules fuel path) before := by
  rw [importedModules, List.foldlM_map]
  rfl

theorem modules_named (distinct : (modules.map Module.name).Nodup)
    (folded : modules.foldlM (arrange modules fuel path) before = .ok after) :
    (modules.map Module.name).foldlM (arrangeNamed modules fuel path) before = .ok after := by
  rw [List.foldlM_map]
  refine fold_follows (fun m inside start stop step => ?_) folded
  rw [arrangeNamed, lookup_distinct distinct inside]
  exact step

theorem named_arranges {name : String} (arranged : Arranged modules before)
    (step : arrangeNamed modules fuel path before name = .ok after) :
    Arranges modules path before after ∧
      (name ∈ modules.map Module.name → (modules.map Module.name).Nodup →
        name ∈ after.map Module.name) := by
  unfold arrangeNamed at step
  split at step
  · rename_i none
    cases step
    refine ⟨Arranges.refl arranged, fun known distinct => ?_⟩
    obtain ⟨m, inside, rfl⟩ := List.mem_map.mp known
    rw [lookup_distinct distinct inside] at none
    cases none
  · rename_i m found
    obtain ⟨inside, rfl⟩ := lookup_member found
    obtain ⟨grows, reached⟩ := arrange_arranges fuel arranged inside step
    exact ⟨grows, fun _ _ => reached⟩

theorem names_arrange {names : List String} (arranged : Arranged modules before)
    (folded : names.foldlM (arrangeNamed modules fuel path) before = .ok after) :
    Arranges modules path before after :=
  (fold_arranges path (fun _ => [])
    (fun _ _ _ _ sound step => ⟨(named_arranges sound step).1, List.nil_subset _⟩)
    arranged folded).1

theorem arrange_reaches {m : Module} (inside : m ∈ modules)
    (result : arrange modules fuel path before m = .ok after) :
    ∀ name ∈ after.map Module.name, name ∈ before.map Module.name ∨ Leads modules m.name name := by
  induction fuel generalizing path before m after with
  | zero =>
    obtain ⟨_, rfl⟩ | ⟨_, _, less, _, none, _⟩ := arrange_gives result
    · exact fun name member => .inl member
    · cases none
  | succ fuel ih =>
    obtain ⟨_, rfl⟩ | ⟨_, _, less, middle, same, folded, rfl⟩ := arrange_gives result
    · exact fun name member => .inl member
    · cases same
      have imports : ∀ name ∈ middle.map Module.name,
          name ∈ before.map Module.name ∨ Leads modules m.name name := by
        refine fold_keeps (fun ordered => ∀ name ∈ ordered.map Module.name,
          name ∈ before.map Module.name ∨ Leads modules m.name name) ?_ (fun _ => .inl) folded
        intro entry written start stop known step name member
        unfold follow at step
        split at step
        · cases step
          exact known name member
        · rename_i imported found
          obtain ⟨there, same⟩ := lookup_member found
          refine (ih there step name member).elim (known name) fun leads => .inr (.head ?_ leads)
          exact ⟨m, inside, rfl, same ▸ List.mem_map_of_mem written, List.mem_map_of_mem there⟩
      rw [List.map_cons, List.forall_mem_cons]
      exact ⟨.inr .refl, imports⟩

theorem named_reaches {name : String}
    (step : arrangeNamed modules fuel path before name = .ok after) :
    ∀ other ∈ after.map Module.name, other ∈ before.map Module.name ∨ Leads modules name other := by
  unfold arrangeNamed at step
  split at step
  · cases step
    exact fun other member => .inl member
  · rename_i m found
    obtain ⟨inside, rfl⟩ := lookup_member found
    exact arrange_reaches inside step

theorem arranged_needs {ordered : List Module} (distinct : (modules.map Module.name).Nodup)
    (arranged : Arranged modules ordered) {a b : String} (known : a ∈ ordered.map Module.name)
    (leads : Leads modules a b) : b ∈ ordered.map Module.name := by
  induction leads with
  | refl => exact known
  | tail _ edge ih =>
    obtain ⟨m, inside, rfl, imports, listed⟩ := edge
    obtain ⟨entry, written, rfl⟩ := List.mem_map.mp imports
    obtain ⟨imported, target, same⟩ := List.mem_map.mp listed
    obtain ⟨other, there, named⟩ := List.mem_map.mp ih
    cases List.inj_on_of_nodup_map distinct (arranged_member arranged there) inside named
    obtain ⟨latest, earlier, rfl⟩ := List.append_of_mem there
    have found := lookup_distinct distinct target
    rw [same] at found
    have behind := arranged_imports arranged entry written imported found
    rw [List.map_append, List.map_cons, ← same]
    exact List.mem_append_right _ (List.mem_cons_of_mem _ behind)

def Ahead (a b : String) (ordered : List Module) : Prop :=
  ∃ earlier, earlier <:+ ordered ∧ a ∈ earlier.map Module.name ∧ b ∉ earlier.map Module.name

theorem Ahead.grows {a b : String} (ahead : Ahead a b before) (keeps : before <:+ after) :
    Ahead a b after := by
  obtain ⟨earlier, inside, there, missing⟩ := ahead
  exact ⟨earlier, inside.trans keeps, there, missing⟩

theorem reached_first_ahead (distinct : (modules.map Module.name).Nodup) {a b : String}
    (known : a ∈ modules.map Module.name) {names : List String}
    (reached : ReachedFirst modules a b names) (arranged : Arranged modules before)
    (first : a ∉ before.map Module.name) (second : b ∉ before.map Module.name)
    (folded : names.foldlM (arrangeNamed modules fuel path) before = .ok after) :
    Ahead a b after := by
  induction reached generalizing fuel path before after with
  | @later name rest away aside others ih =>
    rw [List.foldlM_cons] at folded
    obtain ⟨middle, step, folded⟩ := bind_gives folded
    have reaches := named_reaches step
    exact ih (named_arranges arranged step).1.arranged
      (fun there => (reaches a there).elim first away)
      (fun there => (reaches b there).elim second aside) folded
  | @here name rest leads aside =>
    rw [List.foldlM_cons] at folded
    obtain ⟨middle, step, folded⟩ := bind_gives folded
    obtain ⟨grows, there⟩ := named_arranges arranged step
    have start := there (leads_known known leads) distinct
    exact ⟨middle, (names_arrange grows.arranged folded).keeps,
      arranged_needs distinct grows.arranged start leads,
      fun there => (named_reaches step b there).elim second aside⟩
  | @within m rest inside leads _ _ ih =>
    rw [List.foldlM_cons] at folded
    obtain ⟨middle, step, folded⟩ := bind_gives folded
    have keeps := (names_arrange (named_arranges arranged step).1.arranged folded).keeps
    rw [arrangeNamed, lookup_distinct distinct inside] at step
    obtain ⟨old, _⟩ | ⟨_, _, less, inner, _, imports, rfl⟩ := arrange_gives step
    · exact absurd (arranged_needs distinct arranged old leads) first
    · rw [imports_named] at imports
      exact (ih arranged first second imports).grows ((List.suffix_cons m inner).trans keeps)

theorem Ahead.sublist {ordered : List Module} {a b : Module}
    (distinct : (ordered.map Module.name).Nodup) (first : a ∈ ordered) (second : b ∈ ordered)
    (ahead : Ahead a.name b.name ordered) : [a, b].Sublist ordered.reverse := by
  obtain ⟨earlier, ⟨latest, rfl⟩, there, missing⟩ := ahead
  obtain ⟨other, inside, same⟩ := List.mem_map.mp there
  cases List.inj_on_of_nodup_map distinct (List.mem_append_right _ inside) first same
  have behind : b ∉ earlier := fun member => missing (List.mem_map_of_mem member)
  have last := (List.mem_append.mp second).resolve_right behind
  rw [List.reverse_append]
  exact List.Sublist.append (List.singleton_sublist.mpr (List.mem_reverse.mpr inside))
    (List.singleton_sublist.mpr (List.mem_reverse.mpr last))

theorem sort_reached_first (distinct : (modules.map Module.name).Nodup) {sorted : List Module}
    (result : sort modules = .ok sorted) {a b : Module} (first : a ∈ modules) (second : b ∈ modules)
    (reached : ReachedFirst modules a.name b.name (modules.map Module.name)) :
    [a, b].Sublist sorted := by
  have order := sort_sorted result
  obtain ⟨ordered, folded, last⟩ := bind_gives result
  cases last
  have names := order.distinct
  rw [List.map_reverse, List.nodup_reverse] at names
  have none : Arranged modules [] := trivial
  have ahead := reached_first_ahead distinct (List.mem_map_of_mem first) reached none
    List.not_mem_nil List.not_mem_nil (modules_named distinct folded)
  exact ahead.sublist names (List.mem_reverse.mp (order.member distinct first))
    (List.mem_reverse.mp (order.member distinct second))

end Arranging

theorem reached_first_front {a b : String} (free : Independent modules a b)
    {front back : List String}
    (none : ∀ name ∈ front, ¬Leads modules name b) :
    ReachedFirst modules a b (front ++ a :: back) := by
  induction front with
  | nil => exact .here .refl free.not_leads
  | cons name rest ih =>
    obtain ⟨away, others⟩ := List.forall_mem_cons.mp none
    by_cases leads : Leads modules name a
    · exact .here leads away
    · exact .later leads away (ih others)

theorem pair_once {α : Type} {l : List α} (distinct : l.Nodup) {a b : α}
    (forth : [a, b].Sublist l) : ¬[b, a].Sublist l := by
  intro back
  induction l with
  | nil => cases forth
  | cons x rest ih =>
    obtain ⟨new, distinct⟩ := List.nodup_cons.mp distinct
    cases forth with
    | cons _ forth =>
      cases back with
      | cons _ back => exact ih distinct forth back
      | cons_cons _ _ => exact new (forth.subset (by simp))
    | cons_cons _ _ =>
      cases back with
      | cons _ back => exact new (back.subset (by simp))
      | cons_cons _ single => exact new (List.singleton_sublist.mp single)

/-- Of two modules that do not need one another, the one whose way is taken first comes first. So a
module comes before the other one if nothing that stands in front of it leads to that one. -/
theorem independent_order (distinct : (modules.map Module.name).Nodup) {sorted : List Module}
    (result : sort modules = .ok sorted) {a b : Module} (first : a ∈ modules) (second : b ∈ modules)
    (free : Independent modules a.name b.name) :
    ([a, b].Sublist sorted ↔
        ReachedFirst modules a.name b.name (modules.map Module.name)) ∧
      ((∀ m, [m, a].Sublist modules → ¬Leads modules m.name b.name) → [a, b].Sublist sorted) := by
  have order := sort_sorted result
  have forth := sort_reached_first distinct result first second
  have back := sort_reached_first distinct result second first
  refine ⟨⟨fun kept => ?_, forth⟩, fun none => forth ?_⟩
  · have known : a.name ∈ modules.map Module.name := List.mem_map_of_mem first
    have below : ∀ name ∈ modules.map Module.name, name ∈ modules.map Module.name →
        (sorted.map Module.name).idxOf name < sorted.length := by
      intro name _ known
      obtain ⟨m, inside, rfl⟩ := List.mem_map.mp known
      have listed := List.idxOf_lt_length_of_mem (order.complete m inside)
      rwa [List.length_map] at listed
    exact (reached_first_or order distinct known free _ below ⟨a.name, known, .refl⟩).resolve_right
      fun reached => pair_once order.distinct.of_map kept (back reached)
  · obtain ⟨front, rest, split⟩ := List.append_of_mem first
    rw [split, List.map_append, List.map_cons]
    refine split ▸ reached_first_front free fun name member => ?_
    obtain ⟨m, inside, rfl⟩ := List.mem_map.mp member
    apply none
    rw [split]
    exact List.Sublist.append (List.singleton_sublist.mpr inside)
      (List.singleton_sublist.mpr List.mem_cons_self)

theorem needs_within (kept : List String)
    (closed : ∀ m ∈ modules, m.name ∈ kept → ∀ imported ∈ m.importedModules, imported ∈ kept)
    {a b : String} (start : a ∈ kept) (needs : Relation.TransGen (ImportsWithin modules) a b) :
    b ∈ kept := by
  have step : ∀ {a b}, a ∈ kept → ImportsWithin modules a b → b ∈ kept := by
    rintro _ b start ⟨m, inside, rfl, imports, _⟩
    exact closed m inside start b imports
  induction needs with
  | single edge => exact step start edge
  | tail _ edge ih => exact step ih edge

def diamond : List Module :=
  [sketch "App" ["View", "Store"], sketch "View" ["Core"], sketch "Store" ["Core"],
    sketch "Core" []]

theorem diamond_order :
    (diamond.map Module.name).Nodup ∧ Independent diamond "View" "Store" ∧
      ReachedFirst diamond "View" "Store" (diamond.map Module.name) ∧
      ∃ sorted, sort diamond = .ok sorted ∧
        [sketch "View" ["Core"], sketch "Store" ["Core"]].Sublist sorted := by
  have distinct : (diamond.map Module.name).Nodup := by decide
  have free : Independent diamond "View" "Store" := by
    refine ⟨by decide, fun needs => ?_, fun needs => ?_⟩
    · exact absurd (needs_within ["View", "Core"] (by decide) (by decide) needs) (by decide)
    · exact absurd (needs_within ["Store", "Core"] (by decide) (by decide) needs) (by decide)
  have app : sketch "App" ["View", "Store"] ∈ diamond := List.mem_cons_self
  have view : Leads diamond "App" "View" := .single ⟨_, app, rfl, by decide, by decide⟩
  have store : Leads diamond "App" "Store" := .single ⟨_, app, rfl, by decide, by decide⟩
  have reached : ReachedFirst diamond "View" "Store" (diamond.map Module.name) :=
    .within app view store (.here .refl free.not_leads)
  obtain ⟨sorted, result⟩ : ∃ sorted, sort diamond = .ok sorted := ⟨_, rfl⟩
  have order := @independent_order _ distinct _ result (sketch "View" ["Core"])
    (sketch "Store" ["Core"]) (by simp [diamond]) (by simp [diamond]) free
  exact ⟨distinct, free, reached, sorted, result, order.1.mpr reached⟩

def crossed : List Module :=
  [sketch "App" ["Core", "View"], sketch "View" [], sketch "Core" []]

/-- The two do not keep their order, although there is an order of the modules in which all keep
theirs that do not need one another. -/
theorem crossed_order_lost :
    (crossed.map Module.name).Nodup ∧ Independent crossed "View" "Core" ∧
      [sketch "View" [], sketch "Core" []].Sublist crossed ∧
      (∃ sorted, sort crossed = .ok sorted ∧
        ¬[sketch "View" [], sketch "Core" []].Sublist sorted) ∧
      ∃ kept, kept.Perm crossed ∧ InOrder kept ∧ ∀ a b, Independent crossed a.name b.name →
        [a, b].Sublist crossed → [a, b].Sublist kept := by
  have free : Independent crossed "View" "Core" := by
    refine ⟨by decide, fun needs => ?_, fun needs => ?_⟩
    · exact absurd (needs_within ["View"] (by decide) (by decide) needs) (by decide)
    · exact absurd (needs_within ["Core"] (by decide) (by decide) needs) (by decide)
  let view := sketch "View" []
  let core := sketch "Core" []
  let app := sketch "App" ["Core", "View"]
  have result : sort crossed = .ok [core, view, app] := rfl
  have stays : sort [view, core, app] = .ok [view, core, app] := rfl
  refine ⟨by decide, free, (List.Sublist.refl _).cons _, ⟨_, result, ?_⟩, [view, core, app], ?_,
    (sort_sorted stays).in_order (by decide), ?_⟩
  · exact pair_once (sort_sorted result).distinct.of_map
      (List.sublist_append_left [core, view] [app])
  · show ([view, core] ++ [app]).Perm ([app] ++ [view, core])
    exact List.perm_append_comm
  · intro a b apart forth
    cases forth with
    | cons _ forth => exact forth.trans (List.sublist_append_left [view, core] [app])
    | cons_cons _ single =>
      have inside : app ∈ crossed := List.mem_cons_self
      have known : b.name ∈ ["View", "Core"] := List.mem_map_of_mem (f := Module.name)
        (List.singleton_sublist.mp single)
      refine absurd (.single ⟨app, inside, rfl, ?_, ?_⟩) apart.forth
      · exact (List.Perm.swap _ _ _).mem_iff.mp known
      · exact List.mem_cons_of_mem _ known

end PureJs.Module
