import PureJs.Graph.DepthFirst
import Mathlib.Data.List.Basic
import Mathlib.Logic.Relation

/-!
What a depth-first walk has seen at its end, when its bound is at least the number of nodes: the
roots, and with each node all that the node leads to. Whatever its bound is, it sees nothing else.
-/

namespace PureJs.DepthFirst

variable {Node Key : Type} {key : Node → Key} {next : Node → List Node}

section Pending

variable [DecidableEq Key]

def pending (key : Node → Key) (nodes : List Node) (entered : List Key) : Nat :=
  nodes.countP fun node => key node ∉ entered

theorem pending_grows {nodes : List Node} {before after : List Key} (grows : before ⊆ after) :
    pending key nodes after ≤ pending key nodes before := by
  apply List.countP_mono_left
  intro node _ new
  simp only [decide_eq_true_eq] at new ⊢
  exact fun old => new (grows old)

theorem pending_cons (first : Node) (rest : List Node) (entered : List Key) :
    pending key (first :: rest) entered =
      pending key rest entered + if key first ∈ entered then 0 else 1 := by
  unfold pending
  rw [List.countP_cons]
  by_cases known : key first ∈ entered <;> simp [known]

theorem pending_enter {nodes : List Node} {node : Node} {entered : List Key}
    (inside : node ∈ nodes) (new : key node ∉ entered) :
    pending key nodes (key node :: entered) < pending key nodes entered := by
  induction nodes with
  | nil => exact absurd inside List.not_mem_nil
  | cons first rest ih =>
    have others : pending key rest (key node :: entered) ≤ pending key rest entered :=
      pending_grows (List.subset_cons_self _ _)
    rw [pending_cons, pending_cons]
    by_cases same : key first = key node
    · rw [same, if_pos List.mem_cons_self, if_neg new]
      omega
    · have further : node ∈ rest := by
        rcases List.mem_cons.mp inside with here | further
        · exact absurd (here ▸ rfl) same
        · exact further
      have less := ih further
      by_cases known : key first ∈ entered
      · rw [if_pos known, if_pos (List.mem_cons_of_mem _ known)]
        omega
      · rw [if_neg known, if_neg (List.not_mem_cons_of_ne_of_not_mem same known)]
        omega

end Pending

/-- What goes on between two trails: nodes are entered and left, and a node is left when all that
it leads to has been entered. -/
structure Visits (key : Node → Key) (next : Node → List Node) (before after : Trail Node Key) :
    Prop where
  entered : before.entered ⊆ after.entered
  left : before.left <:+ after.left
  fresh : ∀ k ∈ after.entered, k ∈ before.entered ∨ ∃ node ∈ after.left, key node = k
  done : ∀ node ∈ after.left, node ∈ before.left ∨
    key node ∈ after.entered ∧ ∀ other ∈ next node, key other ∈ after.entered

theorem Visits.refl (trail : Trail Node Key) : Visits key next trail trail :=
  ⟨List.Subset.refl _, List.suffix_rfl, fun _ old => Or.inl old, fun _ old => Or.inl old⟩

theorem Visits.trans {first second third : Trail Node Key} (one : Visits key next first second)
    (two : Visits key next second third) : Visits key next first third := by
  refine ⟨List.Subset.trans one.entered two.entered, one.left.trans two.left, ?_, ?_⟩
  · intro k member
    rcases two.fresh k member with old | new
    · rcases one.fresh k old with older | ⟨node, there, same⟩
      · exact Or.inl older
      · exact Or.inr ⟨node, two.left.subset there, same⟩
    · exact Or.inr new
  · intro node member
    rcases two.done node member with old | new
    · rcases one.done node old with older | ⟨there, others⟩
      · exact Or.inl older
      · exact Or.inr ⟨two.entered there, fun other leads => two.entered (others other leads)⟩
    · exact Or.inr new

variable [DecidableEq Key]

theorem fold_visits {nodes : List Node} {bound : Nat}
    {step : Trail Node Key → Node → Trail Node Key}
    (each : ∀ trail, ∀ node ∈ nodes, pending key nodes trail.entered ≤ bound →
      Visits key next trail (step trail node) ∧ key node ∈ (step trail node).entered)
    {starts : List Node} (inside : starts ⊆ nodes) (trail : Trail Node Key)
    (enough : pending key nodes trail.entered ≤ bound) :
    Visits key next trail (starts.foldl step trail) ∧
      ∀ node ∈ starts, key node ∈ (starts.foldl step trail).entered := by
  induction starts generalizing trail with
  | nil => exact ⟨Visits.refl trail, fun node member => absurd member List.not_mem_nil⟩
  | cons first rest ih =>
    obtain ⟨here, reached⟩ := each trail first (inside List.mem_cons_self) enough
    have less : pending key nodes (step trail first).entered ≤ bound :=
      Nat.le_trans (pending_grows here.entered) enough
    obtain ⟨later, others⟩ :=
      ih (fun node member => inside (List.mem_cons_of_mem _ member)) (step trail first) less
    rw [List.foldl_cons]
    refine ⟨here.trans later, ?_⟩
    intro node member
    rcases List.mem_cons.mp member with same | behind
    · exact same ▸ later.entered reached
    · exact others node behind

theorem visit_visits {nodes : List Node} (closed : ∀ node ∈ nodes, next node ⊆ nodes) {fuel : Nat}
    {trail : Trail Node Key} {node : Node} (inside : node ∈ nodes)
    (enough : pending key nodes trail.entered ≤ fuel) :
    Visits key next trail (visit key next fuel trail node) ∧
      key node ∈ (visit key next fuel trail node).entered := by
  induction fuel generalizing trail node with
  | zero =>
    refine ⟨Visits.refl trail, ?_⟩
    have all := List.countP_eq_zero.mp (Nat.le_zero.mp enough) node inside
    simpa [visit] using all
  | succ fuel ih =>
    unfold visit
    by_cases known : key node ∈ trail.entered
    · rw [if_pos known]
      exact ⟨Visits.refl trail, known⟩
    · rw [if_neg known]
      have less : pending key nodes (key node :: trail.entered) ≤ fuel := by
        have less := pending_enter inside known
        omega
      obtain ⟨visits, reached⟩ := fold_visits (fun trail node member enough => ih member enough)
        (closed node inside) ⟨key node :: trail.entered, trail.left⟩ less
      refine ⟨⟨?_, visits.left.trans (List.suffix_cons _ _), ?_, ?_⟩,
        visits.entered List.mem_cons_self⟩
      · exact fun k old => visits.entered (List.mem_cons_of_mem _ old)
      · intro k member
        rcases visits.fresh k member with old | ⟨other, there, same⟩
        · rcases List.mem_cons.mp old with here | older
          · exact Or.inr ⟨node, List.mem_cons_self, here.symm⟩
          · exact Or.inl older
        · exact Or.inr ⟨other, List.mem_cons_of_mem _ there, same⟩
      · intro other member
        rcases List.mem_cons.mp member with same | further
        · subst same
          exact Or.inr ⟨visits.entered List.mem_cons_self, reached⟩
        · exact visits.done other further

theorem walk_visits (key : Node → Key) {nodes roots : List Node}
    (closed : ∀ node ∈ nodes, next node ⊆ nodes)
    (inside : roots ⊆ nodes) :
    Visits key next ⟨[], []⟩ (walk key next nodes.length roots) ∧
      ∀ root ∈ roots, key root ∈ (walk key next nodes.length roots).entered :=
  fold_visits (fun _ _ member enough => visit_visits closed member enough) inside ⟨[], []⟩
    List.countP_le_length

theorem walk_closed {nodes roots : List Node} (closed : ∀ node ∈ nodes, next node ⊆ nodes)
    (inside : roots ⊆ nodes) {k : Key}
    (entered : k ∈ (walk key next nodes.length roots).entered) :
    ∃ node, key node = k ∧
      ∀ other ∈ next node, key other ∈ (walk key next nodes.length roots).entered := by
  have visits := (walk_visits key closed inside).1
  rcases visits.fresh k entered with none | ⟨node, left, same⟩
  · exact absurd none List.not_mem_nil
  · rcases visits.done node left with none | ⟨_, others⟩
    · exact absurd none List.not_mem_nil
    · exact ⟨node, same, others⟩

section Reached

variable {good : Node → Prop}

structure SeenGood (key : Node → Key) (good : Node → Prop) (trail : Trail Node Key) : Prop where
  entered : ∀ k ∈ trail.entered, ∃ node, good node ∧ key node = k
  left : ∀ node ∈ trail.left, good node

theorem visit_sees_good (closed : ∀ node, good node → ∀ other ∈ next node, good other)
    (fuel : Nat) {trail : Trail Node Key} {node : Node} (start : good node)
    (seen : SeenGood key good trail) : SeenGood key good (visit key next fuel trail node) := by
  induction fuel generalizing trail node with
  | zero => exact seen
  | succ fuel ih =>
    unfold visit
    split
    · exact seen
    · have inside : SeenGood key good ((next node).foldl (visit key next fuel)
          { trail with entered := key node :: trail.entered }) := by
        refine List.foldlRecOn (motive := SeenGood key good) (next node) (visit key next fuel) ?_ ?_
        · exact ⟨List.forall_mem_cons.mpr ⟨⟨node, start, rfl⟩, seen.entered⟩, seen.left⟩
        · exact fun t fine other leads => ih (closed node start other leads) fine
      exact ⟨inside.entered, List.forall_mem_cons.mpr ⟨start, inside.left⟩⟩

theorem walk_sees_good (key : Node → Key)
    (closed : ∀ node, good node → ∀ other ∈ next node, good other) {roots : List Node}
    (starts : ∀ root ∈ roots, good root) (size : Nat) :
    SeenGood key good (walk key next size roots) := by
  refine List.foldlRecOn (motive := SeenGood key good) roots (visit key next size) ⟨?_, ?_⟩ ?_
  · exact fun k none => absurd none List.not_mem_nil
  · exact fun node none => absurd none List.not_mem_nil
  · exact fun t fine root member => visit_sees_good closed size (starts root member) fine

theorem walk_stays_reached {size : Nat} {roots : List Node} {k : Key}
    (entered : k ∈ (walk key next size roots).entered) :
    ∃ root ∈ roots, ∃ node, Relation.ReflTransGen (fun a b => b ∈ next a) root node ∧
      key node = k := by
  have seen : SeenGood key
      (fun node => ∃ root ∈ roots, Relation.ReflTransGen (fun a b => b ∈ next a) root node)
      (walk key next size roots) := by
    refine walk_sees_good key ?_ (fun root member => ⟨root, member, .refl⟩) size
    rintro node ⟨root, member, path⟩ other leads
    exact ⟨root, member, path.tail leads⟩
  obtain ⟨node, ⟨root, member, path⟩, same⟩ := seen.entered k entered
  exact ⟨root, member, node, path, same⟩

end Reached

end PureJs.DepthFirst
