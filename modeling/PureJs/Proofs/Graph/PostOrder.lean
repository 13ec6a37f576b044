import PureJs.Proofs.Graph.DepthFirst
import Mathlib.Data.List.Nodup

/-!
The order in which a depth-first walk leaves the nodes. A node that has been entered but not left
leads to the one that is being visited. So whatever a node leads to has been left before it, unless
it leads back to the node.
-/

namespace PureJs.DepthFirst

variable {Node Key : Type} {key : Node → Key} {next : Node → List Node} {nodes : List Node}

/-- From the first node the walk can come to the second one. -/
def Leads (next : Node → List Node) : Node → Node → Prop :=
  Relation.ReflTransGen fun node other => other ∈ next node

/-- Nodes with the latest one in front, each of which has behind it what it leads to in one step,
but for what leads back to it. No key comes twice. -/
def Settled (key : Node → Key) (next : Node → List Node) (nodes : List Node) : List Node → Prop
  | [] => True
  | node :: earlier =>
    key node ∉ earlier.map key ∧
      (∀ other ∈ next node, key other ∈ earlier.map key ∨
        ∃ back ∈ nodes, key back = key other ∧ Leads next back node) ∧
      Settled key next nodes earlier

theorem Settled.distinct {order : List Node} (settled : Settled key next nodes order) :
    (order.map key).Nodup := by
  induction order with
  | nil => exact List.nodup_nil
  | cons node earlier ih => exact List.nodup_cons.mpr ⟨settled.1, ih settled.2.2⟩

theorem Settled.behind {later earlier : List Node} {node other : Node}
    (settled : Settled key next nodes (later ++ node :: earlier)) (leads : other ∈ next node) :
    key other ∈ earlier.map key ∨ ∃ back ∈ nodes, key back = key other ∧ Leads next back node := by
  induction later with
  | nil => exact settled.2.1 other leads
  | cons first later ih => exact ih settled.2.2

/-- All nodes that were left have been entered, and they were left in order. -/
structure Orderly (key : Node → Key) (next : Node → List Node) (nodes : List Node)
    (trail : Trail Node Key) : Prop where
  entered : ∀ node ∈ trail.left, key node ∈ trail.entered
  settled : Settled key next nodes trail.left

def Above (key : Node → Key) (next : Node → List Node) (nodes : List Node)
    (trail : Trail Node Key) (node : Node) : Prop :=
  ∀ k ∈ trail.entered, k ∈ trail.left.map key ∨
    ∃ start ∈ nodes, key start = k ∧ Leads next start node

/-- What a visit does to the order: more nodes are left, none of which was entered before. -/
structure Orders (key : Node → Key) (next : Node → List Node) (nodes : List Node)
    (before after : Trail Node Key) : Prop where
  orderly : Orderly key next nodes after
  fresh : ∀ node ∈ after.left, node ∈ before.left ∨ key node ∉ before.entered

theorem Orders.refl {trail : Trail Node Key} (orderly : Orderly key next nodes trail) :
    Orders key next nodes trail trail :=
  ⟨orderly, fun _ old => Or.inl old⟩

theorem Orders.trans {first second third : Trail Node Key}
    (one : Orders key next nodes first second) (two : Orders key next nodes second third)
    (grows : first.entered ⊆ second.entered) :
    Orders key next nodes first third := by
  refine ⟨two.orderly, fun node member => ?_⟩
  rcases two.fresh node member with old | new
  · exact one.fresh node old
  · exact Or.inr fun known => new (grows known)

theorem Above.visits {before after : Trail Node Key} {node : Node}
    (above : Above key next nodes before node) (visits : Visits key next before after) :
    Above key next nodes after node := by
  intro k entered
  rcases visits.fresh k entered with old | ⟨other, left, rfl⟩
  · rcases above k old with left | lead
    · obtain ⟨other, there, rfl⟩ := List.mem_map.mp left
      exact Or.inl (List.mem_map_of_mem (visits.left.subset there))
    · exact Or.inr lead
  · exact Or.inl (List.mem_map_of_mem left)

theorem Above.enter {trail : Trail Node Key} {node : Node} (inside : node ∈ nodes)
    (above : Above key next nodes trail node) :
    Above key next nodes ⟨key node :: trail.entered, trail.left⟩ node := by
  intro k entered
  rcases List.mem_cons.mp entered with rfl | old
  · exact Or.inr ⟨node, inside, rfl, .refl⟩
  · exact above k old

theorem Above.further {trail : Trail Node Key} {node other : Node}
    (above : Above key next nodes trail node) (leads : other ∈ next node) :
    Above key next nodes trail other := by
  intro k entered
  rcases above k entered with left | ⟨start, among, same, path⟩
  · exact Or.inl left
  · exact Or.inr ⟨start, among, same, path.tail leads⟩

theorem Orderly.enter {trail : Trail Node Key} (orderly : Orderly key next nodes trail)
    (node : Node) :
    Orderly key next nodes ⟨key node :: trail.entered, trail.left⟩ :=
  ⟨fun other left => List.mem_cons_of_mem _ (orderly.entered other left), orderly.settled⟩

theorem Orders.leave {before inside : Trail Node Key} {node : Node}
    (orderly : Orderly key next nodes before) (new : key node ∉ before.entered)
    (orders : Orders key next nodes ⟨key node :: before.entered, before.left⟩ inside)
    (above : Above key next nodes inside node) (entered : key node ∈ inside.entered)
    (reached : ∀ other ∈ next node, key other ∈ inside.entered) :
    Orders key next nodes before { inside with left := node :: inside.left } := by
  have fresh : ∀ other ∈ inside.left, other ∈ before.left ∨
      key other ≠ key node ∧ key other ∉ before.entered := by
    intro other left
    rcases orders.fresh other left with old | new
    · exact Or.inl old
    · exact Or.inr (not_or.mp (mt List.mem_cons.mpr new))
  have alone : key node ∉ inside.left.map key := by
    intro member
    obtain ⟨other, left, same⟩ := List.mem_map.mp member
    rcases fresh other left with old | ⟨different, _⟩
    · exact new (same ▸ orderly.entered other old)
    · exact different same
  constructor
  · constructor
    · exact List.forall_mem_cons.mpr ⟨entered, orders.orderly.entered⟩
    · exact ⟨alone, fun other leads => above _ (reached other leads), orders.orderly.settled⟩
  · refine List.forall_mem_cons.mpr ⟨Or.inr new, fun other left => ?_⟩
    rcases fresh other left with old | ⟨_, new⟩
    · exact Or.inl old
    · exact Or.inr new

variable [DecidableEq Key]

theorem fold_orders {bound : Nat}
    {step : Trail Node Key → Node → Trail Node Key}
    (visits : ∀ trail, ∀ node ∈ nodes, pending key nodes trail.entered ≤ bound →
      Visits key next trail (step trail node))
    (each : ∀ trail, ∀ node ∈ nodes, pending key nodes trail.entered ≤ bound →
      Orderly key next nodes trail → Above key next nodes trail node →
      Orders key next nodes trail (step trail node))
    {starts : List Node} (inside : starts ⊆ nodes) {trail : Trail Node Key}
    (enough : pending key nodes trail.entered ≤ bound) (orderly : Orderly key next nodes trail)
    (above : ∀ node ∈ starts, Above key next nodes trail node) :
    Orders key next nodes trail (starts.foldl step trail) := by
  induction starts generalizing trail with
  | nil => exact Orders.refl orderly
  | cons first rest ih =>
    obtain ⟨start, others⟩ := List.forall_mem_cons.mp above
    have member : first ∈ nodes := inside List.mem_cons_self
    have here := visits trail first member enough
    have order := each trail first member enough orderly start
    have later := ih (fun node behind => inside (List.mem_cons_of_mem _ behind))
      (Nat.le_trans (pending_grows here.entered) enough) order.orderly
      fun node behind => (others node behind).visits here
    exact order.trans later here.entered

theorem visit_orders (closed : ∀ node ∈ nodes, next node ⊆ nodes) {fuel : Nat}
    {trail : Trail Node Key} {node : Node} (inside : node ∈ nodes)
    (enough : pending key nodes trail.entered ≤ fuel) (orderly : Orderly key next nodes trail)
    (above : Above key next nodes trail node) :
    Orders key next nodes trail (visit key next fuel trail node) := by
  induction fuel generalizing trail node with
  | zero => exact Orders.refl orderly
  | succ fuel ih =>
    unfold visit
    by_cases known : key node ∈ trail.entered
    · rw [if_pos known]
      exact Orders.refl orderly
    · rw [if_neg known]
      have less : pending key nodes (key node :: trail.entered) ≤ fuel := by
        have less := pending_enter inside known
        omega
      obtain ⟨visits, reached⟩ := fold_visits
        (fun trail node member enough => visit_visits closed member enough) (closed node inside)
        ⟨key node :: trail.entered, trail.left⟩ less
      have orders := fold_orders
        (fun trail node member enough => (visit_visits closed member enough).1)
        (fun trail node member => ih member) (closed node inside) less (orderly.enter node)
        fun other leads => (above.enter inside).further leads
      exact orders.leave orderly known ((above.enter inside).visits visits)
        (visits.entered List.mem_cons_self) reached

theorem walk_settled (key : Node → Key) {roots : List Node}
    (closed : ∀ node ∈ nodes, next node ⊆ nodes) (inside : roots ⊆ nodes) :
    Settled key next nodes (walk key next nodes.length roots).left := by
  have empty : Orderly key next nodes (⟨[], []⟩ : Trail Node Key) :=
    ⟨fun _ none => absurd none List.not_mem_nil, trivial⟩
  have orders : Orders key next nodes ⟨[], []⟩ (walk key next nodes.length roots) :=
    fold_orders (fun trail node member enough => (visit_visits closed member enough).1)
      (fun trail node member => visit_orders closed member) inside List.countP_le_length empty
      fun _ _ _ none => absurd none List.not_mem_nil
  exact orders.orderly.settled

/-- A node that leads only to itself and to what has been entered is the next one to be left. -/
theorem visit_ready (fuel : Nat) {trail : Trail Node Key} {node : Node}
    (new : key node ∉ trail.entered)
    (ready : ∀ other ∈ next node, key other = key node ∨ key other ∈ trail.entered) :
    visit key next (fuel + 1) trail node = ⟨key node :: trail.entered, node :: trail.left⟩ := by
  have stays : ∀ others ⊆ next node, others.foldl (visit key next fuel)
      ⟨key node :: trail.entered, trail.left⟩ = ⟨key node :: trail.entered, trail.left⟩ := by
    intro others inside
    induction others with
    | nil => rfl
    | cons other rest ih =>
      obtain ⟨leads, behind⟩ := List.cons_subset.mp inside
      have known : key other ∈ key node :: trail.entered := List.mem_cons.mpr (ready other leads)
      have here : visit key next fuel ⟨key node :: trail.entered, trail.left⟩ other =
          ⟨key node :: trail.entered, trail.left⟩ := by
        cases fuel with
        | zero => rfl
        | succ fuel => exact if_pos known
      rw [List.foldl_cons, here, ih behind]
  rw [visit, if_neg new]
  simp only [stays _ (List.Subset.refl _)]

/-- Nodes that each lead only to themselves and to those in front of them are left as they stand. -/
theorem walk_in_order (distinct : (nodes.map key).Nodup)
    (ready : ∀ before node after, nodes = before ++ node :: after → ∀ other ∈ next node,
      key other = key node ∨ key other ∈ before.map key) :
    (walk key next nodes.length nodes).left.reverse = nodes := by
  have folded : ∀ size before rest, nodes = before ++ rest →
      rest.foldl (visit key next (size + 1)) ⟨(before.map key).reverse, before.reverse⟩ =
        ⟨(nodes.map key).reverse, nodes.reverse⟩ := by
    intro size before rest split
    induction rest generalizing before with
    | nil => rw [split, List.append_nil, List.foldl_nil]
    | cons node rest ih =>
      have names := distinct
      rw [split, List.map_append, List.map_cons] at names
      have new : key node ∉ (before.map key).reverse := by
        rw [List.mem_reverse]
        exact fun known => (List.nodup_middle.mp names).notMem (List.mem_append_left _ known)
      have here : visit key next (size + 1) ⟨(before.map key).reverse, before.reverse⟩ node = _ :=
        visit_ready size new fun other leads =>
          (ready before node rest split other leads).imp_right List.mem_reverse.mpr
      have later := ih (before ++ [node]) (by simp [split])
      rw [List.foldl_cons, here, ← later]
      simp
  cases nodes with
  | nil => rfl
  | cons first rest =>
    have whole := folded rest.length [] _ (List.nil_append _).symm
    rw [walk, List.length_cons]
    simp only [List.map_nil, List.reverse_nil] at whole
    rw [whole, List.reverse_reverse]

end PureJs.DepthFirst
