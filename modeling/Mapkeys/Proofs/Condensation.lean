import Mapkeys.CallGraph.Condensation
import Mapkeys.Proofs.Reachability
import Mapkeys.Proofs.Sorting
import Mathlib.Data.List.Perm.Subperm

/-!
# Components and their order

What it takes for numbers, links and an order to be those of the components of a graph is stated
apart from how they are found: `Condenses` says that the numbers and links are right, `IsTopological`
that the order is. The components that `ofGraph` finds meet both. Names of one component lead to the
same names, and a link leads to a name that leads to fewer, so the order by the number of names that
are led to is right.
-/

namespace Mapkeys

theorem findIdx_congr {α : Type} {p q : α → Bool} {items : List α}
    (same : ∀ item ∈ items, p item = q item) : items.findIdx p = items.findIdx q := by
  induction items with
  | nil => rfl
  | cons first rest ih =>
    rw [List.findIdx_cons, List.findIdx_cons, same first List.mem_cons_self,
      ih fun item later => same item (List.mem_cons_of_mem _ later)]

namespace CallGraph

theorem mem_vertices_of_reaches {graph : CallGraph} {a b : Text} (vertex : a ∈ graph.vertices)
    (path : graph.Reaches a b) : b ∈ graph.vertices := by
  cases path with
  | refl => exact vertex
  | @tail middle _ _ edge => exact mem_vertices_of_called ((mem_edges graph middle b).mp edge)

/-! ## Names led to -/

/-- The names that chains of calls lead to from a name, the chain of no calls included. -/
def reach (graph : CallGraph) (name : Text) : List Text :=
  follow graph.calls (1 + graph.callCount) [name] []

theorem mem_reach (graph : CallGraph) (name other : Text) :
    other ∈ graph.reach name ↔ graph.Reaches name other := by
  have found : other ∈ graph.reach name ↔
      ∃ first ∈ [name], Relation.ReflTransGen graph.Calls first other :=
    mem_follow graph.nodup_names (calls_eq_nil_of_not_mem_names graph) [name] other
  rw [found, Reaches, edges_eq_calls]
  simp

theorem nodup_reach (graph : CallGraph) (name : Text) : (graph.reach name).Nodup :=
  nodup_follow List.nodup_nil

theorem length_reach_eq {graph : CallGraph} {a b : Text} (forwards : graph.Reaches a b)
    (back : graph.Reaches b a) : (graph.reach a).length = (graph.reach b).length := by
  refine List.Perm.length_eq ((List.perm_ext_iff_of_nodup (graph.nodup_reach a)
    (graph.nodup_reach b)).mpr fun other => ?_)
  rw [mem_reach, mem_reach]
  exact ⟨back.trans, forwards.trans⟩

/-- A name leads to more names than one that it leads to and that does not lead back. -/
theorem length_reach_lt {graph : CallGraph} {a b : Text} (forwards : graph.Reaches a b)
    (apart : ¬ graph.Reaches b a) : (graph.reach b).length < (graph.reach a).length := by
  have fresh : a ∉ graph.reach b := by rwa [mem_reach]
  have inside : a :: graph.reach b ⊆ graph.reach a := by
    intro other member
    rw [mem_reach]
    rcases List.mem_cons.mp member with rfl | later
    · exact .refl
    · exact forwards.trans ((mem_reach graph b other).mp later)
  exact (List.subperm_of_subset (List.nodup_cons.mpr ⟨fresh, graph.nodup_reach b⟩) inside).length_le

end CallGraph

namespace Condensation

/-! ## Components, links and orders -/

/-- Every vertex has a component, two of them share it exactly if they reach each other, and the
    links are the edges from one component to another. -/
structure Condenses (condensed : Condensation) (graph : CallGraph) : Prop where
  named : (condensed.components.map Prod.fst).Perm graph.vertices
  together : ∀ a ∈ graph.vertices, ∀ b ∈ graph.vertices,
    (condensed.component? a = condensed.component? b ↔ graph.Reaches a b ∧ graph.Reaches b a)
  joined : ∀ link ∈ condensed.links, link.1 ≠ link.2 ∧ ∃ edge ∈ graph.edges,
    condensed.component? edge.1 = some link.1 ∧ condensed.component? edge.2 = some link.2
  linked : ∀ edge ∈ graph.edges, condensed.component? edge.1 ≠ condensed.component? edge.2 →
    ∃ link ∈ condensed.links,
      condensed.component? edge.1 = some link.1 ∧ condensed.component? edge.2 = some link.2

/-- Every component is listed once, and no link leads to an earlier one. -/
structure IsTopological (condensed : Condensation) : Prop where
  listed : condensed.order.Perm (distinct (condensed.components.map Prod.snd))
  onwards : condensed.order.Pairwise fun earlier later => (later, earlier) ∉ condensed.links

theorem mem_successors {condensed : Condensation} {component successor : Nat} :
    successor ∈ condensed.successors component ↔ (component, successor) ∈ condensed.links := by
  simp [successors]

section

variable {condensed : Condensation} {graph : CallGraph} (condenses : condensed.Condenses graph)

include condenses

theorem Condenses.component?_eq_some_iff (name : Text) (component : Nat) :
    condensed.component? name = some component ↔ (name, component) ∈ condensed.components :=
  lookup_iff_mem (condenses.named.nodup_iff.mpr graph.nodup_vertices) name component

theorem Condenses.component?_eq_none_iff (name : Text) :
    condensed.component? name = none ↔ name ∉ graph.vertices := by
  rw [component?, lookup_eq_none_iff, condenses.named.mem_iff]

theorem Condenses.component_mem_order (sorted : condensed.IsTopological) {name : Text}
    {component : Nat} (own : condensed.component? name = some component) :
    component ∈ condensed.order := by
  rw [sorted.listed.mem_iff, mem_distinct]
  exact List.mem_map_of_mem ((condenses.component?_eq_some_iff name component).mp own)

/-- Names have the same number exactly if they reach each other or the graph has neither. -/
theorem Condenses.component?_eq_iff (a b : Text) :
    condensed.component? a = condensed.component? b ↔
      graph.Reaches a b ∧ graph.Reaches b a ∨ a ∉ graph.vertices ∧ b ∉ graph.vertices := by
  by_cases first : a ∈ graph.vertices
  · by_cases second : b ∈ graph.vertices
    · rw [condenses.together a first b second]
      simp [first]
    · have none := (condenses.component?_eq_none_iff b).mpr second
      rw [none, condenses.component?_eq_none_iff]
      have apart : ¬ graph.Reaches a b := fun path =>
        second (CallGraph.mem_vertices_of_reaches first path)
      simp [first, apart]
  · have none := (condenses.component?_eq_none_iff a).mpr first
    rw [none, eq_comm, condenses.component?_eq_none_iff]
    by_cases second : b ∈ graph.vertices
    · have apart : ¬ graph.Reaches b a := fun path =>
        first (CallGraph.mem_vertices_of_reaches second path)
      simp [second, apart]
    · simp [first, second]

end

/-! ## The table of names -/

theorem callTable_lookup (graph : CallGraph) (name : Text) :
    ((callTable graph).lookup name).getD [] = graph.calls name := by
  have keys : (callTable graph).map Prod.fst = graph.names := by
    rw [callTable, List.map_map]
    exact List.map_id _
  by_cases defined : name ∈ graph.names
  · have row : (name, graph.calls name) ∈ callTable graph := List.mem_map.mpr ⟨name, defined, rfl⟩
    rw [(lookup_iff_mem (keys ▸ graph.nodup_names) name _).mpr row, Option.getD_some]
  · rw [lookup_eq_none_iff.mpr (keys ▸ defined), Option.getD_none,
      CallGraph.calls_eq_nil_of_not_mem_names graph name defined]

theorem reachTable_eq (graph : CallGraph) :
    reachTable graph = graph.vertices.map fun name => (name, graph.reach name) := by
  have calls : (fun caller => ((callTable graph).lookup caller).getD []) = graph.calls :=
    funext (callTable_lookup graph)
  simp only [reachTable, calls, CallGraph.reach]

/-- A table that lists every vertex once with the names that it leads to, those that lead to the most
    names first. -/
structure Ranked (rows : List (Text × List Text)) (graph : CallGraph) : Prop where
  lists : rows.Perm (graph.vertices.map fun name => (name, graph.reach name))
  sorted : rows.Pairwise fun a b => b.2.length ≤ a.2.length

theorem ranked_sortBy (graph : CallGraph) :
    Ranked (sortBy (fun a b => b.2.length ≤ a.2.length) (reachTable graph)) graph where
  lists := by
    rw [reachTable_eq]
    exact sortBy_perm _ _
  sorted := by
    refine (sortBy_pairwise ?_ ?_ _).imp of_decide_eq_true
    · intro a b
      simpa using Nat.le_total b.2.length a.2.length
    · intro a b c first second
      simp only [decide_eq_true_eq] at *
      exact second.trans first

theorem link?_eq_some_iff {components : List (Text × Nat)} {call : Text × Text} {link : Nat × Nat} :
    link? components call = some link ↔ components.lookup call.1 = some link.1 ∧
      components.lookup call.2 = some link.2 ∧ link.1 ≠ link.2 := by
  cases calling : components.lookup call.1 with
  | none => simp [link?, calling]
  | some c =>
    cases called : components.lookup call.2 with
    | none => simp [link?, calling, called]
    | some d =>
      simp only [link?, calling, called, Option.bind_eq_bind, Option.bind_some, Option.some.injEq,
        Option.ite_none_left_eq_some]
      constructor
      · rintro ⟨differ, rfl⟩
        exact ⟨rfl, rfl, differ⟩
      · rintro ⟨rfl, rfl, differ⟩
        exact ⟨differ, rfl⟩

section

variable {rows : List (Text × List Text)} {graph : CallGraph} (ranked : Ranked rows graph)

include ranked

theorem Ranked.mem_iff (row : Text × List Text) :
    row ∈ rows ↔ row.1 ∈ graph.vertices ∧ row.2 = graph.reach row.1 := by
  rw [ranked.lists.mem_iff, List.mem_map]
  constructor
  · rintro ⟨name, vertex, rfl⟩
    exact ⟨vertex, rfl⟩
  · rintro ⟨vertex, same⟩
    exact ⟨row.1, vertex, Prod.ext rfl same.symm⟩

theorem Ranked.row_mem {name : Text} (vertex : name ∈ graph.vertices) :
    (name, graph.reach name) ∈ rows :=
  (ranked.mem_iff _).mpr ⟨vertex, rfl⟩

theorem Ranked.areMutual_iff {a b : Text × List Text} (first : a ∈ rows) (second : b ∈ rows) :
    areMutual a b = true ↔ graph.Reaches a.1 b.1 ∧ graph.Reaches b.1 a.1 := by
  rw [areMutual, ((ranked.mem_iff a).mp first).2, ((ranked.mem_iff b).mp second).2,
    Bool.and_eq_true, List.contains_iff_mem, List.contains_iff_mem, graph.mem_reach, graph.mem_reach]

/-- At the place that is the number of a component stands one of its names. -/
theorem Ranked.exists_number {row : Text × List Text} (member : row ∈ rows) :
    ∃ other, rows[number rows row]? = some other ∧ other ∈ rows ∧
      graph.Reaches row.1 other.1 ∧ graph.Reaches other.1 row.1 := by
  have itself : areMutual row row = true :=
    (ranked.areMutual_iff member member).mpr ⟨.refl, .refl⟩
  have inside : number rows row < rows.length :=
    List.findIdx_lt_length_of_exists ⟨row, member, itself⟩
  have there : rows[number rows row] ∈ rows := List.getElem_mem inside
  refine ⟨_, List.getElem?_eq_getElem inside, there, ?_⟩
  exact (ranked.areMutual_iff member there).mp List.findIdx_getElem

theorem Ranked.number_eq_iff {a b : Text × List Text} (first : a ∈ rows) (second : b ∈ rows) :
    number rows a = number rows b ↔ graph.Reaches a.1 b.1 ∧ graph.Reaches b.1 a.1 := by
  constructor
  · intro same
    obtain ⟨other, found, -, forwards, back⟩ := ranked.exists_number first
    obtain ⟨other', found', -, forwards', back'⟩ := ranked.exists_number second
    rw [same, found'] at found
    obtain rfl := Option.some.inj found
    exact ⟨forwards.trans back', forwards'.trans back⟩
  · rintro ⟨forwards, back⟩
    refine findIdx_congr fun row member => ?_
    rw [Bool.eq_iff_iff, ranked.areMutual_iff first member, ranked.areMutual_iff second member]
    constructor
    · rintro ⟨away, home⟩
      exact ⟨back.trans away, home.trans forwards⟩
    · rintro ⟨away, home⟩
      exact ⟨forwards.trans away, home.trans back⟩

/-- Numbers grow along calls that nothing leads back from. -/
theorem Ranked.number_lt {a b : Text × List Text} (first : a ∈ rows) (second : b ∈ rows)
    (forwards : graph.Reaches a.1 b.1) (apart : ¬ graph.Reaches b.1 a.1) :
    number rows a < number rows b := by
  obtain ⟨one, foundOne, memberOne, toOne, fromOne⟩ := ranked.exists_number first
  obtain ⟨two, foundTwo, memberTwo, toTwo, fromTwo⟩ := ranked.exists_number second
  have fewer : two.2.length < one.2.length := by
    rw [((ranked.mem_iff one).mp memberOne).2, ((ranked.mem_iff two).mp memberTwo).2,
      ← CallGraph.length_reach_eq toOne fromOne, ← CallGraph.length_reach_eq toTwo fromTwo]
    exact CallGraph.length_reach_lt forwards apart
  by_contra notLess
  rcases Nat.lt_or_eq_of_le (Nat.le_of_not_lt notLess) with less | same
  · obtain ⟨within, rfl⟩ := List.getElem?_eq_some_iff.mp foundOne
    obtain ⟨within', rfl⟩ := List.getElem?_eq_some_iff.mp foundTwo
    exact absurd (List.pairwise_iff_getElem.mp ranked.sorted _ _ within' within less)
      (Nat.not_le_of_lt fewer)
  · rw [same, foundOne] at foundTwo
    obtain rfl := Option.some.inj foundTwo
    exact Nat.lt_irrefl _ fewer

/-! ## The components found -/

theorem Ranked.names : (rows.map Prod.fst).Perm graph.vertices := by
  have perm := ranked.lists.map Prod.fst
  rw [List.map_map] at perm
  simpa [Function.comp_def] using perm

theorem Ranked.component?_eq_some_iff {edges : List (Text × Text)} {name : Text} {component : Nat} :
    (ofTable rows edges).component? name = some component ↔
      name ∈ graph.vertices ∧ number rows (name, graph.reach name) = component := by
  have distinct : ((ofTable rows edges).components.map Prod.fst).Nodup := by
    simpa [ofTable, Function.comp_def] using ranked.names.nodup_iff.mpr graph.nodup_vertices
  rw [component?, lookup_iff_mem distinct, ofTable, List.mem_map]
  constructor
  · rintro ⟨row, member, same⟩
    obtain ⟨vertex, reached⟩ := (ranked.mem_iff row).mp member
    obtain ⟨rfl, rfl⟩ := Prod.mk.inj same
    exact ⟨vertex, by rw [← reached]⟩
  · rintro ⟨vertex, rfl⟩
    exact ⟨(name, graph.reach name), ranked.row_mem vertex, rfl⟩

theorem Ranked.condenses : (ofTable rows graph.edges).Condenses graph where
  named := by
    simpa [ofTable, Function.comp_def] using ranked.names
  together := by
    intro a first b second
    rw [ranked.component?_eq_some_iff.mpr ⟨first, rfl⟩,
      ranked.component?_eq_some_iff.mpr ⟨second, rfl⟩, Option.some.injEq]
    exact ranked.number_eq_iff (ranked.row_mem first) (ranked.row_mem second)
  joined := by
    intro link member
    obtain ⟨edge, made, found⟩ := List.mem_filterMap.mp member
    obtain ⟨calling, called, differ⟩ := link?_eq_some_iff.mp found
    exact ⟨differ, edge, made, calling, called⟩
  linked := by
    intro edge made differ
    have call := (graph.mem_edges edge.1 edge.2).mp made
    have calling : (ofTable rows graph.edges).component? edge.1 = some _ :=
      ranked.component?_eq_some_iff.mpr
        ⟨graph.mem_vertices_of_defined edge.1 (CallGraph.defined_of_calls call), rfl⟩
    have called : (ofTable rows graph.edges).component? edge.2 = some _ :=
      ranked.component?_eq_some_iff.mpr ⟨CallGraph.mem_vertices_of_called call, rfl⟩
    rw [calling, called] at differ
    refine ⟨(_, _), List.mem_filterMap.mpr ⟨edge, made, ?_⟩, calling, called⟩
    exact link?_eq_some_iff.mpr ⟨calling, called, fun same => differ (congrArg some same)⟩

theorem Ranked.isTopological : (ofTable rows graph.edges).IsTopological where
  listed := by
    refine (List.perm_ext_iff_of_nodup (List.nodup_range.filter _) (nodup_distinct _)).mpr ?_
    intro component
    have inside (row : Text × List Text) (member : row ∈ rows) : number rows row < rows.length := by
      obtain ⟨other, found, -⟩ := ranked.exists_number member
      exact (List.getElem?_eq_some_iff.mp found).1
    rw [mem_distinct]
    simp only [ofTable, List.mem_filter, List.mem_range, List.any_map, List.any_eq_true,
      Function.comp_apply, decide_eq_true_eq, List.map_map, List.mem_map]
    constructor
    · rintro ⟨-, row, member, rfl⟩
      exact ⟨row, member, rfl⟩
    · rintro ⟨row, member, rfl⟩
      exact ⟨inside row member, row, member, rfl⟩
  onwards := by
    refine (List.pairwise_lt_range.filter _).imp fun {earlier later} less backwards => ?_
    obtain ⟨differ, edge, made, calling, called⟩ := ranked.condenses.joined _ backwards
    obtain ⟨first, rfl⟩ := ranked.component?_eq_some_iff.mp calling
    obtain ⟨second, rfl⟩ := ranked.component?_eq_some_iff.mp called
    have start := ranked.row_mem first
    have target := ranked.row_mem second
    have forwards : graph.Reaches edge.1 edge.2 := .single made
    have apart : ¬ graph.Reaches edge.2 edge.1 := fun back =>
      differ ((ranked.number_eq_iff start target).mpr ⟨forwards, back⟩)
    exact Nat.lt_asymm less (ranked.number_lt start target forwards apart)

end

theorem condenses_ofGraph (graph : CallGraph) : (ofGraph graph).Condenses graph :=
  (ranked_sortBy graph).condenses

theorem isTopological_ofGraph (graph : CallGraph) : (ofGraph graph).IsTopological :=
  (ranked_sortBy graph).isTopological

end Condensation
end Mapkeys
