import Mapkeys.CallGraph
import Mathlib.Data.List.Chain
import Mathlib.Data.List.Nodup
import Mathlib.Logic.Relation

/-!
# The relation of calls

The call graph as a relation between names. Its edges are exactly the calls of the defined names,
its vertices hold both ends of every call, and a walk is a list of names in which each one calls
the next.
-/

namespace Mapkeys

theorem mem_distinct {α : Type} [DecidableEq α] (a : α) (items : List α) :
    a ∈ distinct items ↔ a ∈ items := by
  induction items with
  | nil => simp [distinct]
  | cons b rest ih =>
    by_cases same : a = b
    · simp [distinct, same]
    · simp [distinct, same, ih]

theorem nodup_distinct {α : Type} [DecidableEq α] (items : List α) : (distinct items).Nodup := by
  induction items with
  | nil => simp [distinct]
  | cons b rest ih =>
    rw [distinct, List.nodup_cons]
    exact ⟨by simp, ih.filter _⟩

/-- In a table with one row for each name, looking a name up finds its row. -/
theorem lookup_iff_mem {β : Type} {rows : List (Text × β)} (distinct : (rows.map Prod.fst).Nodup)
    (name : Text) (value : β) : rows.lookup name = some value ↔ (name, value) ∈ rows := by
  induction rows with
  | nil => simp
  | cons row rest ih =>
    obtain ⟨key, held⟩ := row
    rw [List.map_cons, List.nodup_cons] at distinct
    rw [List.lookup_cons, List.mem_cons]
    by_cases same : name = key
    · subst same
      have elsewhere : (name, value) ∉ rest := fun later =>
        distinct.1 (List.mem_map.mpr ⟨(name, value), later, rfl⟩)
      simp [elsewhere, eq_comm]
    · have skipped : (name == key) = false := by simpa using same
      simp [skipped, ih distinct.2, same]

theorem lookup_eq_none_iff {β : Type} {rows : List (Text × β)} {name : Text} :
    rows.lookup name = none ↔ name ∉ rows.map Prod.fst := by
  rw [List.lookup_eq_none_iff, List.mem_map]
  constructor
  · rintro none ⟨row, member, rfl⟩
    simpa using none row member
  · intro absent row member
    have differs : name ≠ row.1 := fun same => absent ⟨row, member, same.symm⟩
    simpa using differs

namespace CallGraph

/-- One name calls another. -/
def Calls (graph : CallGraph) (caller callee : Text) : Prop := callee ∈ graph.calls caller

/-- A chain of calls, of any length, leads from one name to another. -/
def Reaches (graph : CallGraph) : Text → Text → Prop :=
  Relation.ReflTransGen fun a b => (a, b) ∈ graph.edges

/-- Each name of the list but the last has an edge to the next. -/
def IsWalk (graph : CallGraph) (walk : List Text) : Prop :=
  walk.IsChain fun a b => (a, b) ∈ graph.edges

/-- A walk of at least one step that ends where it starts. -/
structure ClosedWalk (graph : CallGraph) (walk : List Text) : Prop where
  long : 2 ≤ walk.length
  isWalk : graph.IsWalk walk
  closed : walk.head? = walk.getLast?

/-! ## Defined names -/

theorem mem_names (graph : CallGraph) (name : Text) :
    name ∈ graph.names ↔ graph.isDefined name = true := by
  simp [names, mem_distinct, isDefined, List.any_eq_true]

theorem nodup_names (graph : CallGraph) : graph.names.Nodup := nodup_distinct _

theorem owners_subset (graph : CallGraph) (name : Text) (entry : Entry)
    (member : entry ∈ graph.owners name) : entry ∈ graph.entries ∧ entry.name = name := by
  have sharing : entry ∈ graph.entries.filter (·.name = name) := by
    unfold owners at member
    cases policy : graph.policy with
    | first => rw [policy] at member; exact List.mem_of_mem_take member
    | all => rw [policy] at member; exact member
  simpa using sharing

theorem defined_of_calls {graph : CallGraph} {caller callee : Text}
    (call : graph.Calls caller callee) : graph.isDefined caller = true := by
  obtain ⟨entry, owner, _⟩ := List.mem_flatMap.mp call
  obtain ⟨member, named⟩ := owners_subset graph caller entry owner
  exact List.any_eq_true.mpr ⟨entry, member, by simp [named]⟩

theorem calls_eq_nil (graph : CallGraph) (name : Text) (undefined : graph.isDefined name = false) :
    graph.calls name = [] := by
  rw [List.eq_nil_iff_forall_not_mem]
  intro callee call
  have defined : graph.isDefined name = true := defined_of_calls call
  simp [undefined] at defined

/-! ## Vertices and edges -/

theorem mem_edges (graph : CallGraph) (caller callee : Text) :
    (caller, callee) ∈ graph.edges ↔ graph.Calls caller callee := by
  simp only [edges, callees, List.mem_flatMap, List.mem_map, mem_distinct, Prod.mk.injEq]
  constructor
  · rintro ⟨name, _, other, call, rfl, rfl⟩
    exact call
  · intro call
    exact ⟨caller, (mem_names graph caller).mpr (defined_of_calls call), callee, call, rfl, rfl⟩

theorem edges_eq_calls (graph : CallGraph) :
    (fun a b => (a, b) ∈ graph.edges) = graph.Calls := by
  funext a b
  exact propext (mem_edges graph a b)

theorem isWalk_iff (graph : CallGraph) (walk : List Text) :
    graph.IsWalk walk ↔ walk.IsChain graph.Calls := by
  rw [IsWalk, edges_eq_calls]

theorem mem_dangling (graph : CallGraph) (name : Text) :
    name ∈ graph.dangling ↔
      (∃ entry ∈ graph.entries, name ∈ entry.calls) ∧ graph.isDefined name = false := by
  simp [dangling, mem_distinct]

theorem nodup_vertices (graph : CallGraph) : graph.vertices.Nodup := by
  rw [vertices, List.nodup_append']
  refine ⟨nodup_distinct _, nodup_distinct _, ?_⟩
  intro name defined dangling
  have present := (mem_names graph name).mp defined
  have absent := ((mem_dangling graph name).mp dangling).2
  simp [present] at absent

theorem mem_vertices_of_defined (graph : CallGraph) (name : Text)
    (defined : graph.isDefined name = true) : name ∈ graph.vertices :=
  List.mem_append_left _ ((mem_names graph name).mpr defined)

theorem mem_vertices_of_called {graph : CallGraph} {caller callee : Text}
    (call : graph.Calls caller callee) : callee ∈ graph.vertices := by
  by_cases defined : graph.isDefined callee = true
  · exact mem_vertices_of_defined graph callee defined
  · obtain ⟨entry, owner, called⟩ := List.mem_flatMap.mp call
    have member := (owners_subset graph caller entry owner).1
    exact List.mem_append_right _
      ((mem_dangling graph callee).mpr ⟨⟨entry, member, called⟩, by simpa using defined⟩)

/-! ## Walks -/

/-- A list of at least two names that ends with its first one and in which each one is related to
    the next. -/
def Circular (related : Text → Text → Prop) (walk : List Text) : Prop :=
  ∃ start rest, walk = start :: rest ∧ rest.getLast? = some start ∧ walk.IsChain related

theorem closedWalk_iff (graph : CallGraph) (walk : List Text) :
    graph.ClosedWalk walk ↔ Circular graph.Calls walk := by
  constructor
  · rintro ⟨long, isWalk, closed⟩
    match walk, long with
    | start :: next :: rest, _ =>
      refine ⟨start, next :: rest, rfl, ?_, (isWalk_iff graph _).mp isWalk⟩
      rw [List.head?_cons, List.getLast?_cons_cons] at closed
      exact closed.symm
  · rintro ⟨start, rest, rfl, last, chain⟩
    match rest, last with
    | next :: others, last =>
      refine ⟨by simp, (isWalk_iff graph _).mpr chain, ?_⟩
      rw [List.head?_cons, List.getLast?_cons_cons, last]

/-- A chain of at least one step is a list that starts with one end and ends with the other. -/
theorem transGen_iff_chain {related : Text → Text → Prop} (a b : Text) :
    Relation.TransGen related a b ↔
      ∃ rest, rest.getLast? = some b ∧ (a :: rest).IsChain related := by
  constructor
  · intro path
    induction path using Relation.TransGen.head_induction_on with
    | single step => exact ⟨[b], rfl, by simpa using step⟩
    | @head a c step _ ih =>
      obtain ⟨rest, last, chain⟩ := ih
      refine ⟨c :: rest, ?_, chain.cons_cons step⟩
      cases rest with
      | nil => simp at last
      | cons d others => rw [List.getLast?_cons_cons, last]
  · rintro ⟨rest, last, chain⟩
    induction rest generalizing a with
    | nil => simp at last
    | cons c others ih =>
      have step : related a c := chain.rel
      cases others with
      | nil =>
        have same : c = b := by simpa using last
        exact same ▸ Relation.TransGen.single step
      | cons d rest =>
        rw [List.getLast?_cons_cons] at last
        exact Relation.TransGen.head step (ih c last chain.tail)

/-- Every name of a circular list leads back to itself. -/
theorem Circular.transGen {related : Text → Text → Prop} {walk : List Text}
    (circular : Circular related walk) {name : Text} (member : name ∈ walk) :
    Relation.TransGen related name name := by
  obtain ⟨start, rest, rfl, last, chain⟩ := circular
  have whole : Relation.TransGen related start start := (transGen_iff_chain _ _).mpr ⟨rest, last, chain⟩
  rcases List.mem_cons.mp member with rfl | inside
  · exact whole
  · obtain ⟨before, after, rfl⟩ := List.append_of_mem inside
    have there : Relation.TransGen related start name := by
      refine (transGen_iff_chain _ _).mpr ⟨before ++ [name], by simp, ?_⟩
      rw [← List.cons_append, List.append_cons] at chain
      simpa using chain.left_of_append
    cases after with
    | nil =>
      have same : name = start := by simpa using last
      exact same ▸ whole
    | cons next others =>
      have back : Relation.TransGen related name start := by
        refine (transGen_iff_chain _ _).mpr ⟨next :: others, ?_, ?_⟩
        · rw [← last, List.getLast?_append_of_ne_nil _ (by simp), List.getLast?_cons_cons]
        · rw [← List.cons_append] at chain
          exact chain.right_of_append
      exact back.trans there

end CallGraph
end Mapkeys
