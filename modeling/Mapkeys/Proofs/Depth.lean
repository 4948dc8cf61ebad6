import Mapkeys.CallGraph.Layers
import Mapkeys.Proofs.Condensation
import Mathlib.Order.Bounds.Basic

/-!
# Depth

The depth of a name is the greatest number of descents on a walk from it, where a step of a walk is
a descent if nothing leads back from its end to its start. A walk from a name of a component stays in
the component, without a descent, or leaves it by a link, with one; so the depths of its successors
give that of the component (`isDepth_of_successors`). Going through the components from the last to
the first, the pass meets every component after its successors (`settled_run`). It therefore never
fails and gives every name its depth, whichever condensation it is given (`exists_measures`).
-/

namespace Mapkeys

namespace CallGraph

/-! ## Descents -/

/-- How far down a call goes: nowhere if something leads back. -/
def stepDown (graph : CallGraph) (caller callee : Text) : Nat :=
  if graph.Reaches callee caller then 0 else 1

/-- The number of steps of a walk from whose end nothing leads back to their start. -/
def descents (graph : CallGraph) : List Text → Nat
  | a :: b :: rest => graph.stepDown a b + descents graph (b :: rest)
  | _ => 0

/-- The greatest number of descents on a walk from a name. -/
def IsDepth (graph : CallGraph) (name : Text) (depth : Nat) : Prop :=
  IsGreatest {n | ∃ rest, graph.IsWalk (name :: rest) ∧ graph.descents (name :: rest) = n} depth

section

variable {graph : CallGraph} {name : Text} {depth : Nat}

theorem IsDepth.descents_le (isDepth : graph.IsDepth name depth) {rest : List Text}
    (chain : (name :: rest).IsChain graph.Calls) : graph.descents (name :: rest) ≤ depth :=
  isDepth.2 ⟨rest, (isWalk_iff graph _).mpr chain, rfl⟩

theorem IsDepth.exists_walk (isDepth : graph.IsDepth name depth) :
    ∃ rest, (name :: rest).IsChain graph.Calls ∧ graph.descents (name :: rest) = depth := by
  obtain ⟨rest, walk, most⟩ := isDepth.1
  exact ⟨rest, (isWalk_iff graph _).mp walk, most⟩

theorem isDepth_of_bounds
    (above : ∀ rest, (name :: rest).IsChain graph.Calls → graph.descents (name :: rest) ≤ depth)
    (reached : ∃ rest, (name :: rest).IsChain graph.Calls ∧
      depth ≤ graph.descents (name :: rest)) : graph.IsDepth name depth := by
  obtain ⟨rest, chain, enough⟩ := reached
  refine ⟨⟨rest, (isWalk_iff graph _).mpr chain, Nat.le_antisymm (above rest chain) enough⟩, ?_⟩
  rintro n ⟨other, walk, rfl⟩
  exact above other ((isWalk_iff graph _).mp walk)

/-- A walk can be started earlier, with at least as many descents. -/
theorem exists_walk_of_reaches {other : Text} (path : graph.Reaches name other) {rest : List Text}
    (chain : (other :: rest).IsChain graph.Calls) :
    ∃ longer, (name :: longer).IsChain graph.Calls ∧
      graph.descents (other :: rest) ≤ graph.descents (name :: longer) := by
  induction path using Relation.ReflTransGen.head_induction_on with
  | refl => exact ⟨rest, chain, Nat.le_refl _⟩
  | @head start next edge _ ih =>
    obtain ⟨longer, found, enough⟩ := ih
    refine ⟨next :: longer, found.cons_cons ((mem_edges graph start next).mp edge), ?_⟩
    exact enough.trans (Nat.le_add_left _ _)

/-- A name is at least as deep as every name it reaches. -/
theorem IsDepth.le_of_reaches {other : Text} {below : Nat} (isDepth : graph.IsDepth name depth)
    (path : graph.Reaches name other) (isBelow : graph.IsDepth other below) : below ≤ depth := by
  obtain ⟨rest, chain, rfl⟩ := isBelow.exists_walk
  obtain ⟨longer, found, enough⟩ := exists_walk_of_reaches path chain
  exact enough.trans (isDepth.descents_le found)

theorem isDepth_zero (undefined : graph.isDefined name = false) : graph.IsDepth name 0 := by
  refine isDepth_of_bounds (fun rest chain => ?_) ⟨[], .singleton _, Nat.le_refl _⟩
  cases rest with
  | nil => exact Nat.le_refl _
  | cons next rest =>
    have defined := defined_of_calls chain.rel
    simp [undefined] at defined

/-- Where nothing leads back, every step is a descent. -/
theorem descents_eq_length
    (acyclic : ∀ name, ¬ Relation.TransGen (fun a b => (a, b) ∈ graph.edges) name name)
    {rest : List Text} (chain : (name :: rest).IsChain graph.Calls) :
    graph.descents (name :: rest) = rest.length := by
  induction rest generalizing name with
  | nil => rfl
  | cons next rest ih =>
    have apart : ¬ graph.Reaches next name := fun back =>
      acyclic name (.head' ((mem_edges graph name next).mpr chain.rel) back)
    rw [descents, ih chain.tail, stepDown, if_neg apart, List.length_cons, Nat.add_comm]

end

end CallGraph

/-! ## One component -/

theorem le_max?_getD {values : List Nat} {value : Nat} (member : value ∈ values) :
    value ≤ values.max?.getD 0 := by
  cases most : values.max? with
  | none => simp [List.max?_eq_none_iff.mp most] at member
  | some best => exact (List.max?_eq_some_iff.mp most).2 value member

theorem max?_getD_cases (values : List Nat) :
    values.max?.getD 0 = 0 ∨ values.max?.getD 0 ∈ values := by
  cases most : values.max? with
  | none => exact .inl rfl
  | some best => exact .inr (List.max?_eq_some_iff.mp most).1

namespace Condensation

section

variable {condensed : Condensation} {graph : CallGraph} (condenses : condensed.Condenses graph)

include condenses

/-- A call stays in its component or leads to one of its successors, a layer down. -/
theorem Condenses.call_cases {caller callee : Text} {component : Nat}
    (own : condensed.component? caller = some component) (call : graph.Calls caller callee) :
    condensed.component? callee = some component ∧ graph.stepDown caller callee = 0 ∨
      ∃ successor ∈ condensed.successors component,
        condensed.component? callee = some successor ∧ graph.stepDown caller callee = 1 := by
  have edge := (graph.mem_edges caller callee).mpr call
  have vertex := graph.mem_vertices_of_defined caller (CallGraph.defined_of_calls call)
  have together := condenses.together caller vertex callee (CallGraph.mem_vertices_of_called call)
  by_cases same : condensed.component? caller = condensed.component? callee
  · exact .inl ⟨same ▸ own, if_pos (together.mp same).2⟩
  · obtain ⟨⟨calling, called⟩, link, first, second⟩ := condenses.linked _ edge same
    obtain rfl : component = calling := Option.some.inj (own.symm.trans first)
    refine .inr ⟨called, mem_successors.mpr link, second, if_neg fun back => same ?_⟩
    exact together.mpr ⟨.single edge, back⟩

/-- To every successor leads a call from some name of the component, a layer down. -/
theorem Condenses.exists_call {component successor : Nat}
    (link : successor ∈ condensed.successors component) :
    ∃ caller callee, condensed.component? caller = some component ∧
      condensed.component? callee = some successor ∧ graph.Calls caller callee ∧
        graph.stepDown caller callee = 1 := by
  obtain ⟨differ, ⟨caller, callee⟩, edge, calling, called⟩ :=
    condenses.joined _ (mem_successors.mp link)
  have call := (graph.mem_edges caller callee).mp edge
  refine ⟨caller, callee, calling, called, call, ?_⟩
  rcases condenses.call_cases calling call with ⟨same, -⟩ | ⟨_, _, _, down⟩
  · exact absurd (Option.some.inj (same.symm.trans called)) differ
  · exact down

/-- Names of one component lead to each other. -/
theorem Condenses.reaches_of_component {a b : Text} {component : Nat}
    (first : condensed.component? a = some component)
    (second : condensed.component? b = some component) : graph.Reaches a b := by
  rcases (condenses.component?_eq_iff a b).mp (first.trans second.symm) with paths | absent
  · exact paths.1
  · have none := (condenses.component?_eq_none_iff a).mpr absent.1
    rw [first] at none
    cases none

/-- A walk makes no descent until it leaves the component for a successor. -/
theorem Condenses.descents_le {name : Text} {component bound : Nat} {rest : List Text}
    (own : condensed.component? name = some component)
    (below : ∀ successor ∈ condensed.successors component, ∀ other,
      condensed.component? other = some successor → ∀ rest, (other :: rest).IsChain graph.Calls →
        1 + graph.descents (other :: rest) ≤ bound)
    (chain : (name :: rest).IsChain graph.Calls) : graph.descents (name :: rest) ≤ bound := by
  induction rest generalizing name with
  | nil => exact Nat.zero_le _
  | cons next rest ih =>
    rw [CallGraph.descents]
    rcases condenses.call_cases own chain.rel with ⟨same, level⟩ | ⟨successor, link, other, down⟩
    · rw [level, Nat.zero_add]
      exact ih same chain.tail
    · rw [down]
      exact below successor link next other rest chain.tail

/-- A walk can go within the component to a call of a successor, and on from there. -/
theorem Condenses.exists_walk_down {name : Text} {component successor depth : Nat}
    (own : condensed.component? name = some component)
    (link : successor ∈ condensed.successors component)
    (below : ∀ other, condensed.component? other = some successor → graph.IsDepth other depth) :
    ∃ rest, (name :: rest).IsChain graph.Calls ∧ 1 + depth ≤ graph.descents (name :: rest) := by
  obtain ⟨caller, callee, calling, called, call, down⟩ := condenses.exists_call link
  obtain ⟨rest, chain, most⟩ := (below callee called).exists_walk
  obtain ⟨longer, found, enough⟩ := CallGraph.exists_walk_of_reaches
    (condenses.reaches_of_component own calling) (chain.cons_cons call)
  rw [CallGraph.descents, down, most] at enough
  exact ⟨longer, found, enough⟩

/-- A component is a layer deeper than the deepest of its successors. -/
theorem Condenses.isDepth_of_successors {name : Text} {component : Nat} {value : Nat → Nat}
    (own : condensed.component? name = some component)
    (below : ∀ successor ∈ condensed.successors component, ∀ other,
      condensed.component? other = some successor → graph.IsDepth other (value successor)) :
    graph.IsDepth name
      ((((condensed.successors component).map value).map (1 + ·)).max?.getD 0) := by
  rw [List.map_map]
  refine CallGraph.isDepth_of_bounds (fun rest chain => ?_) ?_
  · refine condenses.descents_le own (fun successor link other its rest chain => ?_) chain
    have deepest := (below successor link other its).descents_le chain
    exact (Nat.add_le_add_left deepest 1).trans
      (le_max?_getD (List.mem_map.mpr ⟨successor, link, rfl⟩))
  · rcases max?_getD_cases ((condensed.successors component).map ((1 + ·) ∘ value))
      with flat | member
    · rw [flat]
      exact ⟨[], .singleton _, Nat.zero_le _⟩
    · obtain ⟨successor, link, best⟩ := List.mem_map.mp member
      rw [← best]
      exact condenses.exists_walk_down own link (below successor link)

end

end Condensation

/-! ## The pass -/

theorem mapM_eq_some {α β : Type} {read : α → Option β} {value : α → β} {items : List α}
    (found : ∀ item ∈ items, read item = some (value item)) :
    items.mapM read = some (items.map value) := by
  induction items with
  | nil => rfl
  | cons first rest ih =>
    rw [List.mapM_cons, found first List.mem_cons_self,
      ih fun item later => found item (List.mem_cons_of_mem _ later)]
    rfl

namespace Layers

variable {condensed : Condensation} {graph : CallGraph}

/-- The depths of the given components have been put in. -/
def Settled (condensed : Condensation) (graph : CallGraph) (components : List Nat)
    (depths : List (Nat × Nat)) : Prop :=
  ∀ component ∈ components, ∃ depth, depths.lookup component = some depth ∧
    ∀ name, condensed.component? name = some component → graph.IsDepth name depth

theorem Settled.found {settled : List Nat} {depths : List (Nat × Nat)}
    (holds : Settled condensed graph settled depths) {component : Nat}
    (member : component ∈ settled) :
    depths.lookup component = some ((depths.lookup component).getD 0) ∧
      ∀ name, condensed.component? name = some component →
        graph.IsDepth name ((depths.lookup component).getD 0) := by
  obtain ⟨depth, there, right⟩ := holds component member
  rw [there]
  exact ⟨rfl, right⟩

/-- A component can be put in once its successors have been. -/
theorem settled_step (condenses : condensed.Condenses graph) {settled : List Nat}
    {depths : List (Nat × Nat)} {component : Nat} (holds : Settled condensed graph settled depths)
    (before : ∀ successor ∈ condensed.successors component, successor ∈ settled) :
    ∃ after, settle? condensed depths component = some after ∧
      Settled condensed graph (component :: settled) after := by
  have below := mapM_eq_some fun successor link => (holds.found (before successor link)).1
  refine ⟨_, by rw [settle?, below]; rfl, fun other member => ?_⟩
  by_cases same : other = component
  · subst same
    refine ⟨_, List.lookup_cons_self, fun name own => ?_⟩
    exact condenses.isDepth_of_successors own fun successor link =>
      (holds.found (before successor link)).2
  · have skipped : (other == component) = false := by simpa using same
    obtain ⟨depth, there, right⟩ := holds other ((List.mem_cons.mp member).resolve_left same)
    refine ⟨depth, ?_, right⟩
    rw [List.lookup_cons, skipped]
    exact there

theorem successor_mem_later (condenses : condensed.Condenses graph)
    (sorted : condensed.IsTopological) {earlier later : List Nat} {component successor : Nat}
    (split : condensed.order = earlier ++ component :: later)
    (link : successor ∈ condensed.successors component) : successor ∈ later := by
  have linked := Condensation.mem_successors.mp link
  obtain ⟨differ, edge, -, -, called⟩ := condenses.joined _ linked
  have listed : successor ∈ condensed.order := condenses.component_mem_order sorted called
  rw [split, List.mem_append, List.mem_cons] at listed
  rcases listed with backwards | same | onwards
  · have ordered := sorted.onwards
    rw [split, List.pairwise_append] at ordered
    exact absurd linked (ordered.2.2 successor backwards component List.mem_cons_self)
  · exact absurd same.symm differ
  · exact onwards

/-- From the end of the order, every component is met after its successors. -/
theorem settled_run (condenses : condensed.Condenses graph) (sorted : condensed.IsTopological)
    {earlier later : List Nat} (split : condensed.order = earlier ++ later) :
    ∃ depths, later.reverse.foldlM (settle? condensed) [] = some depths ∧
      Settled condensed graph later depths := by
  induction later generalizing earlier with
  | nil => exact ⟨[], rfl, fun component member => absurd member List.not_mem_nil⟩
  | cons component later ih =>
    obtain ⟨depths, run, holds⟩ := ih (by rw [split, List.append_cons])
    obtain ⟨after, step, extended⟩ := settled_step condenses holds fun successor =>
      successor_mem_later condenses sorted split
    refine ⟨after, ?_, extended⟩
    rw [List.reverse_cons, List.foldlM_append, run]
    simpa using step

/-! ## What layers say -/

/-- Every name has its depth, and names share a number exactly if they reach each other or the graph
    has neither. -/
structure Measures (layers : Layers) (graph : CallGraph) : Prop where
  isDepth : ∀ name, graph.IsDepth name (layers.depth name)
  together : ∀ a b, layers.components.lookup a = layers.components.lookup b ↔
    graph.Reaches a b ∧ graph.Reaches b a ∨ a ∉ graph.vertices ∧ b ∉ graph.vertices

theorem lookup_map_value {α β : Type} (value : α → β) (rows : List (Text × α)) (name : Text) :
    (rows.map fun row => (row.1, value row.2)).lookup name = (rows.lookup name).map value := by
  induction rows with
  | nil => rfl
  | cons row rest ih =>
    rw [List.map_cons, List.lookup_cons, List.lookup_cons]
    cases name == row.1 with
    | true => rfl
    | false => exact ih

/-- The pass over any condensation of a graph succeeds, and its layers measure the graph. -/
theorem exists_measures (condenses : condensed.Condenses graph) (sorted : condensed.IsTopological) :
    ∃ layers, ofCondensation? condensed = some layers ∧ layers.Measures graph := by
  obtain ⟨depths, run, holds⟩ := settled_run condenses sorted (List.nil_append _).symm
  let value (component : Nat) : Nat := (depths.lookup component).getD 0
  refine ⟨⟨condensed.components, condensed.components.map fun row => (row.1, value row.2)⟩, ?_, ?_,
    condenses.component?_eq_iff⟩
  · have rows : (condensed.components.mapM fun row => do
        return (row.1, ← depths.lookup row.2)) =
        some (condensed.components.map fun row => (row.1, value row.2)) := by
      refine mapM_eq_some fun row member => ?_
      have own := (condenses.component?_eq_some_iff row.1 row.2).mpr member
      rw [(holds.found (condenses.component_mem_order sorted own)).1]
      rfl
    rw [ofCondensation?, componentDepths?, run, Option.bind_eq_bind, Option.bind_some, rows]
    rfl
  · intro name
    rw [depth, lookup_map_value]
    cases own : condensed.components.lookup name with
    | none =>
      have absent := (condenses.component?_eq_none_iff name).mp own
      refine CallGraph.isDepth_zero ?_
      simpa using mt (graph.mem_vertices_of_defined name) absent
    | some component =>
      exact (holds.found (condenses.component_mem_order sorted own)).2 name own

theorem measures_ofGraph (graph : CallGraph) : (ofGraph graph).Measures graph := by
  obtain ⟨layers, pass, measures⟩ := exists_measures (Condensation.condenses_ofGraph graph)
    (Condensation.isTopological_ofGraph graph)
  rw [ofGraph, pass]
  exact measures

section

variable {layers other : Layers} (measures : layers.Measures graph)

include measures

/-- All layers that measure a graph say the same. -/
theorem Measures.depth_eq (others : other.Measures graph) (name : Text) :
    layers.depth name = other.depth name :=
  (measures.isDepth name).unique (others.isDepth name)

theorem Measures.callsDepth_eq (others : other.Measures graph) (owner : Text) (calls : List Text) :
    layers.callsDepth owner calls = other.callsDepth owner calls := by
  unfold callsDepth step
  simp only [measures.together, others.together, measures.depth_eq others]

end

end Layers

namespace CallGraph

/-- The depth that the pass over any condensation of a graph gives a name is the greatest number of
    descents on a walk from it, and the one that the graph answers with. It is zero for names that are
    not defined, the same for names that reach each other, and the length of the longest walk where no
    name reaches itself. -/
theorem depth_isGreatest_descents (graph : CallGraph) (condensed : Condensation)
    (condenses : condensed.Condenses graph) (sorted : condensed.IsTopological) :
    ∃ layers, Layers.ofCondensation? condensed = some layers ∧ ∀ name,
      graph.depth name = layers.depth name ∧
      IsGreatest {n | ∃ rest, graph.IsWalk (name :: rest) ∧ graph.descents (name :: rest) = n}
        (layers.depth name) ∧
      (graph.isDefined name = false → layers.depth name = 0) ∧
      (∀ other, graph.Reaches name other → graph.Reaches other name →
        layers.depth name = layers.depth other) ∧
      ((∀ other, ¬ Relation.TransGen (fun a b => (a, b) ∈ graph.edges) other other) →
        IsGreatest {n | ∃ rest, graph.IsWalk (name :: rest) ∧ rest.length = n}
          (layers.depth name)) := by
  obtain ⟨layers, pass, measures⟩ := Layers.exists_measures condenses sorted
  refine ⟨layers, pass, fun name => ?_⟩
  have isDepth := measures.isDepth name
  refine ⟨(Layers.measures_ofGraph graph).depth_eq measures name, isDepth, ?_, ?_, ?_⟩
  · intro undefined
    exact isDepth.unique (isDepth_zero undefined)
  · intro other forwards back
    have isOther := measures.isDepth other
    exact Nat.le_antisymm (isOther.le_of_reaches back isDepth) (isDepth.le_of_reaches forwards isOther)
  · intro acyclic
    obtain ⟨rest, chain, most⟩ := isDepth.exists_walk
    refine ⟨⟨rest, (isWalk_iff graph _).mpr chain, ?_⟩, ?_⟩
    · rw [← most, descents_eq_length acyclic chain]
    · rintro n ⟨other, walk, rfl⟩
      have chain' := (isWalk_iff graph _).mp walk
      rw [← descents_eq_length acyclic chain']
      exact isDepth.descents_le chain'

/-- Two names that call each other share the depth that the way out of one of them gives, an
    undefined name has depth zero, and a single call makes the longest walk of its graph. -/
theorem depth_of_ring_and_call :
    let ring : CallGraph := ⟨.all, [⟨['a'], [['b']]⟩, ⟨['b'], [['a']]⟩, ⟨['b'], [['c']]⟩]⟩
    let parts : Condensation := ⟨[(['c'], 0), (['a'], 1), (['b'], 1)], [(1, 0)], [1, 0]⟩
    let call : CallGraph := ⟨.first, [⟨['a'], [['b']]⟩]⟩
    let ends : Condensation := ⟨[(['b'], 0), (['a'], 1)], [(1, 0)], [1, 0]⟩
    (parts.Condenses ring ∧ parts.IsTopological ∧
      ∃ layers, Layers.ofCondensation? parts = some layers ∧ layers.depth ['a'] = 1 ∧
        layers.depth ['a'] = layers.depth ['b'] ∧ layers.depth ['c'] = 0) ∧
    ends.Condenses call ∧ ends.IsTopological ∧
      ∃ layers, Layers.ofCondensation? ends = some layers ∧
        IsGreatest {n | ∃ rest, call.IsWalk (['a'] :: rest) ∧ rest.length = n}
          (layers.depth ['a']) := by
  intro ring parts call ends
  have acyclic (other : Text) :
      ¬ Relation.TransGen (fun a b => (a, b) ∈ call.edges) other other := by
    intro circle
    have edges : call.edges = [(['a'], ['b'])] := by decide
    obtain ⟨_, first, _⟩ := Relation.TransGen.head'_iff.mp circle
    obtain ⟨_, _, last⟩ := Relation.TransGen.tail'_iff.mp circle
    rw [edges, List.mem_singleton, Prod.mk.injEq] at first last
    rw [first.1] at last
    exact absurd last.2 (by decide)
  have condenses : parts.Condenses ring := ⟨by decide, by decide, by decide, by decide⟩
  have sorted : parts.IsTopological := ⟨by decide, by decide⟩
  have condenses' : ends.Condenses call := ⟨by decide, by decide, by decide, by decide⟩
  have sorted' : ends.IsTopological := ⟨by decide, by decide⟩
  obtain ⟨layers, pass, deep⟩ := depth_isGreatest_descents ring parts condenses sorted
  obtain ⟨others, pass', deep'⟩ := depth_isGreatest_descents call ends condenses' sorted'
  refine ⟨⟨condenses, sorted, layers, pass, ?_, ?_, ?_⟩, condenses', sorted', others, pass',
    (deep' ['a']).2.2.2.2 acyclic⟩
  · rw [← (deep ['a']).1]
    decide
  · exact (deep ['a']).2.2.2.1 ['b'] (by decide) (by decide)
  · exact (deep ['c']).2.2.1 (by decide)

end CallGraph
end Mapkeys
