import Mapkeys.Diagram.Dot
import Mapkeys.Proofs.CyclicStatus
import Mapkeys.Proofs.Depth
import Mapkeys.Proofs.Sessions

/-!
# Names shown as nested too deep

A definition is measured by its own calls and the numbers of components, a name by its whole
component; yet a name is as deep as the deepest of the definitions that own it. So a definition
exceeds a limit by its own calls exactly if its name does, and a diagram shows a name as nested too
deep exactly if the depth that stands beside it exceeds the limit, unless the name is on a cycle.
-/

namespace Mapkeys

/-! ## Definitions and names -/

theorem le_foldl_max {α : Type} (value : α → Nat) (items : List α) (start : Nat) :
    start ≤ items.foldl (fun best item => max best (value item)) start ∧
      ∀ item ∈ items, value item ≤ items.foldl (fun best item => max best (value item)) start := by
  induction items generalizing start with
  | nil => simp
  | cons first rest ih =>
    obtain ⟨above, members⟩ := ih (max start (value first))
    refine ⟨(Nat.le_max_left _ _).trans above, ?_⟩
    intro item member
    rcases List.mem_cons.mp member with rfl | later
    · exact (Nat.le_max_right _ _).trans above
    · exact members item later

theorem foldl_max_cases {α : Type} (value : α → Nat) (items : List α) (start : Nat) :
    items.foldl (fun best item => max best (value item)) start = start ∨
      ∃ item ∈ items, items.foldl (fun best item => max best (value item)) start = value item := by
  induction items generalizing start with
  | nil => exact .inl rfl
  | cons first rest ih =>
    rw [List.foldl_cons]
    rcases ih (max start (value first)) with same | ⟨item, member, same⟩
    · rcases Nat.le_total (value first) start with below | above
      · exact .inl (by rw [same, Nat.max_eq_left below])
      · exact .inr ⟨first, List.mem_cons_self, by rw [same, Nat.max_eq_right above]⟩
    · exact .inr ⟨item, List.mem_cons_of_mem _ member, same⟩

theorem CallGraph.owners_ne_nil {graph : CallGraph} {name : Text}
    (defined : graph.isDefined name = true) : graph.owners name ≠ [] := by
  obtain ⟨entry, member, named⟩ := List.any_eq_true.mp defined
  have sharing : graph.entries.filter (·.name = name) ≠ [] :=
    List.ne_nil_of_mem (List.mem_filter.mpr ⟨member, named⟩)
  unfold owners
  cases graph.policy with
  | first => simpa using sharing
  | all => exact sharing

theorem CallGraph.calls_of_owner {graph : CallGraph} {name callee : Text} {entry : Entry}
    (owner : entry ∈ graph.owners name) (called : callee ∈ entry.calls) : graph.Calls name callee :=
  List.mem_flatMap.mpr ⟨entry, owner, called⟩

namespace Layers

variable {graph : CallGraph} {layers : Layers} (measures : layers.Measures graph)

include measures

/-- A call stays in its component exactly if something leads back. -/
theorem Measures.step_of_call {name callee : Text} (call : graph.Calls name callee) :
    layers.step name callee = graph.stepDown name callee := by
  have vertex := graph.mem_vertices_of_defined name (CallGraph.defined_of_calls call)
  have forwards : graph.Reaches name callee := .single ((graph.mem_edges name callee).mpr call)
  have back : layers.components.lookup callee = layers.components.lookup name ↔
      graph.Reaches callee name := by
    rw [measures.together]
    simp [vertex, forwards]
  simp only [step, CallGraph.stepDown, back]

/-- A name is at least as deep as each of its calls leads down. -/
theorem Measures.step_add_depth_le {name callee : Text} (call : graph.Calls name callee) :
    layers.step name callee + layers.depth callee ≤ layers.depth name := by
  obtain ⟨rest, chain, most⟩ := (measures.isDepth callee).exists_walk
  rw [measures.step_of_call call, ← most]
  exact (measures.isDepth name).descents_le (chain.cons_cons call)

/-- A definition is no deeper than its name. -/
theorem Measures.callsDepth_le {name : Text} {entry : Entry} (owner : entry ∈ graph.owners name) :
    layers.callsDepth name entry.calls ≤ layers.depth name := by
  unfold callsDepth
  rcases foldl_max_cases (fun callee => layers.step name callee + layers.depth callee)
    entry.calls 0 with none | ⟨callee, called, best⟩
  · rw [none]
    exact Nat.zero_le _
  · rw [best]
    exact measures.step_add_depth_le (CallGraph.calls_of_owner owner called)

/-- Some definition is as deep as its name: the one that makes the first call of a deepest walk. -/
theorem Measures.exists_owner {name : Text} (defined : graph.isDefined name = true) :
    ∃ entry ∈ graph.owners name, layers.callsDepth name entry.calls = layers.depth name := by
  obtain ⟨rest, chain, most⟩ := (measures.isDepth name).exists_walk
  cases rest with
  | nil =>
    obtain ⟨entry, owner⟩ := List.exists_mem_of_ne_nil _ (CallGraph.owners_ne_nil defined)
    have flat : layers.depth name = 0 := most.symm
    have below := measures.callsDepth_le owner
    exact ⟨entry, owner, by omega⟩
  | cons next rest =>
    obtain ⟨entry, owner, called⟩ := List.mem_flatMap.mp chain.rel
    refine ⟨entry, owner, Nat.le_antisymm (measures.callsDepth_le owner) ?_⟩
    calc layers.depth name = graph.stepDown name next + graph.descents (next :: rest) := most.symm
      _ = layers.step name next + graph.descents (next :: rest) := by
        rw [measures.step_of_call chain.rel]
      _ ≤ layers.step name next + layers.depth next :=
        Nat.add_le_add_left ((measures.isDepth next).descents_le chain.tail) _
      _ ≤ layers.callsDepth name entry.calls :=
        (le_foldl_max (fun callee => layers.step name callee + layers.depth callee)
          entry.calls 0).2 next called

theorem Measures.depth_isGreatest_owners {name : Text} (defined : graph.isDefined name = true) :
    IsGreatest {depth | ∃ entry ∈ graph.owners name, layers.callsDepth name entry.calls = depth}
      (layers.depth name) := by
  refine ⟨measures.exists_owner defined, ?_⟩
  rintro _ ⟨entry, owner, rfl⟩
  exact measures.callsDepth_le owner

/-! ## Violations -/

theorem Measures.violations_eq {other : Layers} (others : other.Measures graph) (limit : Int) :
    layers.violations graph limit = other.violations graph limit := by
  have same (policy : Policy) (entry : Entry) :
      layers.entryDepth policy entry = other.entryDepth policy entry := by
    cases policy with
    | first => exact measures.depth_eq others entry.name
    | all => exact measures.callsDepth_eq others entry.name entry.calls
  simp only [violations, same]

/-- Some definition of a name exceeds a limit exactly if the name does. -/
theorem Measures.exists_violation_iff (limit : Int) (name : Text) :
    (∃ violation ∈ layers.violations graph limit, violation.name = name) ↔
      graph.isDefined name = true ∧ limit < layers.depth name + 1 := by
  have listed : (∃ violation ∈ layers.violations graph limit, violation.name = name) ↔
      ∃ entry ∈ graph.entries, entry.name = name ∧
        limit < layers.entryDepth graph.policy entry + 1 := by
    simp only [violations, List.mem_filter, List.mem_map, decide_eq_true_eq]
    constructor
    · rintro ⟨_, ⟨⟨entry, member, rfl⟩, exceeds⟩, named⟩
      exact ⟨entry, member, named, exceeds⟩
    · rintro ⟨entry, member, named, exceeds⟩
      exact ⟨_, ⟨⟨entry, member, rfl⟩, exceeds⟩, named⟩
  have isDefined_iff : graph.isDefined name = true ↔
      ∃ entry ∈ graph.entries, entry.name = name := by
    simp [CallGraph.isDefined]
  rw [listed]
  cases policy : graph.policy with
  | first =>
    rw [isDefined_iff]
    constructor
    · rintro ⟨entry, member, rfl, exceeds⟩
      exact ⟨⟨entry, member, rfl⟩, exceeds⟩
    · rintro ⟨⟨entry, member, rfl⟩, exceeds⟩
      exact ⟨entry, member, rfl, exceeds⟩
  | all =>
    have owner (entry : Entry) : entry ∈ graph.owners name ↔
        entry ∈ graph.entries ∧ entry.name = name := by
      simp [CallGraph.owners, policy]
    constructor
    · rintro ⟨entry, member, rfl, exceeds⟩
      have below := measures.callsDepth_le ((owner entry).mpr ⟨member, rfl⟩)
      have deep : limit < layers.callsDepth entry.name entry.calls + 1 := exceeds
      exact ⟨isDefined_iff.mpr ⟨entry, member, rfl⟩, by omega⟩
    · rintro ⟨defined, exceeds⟩
      obtain ⟨entry, owns, deepest⟩ := measures.exists_owner defined
      obtain ⟨member, rfl⟩ := (owner entry).mp owns
      refine ⟨entry, member, rfl, ?_⟩
      rw [← deepest] at exceeds
      exact exceeds

end Layers

namespace Diagram

theorem statusOf_violation_iff (graph : CallGraph) (cycles : List (List Text)) (tooDeep : List Text)
    (name : Text) :
    statusOf graph cycles tooDeep name = .violation ↔
      graph.isDefined name = true ∧ (∀ cycle ∈ cycles, name ∉ cycle) ∧ name ∈ tooDeep := by
  have off : onCycle cycles name = false ↔ ∀ cycle ∈ cycles, name ∉ cycle := by
    simp [onCycle]
  rw [← off]
  by_cases defined : graph.isDefined name = true
  · by_cases on : onCycle cycles name = true
    · simp [statusOf, defined, on]
    · by_cases deep : name ∈ tooDeep
      · simp [statusOf, defined, on, deep]
      · simp [statusOf, defined, on, deep]
  · simp [statusOf, defined]

theorem build_eq {graph : CallGraph} {layers other : Layers} (measures : layers.Measures graph)
    (others : other.Measures graph) (cycles : List (List Text)) (tooDeep : List Text) (limit : Int) :
    build graph layers cycles tooDeep limit = build graph other cycles tooDeep limit := by
  simp only [build, measures.depth_eq others]

/-- Where the definitions that exceed the limit are marked, a name is shown as nested too deep
    exactly if it is defined, on no cycle, and itself exceeds the limit. -/
theorem violation_iff_depth {graph : CallGraph} {layers : Layers} (measures : layers.Measures graph)
    (cycles : List (List Text)) (limit : Int) :
    ∀ node ∈ (build graph layers cycles ((layers.violations graph limit).map Violation.name)
        limit).nodes,
      (node.status = .violation ↔ graph.isDefined node.name = true ∧
        (∀ cycle ∈ cycles, node.name ∉ cycle) ∧ limit < node.depth + 1) := by
  intro node member
  obtain ⟨name, -, rfl⟩ := List.mem_map.mp member
  rw [statusOf_violation_iff, List.mem_map, measures.exists_violation_iff]
  tauto

/-- Whatever condensation of a graph the pass is given, a defined name is as deep as the deepest of
    the definitions that own it. So in a diagram of the graph of a text, with its cycles and the
    definitions that exceed a limit as a session gives them, exactly the defined names off the cycles
    whose depth exceeds the limit are shown as nested too deep, and the inequality on their labels is
    true. Without a limit of its own the session goes by the one it is configured with. -/
theorem depth_of_owners_and_violations :
    (∀ (graph : CallGraph) (condensed : Condensation),
      condensed.Condenses graph → condensed.IsTopological →
      ∃ layers, Layers.ofCondensation? condensed = some layers ∧
        (∀ name, graph.depth name = layers.depth name) ∧
        (∀ owner calls, graph.callsDepth owner calls = layers.callsDepth owner calls) ∧
        ∀ name, graph.isDefined name = true →
          IsGreatest
            {depth | ∃ entry ∈ graph.owners name, layers.callsDepth name entry.calls = depth}
            (layers.depth name)) ∧
    ∀ (config : Config) (asked : List (FileTree × Session.Query)) (text : Text)
      (limit? : Option Int),
      let session := Session.after config asked
      let limit := limit?.getD config.limit
      let graph := ((Session.graph text).run session).1
      let cycles := ((Session.cycles text).run session).1
      let violations := ((Session.violations text limit?).run session).1
      let diagram := ofGraph graph cycles violations limit
      (∀ condensed : Condensation, condensed.Condenses graph → condensed.IsTopological →
        ∃ layers, Layers.ofCondensation? condensed = some layers ∧
          violations = layers.violations graph limit ∧
          diagram = build graph layers cycles (violations.map Violation.name) limit) ∧
      ∀ node ∈ diagram.nodes,
        (node.status = .violation ↔ graph.isDefined node.name = true ∧
          (∀ cycle ∈ cycles, node.name ∉ cycle) ∧ limit < node.depth + 1) ∧
        (node.status = .violation → ∃ layers : Nat, limit < layers ∧
          Dot.remark diagram.limit node = "\\n[DEPTH ".toList ++ Text.ofNat layers ++
            " > ".toList ++ Text.ofInt limit ++ [']']) := by
  constructor
  · intro graph condensed condenses sorted
    obtain ⟨layers, pass, measures⟩ := Layers.exists_measures condenses sorted
    have own : (Layers.ofGraph graph).Measures graph := Layers.measures_ofGraph graph
    exact ⟨layers, pass, own.depth_eq measures, own.callsDepth_eq measures,
      fun name => measures.depth_isGreatest_owners⟩
  intro config asked text limit? session limit graph cycles violations diagram
  have faithful := Session.faithful_after config asked
  have made : graph = .ofText config.policy text := (Session.gives_graph config text _ faithful).1
  have own : (Layers.ofGraph graph).Measures graph := Layers.measures_ofGraph graph
  have exceeding : violations = (Layers.ofGraph graph).violations graph limit := by
    rw [made]
    exact (Session.gives_violations config text limit? _ faithful).1
  refine ⟨fun condensed condenses sorted => ?_, fun node member => ?_⟩
  · obtain ⟨layers, pass, measures⟩ := Layers.exists_measures condenses sorted
    refine ⟨layers, pass, ?_, build_eq own measures _ _ _⟩
    rw [exceeding, own.violations_eq measures]
  have shown : node.status = .violation ↔ graph.isDefined node.name = true ∧
      (∀ cycle ∈ cycles, node.name ∉ cycle) ∧ limit < node.depth + 1 := by
    apply violation_iff_depth own cycles limit
    rw [← exceeding]
    exact member
  refine ⟨shown, fun violates => ⟨node.depth + 1, ?_, ?_⟩⟩
  · exact_mod_cast (shown.mp violates).2.2
  · rw [Dot.remark, violates]
    rfl

/-- Two definitions of one name, of which only the second goes two layers down. -/
def stacked : Text := "mapkey a %b;\nmapkey a %c;\nmapkey c %d;".toList

/-- The name is as deep as its second definition, and one layer too deep for two. -/
theorem stacked_violation :
    let session := Session.after ⟨5, .all⟩ []
    let graph := ((Session.graph stacked).run session).1
    let cycles := ((Session.cycles stacked).run session).1
    let violations := ((Session.violations stacked (some 2)).run session).1
    let parts : Condensation :=
      ⟨[(['b'], 0), (['d'], 1), (['c'], 2), (['a'], 3)], [(3, 0), (3, 2), (2, 1)], [3, 0, 2, 1]⟩
    (∃ layers, Layers.ofCondensation? parts = some layers ∧
      (∃ entry ∈ graph.owners ['a'], layers.callsDepth ['a'] entry.calls = layers.depth ['a']) ∧
      violations = layers.violations graph 2) ∧
    ⟨['a'], .violation, 2⟩ ∈ (ofGraph graph cycles violations 2).nodes ∧
    graph.isDefined ['a'] = true ∧ (∀ cycle ∈ cycles, ['a'] ∉ cycle) ∧
      (2 : Int) < (2 : Nat) + 1 := by
  intro session graph cycles violations parts
  have condenses : parts.Condenses graph :=
    ⟨by decide +kernel, by decide +kernel, by decide +kernel, by decide +kernel⟩
  have sorted : parts.IsTopological := ⟨by decide, by decide⟩
  have defined : graph.isDefined ['a'] = true := by decide +kernel
  have node : ⟨['a'], .violation, 2⟩ ∈ (ofGraph graph cycles violations 2).nodes := by
    decide +kernel
  obtain ⟨owned, shown⟩ := depth_of_owners_and_violations
  obtain ⟨layers, pass, -, -, deepest⟩ := owned graph parts condenses sorted
  obtain ⟨again, pass', exceeding, -⟩ :=
    (shown ⟨5, .all⟩ [] stacked (some 2)).1 parts condenses sorted
  obtain rfl : layers = again := Option.some.inj (pass.symm.trans pass')
  exact ⟨⟨layers, pass, (deepest ['a'] defined).1, exceeding⟩, node,
    ((shown ⟨5, .all⟩ [] stacked (some 2)).2 _ node).1.mp rfl⟩

end Diagram
end Mapkeys
