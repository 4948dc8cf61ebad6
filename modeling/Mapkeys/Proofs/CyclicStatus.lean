import Mapkeys.Diagram
import Mapkeys.Proofs.SearchTree

/-!
# Names shown as cyclic

A diagram shows a defined name as cyclic if it stands on a reported cycle. These are the names on
circular chains of calls that the search explores; a name whose circular chains all take a call to
a name that is finished by then is shown as if it were on none.
-/

namespace Mapkeys

theorem Walk.Explored.calls {graph : CallGraph} {caller callee : Text}
    (explored : Walk.Explored graph caller callee) : graph.Calls caller callee := by
  obtain ⟨state, takes, _⟩ := explored
  obtain ⟨left, outer, done, cycles, _, met⟩ := takes.met
  exact met.sound.left _ List.mem_cons_self callee List.mem_cons_self

namespace Diagram

theorem onCycle_iff (cycles : List (List Text)) (name : Text) :
    onCycle cycles name = true ↔ ∃ cycle ∈ cycles, name ∈ cycle := by
  simp [onCycle, List.any_eq_true]

theorem statusOf_cyclic_iff (graph : CallGraph) (cycles : List (List Text)) (tooDeep : List Text)
    (name : Text) (defined : graph.isDefined name = true) :
    statusOf graph cycles tooDeep name = .cyclic ↔ ∃ cycle ∈ cycles, name ∈ cycle := by
  rw [← onCycle_iff]
  by_cases on : onCycle cycles name = true
  · simp [statusOf, defined, on]
  · by_cases deep : name ∈ tooDeep
    · simp [statusOf, defined, on, deep]
    · simp [statusOf, defined, on, deep]

theorem mem_nodes_ofGraph (graph : CallGraph) (cycles : List (List Text))
    (violations : List Violation) (limit : Int) (node : Node) :
    node ∈ (ofGraph graph cycles violations limit).nodes ↔
      node.name ∈ graph.vertices ∧
        node = ⟨node.name, statusOf graph cycles (violations.map Violation.name) node.name,
          (Layers.ofGraph graph).depth node.name⟩ := by
  simp only [ofGraph, build, List.mem_map]
  constructor
  · rintro ⟨name, vertex, rfl⟩
    exact ⟨vertex, rfl⟩
  · rintro ⟨vertex, same⟩
    exact ⟨node.name, vertex, same.symm⟩

/-- A defined name is shown as cyclic exactly if it is on a circular chain of explored calls. So
    the status tells whether the name reaches itself exactly if the name does not do so or is on
    such a chain. -/
theorem status_cyclic_iff_explored (graph : CallGraph) (violations : List Violation) (limit : Int)
    (name : Text) (defined : graph.isDefined name = true) :
    (∃ node ∈ (ofGraph graph graph.cycles violations limit).nodes, node.name = name) ∧
      ∀ node ∈ (ofGraph graph graph.cycles violations limit).nodes, node.name = name →
        (node.status = .cyclic ↔ Relation.TransGen (Walk.Explored graph) name name) ∧
        ((node.status = .cyclic ↔ name ∈ graph.transitiveCalls name) ↔
          (name ∈ graph.transitiveCalls name →
            Relation.TransGen (Walk.Explored graph) name name)) := by
  constructor
  · refine ⟨⟨name, statusOf graph graph.cycles (violations.map Violation.name) name,
      (Layers.ofGraph graph).depth name⟩, ?_, rfl⟩
    rw [mem_nodes_ofGraph]
    exact ⟨CallGraph.mem_vertices_of_defined graph name defined, rfl⟩
  · rintro node member rfl
    obtain ⟨_, same⟩ := (mem_nodes_ofGraph _ _ _ _ _).mp member
    have shown : node.status = .cyclic ↔
        Relation.TransGen (Walk.Explored graph) node.name node.name := by
      rw [same, Walk.circular_explored_iff]
      exact statusOf_cyclic_iff graph _ _ _ defined
    have sound (circle : Relation.TransGen (Walk.Explored graph) node.name node.name) :
        node.name ∈ graph.transitiveCalls node.name := by
      rw [CallGraph.mem_transitiveCalls_iff]
      exact Relation.TransGen.mono (fun _ _ explored => explored.calls) _ _ circle
    refine ⟨shown, ?_⟩
    rw [shown]
    exact ⟨fun exact => exact.mpr, fun complete => ⟨sound, complete⟩⟩

theorem detour_status_cyclic :
    CallGraph.detour.isDefined ['a'] = true ∧
      ⟨['a'], .cyclic, 0⟩ ∈ (ofGraph CallGraph.detour CallGraph.detour.cycles [] 5).nodes ∧
      Relation.TransGen (Walk.Explored CallGraph.detour) ['a'] ['a'] := by
  have defined : CallGraph.detour.isDefined ['a'] = true := by decide
  have shown : ⟨['a'], .cyclic, 0⟩ ∈ (ofGraph CallGraph.detour CallGraph.detour.cycles [] 5).nodes := by
    decide
  have explored := (status_cyclic_iff_explored CallGraph.detour [] 5 ['a'] defined).2 _ shown rfl
  exact ⟨defined, shown, explored.1.mp rfl⟩

/-- The third name of the detour reaches itself but is not shown as cyclic: its one circular chain
    takes the call to a name that is finished by then. -/
theorem detour_status_not_cyclic :
    CallGraph.detour.isDefined ['c'] = true ∧
      ['c'] ∈ CallGraph.detour.transitiveCalls ['c'] ∧
      ⟨['c'], .defined, 0⟩ ∈ (ofGraph CallGraph.detour CallGraph.detour.cycles [] 5).nodes := by
  decide

end Diagram
end Mapkeys
