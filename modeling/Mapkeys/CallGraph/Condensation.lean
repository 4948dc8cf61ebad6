import Mapkeys.CallGraph.Reach
import Mapkeys.Sorting

/-!
# Condensation

Names that lead to each other form a component of a call graph. Between components calls only lead
onwards: they can be put in an order in which none leads to an earlier one.
-/

namespace Mapkeys

/-- The components of a call graph, by number: the one of each name, the pairs of different ones
    that a call leads from and to, and all of them in an order in which no pair leads backwards. -/
structure Condensation where
  components : List (Text × Nat)
  links : List (Nat × Nat)
  order : List Nat
  deriving Repr, DecidableEq

namespace Condensation

/-- The component of a name; none for a name that the graph does not have. -/
def component? (condensed : Condensation) (name : Text) : Option Nat :=
  condensed.components.lookup name

/-- The components that the links of a component lead to. -/
def successors (condensed : Condensation) (component : Nat) : List Nat :=
  (condensed.links.filter (·.1 = component)).map Prod.snd

/-! ## The components of a graph -/

/-- The defined names of a graph, each with its calls. -/
def callTable (graph : CallGraph) : List (Text × List Text) :=
  graph.names.map fun name => (name, graph.calls name)

/-- The names of a graph, each with the names that chains of calls lead to. The chain of no calls
    leads to the name itself. -/
def reachTable (graph : CallGraph) : List (Text × List Text) :=
  let table := callTable graph
  let fuel := 1 + graph.callCount
  graph.vertices.map fun name =>
    (name, CallGraph.follow (fun caller => (table.lookup caller).getD []) fuel [name] [])

/-- Whether two names of the table lead to each other. -/
def areMutual (a b : Text × List Text) : Bool := a.2.contains b.1 && b.2.contains a.1

/-- The number of the component of a name: the place of its first name in the table. -/
def number (rows : List (Text × List Text)) (row : Text × List Text) : Nat :=
  rows.findIdx (areMutual row)

/-- The link from the component of the caller to that of the callee, if they differ. -/
def link? (components : List (Text × Nat)) (call : Text × Text) : Option (Nat × Nat) := do
  let calling ← components.lookup call.1
  let called ← components.lookup call.2
  if calling = called then none else some (calling, called)

/-- The components of a graph by a table of its names and by its edges. -/
def ofTable (rows : List (Text × List Text)) (edges : List (Text × Text)) : Condensation :=
  let components := rows.map fun row => (row.1, number rows row)
  { components
    links := edges.filterMap (link? components)
    order := (List.range rows.length).filter fun number => components.any (·.2 = number) }

/-- The components of a graph. The names that lead to the most names come first, so that links lead
    from lower to higher numbers. -/
def ofGraph (graph : CallGraph) : Condensation :=
  ofTable (sortBy (fun a b => b.2.length ≤ a.2.length) (reachTable graph)) graph.edges

end Condensation
end Mapkeys
