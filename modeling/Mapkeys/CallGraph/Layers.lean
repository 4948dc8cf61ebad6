import Mapkeys.CallGraph.Condensation

/-!
# Layers

How deep calls are nested below a name. A component is one layer: only a call to another component
goes a layer down.
-/

namespace Mapkeys

/-- The names of a graph, each with its component, and each with its depth. -/
structure Layers where
  components : List (Text × Nat)
  depths : List (Text × Nat)
  deriving Repr, DecidableEq

namespace Layers

/-- The layers below a name; none for a name that the graph does not have. -/
def depth (layers : Layers) (name : Text) : Nat := (layers.depths.lookup name).getD 0

/-- How many layers a call goes down. Names that the graph does not have count as one component. -/
def step (layers : Layers) (caller callee : Text) : Nat :=
  if layers.components.lookup callee = layers.components.lookup caller then 0 else 1

/-- The layers below a definition of `owner` that makes the given calls. -/
def callsDepth (layers : Layers) (owner : Text) (calls : List Text) : Nat :=
  calls.foldl (fun best callee => max best (layers.step owner callee + layers.depth callee)) 0

/-! ## Depths -/

/-- Puts in the depth of one more component: a layer more than the deepest of its successors, all of
    which have to be there. -/
def settle? (condensed : Condensation) (depths : List (Nat × Nat)) (component : Nat) :
    Option (List (Nat × Nat)) := do
  let below ← (condensed.successors component).mapM fun successor => depths.lookup successor
  return (component, (below.map (1 + ·)).max?.getD 0) :: depths

/-- The depths of the components, those at the end of the order first. -/
def componentDepths? (condensed : Condensation) : Option (List (Nat × Nat)) :=
  condensed.order.reverse.foldlM (settle? condensed) []

/-- The layers by components: a name is as deep as its component. -/
def ofCondensation? (condensed : Condensation) : Option Layers := do
  let componentDepths ← componentDepths? condensed
  let depths ← condensed.components.mapM fun row => do
    return (row.1, ← componentDepths.lookup row.2)
  return ⟨condensed.components, depths⟩

/-- The layers of a graph. -/
def ofGraph (graph : CallGraph) : Layers :=
  (ofCondensation? (Condensation.ofGraph graph)).getD ⟨[], []⟩

end Layers

namespace CallGraph

/-- The layers below a name. -/
def depth (graph : CallGraph) (name : Text) : Nat := (Layers.ofGraph graph).depth name

/-- The layers below a definition of `owner` that makes the given calls. -/
def callsDepth (graph : CallGraph) (owner : Text) (calls : List Text) : Nat :=
  (Layers.ofGraph graph).callsDepth owner calls

end CallGraph
end Mapkeys
