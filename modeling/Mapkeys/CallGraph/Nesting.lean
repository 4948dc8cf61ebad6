import Mapkeys.CallGraph.Layers

/-!
# Nesting limits

The definitions whose calls are nested deeper than a limit. A definition is itself the first
layer, so it exceeds the limit if there are at least as many layers below it.
-/

namespace Mapkeys

open Text

/-- A definition that is nested too deep, with the layers below it. -/
structure Violation where
  name : Text
  depth : Nat
  deriving Repr, DecidableEq

/-- A violation in one line. -/
def Violation.summary (violation : Violation) : Text :=
  padRight 20 violation.name ++ " depth ".toList ++ ofNat violation.depth

namespace Layers

/-- The layers below the definition of an entry. Where all definitions of a name count, each one is
    measured by its own calls. -/
def entryDepth (layers : Layers) (policy : Policy) (entry : Entry) : Nat :=
  match policy with
  | .first => layers.depth entry.name
  | .all => layers.callsDepth entry.name entry.calls

/-- The definitions of a graph that exceed a limit. -/
def violations (layers : Layers) (graph : CallGraph) (limit : Int) : List Violation :=
  (graph.entries.map fun entry => ⟨entry.name, layers.entryDepth graph.policy entry⟩).filter
    fun violation : Violation => limit < violation.depth + 1

end Layers

/-- The definitions of a graph that exceed a limit. -/
def CallGraph.violations (graph : CallGraph) (limit : Int) : List Violation :=
  (Layers.ofGraph graph).violations graph limit

end Mapkeys
