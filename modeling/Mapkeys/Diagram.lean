import Mapkeys.CallGraph.Nesting
import Mapkeys.Json

/-!
# Diagrams

A call graph prepared for drawing: every name with its status and depth, every pair of caller and
callee with the number of calls.
-/

namespace Mapkeys

/-- What a drawing shows about a name. -/
inductive Status where
  | defined
  | dangling
  | cyclic
  | violation
  deriving Repr, DecidableEq

/-- What a drawing shows about the calls between two names. -/
inductive EdgeKind where
  | call
  | dangling
  | cyclic
  deriving Repr, DecidableEq

namespace Status

/-- The name of a status. -/
def label : Status → String
  | defined => "defined"
  | dangling => "dangling"
  | cyclic => "cyclic"
  | violation => "violation"

/-- The fill colour: green, grey, red and orange. -/
def color : Status → String
  | defined => "#27AE60"
  | dangling => "#95A5A6"
  | cyclic => "#E74C3C"
  | violation => "#E67E22"

end Status

namespace EdgeKind

/-- The name of a kind of edges. -/
def label : EdgeKind → String
  | call => "call"
  | dangling => "dangling"
  | cyclic => "cyclic"

/-- The line colour. -/
def color : EdgeKind → String
  | call => "#444444"
  | dangling => "#95A5A6"
  | cyclic => "#E74C3C"

end EdgeKind

/-- A name in a diagram. -/
structure Node where
  name : Text
  status : Status
  depth : Nat
  deriving Repr, DecidableEq

/-- The calls between two names in a diagram. -/
structure Edge where
  caller : Text
  callee : Text
  count : Nat
  kind : EdgeKind
  deriving Repr, DecidableEq

/-- A call graph prepared for drawing. -/
structure Diagram where
  nodes : List Node
  edges : List Edge
  cycles : List (List Text)
  limit : Int
  deriving Repr, DecidableEq

namespace Diagram

/-- Whether a name stands on one of the cycles. -/
def onCycle (cycles : List (List Text)) (name : Text) : Bool := cycles.any (·.contains name)

/-- Whether one of the cycles goes straight from a name to another. -/
def alongCycle (cycles : List (List Text)) (caller callee : Text) : Bool :=
  cycles.any fun cycle => (cycle.zip cycle.tail).contains (caller, callee)

/-- The status of a name. A name that is both on a cycle and nested too deep counts as cyclic. -/
def statusOf (graph : CallGraph) (cycles : List (List Text)) (tooDeep : List Text)
    (name : Text) : Status :=
  if !graph.isDefined name then .dangling
  else if onCycle cycles name then .cyclic
  else if tooDeep.contains name then .violation
  else .defined

/-- The kind of the calls between two names. -/
def edgeKind (graph : CallGraph) (cycles : List (List Text)) (caller callee : Text) : EdgeKind :=
  if alongCycle cycles caller callee then .cyclic
  else if !graph.isDefined callee then .dangling
  else .call

/-- The edges from a name. -/
def edgesFrom (graph : CallGraph) (cycles : List (List Text)) (caller : Text) : List Edge :=
  let calls := graph.calls caller
  (distinct calls).map fun callee =>
    ⟨caller, callee, calls.count callee, edgeKind graph cycles caller callee⟩

/-- The diagram of a graph with the cycles and the names nested too deep that it is to show. -/
def build (graph : CallGraph) (layers : Layers) (cycles : List (List Text)) (tooDeep : List Text)
    (limit : Int) : Diagram :=
  { nodes := graph.vertices.map fun name =>
      ⟨name, statusOf graph cycles tooDeep name, layers.depth name⟩
    edges := graph.names.flatMap (edgesFrom graph cycles)
    cycles
    limit }

/-- The diagram of a graph. -/
def ofGraph (graph : CallGraph) (cycles : List (List Text)) (violations : List Violation)
    (limit : Int) : Diagram :=
  build graph (Layers.ofGraph graph) cycles (violations.map Violation.name) limit

/-- How many names have a status. -/
def count (diagram : Diagram) (status : Status) : Nat :=
  (diagram.nodes.filter (·.status = status)).length

/-! ## JSON -/

open Json in
/-- The fields of a name. -/
def nodeJson (node : Node) : Json :=
  fields [("id", .text node.name), ("status", string node.status.label),
    ("depth", nat node.depth), ("color", string node.status.color)]

open Json in
/-- The fields of an edge. -/
def edgeJson (edge : Edge) : Json :=
  fields [("from", .text edge.caller), ("to", .text edge.callee), ("count", nat edge.count),
    ("kind", string edge.kind.label), ("color", string edge.kind.color)]

open Json in
/-- The fields of a diagram. -/
def toJson (diagram : Diagram) : Json :=
  fields [("limit", .int diagram.limit),
    ("nodes", .list (diagram.nodes.map nodeJson)),
    ("edges", .list (diagram.edges.map edgeJson)),
    ("cycles", .list (diagram.cycles.map texts))]

/-- The title of a diagram that is given none. -/
def defaultTitle : Text := "Mapkey call graph".toList

end Diagram
end Mapkeys
