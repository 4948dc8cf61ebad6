import Mapkeys.Diagram
import Mapkeys.Text.Break

/-!
# Diagrams in Mermaid

A diagram as a flowchart. Names are no identifiers there, so each node is known by its place in the
diagram, followed by what its name has of letters and digits, and shows its name as a label.
-/

namespace Mapkeys.Diagram.Mermaid

open Text

/-- A character as it stands in a label. -/
def escapeChar (c : Char) : Text := if c = '"' then "#quot;".toList else [c]

/-- A text as it stands in a label, on one line and without quotes. -/
def escape (t : Text) : Text := (join [' '] (brokenLines t)).flatMap escapeChar

/-- The character itself if it can stand in an identifier, and otherwise an underscore. -/
def identifierChar (c : Char) : Char := if c.isAlphanum || c = '_' then c else '_'

/-- The identifier of the name at a place of the diagram. -/
def identifier (place : Nat) (name : Text) : Text :=
  'n' :: ofNat place ++ ['_'] ++ name.map identifierChar

/-- The names of nodes with their identifiers, when the first one has the given place. -/
def identifiers (place : Nat) : List Node → List (Text × Text)
  | [] => []
  | node :: rest => (node.name, identifier place node.name) :: identifiers (place + 1) rest

/-- The identifier of a name, if the diagram has the name: that of its last node. -/
def identifier? (diagram : Diagram) (name : Text) : Option Text :=
  (identifiers 0 diagram.nodes).reverse.lookup name

/-- The identifier of a name of the diagram. -/
def identifierOf (diagram : Diagram) (name : Text) : Text := (identifier? diagram name).getD []

/-- The line of a node. -/
def nodeLine (diagram : Diagram) (node : Node) : Text :=
  let remark := if node.status = .dangling then "<br/>UNDEFINED".toList else []
  "    ".toList ++ identifierOf diagram node.name ++ "[\"".toList ++ escape node.name ++ remark
    ++ "\"]:::".toList ++ node.status.label.toList

/-- The line of an edge. -/
def edgeLine (diagram : Diagram) (edge : Edge) : Text :=
  let arrow := if edge.kind = .dangling then "-.->" else "-->"
  let label := if 1 < edge.count then "|\"x".toList ++ ofNat edge.count ++ "\"|".toList else []
  "    ".toList ++ identifierOf diagram edge.caller ++ " ".toList ++ arrow.toList ++ label
    ++ " ".toList ++ identifierOf diagram edge.callee

/-- The lines before those of the nodes. -/
def header (title : Text) : List Text :=
  ["---".toList, "title: \"".toList ++ escape title ++ ['"'], "---".toList,
    "flowchart LR".toList]

/-- The lines that give each status its colours. -/
def classes : List Text :=
  ["    classDef defined   fill:#27AE60,color:#fff,stroke:#1e8449".toList,
    ("    classDef dangling  fill:#95A5A6,color:#fff,stroke:#707b7c,".toList
      ++ "stroke-dasharray:5 5".toList),
    "    classDef cyclic    fill:#E74C3C,color:#fff,stroke:#922b21".toList,
    "    classDef violation fill:#E67E22,color:#fff,stroke:#a04000".toList]

/-- The lines of a diagram. -/
def lines (title : Text) (diagram : Diagram) : List Text :=
  header title ++ diagram.nodes.map (nodeLine diagram) ++ [[]]
    ++ diagram.edges.map (edgeLine diagram) ++ [[]] ++ classes

/-- A diagram in Mermaid. -/
def render (title : Text) (diagram : Diagram) : Text := joinLines (lines title diagram) ++ ['\n']

end Mapkeys.Diagram.Mermaid
