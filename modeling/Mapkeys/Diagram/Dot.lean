import Mapkeys.Diagram

/-!
# Diagrams in DOT

A diagram as a directed graph for Graphviz. Names stand in double quotes, where a backslash is
written before each quote and each backslash.
-/

namespace Mapkeys.Diagram.Dot

open Text

/-- A character as it stands between quotes. -/
def escapeChar (c : Char) : Text := if c = '\\' ∨ c = '"' then ['\\', c] else [c]

/-- A text as it stands between quotes. -/
def escape (t : Text) : Text := t.flatMap escapeChar

/-- A text in quotes. -/
def quote (t : Text) : Text := '"' :: t ++ ['"']

/-- The shape of a node. -/
def shapeOf : Status → String
  | .cyclic => "octagon"
  | _ => "box"

/-- The style of a node. -/
def styleOf : Status → String
  | .dangling => "filled,dashed"
  | _ => "filled"

/-- What the label of a node says beside the name. -/
def remark (limit : Int) (node : Node) : Text :=
  match node.status with
  | .dangling => "\\n[UNDEFINED]".toList
  | .violation =>
    "\\n[DEPTH ".toList ++ ofNat (node.depth + 1) ++ " > ".toList ++ ofInt limit ++ [']']
  | _ => []

/-- The line of a node. -/
def nodeLine (limit : Int) (node : Node) : Text :=
  "    ".toList ++ quote (escape node.name)
    ++ " [label=".toList ++ quote (escape node.name ++ remark limit node)
    ++ ", shape=".toList ++ (shapeOf node.status).toList
    ++ ", style=".toList ++ quote (styleOf node.status).toList
    ++ ", fillcolor=".toList ++ quote node.status.color.toList
    ++ ", fontcolor=\"white\"];".toList

/-- The attributes of an edge. -/
def edgeAttributes (edge : Edge) : List Text :=
  ["color=".toList ++ quote edge.kind.color.toList]
    ++ (if 1 < edge.count then ["label=".toList ++ quote ('x' :: ofNat edge.count)] else [])
    ++ (if edge.kind = .dangling then ["style=dashed".toList] else [])

/-- The line of an edge. -/
def edgeLine (edge : Edge) : Text :=
  "    ".toList ++ quote (escape edge.caller) ++ " -> ".toList ++ quote (escape edge.callee)
    ++ " [".toList ++ join [',', ' '] (edgeAttributes edge) ++ "];".toList

/-- The lines before those of the nodes. -/
def header (title : Text) : List Text :=
  ["digraph \"mapkeys\" \x7b".toList,
    "    label=".toList ++ quote (escape title) ++ [';'],
    "    labelloc=t;".toList,
    "    rankdir=LR;".toList,
    "    node [fontname=\"Courier New\", fontsize=11, margin=\"0.2,0.1\"];".toList,
    "    edge [fontname=\"Courier New\", fontsize=9];".toList,
    []]

/-- The lines of a diagram. -/
def lines (title : Text) (diagram : Diagram) : List Text :=
  header title ++ diagram.nodes.map (nodeLine diagram.limit) ++ [[]]
    ++ diagram.edges.map edgeLine ++ [['\x7d']]

/-- A diagram in DOT. -/
def render (title : Text) (diagram : Diagram) : Text := joinLines (lines title diagram) ++ ['\n']

end Mapkeys.Diagram.Dot
