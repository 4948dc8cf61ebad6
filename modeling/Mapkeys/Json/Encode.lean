import Mapkeys.CallGraph.Nesting
import Mapkeys.Fold
import Mapkeys.Json

/-!
# Reports as JSON

The fields by which lines, tokens, records, definitions, graphs and findings are reported.
-/

namespace Mapkeys

open Json

/-- The fields of a line. -/
def Line.toJson (line : Line) : Json :=
  fields [("index", nat line.index), ("start", nat line.start), ("end", nat line.stop),
    ("text", .text line.text)]

/-- The fields of a token. -/
def Token.toJson (token : Token) : Json :=
  fields [("kind", string token.kind.title), ("value", .text token.value),
    ("start", nat token.start), ("end", nat token.stop),
    ("block_id", optional .text token.record)]

/-- The fields of a span. -/
def Span.toJson (span : Span) : Json :=
  fields [("start", .int span.start), ("end", .int span.stop)]

/-- The fields of a record. -/
def Record.toJson (record : Record) : Json :=
  fields [("id", .text record.id), ("name", .text record.name),
    ("start", nat record.start), ("end", nat record.stop),
    ("first_line", nat record.declaration.index), ("last_line", nat record.lastLine.index),
    ("terminated", .bool record.terminated),
    ("tokens", .list (record.tokens.map Token.toJson))]

/-- The fields of a definition. -/
def Definition.toJson (definition : Definition) : Json :=
  fields [("name", .text definition.name),
    ("description", optional .text definition.description?),
    ("label", optional .text definition.label?),
    ("system_instruction", optional .text definition.system?),
    ("range", definition.span.toJson),
    ("first_line", nat definition.record.declaration.index),
    ("last_line", nat definition.record.lastLine.index),
    ("terminated", .bool definition.record.terminated),
    ("called_names", texts definition.calledNames)]

/-- The fields of an entry of a graph. -/
def Entry.toJson (entry : Entry) : Json :=
  fields [("name", .text entry.name), ("calls", texts entry.calls)]

/-- The fields of a graph. -/
def CallGraph.toJson (graph : CallGraph) : Json :=
  fields [("duplicate_policy", string graph.policy.label),
    ("entries", .list (graph.entries.map Entry.toJson)),
    ("vertices", texts graph.vertices),
    ("edges", .list (graph.edges.map fun (caller, callee) =>
      fields [("src", .text caller), ("dest", .text callee)])),
    ("dangling", texts graph.dangling)]

/-- The fields of a violation. -/
def Violation.toJson (violation : Violation) : Json :=
  fields [("name", .text violation.name), ("depth", nat violation.depth)]

/-- The fields of a fold. -/
def Fold.toJson (fold : Fold) : Json :=
  fields [("start_line", nat fold.startLine), ("end_line", nat fold.endLine),
    ("kind", string fold.kind.label)]

end Mapkeys
