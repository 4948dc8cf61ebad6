import Mapkeys.CallGraph.Nesting
import Mapkeys.Document

/-!
# Notices

What an analysis notes about its work. A notice has a level and names the part of the program it
comes from.
-/

namespace Mapkeys

open Text

/-- How much a notice matters. -/
inductive Level where
  | debug
  | info
  | warning
  deriving Repr, DecidableEq

namespace Level

/-- The name of a level. -/
def label : Level → String
  | debug => "DEBUG"
  | info => "INFO"
  | warning => "WARNING"

/-- The place of a level among the levels. -/
def rank : Level → Nat
  | debug => 0
  | info => 1
  | warning => 2

end Level

/-- What an analysis notes. -/
inductive Notice where
  | unclosedRecord (name : Text) (lineNumber : Nat)
  | segmented (records lines : Nat)
  | emptyTag (tag : Tag) (record : Text)
  | repeatedContent (name : Text) (count : Nat) (kind : TokenKind)
  | extracted (records unterminated tokens : Nat)
  | undefinedCalls (names : List Text)
  | circularCalls (count : Nat)
  | deepNesting (name : Text) (layers : Nat) (limit : Int)
  deriving Repr, DecidableEq

namespace Notice

/-- How much a notice matters. -/
def level : Notice → Level
  | unclosedRecord _ _ => .debug
  | segmented _ _ => .debug
  | emptyTag _ _ => .debug
  | repeatedContent _ _ _ => .debug
  | extracted _ _ _ => .info
  | undefinedCalls _ => .info
  | circularCalls _ => .warning
  | deepNesting _ _ _ => .warning

/-- The part of the program that a notice comes from. -/
def channel : Notice → String
  | unclosedRecord _ _ => "mapkey_parser.passes.block_segment"
  | segmented _ _ => "mapkey_parser.passes.block_segment"
  | emptyTag _ _ => "mapkey_parser.parser.content_tokenizer"
  | repeatedContent _ _ _ => "mapkey_parser.builder.definition_builder"
  | extracted _ _ _ => "mapkey_parser.pipeline.extract_blocks"
  | undefinedCalls _ => "mapkey_parser.pipeline.mapkey_analysis"
  | circularCalls _ => "mapkey_parser.pipeline.graph_analysis"
  | deepNesting _ _ _ => "mapkey_parser.pipeline.graph_analysis"

/-- What a notice says. -/
def message : Notice → Text
  | unclosedRecord name lineNumber =>
    "Mapkey ".toList ++ quoted name ++ " (line ".toList ++ ofNat lineNumber
      ++ ") closed without an un-escaped final line".toList
  | segmented records lines =>
    "Segmented ".toList ++ ofNat records ++ " mapkey block(s) from ".toList ++ ofNat lines
      ++ " line(s)".toList
  | emptyTag tag record => "Empty ".toList ++ tag.marker ++ " in ".toList ++ record
  | repeatedContent name count kind =>
    name ++ " has ".toList ++ ofNat count ++ [' '] ++ kind.title.toList
      ++ " tokens; using the first".toList
  | extracted records unterminated tokens =>
    "Extracted ".toList ++ ofNat records ++ " mapkey block(s) (".toList ++ ofNat unterminated
      ++ " unterminated), ".toList ++ ofNat tokens ++ " token(s)".toList
  | undefinedCalls names => "Calls to undefined mapkeys: ".toList ++ join [',', ' '] names
  | circularCalls count => ofNat count ++ " circular mapkey call chain(s) found".toList
  | deepNesting name layers limit =>
    "Mapkey ".toList ++ name ++ " nests ".toList ++ ofNat layers
      ++ " level(s) deep (limit ".toList ++ ofInt limit ++ [')']

/-- The line of a notice. -/
def line (notice : Notice) : Text :=
  notice.level.label.toList ++ [' '] ++ notice.channel.toList ++ [':', ' '] ++ notice.message
    ++ ['\n']

/-- The lines of the notices that matter at least as much as a level. -/
def lines (least : Level) (notices : List Notice) : Text :=
  (notices.filter fun notice => least.rank ≤ notice.level.rank).flatMap line

end Notice

/-! ## What is noted when -/

namespace Record

/-- What is noted when a record is closed. -/
def closingNotices (record : Record) : List Notice :=
  if record.terminated then []
  else [.unclosedRecord record.name (record.declaration.index + 1)]

/-- What is noted about the tags of a record. -/
def tagNotices (record : Record) : List Notice :=
  (record.tagReadings.filter (·.content.isNone)).map fun reading =>
    .emptyTag reading.tag record.id

/-- What is noted about content that a record gives more than once. -/
def contentNotices (record : Record) : List Notice :=
  [TokenKind.description, TokenKind.label].flatMap fun kind =>
    let count := (record.tokens.filter (·.kind = kind)).length
    if 1 < count then [.repeatedContent record.name count kind] else []

end Record

/-- What is noted when a document is read. -/
def Document.notices (document : Document) : List Notice :=
  document.records.flatMap Record.closingNotices
    ++ [.segmented document.records.length document.lines.length]
    ++ document.records.flatMap Record.tagNotices
    ++ document.records.flatMap Record.contentNotices
    ++ [.extracted document.records.length
      (document.records.filter (!·.terminated)).length document.tokens.length]

namespace CallGraph

/-- What is noted when a graph is made. -/
def notices (graph : CallGraph) : List Notice :=
  if graph.dangling = [] then [] else [.undefinedCalls graph.dangling]

/-- What is noted about the cycles of a graph. -/
def cycleNotices (cycles : List (List Text)) : List Notice :=
  if cycles = [] then [] else [.circularCalls cycles.length]

/-- What is noted about the violations of a limit. -/
def nestingNotices (limit : Int) (violations : List Violation) : List Notice :=
  violations.map fun violation => .deepNesting violation.name (violation.depth + 1) limit

end CallGraph
end Mapkeys
