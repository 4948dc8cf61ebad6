import Mapkeys.CallGraph.Cycle
import Mapkeys.Json.Encode

/-!
# Reports

What a document defines and what is wrong with its nested calls, as JSON and as plain text.
-/

namespace Mapkeys

open Text

/-- What a document defines and what is wrong with its calls. -/
structure Report where
  file : Text
  limit : Int
  policy : Policy
  definitions : List Definition
  cycles : List (List Text)
  violations : List Violation
  dangling : List Text
  deriving Repr, DecidableEq

namespace Report

open Json in
/-- A report as JSON. -/
def toJson (report : Report) : Json :=
  fields [("file", .text report.file), ("limit", .int report.limit),
    ("duplicate_policy", string report.policy.label),
    ("definitions", .list (report.definitions.map Definition.toJson)),
    ("cycles", .list (report.cycles.map texts)),
    ("nesting_violations", .list (report.violations.map Violation.toJson)),
    ("dangling", texts report.dangling)]

/-! ## Plain text -/

/-- How wide a report is. -/
def width : Nat := 60

/-- A thin rule across the report. -/
def thinRule : Text := List.replicate width '─'

/-- A double rule across the report. -/
def doubleRule : Text := List.replicate width '═'

/-- A definition in a report. -/
def definitionText (definition : Definition) : Text :=
  let record := definition.record
  let calls := join [',', ' '] definition.calledNames
  joinLines
    [[], thinRule,
      "  Name  : ".toList ++ definition.name,
      "  Desc  : ".toList ++ definition.description?.getD [],
      "  Label : ".toList ++ definition.label?.getD [],
      "  Lines : ".toList ++ ofNat (record.declaration.index + 1) ++ ['-']
        ++ ofNat (record.lastLine.index + 1)
        ++ (if record.terminated then [] else "  (unterminated)".toList),
      "  Calls : ".toList ++ (if calls = [] then "(none)".toList else calls)]

/-- A part of a report with a heading; there is none if nothing is to be listed. -/
def listing (heading : Text) (items : List Text) : List Text :=
  if items = [] then [] else ['\n' :: doubleRule, heading, doubleRule] ++ items

/-- A number in brackets. -/
def counted (n : Nat) : Text := " (".toList ++ ofNat n ++ [')']

/-- The lines of a report. -/
def lines (report : Report) : List Text :=
  report.definitions.map definitionText
    ++ listing ("  CIRCULAR CALLS".toList ++ counted report.cycles.length)
      (report.cycles.map fun cycle => "  ".toList ++ join " -> ".toList cycle)
    ++ listing ("  NESTING VIOLATIONS (limit ".toList ++ ofInt report.limit ++ [')'])
      (report.violations.map fun violation =>
        "  ".toList ++ padRight 30 violation.name ++ " depth ".toList ++ ofNat violation.depth)
    ++ listing ("  UNDEFINED NESTED CALLS".toList ++ counted report.dangling.length)
      (report.dangling.map fun name => "  ".toList ++ name)

/-- A report as plain text. -/
def toText (report : Report) : Text := joinLines report.lines

end Report

/-! ## Tokens -/

/-- A token on a line of its own. -/
def Token.toText (token : Token) : Text :=
  padLeft 7 (ofNat token.start) ++ ['-'] ++ padRight 7 (ofNat token.stop) ++ [' ']
    ++ padRight 30 token.kind.title.toList ++ [' '] ++ quoted token.value

end Mapkeys
