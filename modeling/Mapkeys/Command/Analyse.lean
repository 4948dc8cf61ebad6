import Mapkeys.Command.Outcome
import Mapkeys.Command.Report
import Mapkeys.Diagram.Dot
import Mapkeys.Diagram.Mermaid
import Mapkeys.Session

/-!
# The command that analyses a file

Reads one file and writes what it defines, its tokens, or the graph of its calls.
-/

namespace Mapkeys.Command.Analyse

open Text Options

/-! ## Settings -/

/-- What can be set. -/
inductive Key where
  | source
  | format
  | tokens
  | graph
  | limit
  | duplicates
  | output
  | verbose
  deriving Repr, DecidableEq

/-- The formats of reports. -/
inductive Format where
  | json
  | text
  deriving Repr, DecidableEq

/-- The formats of graphs. -/
inductive GraphFormat where
  | dot
  | json
  | mermaid
  deriving Repr, DecidableEq

/-- What the command is to do. -/
structure Settings where
  source : Text
  format : Format
  tokens : Bool
  graph : Option GraphFormat
  limit : Int
  policy : Policy
  output : Text
  verbose : Bool
  deriving Repr, DecidableEq

/-- The name of the setting for the limit. -/
def limitName : Text := "--limit".toList

/-- The options of the command. -/
def grammar : Grammar Key :=
  { options :=
      [.help,
        ⟨["--format".toList, "-f".toList], .set .format, .one,
          .oneOf ["json".toList, "text".toList], false⟩,
        ⟨["--tokens".toList, "-t".toList], .set .tokens, .nothing, .anything, false⟩,
        ⟨["--graph".toList], .set .graph, .one,
          .oneOf ["dot".toList, "json".toList, "mermaid".toList], false⟩,
        ⟨[limitName], .set .limit, .one, .integer, false⟩,
        ⟨["--duplicates".toList], .set .duplicates, .one,
          .oneOf ["first".toList, "all".toList], false⟩,
        ⟨["--output".toList, "-o".toList], .set .output, .one, .anything, false⟩,
        ⟨["--verbose".toList, "-v".toList], .set .verbose, .nothing, .anything, false⟩]
    operand := some (.source, "source".toList) }

/-- The format of graphs of a name. -/
def GraphFormat.ofName (name : Text) : GraphFormat :=
  if name = "dot".toList then .dot
  else if name = "mermaid".toList then .mermaid
  else .json

/-- What the command is to do by what has been set. -/
def Settings.of (settings : List (Key × List Text)) : Settings :=
  let value := value? settings
  { source := (value .source).getD []
    format := if value .format = some "text".toList then .text else .json
    tokens := (values? settings .tokens).isSome
    graph := (value .graph).map GraphFormat.ofName
    limit := ((value .limit).bind readInt?).getD Config.defaultLimit
    policy := ((value .duplicates).bind Policy.ofLabel?).getD .first
    output := (value .output).getD ['-']
    verbose := (values? settings .verbose).isSome }

/-! ## Manual -/

/-- What the command says about itself. -/
def manual : Manual :=
  { command := "mapkey-parser".toList
    usage := (joinLines <| [
      "usage: mapkey-parser [-h] [--format \x7bjson,text\x7d] [--tokens] [--graph FMT]",
      "                     [--limit N] [--duplicates \x7bfirst,all\x7d] [--output FILE]",
      "                     [--verbose]",
      "                     source",
      ""].map String.toList)
    details := (joinLines <| [
      "",
      "Mapkey Parser – parse Creo config.pro mapkeys and check nested calls",
      "",
      "positional arguments:",
      "  source                config.pro (or other mapkey) file to parse",
      "",
      "options:",
      "  -h, --help            show this help message and exit",
      "  --format \x7bjson,text\x7d, -f \x7bjson,text\x7d",
      "                        Output format (default: json)",
      "  --tokens, -t          Emit every token with its kind and offsets instead of",
      "                        definitions",
      "  --graph FMT           Emit the nested-call graph instead: dot, json, or",
      "                        mermaid",
      "  --limit N             Maximum nesting depth before a mapkey is reported",
      "                        (default: 5)",
      "  --duplicates \x7bfirst,all\x7d",
      "                        Resolve duplicate mapkey names to the first definition",
      "                        or to all of them",
      "  --output FILE, -o FILE",
      "                        Output file (default: stdout)",
      "  --verbose, -v         Enable verbose (DEBUG) logging",
      ""].map String.toList) }

/-! ## Work -/

/-- The title of the graph of a file. -/
def graphTitle (path : Path) : Text := path.name ++ " mapkeys".toList

/-- The diagram of the graph of a text. -/
def diagram (text : Text) (limit : Int) : StateM Session Diagram := do
  let graph ← Session.graph text
  let cycles ← Session.cycles text
  let violations ← Session.violations text none
  let layers ← Session.layers text
  return Diagram.build graph layers cycles (violations.map Violation.name) limit

/-- The graph of a text in a format. -/
def graphText (path : Path) (text : Text) (limit : Int) (format : GraphFormat) :
    StateM Session Text := do
  let diagram ← diagram text limit
  match format with
  | .dot => return Diagram.Dot.render (graphTitle path) diagram
  | .mermaid => return Diagram.Mermaid.render (graphTitle path) diagram
  | .json => return diagram.toJson.write 2

/-- The tokens of a text in a format. -/
def tokensText (text : Text) (format : Format) : StateM Session Text := do
  let document ← Session.document text
  match format with
  | .json => return (Json.list (document.tokens.map Token.toJson)).write 2
  | .text => return joinLines (document.tokens.map Token.toText)

/-- The report on a text in a format. -/
def reportText (path : Path) (text : Text) (settings : Settings) : StateM Session Text := do
  let document ← Session.document text
  let cycles ← Session.cycles text
  let violations ← Session.violations text none
  let graph ← Session.graph text
  let report : Report := ⟨path.render, settings.limit, settings.policy, document.definitions,
    cycles, violations, graph.dangling⟩
  match settings.format with
  | .json => return report.toJson.write 2
  | .text => return report.toText

/-- What the command is to write, and how that is called. -/
def content (path : Path) (text : Text) (settings : Settings) : StateM Session (Text × Text) := do
  match settings.graph with
  | some format => return ("Graph".toList, ← graphText path text settings.limit format)
  | none =>
    if settings.tokens then return ("Tokens".toList, ← tokensText text settings.format)
    else return ("Output".toList, ← reportText path text settings)

/-- Prints what the command has to write, or writes it to a file. -/
def emit (files : FileTree) (output what said content : Text) : Outcome :=
  if output = ['-'] then ⟨.exit 0, content ++ ['\n'], said, files⟩
  else match files.write (Path.parse output) content with
    | .error error => ⟨.broken (.file error), [], said, files⟩
    | .ok written =>
      ⟨.exit 0, [], said ++ what ++ " written to ".toList ++ output ++ ['\n'], written⟩

/-- Analyses a text. -/
def analyse (files : FileTree) (path : Path) (text : Text) (settings : Settings) : Outcome :=
  let config : Config := ⟨settings.limit.toNat, settings.policy⟩
  let ((what, result), session) := (content path text settings).run (Session.start config)
  let least := if settings.verbose then Level.debug else Level.warning
  emit files settings.output what (Notice.lines least session.journal) result

/-- The outcome of a command whose file cannot be used. -/
def reject (files : FileTree) (remark : Text) : Outcome :=
  ⟨.exit 1, [], "error: ".toList ++ remark ++ ['\n'], files⟩

/-- Runs the command with arguments on the files of a tree. -/
def run (arguments : List Text) (files : FileTree) : Outcome :=
  match grammar.parse arguments with
  | .error stop => manual.stop files stop
  | .ok given =>
    let settings := Settings.of given
    let path := Path.parse settings.source
    if settings.limit < 1 then manual.refuse files (.below limitName 1)
    else if !files.isFile path then
      reject files ("no such file: ".toList ++ settings.source)
    else match files.read path with
      | .error error =>
        reject files
          ("cannot read ".toList ++ settings.source ++ ": ".toList ++ error.message)
      | .ok text => analyse files path text settings

end Mapkeys.Command.Analyse
