import Mapkeys.CallGraph.Cycle
import Mapkeys.Command.Outcome
import Mapkeys.Diagram.Dot
import Mapkeys.Diagram.Mermaid
import Mapkeys.Document

/-!
# The command that exports graphs

Writes the call graphs of files in every format, each file's into a folder of its own.
-/

namespace Mapkeys.Command.Export

open Text Options

/-! ## Settings -/

/-- What can be set. -/
inductive Key where
  | sources
  | limit
  | outputDir
  | renderSvg
  deriving Repr, DecidableEq

/-- What the command is to do. -/
structure Settings where
  sources : List Text
  limit : Int
  outputDir : Text
  renderSvg : Bool
  deriving Repr, DecidableEq

/-- The options of the command. -/
def grammar : Grammar Key :=
  { options :=
      [.help,
        ⟨["--sources".toList, "-s".toList], .set .sources, .several, .anything, true⟩,
        ⟨["--limit".toList], .set .limit, .one, .integer, false⟩,
        ⟨["--output-dir".toList, "-o".toList], .set .outputDir, .one, .anything, false⟩,
        ⟨["--render-svg".toList], .set .renderSvg, .nothing, .anything, false⟩]
    operand := none }

/-- What the command is to do by what has been set. -/
def Settings.of (settings : List (Key × List Text)) : Settings :=
  { sources := (values? settings .sources).getD []
    limit := ((value? settings .limit).bind readInt?).getD Config.defaultLimit
    outputDir := (value? settings .outputDir).getD "outputs/graph".toList
    renderSvg := (values? settings .renderSvg).isSome }

/-! ## Manual -/

/-- What the command says about itself. -/
def manual : Manual :=
  { command := "export_graph.py".toList
    usage := (joinLines <| [
      "usage: export_graph.py [-h] --sources FILE [FILE ...] [--limit N]",
      "                       [--output-dir DIR] [--render-svg]",
      ""].map String.toList)
    details := (joinLines <| [
      "",
      "Export mapkey nested-call graphs (DOT / JSON / Mermaid)",
      "",
      "options:",
      "  -h, --help            show this help message and exit",
      "  --sources FILE [FILE ...], -s FILE [FILE ...]",
      "                        Mapkey file(s) such as config.pro",
      "  --limit N",
      "  --output-dir DIR, -o DIR",
      "  --render-svg          Attempt to auto-render DOT → SVG via Graphviz",
      ""].map String.toList) }

/-! ## Work -/

/-- How far the command has come: the files, and what it has printed. -/
structure Progress where
  files : FileTree
  printed : Text
  deriving Repr, DecidableEq

/-- Work that can break off and leaves behind how far it has come. -/
abbrev Work := ExceptT Fault (StateM Progress)

/-- Prints a line. -/
def say (line : Text) : Work Unit :=
  modify fun progress => { progress with printed := progress.printed ++ line ++ ['\n'] }

/-- Changes the files, unless that is not possible. -/
def change (action : FileTree → Except FileError FileTree) : Work Unit := do
  let progress ← get
  match action progress.files with
  | .error error => throw (.file error)
  | .ok files => set { progress with files }

/-- Reads a file. -/
def readFile (path : Path) : Work Text := do
  let progress ← get
  match progress.files.read path with
  | .error error => throw (.file error)
  | .ok text => return text

/-- The configuration with a limit. -/
def configure (limit : Int) : Work Config :=
  match Config.make limit Policy.first.label.toList with
  | .error error => throw (.setup error)
  | .ok config => return config

/-- Writes a file and says so. -/
def writeFile (path : Path) (content : Text) : Work Unit := do
  change (·.write path content)
  say ("  wrote   : ".toList ++ path.render)

/-- How many names of each status a diagram has, and how many edges. -/
def summary (diagram : Diagram) : Text :=
  let counts := [Status.defined, Status.dangling, Status.cyclic, Status.violation].map
    fun status => status.label.toList ++ ": ".toList ++ ofNat (diagram.count status)
  "  ".toList ++ join "  ".toList (counts ++ ["edges: ".toList ++ ofNat diagram.edges.length])

/-- The diagram of a text. -/
def diagramOf (config : Config) (text : Text) : Diagram :=
  let graph := CallGraph.ofDefinitions config.policy (Document.parse text).definitions
  Diagram.ofGraph graph graph.cycles (graph.violations config.limit) config.limit

/-- Says that pictures are not drawn, for want of the program that draws them. -/
def skipPicture : Work Unit :=
  let error : FileError := ⟨.missing, Path.parse "dot".toList⟩
  say ("    skipped SVG (".toList ++ error.message ++ [')'])

/-- Exports the graph of one file. -/
def exportFile (settings : Settings) (folder : Path) (source : Text) : Work Unit := do
  say ("\n=== ".toList ++ source ++ " ===".toList)
  let path := Path.parse source
  let target := folder.child path.stem
  change (·.ensureFolder target)
  let config ← configure settings.limit
  let text ← readFile path
  let diagram := diagramOf config text
  let title := path.stem ++ " mapkeys".toList
  say (summary diagram)
  writeFile (target.child "calls.dot".toList) (Diagram.Dot.render title diagram)
  if settings.renderSvg then skipPicture
  writeFile (target.child "calls.json".toList) (diagram.toJson.write 2)
  writeFile (target.child "calls.mmd".toList) (Diagram.Mermaid.render title diagram)

/-- Exports the graphs of all files. -/
def exportAll (settings : Settings) : Work Unit := do
  let folder := Path.parse settings.outputDir
  change (·.ensureFolder folder)
  settings.sources.forM (exportFile settings folder)

/-- Runs the command with arguments on the files of a tree. -/
def run (arguments : List Text) (files : FileTree) : Outcome :=
  match grammar.parse arguments with
  | .error stop => manual.stop files stop
  | .ok given =>
    match (exportAll (Settings.of given)).run.run ⟨files, []⟩ with
    | (.error fault, progress) => ⟨.broken fault, progress.printed, [], progress.files⟩
    | (.ok (), progress) => ⟨.done, progress.printed, [], progress.files⟩

end Mapkeys.Command.Export
