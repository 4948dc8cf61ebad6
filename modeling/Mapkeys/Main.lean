import Mapkeys.Command.Analyse

/-!
# The command line

Runs the command that analyses a file on the files of the machine.
-/

namespace Mapkeys.Command

/-- The names of the files that the command works with. -/
def namesOf (arguments : List Text) : List Text :=
  match Analyse.grammar.parse arguments with
  | .error _ => []
  | .ok given =>
    let settings := Analyse.Settings.of given
    [settings.source, settings.output]

/-- The bytes of a file, if it can be read. -/
def bytesOf (name : String) : IO (Option (List UInt8)) := do
  try
    let bytes ← IO.FS.readBinFile name
    return some bytes.toList
  catch _ => return none

/-- The tree with those of the named files that can be read, and with the folders on the way. -/
def gather : List Text → IO FileTree
  | [] => return ⟨[], []⟩
  | name :: rest => do
    let others ← gather rest
    let path := Path.parse name
    let stages := Path.stages ⟨path.root, []⟩ path.parts
    let tree := { others with folders := stages.dropLast ++ others.folders }
    match ← bytesOf (String.ofList path.render), stages.getLast? with
    | some bytes, some place => return tree.put place bytes
    | _, _ => return tree

end Mapkeys.Command

open Mapkeys

/-- Runs the command with the arguments of the process. -/
def main (arguments : List String) : IO UInt32 := do
  let texts := arguments.map String.toList
  let before ← Command.gather (Command.namesOf texts)
  let outcome := Command.Analyse.run texts before
  for (path, text) in before.changes outcome.files do
    IO.FS.writeFile (String.ofList path.render) (String.ofList text)
  IO.print (String.ofList outcome.printed)
  IO.eprint (String.ofList outcome.said)
  match outcome.ending with
  | .exit code => return UInt32.ofNat code
  | .done => return 0
  | .broken fault =>
    IO.eprintln (String.ofList fault.message)
    return 1
