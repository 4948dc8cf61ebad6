import Mapkeys.CallGraph.Cycle
import Mapkeys.Config
import Mapkeys.FileTree
import Mapkeys.Fold
import Mapkeys.Lookup
import Mapkeys.Notice

/-!
# Sessions

An analysis that is asked one question after another. It keeps the document of the last question,
its call graph and its layers once they are needed, and takes note of what it does. A question
about another text starts afresh.
-/

namespace Mapkeys

open Text

/-- The last document of a session, and what has been worked out about it. -/
structure Revision where
  document : Document
  graph : Option CallGraph
  layers : Option Layers
  deriving Repr, DecidableEq

/-- The state of an analysis. -/
structure Session where
  config : Config
  revision : Option Revision
  journal : List Notice
  deriving Repr, DecidableEq

/-- Why a question has no answer. -/
inductive QueryError where
  | outside (position : Int) (length : Nat)
  | file (error : FileError)
  deriving Repr, DecidableEq

/-- What is said about a question that has no answer. -/
def QueryError.message : QueryError → Text
  | .outside position length =>
    "position ".toList ++ ofInt position ++ " outside document bounds 0..".toList ++ ofNat length
  | .file error => error.message

namespace Session

/-- The session that has not been asked anything. -/
def start (config : Config) : Session := ⟨config, none, []⟩

/-! ## What a session keeps -/

/-- Notes what has been done. -/
def note (notices : List Notice) : StateM Session Unit :=
  modify fun session => { session with journal := session.journal ++ notices }

/-- The document of a text. -/
def document (text : Text) : StateM Session Document := do
  let session ← get
  match session.revision with
  | some revision =>
    if revision.document.text = text then return revision.document
    else fresh
  | none => fresh
where
  /-- Reads the text and forgets the revision before. -/
  fresh : StateM Session Document := do
    let document := Document.parse text
    modify fun session => { session with revision := some ⟨document, none, none⟩ }
    note document.notices
    return document

/-- The call graph of a text. -/
def graph (text : Text) : StateM Session CallGraph := do
  let document ← document text
  let session ← get
  match session.revision.bind Revision.graph with
  | some graph => return graph
  | none =>
    let graph := CallGraph.ofDefinitions session.config.policy document.definitions
    modify fun session => { session with
      revision := session.revision.map fun revision => { revision with graph := some graph } }
    note graph.notices
    return graph

/-- The layers of the call graph of a text. -/
def layers (text : Text) : StateM Session Layers := do
  let graph ← graph text
  let session ← get
  match session.revision.bind Revision.layers with
  | some layers => return layers
  | none =>
    let layers := Layers.ofGraph graph
    modify fun session => { session with
      revision := session.revision.map fun revision => { revision with layers := some layers } }
    return layers

/-! ## Findings -/

/-- The circular calls of a text. -/
def cycles (text : Text) : StateM Session (List (List Text)) := do
  let graph ← graph text
  let cycles := graph.cycles
  note (CallGraph.cycleNotices cycles)
  return cycles

/-- The definitions of a text that exceed a limit, or else the limit of the configuration. -/
def violations (text : Text) (limit? : Option Int) : StateM Session (List Violation) := do
  let graph ← graph text
  let layers ← layers text
  let session ← get
  let limit := limit?.getD session.config.limit
  let violations := layers.violations graph limit
  note (CallGraph.nestingNotices limit violations)
  return violations

/-! ## Questions -/

/-- What a session can be asked. -/
inductive Query where
  | definitions (text : Text)
  | records (text : Text)
  | tokens (text : Text)
  | graph (text : Text)
  | cycles (text : Text)
  | violations (text : Text) (limit? : Option Int)
  | depth (text name : Text)
  | allNames (text : Text)
  | definitionsOf (text name : Text)
  | usagesOf (text name : Text)
  | tokenAt (text : Text) (position : Int)
  | recordAt (text : Text) (position : Int)
  | definitionAt (text : Text) (position : Int)
  | folds (text : Text)
  | fileDefinitions (path : Text)
  | fileRecords (path : Text)
  deriving Repr, DecidableEq

/-- What a session answers. -/
inductive Answer where
  | definitions (list : List Definition)
  | records (list : List Record)
  | tokens (list : List Token)
  | graph (graph : CallGraph)
  | cycles (list : List (List Text))
  | violations (list : List Violation)
  | depth (layers : Nat)
  | names (list : List Text)
  | token (found : Option Token)
  | record (found : Option Record)
  | definition (found : Option Definition)
  | folds (list : List Fold)
  deriving Repr, DecidableEq

/-- Answers what stands at a position, if that lies in the text. -/
def locate (text : Text) (position : Int) (answer : Document → Answer) :
    StateM Session (Except QueryError Answer) := do
  if 0 ≤ position ∧ position ≤ text.length then
    let document ← document text
    return .ok (answer document)
  else return .error (.outside position text.length)

/-- Answers a question, with the files of a tree at hand. -/
def ask (files : FileTree) : Query → StateM Session (Except QueryError Answer)
  | .definitions text => do return .ok (.definitions (← document text).definitions)
  | .records text => do return .ok (.records (← document text).records)
  | .tokens text => do return .ok (.tokens (← document text).tokens)
  | .graph text => do return .ok (.graph (← graph text))
  | .cycles text => do return .ok (.cycles (← cycles text))
  | .violations text limit? => do return .ok (.violations (← violations text limit?))
  | .depth text name => do return .ok (.depth ((← layers text).depth name))
  | .allNames text => do return .ok (.names (← document text).allNames)
  | .definitionsOf text name => do
    return .ok (.definitions ((← document text).definitionsOf name))
  | .usagesOf text name => do return .ok (.definitions ((← document text).usagesOf name))
  | .tokenAt text position => locate text position fun found => .token (found.tokenAt position)
  | .recordAt text position => locate text position fun found => .record (found.recordAt position)
  | .definitionAt text position =>
    locate text position fun found => .definition (found.definitionAt position)
  | .folds text => do return .ok (.folds (← document text).folds)
  | .fileDefinitions path =>
    match files.read (Path.parse path) with
    | .error error => return .error (.file error)
    | .ok text => do return .ok (.definitions (← document text).definitions)
  | .fileRecords path =>
    match files.read (Path.parse path) with
    | .error error => return .error (.file error)
    | .ok text => return .ok (.records (Document.parse text).records)

/-- Answers questions one after the other. -/
def askAll (files : FileTree) : List Query → StateM Session (List (Except QueryError Answer))
  | [] => return []
  | query :: rest => do
    let answer ← ask files query
    let others ← askAll files rest
    return answer :: others

end Session
end Mapkeys
