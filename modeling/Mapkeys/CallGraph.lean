import Mapkeys.Definition

/-!
# Call graphs

Which mapkeys call which. A graph keeps one entry for each definition; everything else follows
from the entries and from the policy for names that several definitions share.
-/

namespace Mapkeys

open Text

/-- What a name stands for that several definitions share: the first of them, or all of them. -/
inductive Policy where
  | first
  | all
  deriving Repr, DecidableEq

namespace Policy

/-- The name of a policy. -/
def label : Policy → String
  | first => "first"
  | all => "all"

/-- The policy of a name. -/
def ofLabel? (label : Text) : Option Policy :=
  if label = "first".toList then some first
  else if label = "all".toList then some all
  else none

end Policy

/-- The calls of one definition. -/
structure Entry where
  name : Text
  calls : List Text
  deriving Repr, DecidableEq

/-- The call graph of a list of definitions. -/
structure CallGraph where
  policy : Policy
  entries : List Entry
  deriving Repr, DecidableEq

/-- The elements of a list, each at its first occurrence. -/
def distinct {α : Type} [DecidableEq α] : List α → List α
  | [] => []
  | a :: rest => a :: (distinct rest).filter (· ≠ a)

namespace CallGraph

/-- The call graph of definitions. -/
def ofDefinitions (policy : Policy) (definitions : List Definition) : CallGraph :=
  ⟨policy, definitions.map fun definition => ⟨definition.name, definition.calledNames⟩⟩

/-! ## Names and calls -/

/-- The defined names in the order of their first definitions. -/
def names (graph : CallGraph) : List Text := distinct (graph.entries.map Entry.name)

/-- Whether a name is defined. -/
def isDefined (graph : CallGraph) (name : Text) : Bool := graph.entries.any (·.name = name)

/-- The entries that own a name. -/
def owners (graph : CallGraph) (name : Text) : List Entry :=
  let sharing := graph.entries.filter (·.name = name)
  match graph.policy with
  | .first => sharing.take 1
  | .all => sharing

/-- The calls of a name, in order and as often as they are made; none for a name that is not
    defined. -/
def calls (graph : CallGraph) (name : Text) : List Text :=
  (graph.owners name).flatMap Entry.calls

/-- The names that some entry calls and none defines, in the order of the first calls. -/
def dangling (graph : CallGraph) : List Text :=
  distinct ((graph.entries.flatMap Entry.calls).filter fun name => !graph.isDefined name)

/-! ## Vertices and edges -/

/-- The defined names and then the dangling ones. -/
def vertices (graph : CallGraph) : List Text := graph.names ++ graph.dangling

/-- The names called by a name, each once. -/
def callees (graph : CallGraph) (name : Text) : List Text := distinct (graph.calls name)

/-- The pairs of a defined name and a name it calls, each once. -/
def edges (graph : CallGraph) : List (Text × Text) :=
  graph.names.flatMap fun name => (graph.callees name).map (name, ·)

/-- The names that call a name. -/
def callers (graph : CallGraph) (name : Text) : List Text :=
  graph.names.filter fun caller => (graph.calls caller).contains name

/-- How many calls the defined names make. -/
def callCount (graph : CallGraph) : Nat :=
  (graph.names.flatMap graph.calls).length

end CallGraph
end Mapkeys
