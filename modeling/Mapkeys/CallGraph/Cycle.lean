import Mapkeys.CallGraph

/-!
# Circular calls

A walk through the graph that follows the calls of each name once. From every defined name that no
earlier walk has finished it goes along the first call that is left; a call back to a name on its
path closes a cycle, which is reported unless it has been reported before.
-/

namespace Mapkeys

/-- A walk through a call graph: the path from its root to the name it has come to, where each name
    of the path stands on it, the calls that are left for each name of the path, innermost first,
    the names that are finished, and the cycles closed so far. -/
structure Walk where
  path : List Text
  positions : List (Text × Nat)
  pending : List (List Text)
  done : List Text
  cycles : List (List Text)
  deriving Repr, DecidableEq

namespace Walk

/-- The walk that has gone nowhere. -/
def empty : Walk := ⟨[], [], [], [], []⟩

/-- Sets out from a root. -/
def setOut (graph : CallGraph) (walk : Walk) (root : Text) : Walk :=
  { walk with path := [root], positions := [(root, 0)], pending := [graph.calls root] }

/-- Goes back from the last name of the path, which is finished. -/
def goBack (walk : Walk) (pending : List (List Text)) : Walk :=
  match walk.path.getLast? with
  | some name =>
    { walk with
      path := walk.path.dropLast
      positions := walk.positions.filter (·.1 ≠ name)
      pending
      done := name :: walk.done }
  | none => { walk with pending }

/-- Reports the cycle that a call back to the name at a position of the path closes. -/
def close (walk : Walk) (position : Nat) (callee : Text) : Walk :=
  let cycle := walk.path.drop position ++ [callee]
  if walk.cycles.contains cycle then walk else { walk with cycles := walk.cycles ++ [cycle] }

/-- Goes on to a name that has not been visited. -/
def goOn (graph : CallGraph) (walk : Walk) (callee : Text) : Walk :=
  { walk with
    path := walk.path ++ [callee]
    positions := (callee, walk.path.length) :: walk.positions
    pending := graph.calls callee :: walk.pending }

/-- Takes the next call, or goes back if there is none. -/
def step (graph : CallGraph) (walk : Walk) : Walk :=
  match walk.pending with
  | [] => walk
  | [] :: outer => walk.goBack outer
  | (callee :: inner) :: outer =>
    let taken := { walk with pending := inner :: outer }
    match walk.positions.lookup callee with
    | some position => taken.close position callee
    | none => if walk.done.contains callee then taken else taken.goOn graph callee

/-- Takes steps while calls are pending, at most as many as the fuel allows. -/
def run (graph : CallGraph) : (fuel : Nat) → Walk → Walk
  | 0, walk => walk
  | fuel + 1, walk => if walk.pending = [] then walk else run graph fuel (walk.step graph)

/-- The most steps that a walk can take: for each name one for every call and one to go back. -/
def stepLimit (graph : CallGraph) : Nat :=
  (graph.vertices.flatMap graph.calls).length + graph.vertices.length

/-- Walks from a root unless it is finished. -/
def visit (graph : CallGraph) (walk : Walk) (root : Text) : Walk :=
  if walk.done.contains root then walk else run graph (stepLimit graph) (walk.setOut graph root)

/-- The walk from every defined name. -/
def full (graph : CallGraph) : Walk := graph.names.foldl (visit graph) empty

end Walk

/-- The circular calls of a graph, each as a list of names that ends with its first one. -/
def CallGraph.cycles (graph : CallGraph) : List (List Text) := (Walk.full graph).cycles

end Mapkeys
