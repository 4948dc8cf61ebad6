import Mapkeys.CallGraph

/-!
# Reachability

The names that a name calls, directly or through others.
-/

namespace Mapkeys.CallGraph

/-- The names seen after following the names to do. Each of the `fuel` steps takes one name off the
    list; the calls of a name are followed when it is first seen. -/
def follow (calls : Text → List Text) : (fuel : Nat) → (todo seen : List Text) → List Text
  | 0, _, seen => seen
  | _ + 1, [], seen => seen
  | fuel + 1, name :: todo, seen =>
    if seen.contains name then follow calls fuel todo seen
    else follow calls fuel (calls name ++ todo) (name :: seen)

/-- The names that a chain of at least one call leads to, where `callCount` calls are made in all.
    Every name on the list to do is one of the first calls or a call of another name, so there are
    never more steps than fuel. -/
def reached (calls : Text → List Text) (callCount : Nat) (name : Text) : List Text :=
  follow calls ((calls name).length + callCount) (calls name) []

/-- The names that a name calls, directly or through others. -/
def transitiveCalls (graph : CallGraph) (name : Text) : List Text :=
  reached graph.calls graph.callCount name

end Mapkeys.CallGraph
