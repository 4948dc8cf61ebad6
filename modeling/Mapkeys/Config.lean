import Mapkeys.CallGraph
import Mapkeys.Text.Quoted

/-!
# Configuration

What an analysis goes by: the nesting limit and the policy for shared names.
-/

namespace Mapkeys

open Text

/-- What an analysis goes by. -/
structure Config where
  limit : Nat
  policy : Policy
  deriving Repr, DecidableEq

/-- Why an analysis or a graph cannot be set up. -/
inductive SetupError where
  | policyNotOffered (policy : Text)
  | negativeLimit (limit : Int)
  | unknownPolicy (policy : Text)
  deriving Repr, DecidableEq

/-- What is said about a set-up error. -/
def SetupError.message : SetupError → Text
  | .policyNotOffered policy =>
    "duplicate_policy must be one of ('first', 'all'), got ".toList ++ quoted policy
  | .negativeLimit limit => "nesting_limit must be >= 0, got ".toList ++ ofInt limit
  | .unknownPolicy policy => "Unknown duplicate policy: ".toList ++ quoted policy

namespace Config

/-- The deepest nesting that is run at all. -/
def defaultLimit : Nat := 5

/-- The configuration of an analysis that is given none. -/
def default : Config := ⟨defaultLimit, .first⟩

/-- The configuration with a limit and a policy. -/
def make (limit : Int) (policy : Text) : Except SetupError Config :=
  match Policy.ofLabel? policy with
  | none => .error (.policyNotOffered policy)
  | some found => if limit < 0 then .error (.negativeLimit limit) else .ok ⟨limit.toNat, found⟩

end Config

/-- The graph of entries under a policy. -/
def CallGraph.make (entries : List Entry) (policy : Text) : Except SetupError CallGraph :=
  match Policy.ofLabel? policy with
  | none => .error (.unknownPolicy policy)
  | some found => .ok ⟨found, entries⟩

end Mapkeys
