import Mapkeys.Text.Basic

/-!
# Paths

Paths in normal form: empty parts and parts that are a single dot do not count, parts that are two
dots do.
-/

namespace Mapkeys

open Text

/-- A path: the slashes it starts with if it is absolute, and its parts. -/
structure Path where
  root : Text
  parts : List Text
  deriving Repr, DecidableEq

namespace Path

/-- The pieces of a text between its slashes. -/
def splitSlash : Text → List Text
  | [] => [[]]
  | c :: rest =>
    if c = '/' then [] :: splitSlash rest
    else match splitSlash rest with
      | [] => [[c]]
      | first :: others => (c :: first) :: others

/-- Whether a part counts. -/
def counts (part : Text) : Bool := part ≠ [] && part ≠ ['.']

/-- The slashes that an absolute path starts with: exactly two are kept, and otherwise one. -/
def rootOf (t : Text) : Text :=
  match (t.takeWhile (· = '/')).length with
  | 0 => []
  | 2 => ['/', '/']
  | _ => ['/']

/-- The path that a text stands for. -/
def parse (t : Text) : Path := ⟨rootOf t, (splitSlash t).filter counts⟩

/-- How a path is written. -/
def render (path : Path) : Text :=
  if path.root = [] ∧ path.parts = [] then ['.'] else path.root ++ join ['/'] path.parts

/-- The last part of a path. -/
def name (path : Path) : Text := path.parts.getLast?.getD []

/-- The name without what follows its last dot. A dot at either end of the name does not count. -/
def stem (path : Path) : Text :=
  let name := path.name
  let after := (name.reverse.takeWhile (· ≠ '.')).length
  let dot := name.length - after - 1
  if 0 < after ∧ after < name.length ∧ 0 < dot then name.take dot else name

/-- The path of an entry in a folder. -/
def child (path : Path) (entry : Text) : Path :=
  { path with parts := path.parts ++ (splitSlash entry).filter counts }

/-- The folder that a path lies in. -/
def parent (path : Path) : Path := { path with parts := path.parts.dropLast }

/-- The part that leads out of a folder. -/
def up : Text := ['.', '.']

/-- Whether a path leads nowhere but out of the working folder, or to the root. -/
def leadsOut (path : Path) : Bool := path.parts.all (· = up)

/-- The place around a place whose path goes up at its beginning only. There is nothing around the
    root. -/
def outside (path : Path) : Path :=
  if !path.leadsOut then path.parent
  else if path.root = [] then { path with parts := path.parts ++ [up] }
  else path

/-- The place that a part of a path leads to from a place. -/
def enter (place : Path) (part : Text) : Path :=
  if part = up then place.outside else place.child part

/-- The places on the way that parts of a path lead from a place, both ends included. -/
def stages (place : Path) : List Text → List Path
  | [] => [place]
  | part :: rest => place :: stages (place.enter part) rest

/-- Whether another path is the same or lies somewhere in the folder of this one. -/
def isAround (path other : Path) : Bool :=
  path.root = other.root && path.parts.isPrefixOf other.parts

/-- Whether a path stays in the working folder. -/
def isInside (path : Path) : Bool := path.root = [] && path.parts.head? ≠ some up

end Path
end Mapkeys
