/-!
# Sorting

A list in an order that may leave elements level; those keep the places they have to each other.
-/

namespace Mapkeys

/-- Puts an element before the first one of a list that it may stand before. -/
def insertBy {α : Type} (le : α → α → Bool) (a : α) : List α → List α
  | [] => [a]
  | b :: rest => if le a b then a :: b :: rest else b :: insertBy le a rest

/-- The elements of a list in order. -/
def sortBy {α : Type} (le : α → α → Bool) : List α → List α
  | [] => []
  | a :: rest => insertBy le a (sortBy le rest)

end Mapkeys
