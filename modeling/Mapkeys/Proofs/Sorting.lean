import Mapkeys.Sorting
import Mathlib.Data.List.Basic
import Mathlib.Data.List.Pairwise
import Mathlib.Tactic.Common

/-!
# Sorted lists

Sorting keeps the elements and puts them in order, and what is in order already stays as it is.
-/

namespace Mapkeys

variable {α : Type} {le : α → α → Bool}

theorem insertBy_perm (le : α → α → Bool) (a : α) (list : List α) :
    (insertBy le a list).Perm (a :: list) := by
  induction list with
  | nil => exact List.Perm.refl [a]
  | cons b rest ih =>
    rw [insertBy]
    split_ifs
    · exact List.Perm.refl _
    · exact (ih.cons b).trans (List.Perm.swap a b rest)

theorem sortBy_perm (le : α → α → Bool) (list : List α) : (sortBy le list).Perm list := by
  induction list with
  | nil => exact List.Perm.refl []
  | cons a rest ih => exact (insertBy_perm le a _).trans (ih.cons a)

theorem insertBy_pairwise (total : ∀ a b, le a b = true ∨ le b a = true)
    (trans : ∀ a b c, le a b = true → le b c = true → le a c = true) {list : List α} (a : α)
    (sorted : list.Pairwise fun b c => le b c = true) :
    (insertBy le a list).Pairwise fun b c => le b c = true := by
  induction list with
  | nil => exact List.pairwise_singleton _ a
  | cons b rest ih =>
    obtain ⟨first, others⟩ := List.pairwise_cons.mp sorted
    rw [insertBy]
    split_ifs with before
    · refine List.pairwise_cons.mpr ⟨fun c member => ?_, sorted⟩
      rcases List.mem_cons.mp member with rfl | later
      · exact before
      · exact trans a b c before (first c later)
    · refine List.pairwise_cons.mpr ⟨fun c member => ?_, ih others⟩
      rcases List.mem_cons.mp ((insertBy_perm le a rest).subset member) with rfl | later
      · exact (total b c).resolve_right before
      · exact first c later

theorem sortBy_pairwise (total : ∀ a b, le a b = true ∨ le b a = true)
    (trans : ∀ a b c, le a b = true → le b c = true → le a c = true) (list : List α) :
    (sortBy le list).Pairwise fun a b => le a b = true := by
  induction list with
  | nil => exact .nil
  | cons a rest ih => exact insertBy_pairwise total trans a ih

theorem sortBy_eq_self {list : List α} (sorted : list.Pairwise fun a b => le a b = true) :
    sortBy le list = list := by
  induction list with
  | nil => rfl
  | cons a rest ih =>
    obtain ⟨first, others⟩ := List.pairwise_cons.mp sorted
    rw [sortBy, ih others]
    cases rest with
    | nil => rfl
    | cons b later => rw [insertBy, if_pos (first b List.mem_cons_self)]

theorem insertBy_map {f : α → α} (keeps : ∀ a b, le (f a) (f b) = le a b) (a : α) (list : List α) :
    insertBy le (f a) (list.map f) = (insertBy le a list).map f := by
  induction list with
  | nil => rfl
  | cons b rest ih =>
    rw [List.map_cons, insertBy, insertBy, keeps, ih]
    split_ifs
    · rfl
    · rfl

/-- What keeps the order of the elements can be done before or after sorting. -/
theorem sortBy_map {f : α → α} (keeps : ∀ a b, le (f a) (f b) = le a b) (list : List α) :
    sortBy le (list.map f) = (sortBy le list).map f := by
  induction list with
  | nil => rfl
  | cons a rest ih => rw [List.map_cons, sortBy, sortBy, ih, insertBy_map keeps]

end Mapkeys
