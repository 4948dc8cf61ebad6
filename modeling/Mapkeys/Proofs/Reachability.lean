import Mapkeys.CallGraph.Reach
import Mapkeys.Proofs.Calls

/-!
# Reached names

The names that `follow` collects are exactly those that a chain of calls leads to: it takes no step
without a call, and its fuel covers every name that is ever put on the list to do.
-/

namespace Mapkeys.CallGraph

/-- Marking one more name leaves the other names of the list. -/
theorem filter_perm_cons {names : List Text} {p q : Text → Bool} {name : Text}
    (distinct : names.Nodup) (member : name ∈ names) (before : p name = true)
    (after : q name = false) (others : ∀ other, other ≠ name → q other = p other) :
    (names.filter p).Perm (name :: names.filter q) := by
  obtain ⟨left, right, rfl⟩ := List.append_of_mem member
  have absent := List.nodup_middle.mp distinct
  rw [List.nodup_cons, List.mem_append, not_or] at absent
  have same (part : List Text) (without : name ∉ part) : part.filter q = part.filter p := by
    apply List.filter_congr
    intro other inside
    exact others other fun equal => without (equal ▸ inside)
  rw [List.filter_append, List.filter_append, List.filter_cons_of_pos before,
    List.filter_cons_of_neg (by simp [after]), same left absent.1.1, same right absent.1.2]
  exact List.perm_middle

section
variable (calls : Text → List Text) (names : List Text)

/-- The number of calls that the names not yet seen make. -/
def unseenCalls (seen : List Text) : Nat :=
  ((names.filter fun name => !seen.contains name).flatMap calls).length

variable {calls names}

theorem unseenCalls_cons (distinct : names.Nodup) (silent : ∀ name, name ∉ names → calls name = [])
    {seen : List Text} {name : Text} (fresh : name ∉ seen) :
    (calls name).length + unseenCalls calls names (name :: seen) ≤ unseenCalls calls names seen := by
  have others (other : Text) (different : other ≠ name) :
      (!(name :: seen).contains other) = !seen.contains other := by
    simp [different]
  by_cases member : name ∈ names
  · have moved := filter_perm_cons (p := fun name => !seen.contains name)
      (q := fun other => !(name :: seen).contains other) distinct member (by simpa using fresh)
      (by simp) others
    have lengths := (moved.flatMap_right calls).length_eq
    rw [List.flatMap_cons, List.length_append] at lengths
    exact lengths.ge
  · have same : names.filter (fun other => !(name :: seen).contains other) =
        names.filter fun other => !seen.contains other := by
      apply List.filter_congr
      intro other inside
      exact others other fun equal => member (equal ▸ inside)
    rw [silent name member, unseenCalls, unseenCalls, same]
    simp

/-- Every name that is found comes from a name to do. -/
theorem follow_sound {fuel : Nat} {todo seen : List Text} {name : Text}
    (found : name ∈ follow calls fuel todo seen) :
    name ∈ seen ∨ ∃ first ∈ todo, Relation.ReflTransGen (fun a b => b ∈ calls a) first name := by
  fun_induction follow calls fuel todo seen with
  | case1 _ seen => exact .inl found
  | case2 _ seen => exact .inl found
  | case3 fuel next todo seen old ih =>
    rcases ih found with inside | ⟨first, member, path⟩
    · exact .inl inside
    · exact .inr ⟨first, List.mem_cons_of_mem _ member, path⟩
  | case4 fuel next todo seen new ih =>
    rcases ih found with inside | ⟨first, member, path⟩
    · rcases List.mem_cons.mp inside with rfl | inside
      · exact .inr ⟨name, by simp, .refl⟩
      · exact .inl inside
    · rcases List.mem_append.mp member with called | member
      · exact .inr ⟨next, by simp, .head called path⟩
      · exact .inr ⟨first, List.mem_cons_of_mem _ member, path⟩

/-- With fuel for the names to do and for the calls of the names not yet seen, what is found holds
    everything seen and to do, and the calls of everything it holds. -/
theorem follow_closed (distinct : names.Nodup) (silent : ∀ name, name ∉ names → calls name = [])
    (fuel : Nat) (todo seen : List Text) (enough : todo.length + unseenCalls calls names seen ≤ fuel)
    (frontier : ∀ a ∈ seen, ∀ b ∈ calls a, b ∈ seen ∨ b ∈ todo) :
    (∀ a, a ∈ seen ∨ a ∈ todo → a ∈ follow calls fuel todo seen) ∧
      ∀ a ∈ follow calls fuel todo seen, ∀ b ∈ calls a, b ∈ follow calls fuel todo seen := by
  fun_induction follow calls fuel todo seen with
  | case1 todo seen =>
    have empty : todo = [] := List.eq_nil_of_length_eq_zero (by omega)
    subst empty
    simpa using frontier
  | case2 _ seen => simpa using frontier
  | case3 fuel next todo seen old ih =>
    have inside : next ∈ seen := by simpa using old
    have kept (b : Text) (h : b ∈ seen ∨ b ∈ next :: todo) : b ∈ seen ∨ b ∈ todo := by
      rcases h with h | h
      · exact .inl h
      · rcases List.mem_cons.mp h with rfl | h
        · exact .inl inside
        · exact .inr h
    obtain ⟨holds, closed⟩ := ih (by simp only [List.length_cons] at enough; omega)
      fun a member b call => kept b (frontier a member b call)
    exact ⟨fun a member => holds a (kept a member), closed⟩
  | case4 fuel next todo seen new ih =>
    have fresh : next ∉ seen := by simpa using new
    have cost := unseenCalls_cons distinct silent fresh
    have moved (b : Text) (h : b ∈ seen ∨ b ∈ next :: todo) :
        b ∈ next :: seen ∨ b ∈ calls next ++ todo := by
      rcases h with h | h
      · exact .inl (List.mem_cons_of_mem _ h)
      · rcases List.mem_cons.mp h with rfl | h
        · exact .inl (by simp)
        · exact .inr (List.mem_append_right _ h)
    obtain ⟨holds, closed⟩ := ih
      (by simp only [List.length_cons, List.length_append] at enough ⊢; omega) (by
        intro a member b call
        rcases List.mem_cons.mp member with rfl | member
        · exact .inr (List.mem_append_left _ call)
        · exact moved b (frontier a member b call))
    exact ⟨fun a member => holds a (moved a member), closed⟩

theorem nodup_follow {fuel : Nat} {todo seen : List Text}
    (distinct : seen.Nodup) : (follow calls fuel todo seen).Nodup := by
  fun_induction follow calls fuel todo seen with
  | case1 _ seen => exact distinct
  | case2 _ seen => exact distinct
  | case3 fuel name todo seen old ih => exact ih distinct
  | case4 fuel name todo seen new ih =>
    have fresh : name ∉ seen := by simpa using new
    exact ih (List.nodup_cons.mpr ⟨fresh, distinct⟩)

/-- With fuel for every call, what is found are the names at the end of a chain of calls from a name
    to do. -/
theorem mem_follow (distinct : names.Nodup) (silent : ∀ name, name ∉ names → calls name = [])
    (todo : List Text) (name : Text) :
    name ∈ follow calls (todo.length + (names.flatMap calls).length) todo [] ↔
      ∃ first ∈ todo, Relation.ReflTransGen (fun a b => b ∈ calls a) first name := by
  constructor
  · intro found
    exact (follow_sound found).resolve_left List.not_mem_nil
  · rintro ⟨first, member, path⟩
    obtain ⟨holds, closed⟩ := follow_closed distinct silent
      (todo.length + (names.flatMap calls).length) todo [] (by simp [unseenCalls]) (by simp)
    induction path with
    | refl => exact holds first (.inr member)
    | tail _ call ih => exact closed _ ih _ call

/-- The reached names are those at the end of a chain of at least one call. -/
theorem mem_reached (distinct : names.Nodup) (silent : ∀ name, name ∉ names → calls name = [])
    (start name : Text) :
    name ∈ reached calls (names.flatMap calls).length start ↔
      Relation.TransGen (fun a b => b ∈ calls a) start name := by
  rw [Relation.TransGen.head'_iff]
  exact mem_follow distinct silent (calls start) name

end

theorem calls_eq_nil_of_not_mem_names (graph : CallGraph) (name : Text)
    (absent : name ∉ graph.names) : graph.calls name = [] :=
  calls_eq_nil graph name (by simpa [mem_names] using absent)

theorem mem_transitiveCalls_iff (graph : CallGraph) (start name : Text) :
    name ∈ graph.transitiveCalls start ↔ Relation.TransGen graph.Calls start name :=
  mem_reached (nodup_distinct _) (calls_eq_nil_of_not_mem_names graph) start name

theorem reaches_iff (graph : CallGraph) (start name : Text) :
    graph.Reaches start name ↔ start = name ∨ name ∈ graph.transitiveCalls start := by
  rw [Reaches, edges_eq_calls, mem_transitiveCalls_iff, Relation.reflTransGen_iff_eq_or_transGen,
    eq_comm]

instance (graph : CallGraph) (start name : Text) : Decidable (graph.Reaches start name) :=
  decidable_of_iff _ (reaches_iff graph start name).symm

end Mapkeys.CallGraph
